import TreeQuery.Main
import TreeQuery.Proofs.Document.Numbering
import TreeQuery.Proofs.Document.Rendering
import TreeQuery.Proofs.Selector.Composition
import TreeQuery.Proofs.Selector.Restriction
import TreeQuery.Proofs.Tree.Descent
import TreeQuery.Proofs.Selector.Satisfaction
import TreeQuery.Proofs.Selector.Warnings
import TreeQuery.Proofs.Selector.Renumbering
import TreeQuery.Proofs.Warnings.Pairs
import TreeQuery.Proofs.Command.Formats
import TreeQuery.Proofs.Tree.Move
import TreeQuery.Proofs.Selector.Evaluation
import TreeQuery.Proofs.Selector.Frame
import TreeQuery.Proofs.Selector.Malformed
import TreeQuery.Proofs.Command.Strictness
import TreeQuery.Proofs.Selector.Walks
import TreeQuery.Proofs.Tree.Independence
import TreeQuery.Proofs.Selector.TagCase
import TreeQuery.Proofs.Tree.Classes
import TreeQuery.Proofs.Document.Precedence
import TreeQuery.Proofs.Document.Editing
import TreeQuery.Proofs.Document.Objects
import TreeQuery.Proofs.Selector.Calls
