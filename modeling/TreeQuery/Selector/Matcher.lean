import TreeQuery.Text.Uppercase
import TreeQuery.Tree.Basic

/-! Matchers: what a selector means. A matcher accepts or refuses a node of a tree; only
elements are ever accepted. Tags are compared in upper case, everything else letter by
letter. -/
namespace TreeQuery.Selector

/-- How a node stands to the ancestor that a relative matcher asks for. -/
inductive Combinator where
  | child
  | descendant
  deriving Repr,DecidableEq

inductive Matcher where
  | id (name : String)
  | className (name : String)
  | tag (upperName : String)
  | both (left right : Matcher)
  | relative (combinator : Combinator) (ancestor subject : Matcher)
  | never
  deriving Repr,DecidableEq

namespace Matcher

def accepts (tree : Tree) : Matcher → NodeId → Bool
  | .id name,node => (tree.element? node).any fun element => element.id? == some name
  | .className name,node => (tree.element? node).any fun element => element.hasClass name
  | .tag name,node => (tree.element? node).any fun element => Text.uppercase element.tag == name
  | .both left right,node => left.accepts tree node && right.accepts tree node
  | .relative .child ancestor subject,node =>
    subject.accepts tree node && (tree.parent? node).any (ancestor.accepts tree)
  | .relative .descendant ancestor subject,node =>
    subject.accepts tree node && (tree.ancestors node).any (ancestor.accepts tree)
  | .never,_ => false

def isNever : Matcher → Bool
  | .never => true
  | _ => false

def text : Matcher → String
  | .id name => "#" ++ name
  | .className name => "." ++ name
  | .tag name => name
  | .both left right => left.text ++ right.text
  | .relative .child ancestor subject => ancestor.text ++ " > " ++ subject.text
  | .relative .descendant ancestor subject => ancestor.text ++ " " ++ subject.text
  | .never => "<never>"

end Matcher
end TreeQuery.Selector
