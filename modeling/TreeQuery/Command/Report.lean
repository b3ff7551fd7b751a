import TreeQuery.Document.Source
import TreeQuery.Json.Pretty
import TreeQuery.Selector.Compile
import TreeQuery.Text.Style
import TreeQuery.Tree.Label

/-! The parts of what a run prints: matched nodes as JSON records, the explanation of a selector,
and the errors that end a run. -/
namespace TreeQuery.Command
open Text (Style)

def record (tree : Tree) (id : NodeId) : Json.Value :=
  .object [("node",.nat id),("label",.string (tree.label id))]

def recordText (tree : Tree) (nodes : List NodeId) : String :=
  String.ofList (Json.Value.pretty 0 (.array (nodes.map (record tree)))) ++ "\n"

def explanation (selector : String) (matcher : Selector.Matcher) : String :=
  let colour := if matcher.isNever then Style.red else Style.green
  Style.bold.paint "kind:" ++ " " ++
    Style.cyan.paint (Selector.classify selector.toList).name ++ "\n" ++
    Style.bold.paint "matcher:" ++ " " ++ colour.paint matcher.text ++ "\n"

inductive RunError where
  | noDocument
  | source (error : SourceError)
  | noElement (id : String)
  | selector (text : String) (error : Selector.SelectorError)
  deriving Repr,DecidableEq

namespace RunError

def message : RunError → String
  | .noDocument => "a document is required: pass a FILE or --json"
  | .source error => error.message
  | .noElement id => "no element with id '" ++ id ++ "'"
  | .selector text _ => "cannot compile selector '" ++ text ++ "'"

def cause? : RunError → Option String
  | .source error => some error.cause
  | .selector _ error => some error.message
  | _ => none

def indent (text : String) : String :=
  "    " ++ String.ofList (text.toList.flatMap fun c =>
    if c = '\n' then ['\n',' ',' ',' ',' '] else [c])

def text (error : RunError) : String :=
  "Error: " ++ error.message ++ "\n" ++
    match error.cause? with
    | none => ""
    | some cause => "\nCaused by:\n" ++ indent cause ++ "\n"

end RunError

structure Report where
  exit : Nat
  stdout : String
  stderr : String
  deriving Repr,DecidableEq

end TreeQuery.Command
