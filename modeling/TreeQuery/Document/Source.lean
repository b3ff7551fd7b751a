import TreeQuery.Document.Outline
import TreeQuery.Files
import TreeQuery.Json.Reader

/-! Trees from JSON texts. The value at the front of the text is read first; then it must be a
document; only then may nothing but blanks follow it. -/
namespace TreeQuery

inductive DocumentError where
  | malformed (error : Json.SyntaxError)
  /-- The text starts with a JSON value that describes no document. -/
  | mismatch
  deriving Repr,DecidableEq

def DocumentError.message : DocumentError → String
  | .malformed error => error.message
  | .mismatch => "data did not match any variant of untagged enum SourceRoot"

inductive SourceError where
  | document (error : DocumentError)
  | file (path : String) (fault : ReadFault)
  deriving Repr,DecidableEq

namespace SourceError

def cause : SourceError → String
  | .document error => error.message
  | .file _ fault => fault.message

def message : SourceError → String
  | .document error => "invalid document JSON: " ++ error.message
  | .file path fault => "failed to read document '" ++ path ++ "': " ++ fault.message

end SourceError

namespace Document

def outlines (text : List Char) : Except DocumentError (List Outline) :=
  match Json.readFront text with
  | .error stop => .error (.malformed (stop.toError text))
  | .ok (value,rest) =>
    match Outline.ofDocument? value with
    | none => .error .mismatch
    | some nodes =>
      match Json.skipBlank rest with
      | [] => .ok nodes
      | c :: later =>
        .error (.malformed (Json.Stop.toError ⟨.trailingCharacters,c :: later,1⟩ text))

def parse (text : String) : Except SourceError Tree :=
  match outlines text.toList with
  | .error error => .error (.document error)
  | .ok nodes => .ok (Tree.ofOutlines nodes)

def load (read : String → Except ReadFault String) (path : String) : Except SourceError Tree :=
  match read path with
  | .error fault => .error (.file path fault)
  | .ok text => parse text

end Document
end TreeQuery
