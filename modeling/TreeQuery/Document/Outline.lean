import TreeQuery.Json.Value
import TreeQuery.Tree.Basic

/-! Outlines: documents described as nested nodes, and their reading from JSON values. An
object is tried as an element, then as a text, then as a comment; members that the form does
not name are ignored, and a form fails when a member it names is missing, repeated or of the
wrong type. -/
namespace TreeQuery

inductive Outline where
  | element (tag : String) (attributes : Attributes) (children : List Outline)
  | text (text : String)
  | comment (text : String)
  deriving Repr

namespace Outline

/-- The attributes an object describes: all its values must be strings. -/
def attributesOf? (members : List (String × Json.Value)) : Option Attributes := do
  let pairs ← members.mapM fun member =>
    match member.2 with
    | .string value => some (member.1,value)
    | _ => none
  return Attributes.ofList pairs

def stringMember? (name : String) (members : List (String × Json.Value)) : Option String :=
  match Json.valuesOf name members with
  | [.string value] => some value
  | _ => none

/-- The attributes of an element; without an `attrs` member there are none. -/
def attributesMember? (members : List (String × Json.Value)) : Option Attributes :=
  match Json.valuesOf "attrs" members with
  | [] => some .empty
  | [.object pairs] => attributesOf? pairs
  | _ => none

/-- The children of an element from the readings of its `children` members; without one there
are none. -/
def onlyReading? : List (Option (List Outline)) → Option (List Outline)
  | [] => some []
  | [reading] => reading
  | _ => none

def elementOf? (members : List (String × Json.Value)) (readings : List (Option (List Outline))) :
    Option Outline := do
  let tag ← stringMember? "tag" members
  let attributes ← attributesMember? members
  let children ← onlyReading? readings
  return .element tag attributes children

mutual

def ofValue? : Json.Value → Option Outline
  | .object members =>
    ((elementOf? members (childReadings members)).or ((stringMember? "text" members).map .text)).or
      ((stringMember? "comment" members).map .comment)
  | _ => none

def ofItems? : List Json.Value → Option (List Outline)
  | [] => some []
  | value :: values => do
    let first ← ofValue? value
    let others ← ofItems? values
    return first :: others

/-- What each `children` member of an object describes, in their order. -/
def childReadings : List (String × Json.Value) → List (Option (List Outline))
  | [] => []
  | (name,.array items) :: rest =>
    if name = "children" then ofItems? items :: childReadings rest else childReadings rest
  | (name,_) :: rest => if name = "children" then none :: childReadings rest else childReadings rest

end

/-- A document is an array of nodes or a single node. -/
def ofDocument? : Json.Value → Option (List Outline)
  | .array items => ofItems? items
  | value => (ofValue? value).map fun node => [node]

mutual

/-- Add the described node and everything below it as the last child of `parent`. -/
def attach (tree : Tree) (parent : NodeId) : Outline → Tree
  | .element tag attributes children =>
    attachAll ((tree.alloc (.element ⟨tag,attributes⟩)).append parent tree.size) tree.size children
  | .text words => (tree.alloc (.text words)).append parent tree.size
  | .comment words => (tree.alloc (.comment words)).append parent tree.size

def attachAll (tree : Tree) (parent : NodeId) : List Outline → Tree
  | [] => tree
  | node :: nodes => attachAll (attach tree parent node) parent nodes

end

end Outline

def Tree.ofOutlines (nodes : List Outline) : Tree := Outline.attachAll Tree.empty Tree.root nodes

end TreeQuery
