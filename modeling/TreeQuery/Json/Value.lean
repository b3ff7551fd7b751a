/-! JSON values as they are written: objects keep the order of their members and repeated
names, and a number keeps its spelling. -/
namespace TreeQuery.Json

inductive Value where
  | null
  | bool (value : Bool)
  | number (spelling : String)
  | string (text : String)
  | array (items : List Value)
  | object (members : List (String × Value))
  deriving Repr

namespace Value

def nat (n : Nat) : Value := .number (toString n)

end Value

def valuesOf (name : String) (members : List (String × Value)) : List Value :=
  (members.filter fun member => member.1 == name).map (·.2)

end TreeQuery.Json
