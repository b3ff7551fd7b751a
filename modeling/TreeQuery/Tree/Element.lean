import TreeQuery.Text.Split
import TreeQuery.Tree.Attributes

/-! Elements: a tag with attributes. The `id` attribute names the element; the `class`
attribute holds class names separated by spaces. -/
namespace TreeQuery

structure Element where
  tag : String
  attributes : Attributes := {}
  deriving Repr,DecidableEq

namespace Element

def id? (element : Element) : Option String := element.attributes.get? "id"

/-- The class names in the order of the `class` attribute, repetitions kept. -/
def classes (element : Element) : List String :=
  (Text.tokens ((element.attributes.get? "class").getD "").toList).map String.ofList

def hasClass (element : Element) (name : String) : Bool := element.classes.contains name

end Element
end TreeQuery
