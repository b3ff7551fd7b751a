/-! What can be wrong with a selector. Every error carries the text it was found in: the whole
selector, or one side of its combinator. -/
namespace TreeQuery.Selector

inductive SelectorError where
  | emptySelector (selector : String)
  | multipleClasses (selector : String)
  | nestedCombinator (selector : String)
  deriving Repr,DecidableEq

namespace SelectorError

def selector : SelectorError → String
  | .emptySelector selector | .multipleClasses selector | .nestedCombinator selector => selector

def message : SelectorError → String
  | .emptySelector selector => "empty selector in '" ++ selector ++ "'"
  | .multipleClasses selector =>
    "'" ++ selector ++ "' names more than one class; only tag.class is supported"
  | .nestedCombinator selector =>
    "'" ++ selector ++ "' chains combinators; only one combinator per selector is supported"

end SelectorError
end TreeQuery.Selector
