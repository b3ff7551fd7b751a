import TreeQuery.Text.Style

/-! Warnings that are given once. The record keeps one key for each warning given since it was
last cleared; a key is the component in brackets followed by the message, so two warnings
that read the same are one. -/
namespace TreeQuery

structure Warnings where
  keys : List String := []
  deriving Repr,DecidableEq

namespace Warnings

def key (component message : String) : String := "[" ++ component ++ "] " ++ message

def line (component message : String) : String :=
  Text.Style.yellow.paint ("[Sprig " ++ component ++ "] ⚠ " ++ message) ++ "\n"

def given (warnings : Warnings) (component message : String) : Bool :=
  warnings.keys.contains (key component message)

/-- Give a warning: the new record, and the line to print if the warning was not yet given. -/
def warnOnce (warnings : Warnings) (component message : String) : Warnings × Option String :=
  if warnings.given component message then (warnings,none)
  else (⟨key component message :: warnings.keys⟩,some (line component message))

def clear (_ : Warnings) : Warnings := {}

end Warnings
end TreeQuery
