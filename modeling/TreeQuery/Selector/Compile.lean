import TreeQuery.Selector.Shape
import TreeQuery.Warnings

/-! Compiling selectors to matchers. `compile?` reports what is wrong with a malformed
selector; `compile` never fails: a malformed selector gives the matcher that accepts nothing,
and a warning that is printed once for every message. -/
namespace TreeQuery.Selector

/-- Compile a selector by its shape; a compound is compiled from its tag and its class with
the dot in front, a relative selector from its two sides. -/
def compileChars (text : List Char) : Except SelectorError Matcher :=
  match _taken : Shape.of? text with
  | .error error => .error error
  | .ok (.id name) => .ok (.id (String.ofList name))
  | .ok (.className name) => .ok (.className (String.ofList name))
  | .ok (.tag name) => .ok (.tag (String.ofList (Text.upper name)))
  | .ok (.compound tag className) => do
    let left ← compileChars tag
    let right ← compileChars ('.' :: className)
    return .both left right
  | .ok (.relative combinator ancestor subject) => do
    let above ← compileChars ancestor
    let below ← compileChars subject
    return .relative combinator above below
termination_by text.length
decreasing_by all_goals
  have smaller := Shape.of?_smaller _taken
  simp only [Shape.Smaller,List.length_cons] at smaller ⊢
  omega

def compile? (selector : String) : Except SelectorError Matcher := compileChars selector.toList

def component : String := "Select"

/-- A result together with the record of warnings after it and the line it printed, if any. -/
structure Warned (α : Type) where
  value : α
  warnings : Warnings
  line : Option String
  deriving Repr,DecidableEq

def Warned.map {α β : Type} (change : α → β) (warned : Warned α) : Warned β :=
  ⟨change warned.value,warned.warnings,warned.line⟩

def compile (warnings : Warnings) (selector : String) : Warned Matcher :=
  match compile? selector with
  | .ok matcher => ⟨matcher,warnings,none⟩
  | .error error =>
    let (after,line) := warnings.warnOnce component error.message
    ⟨.never,after,line⟩

section Compiled

variable {warnings : Warnings} {selector : String} {matcher : Matcher} {error : SelectorError}

theorem compile_of_ok (compiled : compile? selector = .ok matcher) :
    compile warnings selector = ⟨matcher,warnings,none⟩ := by
  rw [compile,compiled]

theorem compile_of_error (malformed : compile? selector = .error error) :
    compile warnings selector =
      ⟨.never,(warnings.warnOnce component error.message).1,
        (warnings.warnOnce component error.message).2⟩ := by
  rw [compile,malformed]

/-- Which warnings were given makes no difference to the matcher. -/
theorem compile_value_eq (warnings : Warnings) (selector : String) :
    (compile warnings selector).value =
      match compile? selector with
      | .ok matcher => matcher
      | .error _ => .never := by
  cases compiled : compile? selector with
  | ok matcher => rw [compile_of_ok compiled]
  | error error => rw [compile_of_error compiled]

end Compiled

end TreeQuery.Selector
