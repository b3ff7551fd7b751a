import TreeQuery.Selector.Error
import TreeQuery.Selector.Kind
import TreeQuery.Selector.Matcher

/-! The outermost shape of a selector: one name, or two shorter texts that are selectors
themselves (`of?_smaller`). Taking the shape makes every check that needs the whole text. -/
namespace TreeQuery.Selector

inductive Shape where
  | id (name : List Char)
  | className (name : List Char)
  | tag (name : List Char)
  /-- A tag and the class behind its dot, the dot left out. -/
  | compound (tag className : List Char)
  | relative (combinator : Combinator) (ancestor subject : List Char)
  deriving Repr,DecidableEq

namespace Shape

def named (text : List Char) (name : Option (List Char)) : Except SelectorError (List Char) :=
  match name with
  | some (c :: rest) => .ok (c :: rest)
  | _ => .error (.emptySelector (String.ofList text))

def behind? (mark : Char) : List Char → Option (List Char)
  | [] => none
  | c :: rest => if c = mark then some rest else none

def compoundOf (text : List Char) : Except SelectorError Shape :=
  match Text.splitFirst? ['.'] text with
  | none => .error (.emptySelector (String.ofList text))
  | some (front,back) =>
    if front.isEmpty || back.isEmpty then .error (.emptySelector (String.ofList text))
    else if back.contains '.' then .error (.multipleClasses (String.ofList text))
    else .ok (.compound front back)

/-- One side of a combinator: not empty, and without a combinator of its own. -/
def checkSide (text side : List Char) : Except SelectorError Unit :=
  if side.isEmpty then .error (.emptySelector (String.ofList text))
  else if Text.occurs descendantMark side then .error (.nestedCombinator (String.ofList text))
  else .ok ()

def relativeOf (text : List Char) (combinator : Combinator) (mark : List Char) :
    Except SelectorError Shape :=
  match Text.splitFirst? mark text with
  | none => .error (.emptySelector (String.ofList text))
  | some (ancestor,subject) => do
    checkSide text ancestor
    checkSide text subject
    return .relative combinator ancestor subject

def of? (text : List Char) : Except SelectorError Shape :=
  match compiledKind text with
  | .id => (named text (behind? '#' text)).map .id
  | .className => do
    let name ← named text (behind? '.' text)
    if name.contains '.' then .error (.multipleClasses (String.ofList text))
    else .ok (.className name)
  | .tagAndClass => compoundOf text
  | .directChild => relativeOf text .child childMark
  | .descendant => relativeOf text .descendant descendantMark
  | .tag => (named text (some text)).map .tag

/-- The texts that are left to compile are shorter than the selector: for a compound these are
its tag and its class with the dot in front. -/
def Smaller (size : Nat) : Shape → Prop
  | .compound front back => front.length < size ∧ back.length + 1 < size
  | .relative _ ancestor subject => ancestor.length < size ∧ subject.length < size
  | _ => True

theorem compoundOf_smaller {text : List Char} {shape : Shape}
    (taken : compoundOf text = .ok shape) : shape.Smaller text.length := by
  unfold compoundOf at taken
  split at taken
  · simp at taken
  · rename_i front back cut
    split at taken
    · simp at taken
    · rename_i filled
      split at taken
      · simp at taken
      · cases taken
        have total := Text.splitFirst?_length cut
        have frontLength : 0 < front.length := List.length_pos_iff.mpr (by simp_all)
        simp only [List.length_singleton] at total
        simp only [Smaller]
        omega

theorem relativeOf_smaller {text mark : List Char} {combinator : Combinator} {shape : Shape}
    (filled : mark ≠ []) (taken : relativeOf text combinator mark = .ok shape) :
    shape.Smaller text.length := by
  unfold relativeOf at taken
  split at taken
  · simp at taken
  · rename_i ancestor subject cut
    have total := Text.splitFirst?_length cut
    have positive : 0 < mark.length := List.length_pos_iff.mpr filled
    cases first : checkSide text ancestor with
    | error error => simp [first,bind,Except.bind] at taken
    | ok _ =>
      cases second : checkSide text subject with
      | error error => simp [first,second,bind,Except.bind] at taken
      | ok _ =>
        simp only [first,second,bind,Except.bind,pure,Except.pure,Except.ok.injEq] at taken
        subst taken
        simp only [Smaller]
        omega

theorem named_map_smaller {text : List Char} {name : Option (List Char)} {shape : Shape}
    (make : List Char → Shape) (simple : ∀ name, (make name).Smaller text.length)
    (taken : (named text name).map make = .ok shape) : shape.Smaller text.length := by
  unfold named at taken
  split at taken
  · cases taken
    exact simple _
  · simp [Except.map] at taken

theorem of?_smaller {text : List Char} {shape : Shape} (taken : of? text = .ok shape) :
    shape.Smaller text.length := by
  unfold of? at taken
  split at taken
  · exact named_map_smaller .id (fun _ => trivial) taken
  · cases read : named text (behind? '.' text) with
    | error error => simp [read,bind,Except.bind] at taken
    | ok name =>
      simp only [read,bind,Except.bind] at taken
      split at taken
      · simp at taken
      · cases taken
        trivial
  · exact compoundOf_smaller taken
  · exact relativeOf_smaller (by simp [childMark]) taken
  · exact relativeOf_smaller (by simp [descendantMark]) taken
  · exact named_map_smaller .tag (fun _ => trivial) taken

end Shape
end TreeQuery.Selector
