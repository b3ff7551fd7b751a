import Mathlib.Data.List.Induction
import TreeQuery.Proofs.Warnings
import TreeQuery.Selector.Query

/-! Warnings over a run of queries. Only a malformed selector warns, and the record knows a warning
by its text. Two errors never read the same (`SelectorError.message_inj`), so the record keeps apart
exactly what the errors keep apart: a call writes when its error is new since the record was
cleared (`given_recordAfter`). -/
namespace TreeQuery.Selector

inductive Call where
  | query (tree : Tree) (selector : String) (root : NodeId)
  | queryDocument (tree : Tree) (selector : String)
  | compile (selector : String)
  | clear
  deriving Repr,DecidableEq

namespace Call

/-- What is wrong with the selector of a call, if it has one and it is malformed. -/
def error? : Call → Option SelectorError
  | .query _ selector _ | .queryDocument _ selector | .compile selector =>
    match compile? selector with
    | .error error => some error
    | .ok _ => none
  | .clear => none

/-- The record after a call, and the line it wrote, if any. -/
def perform (warnings : Warnings) : Call → Warnings × Option String
  | .query tree selector root =>
    let answer := Selector.query warnings tree selector root
    (answer.warnings,answer.line)
  | .queryDocument tree selector =>
    let answer := Selector.queryDocument warnings tree selector
    (answer.warnings,answer.line)
  | .compile selector =>
    let compiled := Selector.compile warnings selector
    (compiled.warnings,compiled.line)
  | .clear => (warnings.clear,none)

def recordAfter (warnings : Warnings) (calls : List Call) : Warnings :=
  calls.foldl (fun warnings call => (call.perform warnings).1) warnings

/-- What each call of a run wrote, in their order. -/
def written (warnings : Warnings) : List Call → List (Option String)
  | [] => []
  | call :: calls => (call.perform warnings).2 :: written (call.perform warnings).1 calls

/-- Some call had this error, and the record was not cleared after it. -/
def Reported (history : List Call) (error : SelectorError) : Prop :=
  Warnings.SinceCleared (· = .clear) (fun call => call.error? = some error) history

end Call

namespace SelectorError

variable {left right front whole ending other : String}

theorem append_of_cut (cut : whole = front ++ ending) :
    left ++ whole = left ++ front ++ ending := by
  rw [cut,String.append_assoc]

theorem append_ne_append (length : ending.length = other.length) (different : ending ≠ other) :
    left ++ ending ≠ right ++ other := by
  intro same
  have letters := congrArg String.toList same
  rw [String.toList_append,String.toList_append] at letters
  exact different (String.toList_inj.mp
    (List.append_inj' letters (by simpa only [String.length_toList] using length)).2)

theorem message_emptySelector (text : String) :
    (emptySelector text).message = "empty selector in '" ++ text ++ "'" := rfl

/-! The texts are cut where their endings differ and are equally long. -/

theorem message_multipleClasses (text : String) :
    (multipleClasses text).message =
      "'" ++ text ++ "' names more than one class; only tag.clas" ++ "s is supported" :=
  append_of_cut (by decide +kernel :
    "' names more than one class; only tag.class is supported" = _ ++ "s is supported")

theorem message_nestedCombinator (text : String) :
    (nestedCombinator text).message =
      "'" ++ text ++ "' chains combinators; only one combinator per selecto" ++ "r is supported" :=
  append_of_cut (by decide +kernel :
    "' chains combinators; only one combinator per selector is supported" = _ ++ "r is supported")

theorem message_empty_ne_multiple (text other : String) :
    (emptySelector text).message ≠ (multipleClasses other).message := by
  have cut : "s is supported" = "s is supporte" ++ "d" := by decide
  rw [message_emptySelector,message_multipleClasses,append_of_cut cut]
  exact append_ne_append (by decide) (by decide)

theorem message_empty_ne_nested (text other : String) :
    (emptySelector text).message ≠ (nestedCombinator other).message := by
  have cut : "r is supported" = "r is supporte" ++ "d" := by decide
  rw [message_emptySelector,message_nestedCombinator,append_of_cut cut]
  exact append_ne_append (by decide) (by decide)

theorem message_multiple_ne_nested (text other : String) :
    (multipleClasses text).message ≠ (nestedCombinator other).message := by
  rw [message_multipleClasses,message_nestedCombinator]
  exact append_ne_append (by decide) (by decide)

/-- Errors with the same text are the same: each of the three forms ends in its own way, and within
a form the text that an error carries stands at a fixed place. -/
theorem message_inj {left right : SelectorError} :
    left.message = right.message ↔ left = right := by
  refine ⟨fun same => ?_,congrArg _⟩
  cases left with
  | emptySelector text =>
    cases right with
    | emptySelector other =>
      rw [message_emptySelector,message_emptySelector] at same
      simpa using same
    | multipleClasses other => exact absurd same (message_empty_ne_multiple text other)
    | nestedCombinator other => exact absurd same (message_empty_ne_nested text other)
  | multipleClasses text =>
    cases right with
    | emptySelector other => exact absurd same.symm (message_empty_ne_multiple other text)
    | multipleClasses other =>
      rw [message_multipleClasses,message_multipleClasses] at same
      simpa using same
    | nestedCombinator other => exact absurd same (message_multiple_ne_nested text other)
  | nestedCombinator text =>
    cases right with
    | emptySelector other => exact absurd same.symm (message_empty_ne_nested other text)
    | multipleClasses other => exact absurd same.symm (message_multiple_ne_nested other text)
    | nestedCombinator other =>
      rw [message_nestedCombinator,message_nestedCombinator] at same
      simpa using same

end SelectorError

variable {warnings : Warnings} {call : Call} {error : SelectorError}

namespace Call

theorem perform_of_error (malformed : call.error? = some error) :
    call.perform warnings = warnings.warnOnce component error.message := by
  cases call with
  | clear => simp [error?] at malformed
  | query tree selector root | queryDocument tree selector | compile selector =>
    cases compiled : compile? selector with
    | ok matcher => simp [error?,compiled] at malformed
    | error other =>
      obtain rfl : other = error := by simpa [error?,compiled] using malformed
      simp [perform,Selector.queryDocument,Selector.query,Warned.map,compile_of_error compiled]

theorem perform_of_accepted (accepted : call.error? = none) (kept : call ≠ .clear) :
    call.perform warnings = (warnings,none) := by
  cases call with
  | clear => exact absurd rfl kept
  | query tree selector root | queryDocument tree selector | compile selector =>
    cases compiled : compile? selector with
    | ok matcher =>
      simp [perform,Selector.queryDocument,Selector.query,Warned.map,compile_of_ok compiled]
    | error other => simp [error?,compiled] at accepted

theorem perform_silent (accepted : call.error? = none) : (call.perform warnings).2 = none := by
  by_cases cleared : call = .clear
  · rw [cleared,perform]
  · rw [perform_of_accepted accepted cleared]

/-- The line about an error. -/
theorem line_message (error : SelectorError) :
    Warnings.line component error.message =
      "\x1b[33m[Sprig Select] ⚠ " ++ error.message ++ "\x1b[39m\n" := by
  have opening : "\x1b[33m[Sprig Select] ⚠ " = "\x1b[33m[Sprig " ++ component ++ "] ⚠ " := by
    decide +kernel
  rw [Warnings.line_eq,opening]

theorem recordAfter_append (warnings : Warnings) (earlier later : List Call) :
    recordAfter warnings (earlier ++ later) = recordAfter (recordAfter warnings earlier) later :=
  List.foldl_append

theorem written_append (warnings : Warnings) (earlier later : List Call) :
    written warnings (earlier ++ later) =
      written warnings earlier ++ written (recordAfter warnings earlier) later := by
  induction earlier generalizing warnings with
  | nil => rfl
  | cons call earlier ih => simp [written,recordAfter,ih]

theorem written_length (warnings : Warnings) (calls : List Call) :
    (written warnings calls).length = calls.length := by
  induction calls generalizing warnings with
  | nil => rfl
  | cons call calls ih => simp [written,ih]

/-- What one call does to the record, told by the errors of selectors. -/
theorem given_perform :
    (call.perform warnings).1.given component error.message = true ↔
      call.error? = some error ∨
        call ≠ .clear ∧ warnings.given component error.message = true := by
  by_cases cleared : call = .clear
  · simp [cleared,perform,error?,Warnings.given_clear]
  · cases found : call.error? with
    | none => simp [perform_of_accepted found cleared,cleared]
    | some other =>
      rw [perform_of_error found,Warnings.given_warnOnce,Warnings.key_inj,SelectorError.message_inj,
        Option.some_inj]
      exact or_congr eq_comm ⟨fun given => ⟨cleared,given⟩,And.right⟩

/-- The record of a run knows exactly the errors that were reported since it was cleared. -/
theorem given_recordAfter (history : List Call) :
    (recordAfter {} history).given component error.message = true ↔ Reported history error := by
  induction history using List.reverseRecOn with
  | nil => simp [recordAfter,Reported,Warnings.sinceCleared_nil,Warnings.given]
  | append_singleton history call ih =>
    rw [recordAfter_append,Reported,Warnings.sinceCleared_concat]
    simp only [recordAfter,List.foldl_cons,List.foldl_nil]
    rw [given_perform,← Reported,← ih]
    rfl

/-- In any run from an empty record a call writes exactly if its selector is malformed and no call
since the record was last cleared had the same error; it then writes the warning with the error's
text. A call whose selector is accepted writes nothing, and without it the others write the same. -/
theorem written_once (earlier later : List Call) (call : Call) :
    (∀ line, (written {} (earlier ++ call :: later))[earlier.length]? = some (some line) ↔
      ∃ error, call.error? = some error ∧ ¬ Reported earlier error ∧
        line = "\x1b[33m[Sprig Select] ⚠ " ++ error.message ++ "\x1b[39m\n") ∧
      (written {} (earlier ++ call :: later)).length = earlier.length + later.length + 1 ∧
      (call.error? = none → call ≠ .clear →
        (written {} (earlier ++ call :: later)).eraseIdx earlier.length =
          written {} (earlier ++ later)) := by
  have front := written_length {} earlier
  refine ⟨?_,?_,?_⟩
  · intro line
    rw [written_append,← front,List.getElem?_append_right (Nat.le_refl _),Nat.sub_self,written,
      List.getElem?_cons_zero,Option.some_inj]
    cases found : call.error? with
    | none => simp [perform_silent found]
    | some error =>
      rw [perform_of_error found,Warnings.warnOnce_line,given_recordAfter,line_message]
      simp
  · rw [written_length,List.length_append,List.length_cons,Nat.add_assoc]
  · intro accepted kept
    rw [written_append,written_append,written,perform_of_accepted accepted kept,← front,
      List.eraseIdx_append_of_length_le (Nat.le_refl _),Nat.sub_self,List.eraseIdx_cons_zero]

/-- Two selectors that are malformed in the same side, with an accepted one between them, and a
third one after the record was cleared. -/
theorem written_once_same_side :
    let first : Call := .compile "a.b.c x"
    let second : Call := .query Tree.empty "y > a.b.c" Tree.root
    let later : List Call := [second,.clear,.queryDocument Tree.empty "z a.b.c"]
    let line := "\x1b[33m[Sprig Select] ⚠ 'a.b.c' names more than one class; " ++
      "only tag.class is supported\x1b[39m\n"
    (Call.compile "p").error? = none ∧
      written {} ([first] ++ .compile "p" :: later) = [some line,none,none,none,some line] ∧
      (written {} ([first] ++ .compile "p" :: later)).eraseIdx 1 = written {} ([first] ++ later) ∧
      second.error? = first.error? ∧
      ∃ error, second.error? = some error ∧ Reported [first] error := by
  intro first second later line
  have accepted : (Call.compile "p").error? = none := by decide +kernel
  have malformed : first.error? = some (.multipleClasses "a.b.c") := by decide +kernel
  have again : second.error? = some (.multipleClasses "a.b.c") := by decide +kernel
  have lines : written {} ([first] ++ .compile "p" :: later) =
      [some line,none,none,none,some line] := by decide +kernel
  obtain ⟨_,_,skipped⟩ := written_once [first] later (.compile "p")
  obtain ⟨writes,_⟩ := written_once [first] [] second
  have known : Reported [first] (.multipleClasses "a.b.c") := by
    apply Classical.byContradiction
    intro fresh
    have wrote := (writes _).mpr ⟨_,again,fresh,rfl⟩
    exact absurd wrote (by decide +kernel)
  exact ⟨accepted,lines,skipped accepted (by decide),again.trans malformed.symm,_,again,known⟩

end Call
end TreeQuery.Selector
