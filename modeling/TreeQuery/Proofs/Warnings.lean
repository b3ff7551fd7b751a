import Mathlib.Data.String.Lemmas
import TreeQuery.Warnings

/-! The record of warnings step by step. A warning is in the record after a step if the step gave a
warning with its key or it was there before; clearing leaves nothing. What stands in the record is
therefore decided by the part of a history behind the last clearing (`sinceCleared_concat`). -/
namespace TreeQuery.Warnings

/-- Some entry of a history has a property, and no entry behind it clears the record. -/
def SinceCleared {α : Type} (clears holds : α → Prop) (history : List α) : Prop :=
  ∃ before entry after, history = before ++ entry :: after ∧ holds entry ∧
    ∀ later ∈ after, ¬ clears later

variable {warnings : Warnings} {component message other text : String}

theorem key_inj : key component message = key component other ↔ message = other :=
  String.append_right_inj _

/-- The line that is written, with the codes that switch its colour on and off. -/
theorem line_eq (component message : String) :
    line component message =
      "\x1b[33m[Sprig " ++ component ++ "] ⚠ " ++ message ++ "\x1b[39m\n" := by
  have front : Text.Style.code Text.Style.yellow.on = "\x1b[33m" := by decide +kernel
  have back : Text.Style.code Text.Style.yellow.off = "\x1b[39m" := by decide +kernel
  have opening : "\x1b[33m[Sprig " = "\x1b[33m" ++ "[Sprig " := by decide +kernel
  have closing : "\x1b[39m\n" = "\x1b[39m" ++ "\n" := by decide +kernel
  rw [line,Text.Style.paint,front,back,opening,closing]
  simp only [String.append_assoc]

theorem given_clear : ¬ warnings.clear.given component message = true := by
  simp [clear,given]

theorem given_warnOnce {component' : String} :
    (warnings.warnOnce component message).1.given component' other = true ↔
      key component' other = key component message ∨ warnings.given component' other = true := by
  unfold warnOnce
  split
  · rename_i known
    constructor
    · exact .inr
    · rintro (same | before)
      · simpa [given,same] using known
      · exact before
  · simp [given]

theorem warnOnce_line :
    (warnings.warnOnce component message).2 = some text ↔
      ¬ warnings.given component message = true ∧ text = line component message := by
  unfold warnOnce
  split
  · rename_i known
    simp [known]
  · rename_i fresh
    simp only [Option.some.injEq]
    exact ⟨fun written => ⟨fresh,written.symm⟩,fun written => written.2.symm⟩

section History

variable {α : Type} {clears holds : α → Prop} {history : List α} {entry : α}

theorem sinceCleared_nil : ¬ SinceCleared clears holds [] := by
  rintro ⟨before,entry,after,whole,_⟩
  simp at whole

theorem sinceCleared_concat :
    SinceCleared clears holds (history ++ [entry]) ↔
      holds entry ∨ ¬ clears entry ∧ SinceCleared clears holds history := by
  constructor
  · rintro ⟨before,found,after,whole,held,kept⟩
    rcases List.eq_nil_or_concat after with rfl | ⟨later,last,rfl⟩
    · obtain ⟨_,same⟩ := List.append_inj' whole rfl
      cases same
      exact .inl held
    · rw [List.concat_eq_append,← List.cons_append,← List.append_assoc] at whole
      obtain ⟨rfl,same⟩ := List.append_inj' whole rfl
      cases same
      refine .inr ⟨kept entry (by simp),before,found,later,rfl,held,?_⟩
      exact fun other member => kept other (by simp [member])
  · rintro (held | ⟨kept,before,found,after,rfl,held,others⟩)
    · exact ⟨history,entry,[],rfl,held,by simp⟩
    · refine ⟨before,found,after ++ [entry],by simp,held,?_⟩
      intro later member
      rcases List.mem_append.mp member with inside | last
      · exact others later inside
      · exact List.mem_singleton.mp last ▸ kept

end History

end TreeQuery.Warnings
