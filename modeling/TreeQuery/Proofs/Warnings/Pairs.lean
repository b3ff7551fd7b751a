import Mathlib.Data.List.Induction
import TreeQuery.Proofs.Warnings

/-! Which warnings the record takes for one. A warning is given for a component and a message, and the
record knows it by its key. Two different pairs have the same key if and only if the bracket of one
component can be closed at a later place, inside the other message (`key_eq_iff`). Over a history of
warnings and clearings the record answers for all pairs with one key together (`given_alike`), and so
for a single pair only as long as no such other pair was warned of (`given_not_by_pair`). -/
namespace TreeQuery.Warnings

inductive Action where
  | warn (component message : String)
  | clear
  deriving Repr,DecidableEq

def perform (warnings : Warnings) : Action → Warnings
  | .warn component message => (warnings.warnOnce component message).1
  | .clear => warnings.clear

def recordAfter (warnings : Warnings) (history : List Action) : Warnings :=
  history.foldl perform warnings

/-- The second component is the first one, a closing bracket and the front of the first message. -/
def Shifted (component message component' message' : String) : Prop :=
  ∃ between, component' = component ++ "] " ++ between ∧ message = between ++ "] " ++ message'

/-- Two different pairs that read the same behind the brackets. -/
def Confused (component message component' message' : String) : Prop :=
  Shifted component message component' message' ∨ Shifted component' message' component message

/-- The action warns of the pair, or of one that is confused with it. -/
def Action.WarnsAlike (component message : String) (action : Action) : Prop :=
  ∃ component' message', action = .warn component' message' ∧
    (component = component' ∧ message = message' ∨
      Confused component message component' message')

/-- The pair itself was warned of, and the record was not cleared after it. -/
def Reported (history : List Action) (component message : String) : Prop :=
  SinceCleared (· = .clear) (· = .warn component message) history

/-- The pair or one confused with it was warned of, and the record was not cleared after it. -/
def ReportedAlike (history : List Action) (component message : String) : Prop :=
  SinceCleared (· = .clear) (Action.WarnsAlike component message) history

section Keys

variable {component message component' message' : String}

theorem toList_key (component message : String) :
    (key component message).toList = '[' :: (component.toList ++ ']' :: ' ' :: message.toList) := by
  simp [key]

theorem Shifted.key_eq (shifted : Shifted component message component' message') :
    key component message = key component' message' := by
  obtain ⟨between,rfl,rfl⟩ := shifted
  simp only [key,String.append_assoc]

/-- The longer of two components goes on behind the shorter one; what it goes on with is nothing or
starts with a closing bracket. -/
theorem shifted_of_append {further : List Char}
    (longer : component'.toList = component.toList ++ further)
    (rest : ']' :: ' ' :: message.toList = further ++ ']' :: ' ' :: message'.toList) :
    component = component' ∧ message = message' ∨
      Shifted component message component' message' := by
  match further,longer,rest with
  | [],longer,rest =>
    have sameMessage : message.toList = message'.toList := by simpa using rest
    exact .inl ⟨(String.toList_inj.mp (by simpa using longer)).symm,String.toList_inj.mp sameMessage⟩
  | [_],_,rest => simp at rest
  | _ :: _ :: between,longer,rest =>
    simp only [List.cons_append,List.cons.injEq] at rest
    obtain ⟨rfl,rfl,behind⟩ := rest
    refine .inr ⟨String.ofList between,String.toList_inj.mp ?_,String.toList_inj.mp ?_⟩
    · simp [longer]
    · simp [behind]

theorem Shifted.component_ne (shifted : Shifted component message component' message') :
    component ≠ component' := by
  obtain ⟨between,longer,_⟩ := shifted
  intro same
  have lengths := congrArg String.length (same.trans longer)
  simp only [String.length_append] at lengths
  have bracket : "] ".length = 2 := rfl
  omega

theorem Confused.component_ne (confused : Confused component message component' message') :
    component ≠ component' :=
  confused.elim Shifted.component_ne fun shifted => shifted.component_ne.symm

theorem key_eq_iff :
    key component message = key component' message' ↔
      component = component' ∧ message = message' ∨
        Confused component message component' message' := by
  constructor
  · intro same
    have letters := congrArg String.toList same
    rw [toList_key,toList_key,List.cons_inj_right] at letters
    rcases List.append_eq_append_iff.mp letters with ⟨further,longer,rest⟩ | ⟨further,longer,rest⟩
    · exact (shifted_of_append longer rest).imp_right .inl
    · refine (shifted_of_append longer rest).imp ?_ .inr
      exact fun ⟨components,messages⟩ => ⟨components.symm,messages.symm⟩
  · rintro (⟨rfl,rfl⟩ | shifted | shifted)
    · rfl
    · exact shifted.key_eq
    · exact shifted.key_eq.symm

end Keys

variable {warnings : Warnings} {history : List Action} {component message : String}

/-- What one action does to the record. -/
theorem given_perform {action : Action} :
    (warnings.perform action).given component message = true ↔
      action.WarnsAlike component message ∨
        action ≠ .clear ∧ warnings.given component message = true := by
  cases action with
  | warn component' message' =>
    rw [perform,given_warnOnce,key_eq_iff]
    simp [Action.WarnsAlike]
  | clear => simp [perform,given_clear,Action.WarnsAlike]

theorem given_recordAfter :
    (recordAfter {} history).given component message = true ↔
      ReportedAlike history component message := by
  induction history using List.reverseRecOn with
  | nil => simp [recordAfter,ReportedAlike,sinceCleared_nil,given]
  | append_singleton history action ih =>
    rw [recordAfter,List.foldl_append,List.foldl_cons,List.foldl_nil,given_perform,ReportedAlike,
      sinceCleared_concat,← ReportedAlike,← ih,recordAfter]

theorem Reported.alike (reported : Reported history component message) :
    ReportedAlike history component message := by
  obtain ⟨before,_,after,rfl,rfl,kept⟩ := reported
  exact ⟨before,_,after,rfl,⟨component,message,rfl,.inl ⟨rfl,rfl⟩⟩,kept⟩

theorem reportedAlike_iff
    (apart : ∀ component' message', .warn component' message' ∈ history →
      ¬ Confused component message component' message') :
    ReportedAlike history component message ↔ Reported history component message := by
  refine ⟨?_,Reported.alike⟩
  rintro ⟨before,_,after,rfl,⟨component',message',rfl,alike⟩,kept⟩
  obtain ⟨rfl,rfl⟩ := alike.resolve_right (apart component' message' (by simp))
  exact ⟨before,_,after,rfl,rfl,kept⟩

/-- After any history a pair counts as given exactly if it or a pair confused with it was warned of
since the record was cleared, and it is written exactly if it does not count as given. This is the
answer for the pair alone unless only others were warned of; no such others exist when the history
warns of no pair that is confused with it. -/
theorem given_alike (history : List Action) (component message : String) :
    ((recordAfter {} history).given component message = true ↔
        ReportedAlike history component message) ∧
      (∀ text, ((recordAfter {} history).warnOnce component message).2 = some text ↔
        ¬ ReportedAlike history component message ∧ text = line component message) ∧
      (((recordAfter {} history).given component message = true ↔
          Reported history component message) ∧
        (∀ text, ((recordAfter {} history).warnOnce component message).2 = some text ↔
          ¬ Reported history component message ∧ text = line component message) ↔
        (ReportedAlike history component message → Reported history component message)) ∧
      ((∀ component' message', .warn component' message' ∈ history →
          ¬ Confused component message component' message') →
        (ReportedAlike history component message ↔ Reported history component message)) := by
  have writes : ∀ text, ((recordAfter {} history).warnOnce component message).2 = some text ↔
      ¬ ReportedAlike history component message ∧ text = line component message := by
    intro text
    rw [warnOnce_line,given_recordAfter]
  refine ⟨given_recordAfter,writes,?_,reportedAlike_iff⟩
  constructor
  · rintro ⟨answers,_⟩ alike
    exact answers.mp (given_recordAfter.mpr alike)
  · intro alone
    have same : ReportedAlike history component message ↔ Reported history component message :=
      ⟨alone,Reported.alike⟩
    rw [← same]
    exact ⟨given_recordAfter,writes⟩

/-- Another message behind the same brackets is not confused with a pair, whatever was cleared. -/
theorem given_alike_other_message :
    let history : List Action := [.warn "A" "B] C",.clear,.warn "A" "B] D",.warn "A] B" "E"]
    (∀ component' message', .warn component' message' ∈ history →
        ¬ Confused "A] B" "E" component' message') ∧
      (ReportedAlike history "A] B" "E" ↔ Reported history "A] B" "E") ∧
      Reported history "A] B" "E" ∧ (recordAfter {} history).given "A] B" "E" = true ∧
      ((recordAfter {} history).warnOnce "A] B" "E").2 ≠ some (line "A] B" "E") := by
  intro history
  have apart : ∀ component' message', .warn component' message' ∈ history →
      ¬ Confused "A] B" "E" component' message' := by
    intro component' message' member confused
    simp only [history,List.mem_cons,Action.warn.injEq,reduceCtorEq,List.not_mem_nil,or_false,
      false_or] at member
    rcases member with ⟨rfl,rfl⟩ | ⟨rfl,rfl⟩ | ⟨rfl,rfl⟩
    · exact absurd (key_eq_iff.mpr (.inr confused)) (by decide)
    · exact absurd (key_eq_iff.mpr (.inr confused)) (by decide)
    · exact confused.component_ne rfl
  have reported : Reported history "A] B" "E" :=
    ⟨[.warn "A" "B] C",.clear,.warn "A" "B] D"],_,[],rfl,rfl,by simp⟩
  obtain ⟨_,_,pairwise,alone⟩ := given_alike history "A] B" "E"
  obtain ⟨given,writes⟩ := pairwise.mpr (alone apart).mp
  exact ⟨apart,alone apart,reported,given.mpr reported,fun wrote => ((writes _).mp wrote).1 reported⟩

/-- The record does not keep pairs apart: once `B] C` was warned of for `A`, the message `C` of `A] B`
counts as given and is not written, although nobody warned of it. -/
theorem given_not_by_pair :
    let history : List Action := [.warn "A" "B] C"]
    (recordAfter {} history).given "A] B" "C" = true ∧
      ((recordAfter {} history).warnOnce "A] B" "C").2 = none ∧
      ¬ Reported history "A] B" "C" := by
  intro history
  refine ⟨by decide,by decide,?_⟩
  rintro ⟨before,_,after,whole,rfl,_⟩
  have member : Action.warn "A] B" "C" ∈ history := whole ▸ by simp
  simp [history] at member

end TreeQuery.Warnings
