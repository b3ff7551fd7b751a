/-! Outcomes of computations that may fail. Where the whole succeeds each of its stages does, and
where it fails one of them does. -/
namespace TreeQuery

variable {ε α β : Type} {first : Except ε α} {result : β} {error : ε}

theorem map_eq_ok_iff {make : α → β} :
    first.map make = .ok result ↔ ∃ value, first = .ok value ∧ make value = result := by
  cases first with
  | error error => simp [Except.map]
  | ok value => simp [Except.map]

theorem bind_eq_ok_iff {next : α → Except ε β} :
    (first >>= next) = .ok result ↔ ∃ value, first = .ok value ∧ next value = .ok result := by
  cases first with
  | error error => simp [bind,Except.bind]
  | ok value => simp [bind,Except.bind]

theorem map_eq_error_iff {make : α → β} : first.map make = .error error ↔ first = .error error := by
  cases first <;> simp [Except.map]

/-- Where the whole fails, its first stage fails or the stages after it do. -/
theorem bind_eq_error_iff {next : α → Except ε β} :
    (first >>= next) = .error error ↔
      first = .error error ∨ ∃ value, first = .ok value ∧ next value = .error error := by
  cases first with
  | error error => simp [bind,Except.bind]
  | ok value => simp [bind,Except.bind]

@[simp] theorem ok_bind {value : α} {next : α → Except ε β} :
    (Except.ok value >>= next) = next value := rfl

@[simp] theorem error_bind {error : ε} {next : α → Except ε β} :
    (Except.error error >>= next) = .error error := rfl

end TreeQuery
