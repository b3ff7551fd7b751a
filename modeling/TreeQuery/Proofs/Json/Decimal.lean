import TreeQuery.Proofs.Json.Magnitude
import TreeQuery.Proofs.Json.Printing

/-! Natural numbers in JSON texts. Written in decimal, a number is a numeral of the grammar: digits
only, and no leading zero. A machine word is far below the end of the range (`spellable_nat`). -/
namespace TreeQuery.Json

variable {n : Nat}

theorem digits_toDigits (n : Nat) : Digits (Nat.toDigits 10 n) := fun _ member =>
  Nat.isDigit_of_mem_toDigits (by decide) (by decide) member

theorem head?_toDigits (positive : 0 < n) : (Nat.toDigits 10 n).head? ≠ some '0' := by
  induction n using Nat.strongRecOn with
  | ind n ih =>
    rw [Nat.toDigits_eq_if (by decide)]
    split
    · rename_i small
      have digit : ∀ n < 10, 0 < n → n.digitChar ≠ '0' := by decide
      simpa using digit n small positive
    · have shorter := ih (n / 10) (by omega) (by omega)
      rwa [List.head?_append_of_ne_nil _ Nat.toDigits_ne_nil]

theorem magnitude_nat (n : Nat) :
    (⟨[],Nat.toDigits 10 n,[],[],[]⟩ : Numeral).magnitude = n := by
  simp [Numeral.magnitude,Numeral.power]

theorem inRange_nat (word : n < UInt64.size) :
    (⟨[],Nat.toDigits 10 n,[],[],[]⟩ : Numeral).InRange := by
  have far : UInt64.size + 2 ^ 973 ≤ 2 ^ 1024 := by decide +kernel
  have total : n + 2 ^ 973 ≤ 2 ^ 1024 := (Nat.add_le_add_right (Nat.le_of_lt word) _).trans far
  have short : Nat.ofDigitChars 10 [] 0 < Nat.pow 2 31 := by decide
  refine Numeral.inRange_of_magnitude short ?_
  rw [magnitude_nat,le_sub_iff_add_le]
  exact_mod_cast total

theorem formed_nat (n : Nat) : (⟨[],Nat.toDigits 10 n,[],[],[]⟩ : Numeral).Formed where
  sign := .inl rfl
  whole := by
    rcases Nat.eq_zero_or_pos n with rfl | positive
    · exact .inl rfl
    · exact .inr ⟨digits_toDigits n,Nat.toDigits_ne_nil,head?_toDigits positive⟩
  fraction := by simp [Digits]
  exponent := .inl ⟨rfl,rfl⟩

theorem spellable_nat (word : n < UInt64.size) : (Value.nat n).Spellable := by
  refine ⟨_,formed_nat n,inRange_nat word,?_⟩
  simp [Numeral.spelling,Nat.repr_eq_ofList_toDigits]

end TreeQuery.Json
