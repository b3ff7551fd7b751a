import Mathlib.Algebra.Order.Field.Rat
import Mathlib.Algebra.Order.Field.Power
import Mathlib.Tactic.NormNum
import Mathlib.Tactic.Ring
import TreeQuery.Proofs.Json.Grammar

/-! The magnitude of a number and the range of the reader. The reader computes with at most 64 bits of
leading digits and rounds three times. Leaving digits out never makes a number greater
(`significand_le`), and a rounding adds at most one part in `2 ^ 53` (`round53_le`). A number is
therefore in range whenever its magnitude is at most `2 ^ 1024 - 2 ^ 973`, three units in the last
place below the greatest double (`inRange_of_magnitude`). -/
namespace TreeQuery.Json

variable {value bound : Nat} {digits : List Char}

/-! Digits. -/

theorem ofDigitChars_eq_add (digits : List Char) (value : Nat) :
    Nat.ofDigitChars 10 digits value =
      value * 10 ^ digits.length + Nat.ofDigitChars 10 digits 0 := by
  rw [Nat.ofDigitChars_eq_ofDigitChars_zero,Nat.mul_comm]

theorem scaled_le_ofDigitChars (digits : List Char) (value : Nat) :
    value * 10 ^ digits.length ≤ Nat.ofDigitChars 10 digits value := by
  rw [ofDigitChars_eq_add]
  exact Nat.le_add_right _ _

theorem le_ofDigitChars (digits : List Char) (value : Nat) :
    value ≤ Nat.ofDigitChars 10 digits value :=
  Nat.le_trans (Nat.le_mul_of_pos_right _ (Nat.pow_pos (by decide)))
    (scaled_le_ofDigitChars digits value)

theorem ofDigitChars_mono {other : Nat} (digits : List Char) (below : value ≤ other) :
    Nat.ofDigitChars 10 digits value ≤ Nat.ofDigitChars 10 digits other := by
  rw [ofDigitChars_eq_add digits value,ofDigitChars_eq_add digits other]
  exact Nat.add_le_add_right (Nat.mul_le_mul_right _ below) _

theorem ofDigitChars_next (d : Char) (digits : List Char) (value : Nat) :
    Nat.ofDigitChars 10 (d :: digits) value =
      Nat.ofDigitChars 10 digits (value * 10 + digitValue d) := by
  rw [Nat.ofDigitChars_cons,Nat.mul_comm 10 value]
  rfl

/-- Digits whose number stays below the bound are all taken. -/
theorem absorb_of_lt (below : Nat.ofDigitChars 10 digits value < bound) :
    absorb bound value digits = (Nat.ofDigitChars 10 digits value,[]) := by
  fun_induction absorb bound value digits with
  | case1 value => simp
  | case2 value d digits next first ih =>
    rw [ofDigitChars_next] at below ⊢
    exact ih below
  | case3 value d digits next above =>
    rw [ofDigitChars_next] at below
    exact absurd (Nat.lt_of_le_of_lt (le_ofDigitChars digits next) below) above

section Absorbed

variable {taken : Nat} {left : List Char}

/-- The digits that are taken, with a zero for each one left over, make at most the whole number. -/
theorem absorb_le (absorbed : absorb bound value digits = (taken,left)) :
    taken * 10 ^ left.length ≤ Nat.ofDigitChars 10 digits value := by
  fun_induction absorb bound value digits with
  | case1 value =>
    cases absorbed
    simp
  | case2 value d digits next first ih =>
    rw [ofDigitChars_next]
    exact ih absorbed
  | case3 value d digits next above =>
    cases absorbed
    exact scaled_le_ofDigitChars _ _

/-- Where digits are left over, the first of them would have reached the bound. -/
theorem absorb_reached (absorbed : absorb bound value digits = (taken,left)) (rest : left ≠ []) :
    bound * 10 ^ left.length ≤ 10 * Nat.ofDigitChars 10 digits value := by
  fun_induction absorb bound value digits with
  | case1 value =>
    cases absorbed
    contradiction
  | case2 value d digits next first ih =>
    rw [ofDigitChars_next]
    exact ih absorbed
  | case3 value d digits next above =>
    cases absorbed
    rw [ofDigitChars_next,List.length_cons]
    calc bound * 10 ^ (digits.length + 1)
        ≤ next * 10 ^ (digits.length + 1) := Nat.mul_le_mul_right _ (Nat.le_of_not_lt above)
      _ = 10 * (next * 10 ^ digits.length) := by ring
      _ ≤ 10 * Nat.ofDigitChars 10 digits next :=
        Nat.mul_le_mul_left _ (scaled_le_ofDigitChars digits next)

theorem absorb_cases (absorbed : absorb bound value digits = (taken,left)) :
    taken = value ∧ left = digits ∨ taken < bound ∧ left.length < digits.length := by
  fun_induction absorb bound value digits with
  | case1 value =>
    cases absorbed
    exact .inl ⟨rfl,rfl⟩
  | case2 value d digits next first ih =>
    rcases ih absorbed with ⟨rfl,rfl⟩ | ⟨below,shorter⟩
    · exact .inr ⟨first,Nat.lt_succ_self _⟩
    · exact .inr ⟨below,Nat.lt_succ_of_lt shorter⟩
  | case3 value d digits next above =>
    cases absorbed
    exact .inl ⟨rfl,rfl⟩

end Absorbed

/-- A significand that stays below the bound, where the number has reached it. -/
theorem scaled_le_of_reached {number spilled dropped length : Nat} (below : value < bound)
    (shorter : dropped < length) (reached : bound * 10 ^ spilled ≤ 10 * number) :
    value * 10 ^ (spilled + dropped) ≤ number * 10 ^ length := by
  have longer : 10 ^ (dropped + 1) ≤ 10 ^ length := Nat.pow_le_pow_right (by decide) shorter
  refine Nat.le_of_mul_le_mul_left ?_ (by decide : 0 < 10)
  calc 10 * (value * 10 ^ (spilled + dropped))
      = value * 10 ^ spilled * 10 ^ (dropped + 1) := by ring
    _ ≤ bound * 10 ^ spilled * 10 ^ length :=
      Nat.mul_le_mul (Nat.mul_le_mul_right _ (Nat.le_of_lt below)) longer
    _ ≤ 10 * number * 10 ^ length := Nat.mul_le_mul_right _ reached
    _ = 10 * (number * 10 ^ length) := Nat.mul_assoc _ _ _

/-- The digits that are taken from the whole part and then from the fraction, with a zero for each one
that was left out. Behind digits of the whole part that were left out a digit of the fraction may still
be taken, in the place of the first of them; the number then has reached the bound already. -/
theorem absorb_absorb_le {whole fraction spilled dropped : List Char} {front : Nat}
    (first : absorb bound 0 whole = (front,spilled))
    (second : absorb bound front fraction = (value,dropped)) :
    value * 10 ^ (spilled.length + dropped.length) ≤ Nat.ofDigitChars 10 (whole ++ fraction) 0 := by
  have scaled := scaled_le_ofDigitChars fraction (Nat.ofDigitChars 10 whole 0)
  rw [Nat.ofDigitChars_append]
  by_cases all : spilled = []
  · have number : front ≤ Nat.ofDigitChars 10 whole 0 := by simpa [all] using absorb_le first
    calc value * 10 ^ (spilled.length + dropped.length)
        = value * 10 ^ dropped.length := by rw [all,List.length_nil,Nat.zero_add]
      _ ≤ Nat.ofDigitChars 10 fraction front := absorb_le second
      _ ≤ _ := ofDigitChars_mono fraction number
  · rcases absorb_cases second with ⟨rfl,rfl⟩ | ⟨below,shorter⟩
    · calc value * 10 ^ (spilled.length + dropped.length)
          = value * 10 ^ spilled.length * 10 ^ dropped.length := by ring
        _ ≤ Nat.ofDigitChars 10 whole 0 * 10 ^ dropped.length :=
          Nat.mul_le_mul_right _ (absorb_le first)
        _ ≤ _ := scaled
    · exact (scaled_le_of_reached below shorter (absorb_reached first all)).trans scaled

/-- The significand and its power of ten, of which the digits of the fraction are counted off. -/
theorem significand_le (whole fraction : List Char) :
    ∃ value shift : Nat,
      significand whole fraction = (value,(shift : Int) - fraction.length) ∧
        value * 10 ^ shift ≤ Nat.ofDigitChars 10 (whole ++ fraction) 0 := by
  cases first : absorb (Nat.pow 2 64) 0 whole with
  | mk front spilled =>
    cases second : absorb (Nat.pow 2 64) front fraction with
    | mk value dropped =>
      refine ⟨value,spilled.length + dropped.length,?_,absorb_absorb_le first second⟩
      simp only [significand,first,second,Prod.mk.injEq,true_and]
      omega

/-! Roundings. -/

/-- A rounding up adds at most half a unit, and a unit is at most one part in `2 ^ 52`. -/
theorem round53_le (n : Nat) : 2 ^ 53 * round53 n ≤ (2 ^ 53 + 1) * n := by
  unfold round53
  split
  · exact Nat.mul_le_mul_right _ (Nat.le_succ _)
  · rename_i large
    have positive : n ≠ 0 := by
      rintro rfl
      exact large (by decide)
    have leading : 52 ≤ n.log2 :=
      (Nat.le_log2 positive).mpr (Nat.le_trans (by decide) (Nat.le_of_not_lt large))
    have unitBound : 2 ^ 52 * Nat.pow 2 (n.log2 - 52) ≤ n := by
      rw [Nat.pow_eq,← Nat.pow_add,Nat.add_sub_of_le leading]
      exact Nat.log2_self_le positive
    have parted : n / Nat.pow 2 (n.log2 - 52) * Nat.pow 2 (n.log2 - 52) +
        n % Nat.pow 2 (n.log2 - 52) = n := Nat.div_add_mod' _ _
    generalize Nat.pow 2 (n.log2 - 52) = unit at unitBound parted ⊢
    dsimp only
    split
    · rename_i up
      have half : unit ≤ 2 * (n % unit) := by
        simp only [Bool.or_eq_true,Bool.and_eq_true,decide_eq_true_eq,beq_iff_eq] at up
        omega
      rw [Nat.add_mul,Nat.one_mul]
      omega
    · omega

/-- A product of two rounded numbers, rounded again. -/
theorem round53_mul_le (value scale : Nat) :
    (2 ^ 53) ^ 3 * round53 (round53 value * round53 scale) ≤ (2 ^ 53 + 1) ^ 3 * (value * scale) := by
  have outer := round53_le (round53 value * round53 scale)
  have inner := Nat.mul_le_mul (round53_le value) (round53_le scale)
  generalize 2 ^ 53 = unit at outer inner ⊢
  generalize round53 (round53 value * round53 scale) = rounded at outer ⊢
  calc unit ^ 3 * rounded
      = unit ^ 2 * (unit * rounded) := by ring
    _ ≤ unit ^ 2 * ((unit + 1) * (round53 value * round53 scale)) := Nat.mul_le_mul_left _ outer
    _ = (unit + 1) * (unit * round53 value * (unit * round53 scale)) := by ring
    _ ≤ (unit + 1) * ((unit + 1) * value * ((unit + 1) * scale)) := Nat.mul_le_mul_left _ inner
    _ = (unit + 1) ^ 3 * (value * scale) := by ring

/-- Three roundings do not carry a product over the limit if it is this far below. -/
theorem round53_mul_lt {value scale : Nat} (below : value * scale + 2 ^ 973 ≤ rangeLimit) :
    round53 (round53 value * round53 scale) < rangeLimit := by
  have room : (2 ^ 53 + 1) ^ 3 * (rangeLimit - 2 ^ 973) < (2 ^ 53) ^ 3 * rangeLimit := by
    decide +kernel
  refine Nat.lt_of_mul_lt_mul_left (a := (2 ^ 53) ^ 3) ?_
  calc (2 ^ 53) ^ 3 * round53 (round53 value * round53 scale)
      ≤ (2 ^ 53 + 1) ^ 3 * (value * scale) := round53_mul_le value scale
    _ ≤ (2 ^ 53 + 1) ^ 3 * (rangeLimit - 2 ^ 973) :=
      Nat.mul_le_mul_left _ (Nat.le_sub_of_add_le below)
    _ < (2 ^ 53) ^ 3 * rangeLimit := room

theorem exceedsRange_of_le {power : Int}
    (below : 0 ≤ power → value * 10 ^ power.toNat + 2 ^ 973 ≤ rangeLimit) :
    exceedsRange value power = false := by
  rcases Nat.eq_zero_or_pos value with rfl | positive
  · rfl
  · have small : ¬ 308 < power := by
      intro large
      have beyond : rangeLimit < 10 ^ 309 := by decide +kernel
      have shifted : 10 ^ 309 ≤ 10 ^ power.toNat := pow_le_pow_right₀ (by decide) (by omega)
      have product : 10 ^ power.toNat ≤ value * 10 ^ power.toNat :=
        Nat.le_mul_of_pos_left _ positive
      have total := Nat.le_of_add_right_le (below (by omega))
      exact absurd (Nat.le_trans shifted (Nat.le_trans product total)) (Nat.not_le_of_lt beyond)
    simp only [exceedsRange,Bool.and_eq_false_iff,Bool.or_eq_false_iff,decide_eq_false_iff_not]
    refine .inr ⟨small,?_⟩
    by_cases whole : 0 ≤ power
    · exact .inr (Nat.not_le_of_lt (round53_mul_lt (below whole)))
    · exact .inl whole

namespace Numeral

variable {numeral : Numeral}

/-- The power of ten that the exponent gives. -/
def power (numeral : Numeral) : Int :=
  let digits := Nat.ofDigitChars 10 numeral.exponent 0
  if numeral.mark.contains '-' then -digits else digits

/-- The number without its sign, exactly. -/
def magnitude (numeral : Numeral) : ℚ :=
  Nat.ofDigitChars 10 (numeral.whole ++ numeral.fraction) 0 *
    10 ^ (numeral.power - numeral.fraction.length)

theorem inRange_of_fits (short : Nat.ofDigitChars 10 numeral.exponent 0 < Nat.pow 2 31)
    {shift : Int} (significant : significand numeral.whole numeral.fraction = (value,shift))
    (fits : exceedsRange value (shift + numeral.power) = false) : numeral.InRange := by
  unfold power at fits
  unfold InRange check
  rw [significant,absorb_of_lt short]
  cases negative : numeral.mark.contains '-' <;>
    simp_all [Int.sub_eq_add_neg]

/-- What the reader makes of the digits is not greater than the number. -/
theorem scaled_le_magnitude {shift : Nat}
    (below : value * 10 ^ shift ≤ Nat.ofDigitChars 10 (numeral.whole ++ numeral.fraction) 0) :
    (value : ℚ) * 10 ^ ((shift : Int) - numeral.fraction.length + numeral.power) ≤
      numeral.magnitude := by
  have split : (10 : ℚ) ^ ((shift : Int) - numeral.fraction.length + numeral.power) =
      10 ^ shift * 10 ^ (numeral.power - numeral.fraction.length) := by
    rw [← zpow_natCast,← zpow_add₀ (by norm_num)]
    congr 1
    omega
  have digits : (value : ℚ) * 10 ^ shift ≤
      Nat.ofDigitChars 10 (numeral.whole ++ numeral.fraction) 0 := by exact_mod_cast below
  rw [split,← mul_assoc,magnitude]
  exact mul_le_mul_of_nonneg_right digits (zpow_nonneg (by norm_num) _)

/-- A number is in range if its magnitude stays three units in the last place below the greatest
double, and its exponent is one that the reader can hold. -/
theorem inRange_of_magnitude (short : Nat.ofDigitChars 10 numeral.exponent 0 < Nat.pow 2 31)
    (below : numeral.magnitude ≤ 2 ^ 1024 - 2 ^ 973) : numeral.InRange := by
  obtain ⟨value,shift,significant,scaled⟩ := significand_le numeral.whole numeral.fraction
  refine inRange_of_fits short significant (exceedsRange_of_le fun whole => ?_)
  have limit : rangeLimit = 2 ^ 1024 := by decide +kernel
  have total := (scaled_le_magnitude scaled).trans below
  rw [← Int.toNat_of_nonneg whole,zpow_natCast,le_sub_iff_add_le] at total
  rw [limit]
  exact_mod_cast total

/-- The bound is not the greatest double: this number is below it, and the roundings carry it out of
the range. -/
example : 1797693134862315707 * 10 ^ 290 < 2 ^ 1024 - 2 ^ 971 ∧
    exceedsRange 1797693134862315707 290 = true := by decide +kernel

end Numeral
end TreeQuery.Json
