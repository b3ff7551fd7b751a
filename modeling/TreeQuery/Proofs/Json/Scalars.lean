import TreeQuery.Proofs.Json.Grammar

/-! Reading strings and numbers. In front of any further text the readers take exactly the
characters that the grammar gives to a string or a number; a number must not be followed by a
character that could belong to it. -/
namespace TreeQuery.Json

variable {c : Char} {chars text rest unit digits : List Char}

/-! Strings. -/

theorem readHex_append {code : Nat} (spelled : SpellsUnit code digits) :
    readHex (digits ++ rest) = .ok (code,rest) := by
  obtain ⟨values,each,length,rfl⟩ := spelled
  obtain ⟨p,q,r,s,rfl⟩ := List.length_eq_four.mp length
  cases each with
  | cons first each => cases each with
    | cons second each => cases each with
      | cons third each => cases each with
        | cons fourth each =>
          cases each
          simp [readHex,first,second,third,fourth]

theorem not_surrogate (c : Char) :
    isLowSurrogate c.toNat = false ∧ isHighSurrogate c.toNat = false := by
  have valid : c.toNat.isValidChar := c.valid
  simp only [isLowSurrogate,isHighSurrogate,Bool.and_eq_false_iff,decide_eq_false_iff_not]
  unfold Nat.isValidChar at valid
  omega

theorem readCodePoint_unit (spelled : SpellsUnit c.toNat digits) :
    readCodePoint (digits ++ rest) = .ok (c,rest) := by
  obtain ⟨noLow,noHigh⟩ := not_surrogate c
  simp [readCodePoint,readHex_append spelled,noLow,noHigh]

theorem readCodePoint_pair {high low : Nat} {first second : List Char}
    (highUnit : SpellsUnit high first) (lowUnit : SpellsUnit low second)
    (isHigh : isHighSurrogate high = true) (isLow : isLowSurrogate low = true)
    (together : c.toNat = 0x10000 + (high - 0xd800) * 0x400 + (low - 0xdc00)) :
    readCodePoint (first ++ '\\' :: 'u' :: (second ++ rest)) = .ok (c,rest) := by
  have noLow : isLowSurrogate high = false := by
    simp only [isHighSurrogate,isLowSurrogate,Bool.and_eq_true,decide_eq_true_eq,
      Bool.and_eq_false_iff,decide_eq_false_iff_not] at isHigh ⊢
    omega
  have pair : surrogatePair high low = c := by
    rw [surrogatePair,← together,Char.ofNat_toNat]
  simp [readCodePoint,readHex_append highUnit,noLow,isHigh,readLowSurrogate,readHex_append lowUnit,
    isLow,pair]

theorem readUnit_append (spelled : SpellsChar c unit) :
    readUnit (unit ++ rest) = .ok (some c,rest) := by
  cases spelled with
  | plain noQuote noBackslash printable =>
    simp [readUnit,noQuote,noBackslash,Nat.not_lt.mpr printable]
  | @short mark escape =>
    have noUnit : mark ≠ 'u' := by
      rintro rfl
      simp [shortEscape?] at escape
    simp [readUnit,readEscape,noUnit,escape,pure,Except.pure]
  | code spelled => simp [readUnit,readEscape,readCodePoint_unit spelled,pure,Except.pure]
  | pair highUnit lowUnit isHigh isLow together =>
    simp [readUnit,readEscape,readCodePoint_pair highUnit lowUnit isHigh isLow together,pure,
      Except.pure]

theorem readChars_append {before : List Char} (spelled : SpellsChars chars text) :
    readChars before (text ++ '"' :: rest) =
      .ok (String.ofList (before.reverse ++ chars),rest) := by
  induction spelled generalizing before with
  | nil =>
    have closing : readUnit ('"' :: rest) = .ok (none,rest) := by simp [readUnit]
    rw [List.nil_append,readChars]
    split <;> simp_all
  | @cons c chars unit text first others ih =>
    have one : readUnit (unit ++ (text ++ '"' :: rest)) = .ok (some c,text ++ '"' :: rest) :=
      readUnit_append first
    rw [List.append_assoc,readChars]
    split
    · simp_all
    · simp_all
    · rename_i found
      rw [one] at found
      cases found
      rw [ih]
      simp

theorem readString_append {string : String} (spelled : SpellsChars string.toList text) :
    readString (text ++ '"' :: rest) = .ok (string,rest) := by
  simp [readString,readChars_append spelled]

/-! Numbers. A number ends where no further character can belong to it. -/

def NoDigit (text : List Char) : Prop := ∀ c ∈ text.head?, c.isDigit = false

def NumberEnds (text : List Char) : Prop :=
  ∀ c ∈ text.head?, c.isDigit = false ∧ c ≠ '.' ∧ c ≠ 'e' ∧ c ≠ 'E'

theorem NumberEnds.noDigit (ends : NumberEnds text) : NoDigit text := fun c head => (ends c head).1

theorem digitsOf_append (all : Digits digits) (ends : NoDigit rest) :
    digitsOf (digits ++ rest) = digits ∧ pastDigits (digits ++ rest) = rest := by
  have stop : rest.takeWhile Char.isDigit = [] ∧ rest.dropWhile Char.isDigit = rest := by
    cases rest with
    | nil => exact ⟨rfl,rfl⟩
    | cons c rest => simp [ends c rfl]
  rw [digitsOf,pastDigits,List.takeWhile_append_of_pos all,List.dropWhile_append_of_pos all]
  simp [stop]

theorem readDigits_append (all : Digits digits) (filled : digits ≠ []) (ends : NoDigit rest) :
    readDigits (digits ++ rest) = .ok (digits,rest) := by
  obtain ⟨taken,left⟩ := digitsOf_append all ends
  simp [readDigits,taken,left,filled]

theorem readWhole_append {whole : List Char}
    (formed : whole = ['0'] ∨ Digits whole ∧ whole ≠ [] ∧ whole.head? ≠ some '0')
    (ends : NoDigit rest) : readWhole (whole ++ rest) = .ok (whole,rest) := by
  rcases formed with rfl | ⟨all,filled,noZero⟩
  · have none : digitsOf ([] ++ rest) = [] := (digitsOf_append (by simp [Digits]) ends).1
    rw [List.nil_append] at none
    simp [readWhole,none]
  · obtain ⟨d,others,rfl⟩ := List.exists_cons_of_ne_nil filled
    have first : d ≠ '0' := by simpa using noZero
    rw [← readDigits_append all filled ends,List.cons_append,readWhole]
    simpa using first

theorem readFraction_append {fraction : List Char} (all : Digits fraction) (ends : NoDigit rest)
    (noDot : rest.head? ≠ some '.') :
    readFraction ((if fraction.isEmpty then [] else '.' :: fraction) ++ rest) =
      .ok (fraction,rest) := by
  cases fraction with
  | nil =>
    cases rest with
    | nil => rfl
    | cons c rest =>
      have other : c ≠ '.' := by simpa using noDot
      simp [readFraction,other]
  | cons d fraction => exact readDigits_append all (by simp) ends

theorem exponentMark_append {mark : List Char}
    (listed : mark ∈ [['e'],['e','+'],['e','-'],['E'],['E','+'],['E','-']])
    (all : Digits digits) (filled : digits ≠ []) :
    exponentMark (mark ++ (digits ++ rest)) = (mark,digits ++ rest) := by
  obtain ⟨d,others,rfl⟩ := List.exists_cons_of_ne_nil filled
  have digit : d.isDigit = true := all d (by simp)
  have noPlus : d ≠ '+' := by
    rintro rfl
    simp at digit
  have noMinus : d ≠ '-' := by
    rintro rfl
    simp at digit
  simp only [List.mem_cons,List.not_mem_nil,or_false] at listed
  rcases listed with rfl | rfl | rfl | rfl | rfl | rfl <;> simp [exponentMark,noPlus,noMinus]

theorem readExponent_append {mark exponent : List Char}
    (formed : mark = [] ∧ exponent = [] ∨
      mark ∈ [['e'],['e','+'],['e','-'],['E'],['E','+'],['E','-']] ∧
        Digits exponent ∧ exponent ≠ [])
    (ends : NumberEnds rest) :
    readExponent (mark ++ (exponent ++ rest)) = .ok ((mark,exponent),rest) := by
  rcases formed with ⟨rfl,rfl⟩ | ⟨listed,all,filled⟩
  · have none : exponentMark rest = ([],rest) := by
      cases rest with
      | nil => rfl
      | cons c rest =>
        obtain ⟨_,_,noSmall,noLarge⟩ := ends c rfl
        simp [exponentMark,noSmall,noLarge]
    simp [readExponent,none]
  · have marked : exponentMark (mark ++ (exponent ++ rest)) = (mark,exponent ++ rest) :=
      exponentMark_append listed all filled
    have some : mark ≠ [] := by
      rintro rfl
      simp at listed
    obtain ⟨d,others,rfl⟩ := List.exists_cons_of_ne_nil some
    simp only [readExponent,marked,readDigits_append all filled ends.noDigit,ok_bind]
    rfl

namespace Numeral

variable {numeral : Numeral}

theorem Formed.noDigit_exponent (formed : numeral.Formed) (ends : NumberEnds rest) :
    NoDigit (numeral.mark ++ (numeral.exponent ++ rest)) ∧
      (numeral.mark ++ (numeral.exponent ++ rest)).head? ≠ some '.' := by
  rcases formed.exponent with ⟨noMark,noExponent⟩ | ⟨listed,_⟩
  · rw [noMark,noExponent]
    refine ⟨ends.noDigit,fun dot => (ends '.' dot).2.1 rfl⟩
  · simp only [List.mem_cons,List.not_mem_nil,or_false] at listed
    rcases listed with same | same | same | same | same | same <;> simp [same,NoDigit]

theorem Formed.head_whole (formed : numeral.Formed) :
    ∃ d others, numeral.whole = d :: others ∧ d.isDigit = true := by
  rcases formed.whole with zero | ⟨all,filled,_⟩
  · exact ⟨'0',[],zero,rfl⟩
  · obtain ⟨d,others,same⟩ := List.exists_cons_of_ne_nil filled
    exact ⟨d,others,same,all d (by simp [same])⟩

theorem Formed.readNumeral_append (formed : numeral.Formed) (ends : NumberEnds rest) :
    readNumeral (numeral.spelling ++ rest) = .ok (numeral,rest) := by
  obtain ⟨sign,whole,fraction,mark,exponent⟩ := numeral
  have behind := formed.noDigit_exponent ends
  simp only at behind
  have behindWhole : NoDigit ((if fraction.isEmpty then [] else '.' :: fraction) ++
      (mark ++ (exponent ++ rest))) := by
    cases fraction with
    | nil => exact behind.1
    | cons => simp [NoDigit]
  obtain ⟨d,others,starts,digit⟩ := formed.head_whole
  have signed : signOf (sign ++ (whole ++ ((if fraction.isEmpty then [] else '.' :: fraction) ++
      (mark ++ (exponent ++ rest))))) =
        (sign,whole ++ ((if fraction.isEmpty then [] else '.' :: fraction) ++
          (mark ++ (exponent ++ rest)))) := by
    rcases formed.sign with same | same
    · have noMinus : d ≠ '-' := by
        rintro rfl
        simp at digit
      simp_all [signOf]
    · simp_all [signOf]
  simp only [spelling,List.append_assoc] at signed ⊢
  rw [readNumeral,signed]
  simp only [readWhole_append formed.whole behindWhole,ok_bind,
    readFraction_append formed.fraction behind.1 behind.2,readExponent_append formed.exponent ends]
  rfl

/-- Whether a number is in range does not depend on what follows it. -/
theorem check_eq_ok_iff : numeral.check rest = .ok () ↔ numeral.InRange := by
  unfold InRange Numeral.check
  simp only
  split <;> split <;> simp

end Numeral

theorem readNumber_append {numeral : Numeral} (formed : numeral.Formed) (inRange : numeral.InRange)
    (ends : NumberEnds rest) :
    readNumber (numeral.spelling ++ rest) = .ok (.number (String.ofList numeral.spelling),rest) := by
  simp only [readNumber,formed.readNumeral_append ends,Numeral.check_eq_ok_iff.mpr inRange,ok_bind]
  rfl

end TreeQuery.Json
