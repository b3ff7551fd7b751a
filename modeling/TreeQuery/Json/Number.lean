import TreeQuery.Json.Front
import TreeQuery.Json.Range

/-! Reading numbers: a sign, a whole part without leading zeros, a fraction and an exponent. A
number is read to its end before its range is checked. -/
namespace TreeQuery.Json

def digitsOf (text : List Char) : List Char := text.takeWhile Char.isDigit

def pastDigits (text : List Char) : List Char := text.dropWhile Char.isDigit

def readDigits (text : List Char) : Except Stop (List Char × List Char) :=
  if (digitsOf text).isEmpty then stopAt .invalidNumber .eofValue text
  else .ok (digitsOf text,pastDigits text)

def readWhole : List Char → Except Stop (List Char × List Char)
  | '0' :: rest =>
    if (digitsOf rest).isEmpty then .ok (['0'],rest) else stopAt .invalidNumber .invalidNumber rest
  | text => readDigits text

def readFraction : List Char → Except Stop (List Char × List Char)
  | '.' :: rest => readDigits rest
  | text => .ok ([],text)

def exponentMark : List Char → List Char × List Char
  | 'e' :: '+' :: rest => (['e','+'],rest)
  | 'e' :: '-' :: rest => (['e','-'],rest)
  | 'e' :: rest => (['e'],rest)
  | 'E' :: '+' :: rest => (['E','+'],rest)
  | 'E' :: '-' :: rest => (['E','-'],rest)
  | 'E' :: rest => (['E'],rest)
  | text => ([],text)

def readExponent (text : List Char) : Except Stop ((List Char × List Char) × List Char) :=
  match exponentMark text with
  | ([],_) => .ok (([],[]),text)
  | (mark,text) => do
    let (digits,rest) ← readDigits text
    return ((mark,digits),rest)

def signOf : List Char → List Char × List Char
  | '-' :: rest => (['-'],rest)
  | text => ([],text)

structure Numeral where
  sign : List Char
  whole : List Char
  fraction : List Char
  mark : List Char
  exponent : List Char
  deriving Repr,DecidableEq

namespace Numeral

def spelling (numeral : Numeral) : List Char :=
  numeral.sign ++ numeral.whole ++
    (if numeral.fraction.isEmpty then [] else '.' :: numeral.fraction) ++
    numeral.mark ++ numeral.exponent

/-- Check the range of a number that ends before `rest`. An exponent beyond `2 ^ 31 - 1` puts a
number other than zero out of range at the digit that makes it so, unless it is negative. -/
def check (numeral : Numeral) (rest : List Char) : Except Stop Unit :=
  let (value,power) := significand numeral.whole numeral.fraction
  let negative := numeral.mark.contains '-'
  match absorb (Nat.pow 2 31) 0 numeral.exponent with
  | (exponent,[]) =>
    let power := if negative then power - exponent else power + exponent
    if exceedsRange value power then .error ⟨.numberOutOfRange,rest,0⟩ else .ok ()
  | (_,_ :: later) =>
    if value != 0 && !negative then .error ⟨.numberOutOfRange,later ++ rest,0⟩ else .ok ()

end Numeral

def readNumeral (text : List Char) : Except Stop (Numeral × List Char) := do
  let (whole,afterWhole) ← readWhole (signOf text).2
  let (fraction,afterFraction) ← readFraction afterWhole
  let ((mark,exponent),rest) ← readExponent afterFraction
  return (⟨(signOf text).1,whole,fraction,mark,exponent⟩,rest)

def readNumber (text : List Char) : Except Stop (Value × List Char) := do
  let (numeral,rest) ← readNumeral text
  numeral.check rest
  return (.number (String.ofList numeral.spelling),rest)

theorem readDigits_length {text digits rest : List Char}
    (read : readDigits text = .ok (digits,rest)) : rest.length < text.length := by
  unfold readDigits at read
  split at read
  · exact absurd read stopAt_not_ok
  · rename_i filled
    simp only [Except.ok.injEq,Prod.mk.injEq] at read
    obtain ⟨_,rfl⟩ := read
    have whole : digitsOf text ++ pastDigits text = text := List.takeWhile_append_dropWhile
    have positive : 0 < (digitsOf text).length := by
      simpa [List.length_pos_iff,List.isEmpty_iff] using filled
    have total := congrArg List.length whole
    rw [List.length_append] at total
    omega

theorem readWhole_length {text digits rest : List Char}
    (read : readWhole text = .ok (digits,rest)) : rest.length < text.length := by
  unfold readWhole at read
  split at read
  · split at read
    · cases read
      simp
    · exact absurd read stopAt_not_ok
  · exact readDigits_length read

theorem readFraction_length {text digits rest : List Char}
    (read : readFraction text = .ok (digits,rest)) : rest.length ≤ text.length := by
  unfold readFraction at read
  split at read
  · have bound := readDigits_length read
    simp only [List.length_cons]
    omega
  · cases read
    exact Nat.le_refl _

theorem exponentMark_length (text : List Char) : (exponentMark text).2.length ≤ text.length := by
  unfold exponentMark
  split <;> simp <;> omega

theorem readExponent_length {text rest : List Char} {parts : List Char × List Char}
    (read : readExponent text = .ok (parts,rest)) : rest.length ≤ text.length := by
  unfold readExponent at read
  split at read
  · cases read
    exact Nat.le_refl _
  · rename_i mark after _ found
    obtain ⟨⟨digits,left⟩,digitsRead,last⟩ := bind_eq_ok_iff.mp read
    cases last
    have bound := readDigits_length digitsRead
    have markBound := exponentMark_length text
    rw [found] at markBound
    exact Nat.le_trans (Nat.le_of_lt bound) markBound

theorem signOf_length (text : List Char) : (signOf text).2.length ≤ text.length := by
  unfold signOf
  split <;> simp

theorem readNumeral_length {text rest : List Char} {numeral : Numeral}
    (read : readNumeral text = .ok (numeral,rest)) : rest.length < text.length := by
  obtain ⟨⟨whole,afterWhole⟩,wholeRead,read⟩ := bind_eq_ok_iff.mp read
  obtain ⟨⟨fraction,afterFraction⟩,fractionRead,read⟩ := bind_eq_ok_iff.mp read
  obtain ⟨⟨exponent,left⟩,exponentRead,read⟩ := bind_eq_ok_iff.mp read
  cases read
  have sign := signOf_length text
  have first := readWhole_length wholeRead
  have second := readFraction_length fractionRead
  have third := readExponent_length exponentRead
  omega

theorem readNumber_length {text rest : List Char} {value : Value}
    (read : readNumber text = .ok (value,rest)) : rest.length < text.length := by
  obtain ⟨⟨numeral,left⟩,numeralRead,read⟩ := bind_eq_ok_iff.mp read
  obtain ⟨_,_,read⟩ := bind_eq_ok_iff.mp read
  cases read
  exact readNumeral_length numeralRead

end TreeQuery.Json
