import Mathlib.Data.List.Forall2
import TreeQuery.Json.Reader

/-! The grammar of JSON texts, with the value that a text stands for. Blanks may stand around every
value, name and mark; a character of a string stands for itself or is escaped in one of several
ways; a number is one numeral whose value is in range. How deep a text nests is read off its value
(`Value.nesting`). -/
namespace TreeQuery.Json

def Blank (text : List Char) : Prop := ∀ c ∈ text, isBlank c = true

/-- Four hexadecimal digits that name a UTF-16 unit. -/
def SpellsUnit (unit : Nat) (digits : List Char) : Prop :=
  ∃ values, List.Forall₂ (fun digit value => hexValue? digit = some value) digits values ∧
    values.length = 4 ∧ hexNumber values = unit

/-- The ways to write a character of a string: as it is, behind a backslash, by its code or by its
two surrogates. -/
inductive SpellsChar : Char → List Char → Prop
  | plain {c : Char} (noQuote : c ≠ '"') (noBackslash : c ≠ '\\') (printable : 0x20 ≤ c.toNat) :
      SpellsChar c [c]
  | short {c mark : Char} (escape : shortEscape? mark = some c) : SpellsChar c ['\\',mark]
  | code {c : Char} {digits : List Char} (unit : SpellsUnit c.toNat digits) :
      SpellsChar c ('\\' :: 'u' :: digits)
  | pair {c : Char} {high low : Nat} {first second : List Char} (highUnit : SpellsUnit high first)
      (lowUnit : SpellsUnit low second) (isHigh : isHighSurrogate high = true)
      (isLow : isLowSurrogate low = true)
      (together : c.toNat = 0x10000 + (high - 0xd800) * 0x400 + (low - 0xdc00)) :
      SpellsChar c ('\\' :: 'u' :: first ++ '\\' :: 'u' :: second)

inductive SpellsChars : List Char → List Char → Prop
  | nil : SpellsChars [] []
  | cons {c : Char} {chars unit text : List Char} (first : SpellsChar c unit)
      (others : SpellsChars chars text) : SpellsChars (c :: chars) (unit ++ text)

def Digits (text : List Char) : Prop := ∀ c ∈ text, c.isDigit = true

/-- The parts of a well-formed number. -/
structure Numeral.Formed (numeral : Numeral) : Prop where
  sign : numeral.sign = [] ∨ numeral.sign = ['-']
  whole : numeral.whole = ['0'] ∨
    Digits numeral.whole ∧ numeral.whole ≠ [] ∧ numeral.whole.head? ≠ some '0'
  fraction : Digits numeral.fraction
  exponent : numeral.mark = [] ∧ numeral.exponent = [] ∨
    numeral.mark ∈ [['e'],['e','+'],['e','-'],['E'],['E','+'],['E','-']] ∧
      Digits numeral.exponent ∧ numeral.exponent ≠ []

/-- The number is finite as the reader computes it, rounding its digits, the power of ten and their
product. Some numbers just below the greatest double are refused; `inRange_of_magnitude` says which
are always in range. -/
def Numeral.InRange (numeral : Numeral) : Prop := numeral.check [] = .ok ()

mutual

/-- The texts of a value, from its first character to its last. -/
inductive Spells : Value → List Char → Prop
  | null : Spells .null ['n','u','l','l']
  | truth : Spells (.bool true) ['t','r','u','e']
  | falsity : Spells (.bool false) ['f','a','l','s','e']
  | number {numeral : Numeral} (formed : numeral.Formed) (inRange : numeral.InRange) :
      Spells (.number (String.ofList numeral.spelling)) numeral.spelling
  | string {string : String} {text : List Char} (chars : SpellsChars string.toList text) :
      Spells (.string string) ('"' :: text ++ ['"'])
  | emptyArray {text : List Char} (blank : Blank text) : Spells (.array []) ('[' :: text ++ [']'])
  | array {items : List Value} {text : List Char} (inside : WritesItems items text) :
      Spells (.array items) ('[' :: text ++ [']'])
  | emptyObject {text : List Char} (blank : Blank text) : Spells (.object []) ('{' :: text ++ ['}'])
  | object {members : List (String × Value)} {text : List Char}
      (inside : WritesMembers members text) : Spells (.object members) ('{' :: text ++ ['}'])

/-- A value with blanks around it; whole texts are of this form. -/
inductive Writes : Value → List Char → Prop
  | intro {value : Value} {before text after : List Char} (left : Blank before)
      (spelled : Spells value text) (right : Blank after) : Writes value (before ++ (text ++ after))

inductive WritesItems : List Value → List Char → Prop
  | last {value : Value} {text : List Char} (item : Writes value text) : WritesItems [value] text
  | more {value : Value} {values : List Value} {text rest : List Char} (item : Writes value text)
      (others : WritesItems values rest) : WritesItems (value :: values) (text ++ ',' :: rest)

inductive WritesMember : String × Value → List Char → Prop
  | intro {name : String} {value : Value} {before spelling after text : List Char}
      (left : Blank before) (chars : SpellsChars name.toList spelling) (right : Blank after)
      (inside : Writes value text) :
      WritesMember (name,value) (before ++ '"' :: (spelling ++ '"' :: (after ++ ':' :: text)))

inductive WritesMembers : List (String × Value) → List Char → Prop
  | last {member : String × Value} {text : List Char} (only : WritesMember member text) :
      WritesMembers [member] text
  | more {member : String × Value} {members : List (String × Value)} {text rest : List Char}
      (first : WritesMember member text) (others : WritesMembers members rest) :
      WritesMembers (member :: members) (text ++ ',' :: rest)

end

mutual

/-- How many arrays and objects stand inside each other at the deepest place. -/
def Value.nesting : Value → Nat
  | .array items => nestingOfItems items + 1
  | .object members => nestingOfMembers members + 1
  | _ => 0

def nestingOfItems : List Value → Nat
  | [] => 0
  | value :: values => max value.nesting (nestingOfItems values)

def nestingOfMembers : List (String × Value) → Nat
  | [] => 0
  | (_,value) :: members => max value.nesting (nestingOfMembers members)

end

end TreeQuery.Json
