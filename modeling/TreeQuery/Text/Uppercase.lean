import TreeQuery.Text.CaseTable

/-! The upper case of a text: every character is replaced by its full upper case, without
regard to its neighbours or to a language. `ß` becomes `SS`; a character without an upper case
stays as it is. -/
namespace TreeQuery.Text

def upperChar (c : Char) : List Char :=
  match caseRuns.find? (·.covers c.toNat) with
  | some run => [Char.ofNat (run.upper c.toNat)]
  | none =>
    match caseExpansions.lookup c.toNat with
    | some codes => codes.map Char.ofNat
    | none => [c]

def upper (text : List Char) : List Char := text.flatMap upperChar

def uppercase (s : String) : String := String.ofList (upper s.toList)

end TreeQuery.Text
