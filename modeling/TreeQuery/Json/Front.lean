import TreeQuery.Json.Fault
import TreeQuery.Json.Value
import TreeQuery.Outcome

/-! Reading from the front of a text. A result is a value with the text that is left behind it.
A reader always uses up some of the text it succeeds on; that is what ends every loop. -/
namespace TreeQuery.Json

structure Reader (α : Type) where
  run : List Char → Except Stop (α × List Char)
  shorter : ∀ {text value rest}, run text = .ok (value,rest) → rest.length < text.length

/-- Stop at the first character of a text, or with another fault where the text has ended. -/
def stopAt {α : Type} (fault atEnd : Fault) : List Char → Except Stop α
  | [] => .error ⟨atEnd,[],0⟩
  | c :: rest => .error ⟨fault,c :: rest,1⟩

theorem stopAt_not_ok {α : Type} {fault atEnd : Fault} {text : List Char} {value : α} :
    stopAt fault atEnd text ≠ .ok value := by
  cases text <;> simp [stopAt]

def isBlank (c : Char) : Bool := c == ' ' || c == '\t' || c == '\n' || c == '\r'

def skipBlank (text : List Char) : List Char := text.dropWhile isBlank

theorem skipBlank_length (text : List Char) : (skipBlank text).length ≤ text.length :=
  (List.dropWhile_sublist _).length_le

theorem skipBlank_cons {text rest : List Char} {c : Char} (found : skipBlank text = c :: rest) :
    rest.length < text.length := by
  have bound := skipBlank_length text
  rw [found,List.length_cons] at bound
  omega

def readWord (value : Value) : List Char → List Char → Except Stop (Value × List Char)
  | [],text => .ok (value,text)
  | _ :: _,[] => .error ⟨.eofValue,[],0⟩
  | c :: word,d :: rest =>
    if c = d then readWord value word rest else .error ⟨.expectedIdent,d :: rest,1⟩

theorem readWord_length {value result : Value} {word text rest : List Char}
    (read : readWord value word text = .ok (result,rest)) : rest.length ≤ text.length := by
  induction word generalizing text with
  | nil =>
    simp only [readWord,Except.ok.injEq,Prod.mk.injEq] at read
    simp [read.2]
  | cons c word ih =>
    cases text with
    | nil => simp [readWord] at read
    | cons d text =>
      simp only [readWord] at read
      split at read
      · exact Nat.le_trans (ih read) (by simp)
      · simp at read

end TreeQuery.Json
