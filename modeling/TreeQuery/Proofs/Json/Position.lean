import Mathlib.Data.List.DropRight
import TreeQuery.Json.Fault

/-! The position of a character in a text: its line is told by the newlines in front of it, its
column by the bytes in front of it on its line (`Position.behind`). A fault that stands at a character
is reported there (`toError_at`). -/
namespace TreeQuery.Json

variable {front rest : List Char} {c : Char} {fault : Fault}

/-- The position of the character behind a text. Lines and the bytes of a line count from 1. -/
def Position.behind (front : List Char) : Position :=
  ⟨front.count '\n' + 1,byteLength (front.rtakeWhile (· != '\n')) + 1⟩

theorem byteLength_cons : byteLength (c :: rest) = c.utf8Size + byteLength rest := rfl

theorem byteLength_append : byteLength (front ++ rest) = byteLength front + byteLength rest := by
  induction front with
  | nil => simp [byteLength]
  | cons c front ih =>
    rw [List.cons_append,byteLength_cons,byteLength_cons,ih]
    omega

namespace Position

theorem advance_zero (line column : Nat) : advance line column rest 0 = ⟨line,column⟩ := by
  cases rest with
  | nil => rfl
  | cons c rest => simp [advance,c.utf8Size_pos]

theorem advance_char (line column more : Nat) :
    advance line column (c :: rest) (c.utf8Size + more) =
      if c = '\n' then advance (line + 1) 0 rest more
      else advance line (column + c.utf8Size) rest more := by
  rw [advance,if_neg (Nat.not_lt.mpr (Nat.le_add_right _ _)),Nat.add_sub_cancel_left]

theorem advance_append (more : Nat) :
    advance 1 0 (front ++ rest) (byteLength front + more) =
      advance (front.count '\n' + 1) (byteLength (front.rtakeWhile (· != '\n'))) rest more := by
  induction front using List.reverseRecOn generalizing rest more with
  | nil => simp [byteLength]
  | append_singleton front c ih =>
    have length : byteLength (front ++ [c]) + more = byteLength front + (c.utf8Size + more) := by
      rw [byteLength_append,byteLength_cons]
      simp only [byteLength,List.foldr_nil]
      omega
    rw [length,List.append_assoc,List.singleton_append,ih,advance_char,List.count_append,
      List.rtakeWhile_concat]
    by_cases newline : c = '\n'
    · simp [newline,byteLength]
    · have one : byteLength [c] = c.utf8Size := rfl
      simp [newline,byteLength_append,one]

/-- One byte into a character that is no newline is the column of the character. -/
theorem after_char (dark : c ≠ '\n') :
    after (front ++ c :: rest) (byteLength front + 1) = behind front := by
  rw [after,advance_append,behind,advance]
  by_cases wide : 1 < c.utf8Size
  · rw [if_pos wide]
  · have one : c.utf8Size = 1 := Nat.le_antisymm (Nat.not_lt.mp wide) c.utf8Size_pos
    rw [if_neg wide,if_neg dark,one,Nat.sub_self,advance_zero]

end Position

theorem toError_at (dark : c ≠ '\n') :
    Stop.toError ⟨fault,c :: rest,1⟩ (front ++ c :: rest) = ⟨fault,Position.behind front⟩ := by
  have offset : Stop.offset ⟨fault,c :: rest,1⟩ (front ++ c :: rest) = byteLength front + 1 := by
    rw [Stop.offset,byteLength_append,Nat.add_sub_cancel_right]
  rw [Stop.toError,offset,Position.after_char dark]

end TreeQuery.Json
