/-! Cutting texts, taken as lists of characters: at the first occurrence of a mark, and
into the pieces between spaces. Only U+0020 counts as a space; a tab or a newline is an
ordinary character. A cut loses nothing (`splitFirst?_eq_some`) and both of its parts are
shorter than the whole when the mark is not empty. -/
namespace TreeQuery.Text

/-- The parts before and after the first occurrence of `mark`. -/
def splitFirst? (mark : List Char) : List Char → Option (List Char × List Char)
  | [] => if mark.isEmpty then some ([],[]) else none
  | c :: rest =>
    if mark.isPrefixOf (c :: rest) then some ([],(c :: rest).drop mark.length)
    else (splitFirst? mark rest).map fun (before,after) => (c :: before,after)

def occurs (mark text : List Char) : Bool := (splitFirst? mark text).isSome

theorem splitFirst?_eq_some {mark text before after : List Char}
    (cut : splitFirst? mark text = some (before,after)) : text = before ++ mark ++ after := by
  induction text generalizing before with
  | nil =>
    simp only [splitFirst?] at cut
    split at cut
    · rename_i empty
      simp_all
    · simp at cut
  | cons c rest ih =>
    simp only [splitFirst?] at cut
    split at cut
    · rename_i starts
      obtain ⟨tail,same⟩ := List.isPrefixOf_iff_prefix.mp starts
      rw [← same] at cut
      simp only [Option.some.injEq,Prod.mk.injEq,List.drop_left] at cut
      obtain ⟨rfl,rfl⟩ := cut
      simp [same]
    · obtain ⟨⟨first,second⟩,inner,same⟩ := Option.map_eq_some_iff.mp cut
      simp only [Prod.mk.injEq] at same
      obtain ⟨rfl,rfl⟩ := same
      simp [ih inner]

theorem splitFirst?_length {mark text before after : List Char}
    (cut : splitFirst? mark text = some (before,after)) :
    text.length = before.length + mark.length + after.length := by
  rw [splitFirst?_eq_some cut,List.length_append,List.length_append]

/-- The pieces between spaces, empty ones included: one more than there are spaces. -/
def pieces : List Char → List (List Char)
  | [] => [[]]
  | c :: rest =>
    if c = ' ' then [] :: pieces rest
    else match pieces rest with
      | [] => [[c]]
      | first :: others => (c :: first) :: others

/-- The non-empty pieces between spaces, in their order, repetitions kept. -/
def tokens (text : List Char) : List (List Char) := (pieces text).filter fun piece => !piece.isEmpty

end TreeQuery.Text
