import TreeQuery.Text.Split

/-! Where a text is cut. A mark occurs in a text exactly if it is a block of it, and a cut is made
where the mark stands first (`splitFirst?_eq_some_iff`), so at one whose first character does not
stand before it. A text without spaces is one piece. -/
namespace TreeQuery.Text

/-- The parts of a text before and behind a mark that stands nowhere earlier. -/
structure FirstCut (mark text before after : List Char) : Prop where
  joined : text = before ++ mark ++ after
  first : ∀ before' after', text = before' ++ mark ++ after' → before.length ≤ before'.length

theorem occurs_cons (mark rest : List Char) (c : Char) :
    occurs mark (c :: rest) = (mark.isPrefixOf (c :: rest) || occurs mark rest) := by
  unfold occurs
  rw [splitFirst?]
  split <;> simp_all

theorem occurs_iff_block {mark text : List Char} : occurs mark text = true ↔ mark <:+: text := by
  induction text with
  | nil => simp [occurs,splitFirst?]
  | cons c rest ih => rw [occurs_cons,Bool.or_eq_true,ih,List.isPrefixOf_iff_prefix,List.infix_cons_iff]

theorem occurs_singleton {c : Char} {text : List Char} : occurs [c] text = true ↔ c ∈ text := by
  rw [occurs_iff_block,List.mem_iff_append]
  simp [List.IsInfix,eq_comm]

theorem exists_cut {mark text : List Char} (found : occurs mark text = true) :
    ∃ before after, splitFirst? mark text = some (before,after) := by
  obtain ⟨⟨before,after⟩,cut⟩ := Option.isSome_iff_exists.mp found
  exact ⟨before,after,cut⟩

/-- A text that does not begin with a mark has something in front of the first one. -/
theorem exists_front {c : Char} {text : List Char} (inside : c ∈ text) (later : text.head? ≠ some c) :
    ∃ front back, text = front ++ c :: back ∧ c ∉ front ∧ front ≠ [] := by
  obtain ⟨front,back,joined,first⟩ := List.eq_append_cons_of_mem inside
  refine ⟨front,back,joined,first,?_⟩
  rintro rfl
  exact later (joined ▸ rfl)

theorem splitFirst?_first {mark text before after : List Char}
    (cut : splitFirst? mark text = some (before,after)) :
    ∀ before' after', text = before' ++ mark ++ after' → before.length ≤ before'.length := by
  induction text generalizing before with
  | nil =>
    obtain ⟨rfl,_⟩ : before = [] ∧ mark = [] ∧ after = [] := by
      simpa using (splitFirst?_eq_some cut).symm
    exact fun _ _ _ => Nat.zero_le _
  | cons c rest ih =>
    rw [splitFirst?] at cut
    intro before' after' joined
    split at cut
    · cases cut
      exact Nat.zero_le _
    · rename_i notHere
      obtain ⟨⟨front,back⟩,inner,same⟩ := Option.map_eq_some_iff.mp cut
      cases same
      cases before' with
      | nil => exact absurd (List.isPrefixOf_iff_prefix.mpr ⟨after',joined.symm⟩) notHere
      | cons d front' =>
        obtain ⟨rfl,later⟩ : c = d ∧ rest = front' ++ mark ++ after' := by simpa using joined
        exact Nat.succ_le_succ (ih inner front' after' later)

theorem splitFirst?_eq_some_iff {mark text before after : List Char} :
    splitFirst? mark text = some (before,after) ↔ FirstCut mark text before after := by
  constructor
  · intro cut
    exact ⟨splitFirst?_eq_some cut,splitFirst?_first cut⟩
  · rintro ⟨joined,first⟩
    have found : occurs mark text = true := occurs_iff_block.mpr ⟨before,after,joined.symm⟩
    obtain ⟨before',after',cut⟩ := exists_cut found
    have joined' := splitFirst?_eq_some cut
    have length : before.length = before'.length :=
      Nat.le_antisymm (first before' after' joined') (splitFirst?_first cut before after joined)
    rw [joined,List.append_assoc,List.append_assoc] at joined'
    obtain ⟨rfl,rest⟩ := List.append_inj joined' length
    rw [cut,List.append_cancel_left rest]

theorem splitFirst?_of_absent {c : Char} {mark before after : List Char} (absent : c ∉ before) :
    splitFirst? (c :: mark) (before ++ (c :: mark) ++ after) = some (before,after) := by
  induction before with
  | nil => simp [splitFirst?,List.isPrefixOf]
  | cons d before ih =>
    obtain ⟨different,absent⟩ : c ≠ d ∧ c ∉ before := by simpa using absent
    simp only [List.append_assoc,List.cons_append] at ih ⊢
    simp [splitFirst?,List.isPrefixOf,different,ih absent]

theorem splitFirst?_singleton {c : Char} {text before after : List Char} :
    splitFirst? [c] text = some (before,after) ↔ text = before ++ c :: after ∧ c ∉ before := by
  constructor
  · intro cut
    refine ⟨by simpa using splitFirst?_eq_some cut,?_⟩
    induction text generalizing before with
    | nil => simp [splitFirst?] at cut
    | cons d rest ih =>
      rw [splitFirst?] at cut
      split at cut
      · simp_all
      · rename_i different
        obtain ⟨⟨first,second⟩,inner,same⟩ := Option.map_eq_some_iff.mp cut
        cases same
        have apart : c ≠ d := by simpa [List.isPrefixOf] using different
        simp [apart,ih inner]
  · rintro ⟨rfl,absent⟩
    rw [List.append_cons]
    exact splitFirst?_of_absent absent

theorem pieces_of_noSpace {text : List Char} (noSpace : ' ' ∉ text) : pieces text = [text] := by
  induction text with
  | nil => rfl
  | cons c rest ih =>
    obtain ⟨different,noSpace⟩ : ' ' ≠ c ∧ ' ' ∉ rest := by simpa using noSpace
    simp [pieces,Ne.symm different,ih noSpace]

theorem tokens_of_noSpace {text : List Char} (filled : text ≠ []) (noSpace : ' ' ∉ text) :
    tokens text = [text] := by
  simp [tokens,pieces_of_noSpace noSpace,filled]

end TreeQuery.Text
