import Mathlib.Data.List.Basic
import TreeQuery.Proofs.Text.Cut

/-! Tokens as the blocks of a text between spaces. Everything comes from what a space does to a text:
the tokens in front of it and behind it are those of the two parts, and no token reaches over it
(`tokens_append_space`, `stands_append_space`). So the tokens are the pieces that stand between
spaces, each in its place (`exists_places`), and they are the names of which the text is joined by
spaces (`tokens_eq_iff`). -/
namespace TreeQuery.Text

/-- A piece of a text that is not empty, has no space in it and cannot be made longer: there is
nothing before it or a space, and nothing behind it or a space. -/
structure Stands (text before token after : List Char) : Prop where
  whole : text = before ++ (token ++ after)
  filled : token ≠ []
  noSpace : ' ' ∉ token
  left : before = [] ∨ before.getLast? = some ' '
  right : after = [] ∨ after.head? = some ' '

/-- The pieces of a text in the order in which they stand, each with what is before it. -/
structure Places (text : List Char) (places : List (List Char × List Char)) : Prop where
  ordered : places.Pairwise fun first second => first.1.length < second.1.length
  all : ∀ before token, (before,token) ∈ places ↔ ∃ after, Stands text before token after

/-- Names with at least one space between neighbours, and any number of spaces at both ends. -/
inductive Joined : List (List Char) → List Char → Prop
  | none (spaces : Nat) : Joined [] (List.replicate spaces ' ')
  | last {name : List Char} (before after : Nat) (filled : name ≠ []) (noSpace : ' ' ∉ name) :
      Joined [name] (List.replicate before ' ' ++ (name ++ List.replicate after ' '))
  | more {name next : List Char} {names : List (List Char)} {text : List Char} (before : Nat)
      (filled : name ≠ []) (noSpace : ' ' ∉ name) (others : Joined (next :: names) text) :
      Joined (name :: next :: names) (List.replicate before ' ' ++ (name ++ ' ' :: text))

variable {text front back before token after : List Char} {names : List (List Char)}

theorem space_induction {motive : List Char → Prop} (plain : ∀ text, ' ' ∉ text → motive text)
    (parted : ∀ front back, motive front → motive back → motive (front ++ ' ' :: back))
    (text : List Char) : motive text := by
  by_cases space : ' ' ∈ text
  · obtain ⟨front,back,rfl,noSpace⟩ := List.eq_append_cons_of_mem space
    have shorter : back.length < (front ++ ' ' :: back).length := by
      simp only [List.length_append,List.length_cons]
      omega
    exact parted front back (plain front noSpace) (space_induction plain parted back)
  · exact plain text space
termination_by text.length

theorem pieces_ne_nil (text : List Char) : pieces text ≠ [] := by
  cases text with
  | nil => simp [pieces]
  | cons c rest =>
    rw [pieces]
    split
    · simp
    · split <;> simp

theorem pieces_append_space : pieces (front ++ ' ' :: back) = pieces front ++ pieces back := by
  induction front with
  | nil => simp [pieces]
  | cons c front ih =>
    rw [List.cons_append,pieces,pieces,ih]
    split
    · rfl
    · obtain ⟨first,others,found⟩ := List.exists_cons_of_ne_nil (pieces_ne_nil front)
      simp [found]

theorem tokens_append_space : tokens (front ++ ' ' :: back) = tokens front ++ tokens back := by
  rw [tokens,pieces_append_space,List.filter_append]
  rfl

theorem tokens_nil : tokens [] = [] := rfl

theorem tokens_space : tokens (' ' :: text) = tokens text := by
  simpa [tokens_nil] using @tokens_append_space [] text

theorem tokens_spaces (spaces : Nat) :
    tokens (List.replicate spaces ' ' ++ text) = tokens text := by
  induction spaces with
  | zero => rfl
  | succ spaces ih => rw [List.replicate_succ,List.cons_append,tokens_space,ih]

theorem tokens_before_spaces (spaces : Nat) :
    tokens (text ++ List.replicate spaces ' ') = tokens text := by
  cases spaces with
  | zero => simp
  | succ spaces =>
    have blank : tokens (List.replicate spaces ' ') = [] := by
      simpa [tokens_nil] using @tokens_spaces [] spaces
    rw [List.replicate_succ,tokens_append_space,blank,List.append_nil]

/-! Pieces and their places. -/

theorem getLast?_space : (' ' :: text).getLast? = some ' ' ↔ text = [] ∨ text.getLast? = some ' ' := by
  cases last : text.getLast? with
  | none => simp [List.getLast?_eq_none_iff.mp last]
  | some c =>
    have filled : text ≠ [] := by
      rintro rfl
      simp at last
    simp [List.getLast?_cons,last,filled]

theorem Stands.inFront (stands : Stands front before token after) :
    Stands (front ++ ' ' :: back) before token (after ++ ' ' :: back) := by
  obtain ⟨rfl,filled,noSpace,left,right⟩ := stands
  refine ⟨by simp,filled,noSpace,left,.inr ?_⟩
  rcases right with rfl | space
  · rfl
  · simp [space]

theorem Stands.behind (stands : Stands back before token after) :
    Stands (front ++ ' ' :: back) (front ++ ' ' :: before) token after := by
  obtain ⟨rfl,filled,noSpace,left,right⟩ := stands
  refine ⟨by simp,filled,noSpace,.inr ?_,right⟩
  rw [List.getLast?_append_of_ne_nil _ (List.cons_ne_nil _ _)]
  exact getLast?_space.mpr left

/-- Of the text behind its beginning, a piece that stands in front of a space takes nothing of what
is behind the space. -/
theorem Stands.ends_before_space {whole tail : List Char}
    (stands : Stands whole before token after) (rest : token ++ after = tail ++ ' ' :: back) :
    ∃ between, tail = token ++ between ∧ (between = [] ∨ between.head? = some ' ') := by
  rcases List.append_eq_append_iff.mp rest with ⟨between,longer,later⟩ | ⟨taken,longer,later⟩
  · refine ⟨between,longer,?_⟩
    rcases stands.right with none | space
    · simp [none] at later
    · cases between <;> simp_all
  · cases taken with
    | nil => exact ⟨[],by simpa using longer.symm,.inl rfl⟩
    | cons c taken =>
      obtain ⟨rfl,_⟩ := List.cons.inj later
      exact absurd (longer ▸ List.mem_append_right _ List.mem_cons_self) stands.noSpace

/-- A piece of a text with a space in it stands wholly in front of the space or wholly behind it. -/
theorem stands_append_space :
    (∃ after, Stands (front ++ ' ' :: back) before token after) ↔
      (∃ after, Stands front before token after) ∨
        ∃ later, before = front ++ ' ' :: later ∧ ∃ after, Stands back later token after := by
  constructor
  · rintro ⟨after,stands⟩
    rcases List.append_eq_append_iff.mp stands.whole with ⟨later,longer,rest⟩ | ⟨tail,shorter,rest⟩
    · obtain ⟨c,others,starts⟩ := List.exists_cons_of_ne_nil stands.filled
      cases later with
      | nil =>
        have first : ' ' = c := by simpa [starts] using congrArg List.head? rest
        exact absurd (starts ▸ first ▸ List.mem_cons_self) stands.noSpace
      | cons d later =>
        obtain ⟨rfl,behind⟩ := List.cons.inj rest
        refine .inr ⟨later,longer,after,behind,stands.filled,stands.noSpace,?_,stands.right⟩
        have space := stands.left.resolve_left (by simp [longer])
        rw [longer,List.getLast?_append_of_ne_nil _ (List.cons_ne_nil _ _)] at space
        exact getLast?_space.mp space
    · obtain ⟨between,rfl,right⟩ := stands.ends_before_space rest
      exact .inl ⟨between,shorter,stands.filled,stands.noSpace,stands.left,right⟩
  · rintro (⟨after,stands⟩ | ⟨later,rfl,after,stands⟩)
    · exact ⟨_,stands.inFront⟩
    · exact ⟨_,stands.behind⟩

theorem places_append_space {first second : List (List Char × List Char)}
    (inFront : Places front first) (behind : Places back second) :
    Places (front ++ ' ' :: back)
      (first ++ second.map fun place => (front ++ ' ' :: place.1,place.2)) := by
  constructor
  case ordered =>
    refine List.pairwise_append.mpr ⟨inFront.ordered,?_,?_⟩
    · refine List.pairwise_map.mpr (behind.ordered.imp fun less => ?_)
      simpa using less
    · rintro ⟨before,token⟩ member place later
      obtain ⟨after,stands⟩ := (inFront.all before token).mp member
      obtain ⟨⟨before',token'⟩,_,rfl⟩ := List.mem_map.mp later
      have inside := congrArg List.length stands.whole
      simp only [List.length_append,List.length_cons] at inside ⊢
      omega
  case all =>
    intro before token
    rw [stands_append_space,List.mem_append,inFront.all,List.mem_map]
    apply or_congr_right
    constructor
    · rintro ⟨⟨later,token⟩,member,same⟩
      cases same
      exact ⟨later,rfl,(behind.all later token).mp member⟩
    · rintro ⟨later,rfl,stands⟩
      exact ⟨(later,token),(behind.all later token).mpr stands,rfl⟩

theorem stands_of_noSpace (noSpace : ' ' ∉ text) :
    (∃ after, Stands text before token after) ↔ before = [] ∧ token = text ∧ text ≠ [] := by
  constructor
  · rintro ⟨after,rfl,filled,_,left,right⟩
    have noFront : before = [] := by
      refine left.resolve_right fun space => noSpace ?_
      exact List.mem_append_left _ (List.mem_of_getLast? space)
    have noBack : after = [] := by
      refine right.resolve_right fun space => noSpace ?_
      exact List.mem_append_right _ (List.mem_append_right _ (List.mem_of_head? space))
    subst noFront noBack
    simpa using filled
  · rintro ⟨rfl,rfl,filled⟩
    exact ⟨[],by simp,filled,noSpace,.inl rfl,.inl rfl⟩

/-- The tokens of a text are its pieces, in their order and as often as they stand in it. -/
theorem exists_places (text : List Char) :
    ∃ places, Places text places ∧ tokens text = places.map (·.2) := by
  induction text using space_induction with
  | plain text noSpace =>
    by_cases filled : text = []
    · refine ⟨[],⟨.nil,fun before token => ?_⟩,?_⟩
      · rw [stands_of_noSpace noSpace]
        simp [filled]
      · simp [filled,tokens_nil]
    · refine ⟨[([],text)],⟨List.pairwise_singleton _ _,fun before token => ?_⟩,?_⟩
      · rw [stands_of_noSpace noSpace]
        simp [filled]
      · simp [tokens_of_noSpace filled noSpace]
  | parted front back inFront behind =>
    obtain ⟨first,firstPlaces,firstTokens⟩ := inFront
    obtain ⟨second,secondPlaces,secondTokens⟩ := behind
    refine ⟨_,places_append_space firstPlaces secondPlaces,?_⟩
    rw [tokens_append_space,firstTokens,secondTokens,List.map_append,List.map_map]
    rfl

theorem mem_tokens_iff : token ∈ tokens text ↔ ∃ before after, Stands text before token after := by
  obtain ⟨places,placed,listed⟩ := exists_places text
  rw [listed,List.mem_map]
  constructor
  · rintro ⟨⟨before,token⟩,member,rfl⟩
    exact ⟨before,(placed.all before token).mp member⟩
  · rintro ⟨before,stands⟩
    exact ⟨(before,token),(placed.all before token).mpr stands,rfl⟩

/-! Names joined by spaces. -/

theorem Joined.space (joined : Joined names text) : Joined names (' ' :: text) := by
  cases joined with
  | none spaces => exact .none (spaces + 1)
  | last before after filled noSpace => exact .last (before + 1) after filled noSpace
  | more before filled noSpace others => exact .more (before + 1) filled noSpace others

theorem Joined.spaces (joined : Joined names text) (spaces : Nat) :
    Joined names (List.replicate spaces ' ' ++ text) := by
  induction spaces with
  | zero => exact joined
  | succ spaces ih => exact ih.space

theorem replicate_append_space (spaces : Nat) :
    List.replicate spaces ' ' ++ ' ' :: text = ' ' :: (List.replicate spaces ' ' ++ text) := by
  rw [List.append_cons,← List.replicate_succ',List.replicate_succ,List.cons_append]

theorem Joined.append_space {others : List (List Char)} (first : Joined names front)
    (second : Joined others back) : Joined (names ++ others) (front ++ ' ' :: back) := by
  induction first with
  | none spaces =>
    rw [replicate_append_space]
    exact (second.spaces spaces).space
  | @last name before after filled noSpace =>
    have behind := second.spaces after
    rw [List.append_assoc,List.append_assoc,replicate_append_space]
    -- The spaces behind the last name end the text or lead to the next name.
    cases others with
    | nil =>
      generalize List.replicate after ' ' ++ back = rest at behind ⊢
      cases behind with
      | none spaces => exact .last before (spaces + 1) filled noSpace
    | cons next others => exact .more before filled noSpace behind
  | more before filled noSpace _ ih =>
    rw [List.append_assoc,List.append_assoc]
    exact .more before filled noSpace ih

theorem joined_tokens (text : List Char) : Joined (tokens text) text := by
  induction text using space_induction with
  | plain text noSpace =>
    by_cases filled : text = []
    · rw [filled]
      exact .none 0
    · rw [tokens_of_noSpace filled noSpace]
      simpa using Joined.last 0 0 filled noSpace
  | parted front back inFront behind =>
    rw [tokens_append_space]
    exact inFront.append_space behind

theorem tokens_of_joined (joined : Joined names text) : tokens text = names := by
  induction joined with
  | none spaces => simpa [tokens_nil] using @tokens_spaces [] spaces
  | last before after filled noSpace =>
    rw [tokens_spaces,tokens_before_spaces,tokens_of_noSpace filled noSpace]
  | more before filled noSpace _ ih =>
    rw [tokens_spaces,tokens_append_space,tokens_of_noSpace filled noSpace,ih]
    rfl

theorem tokens_eq_iff : tokens text = names ↔ Joined names text := by
  constructor
  · rintro rfl
    exact joined_tokens text
  · exact tokens_of_joined

theorem joined_intercalate (each : ∀ name ∈ names, name ≠ [] ∧ ' ' ∉ name) :
    Joined names ([' '].intercalate names) := by
  induction names with
  | nil => exact .none 0
  | cons name names ih =>
    obtain ⟨⟨filled,noSpace⟩,others⟩ := List.forall_mem_cons.mp each
    cases names with
    | nil => simpa using Joined.last 0 0 filled noSpace
    | cons next names =>
      simpa [List.intercalate_cons_cons] using Joined.more 0 filled noSpace (ih others)

/-- Tokens joined again by single spaces are the same tokens. -/
theorem tokens_intercalate (text : List Char) :
    tokens ([' '].intercalate (tokens text)) = tokens text := by
  refine tokens_of_joined (joined_intercalate fun token member => ?_)
  obtain ⟨_,_,stands⟩ := mem_tokens_iff.mp member
  exact ⟨stands.filled,stands.noSpace⟩

end TreeQuery.Text
