import TreeQuery.Proofs.Selector.Grammar

/-! What is wrong with a malformed selector. A text can be malformed in several ways at once, and the
error that is reported depends on the order of the checks: where there is a space the two sides are
looked at from left to right before either of them is compiled, and only then comes an error of a
side, with the side's own text. `Malformed` says which error is reported without a compiler, and
`compile?_eq_error_iff` that the compiler reports exactly this one. -/
namespace TreeQuery.Selector

/-- The texts that end where a name should stand. -/
inductive LacksName : List Char → Prop
  | nothing : LacksName []
  | hash : LacksName ['#']
  | dot : LacksName ['.']
  | behindTag {tag : List Char} (front : IsTag tag) : LacksName (tag ++ ['.'])

/-- The texts with a second class. A dot is part of the name behind `#`. -/
inductive RepeatsClass : List Char → Prop
  | behindClass {name : List Char} (further : '.' ∈ name) : RepeatsClass ('.' :: name)
  | behindTag {text : List Char} (noDot : text.head? ≠ some '.') (noHash : text.head? ≠ some '#')
      (dots : 2 ≤ text.count '.') : RepeatsClass text

/-- The two sides of the combinator that a text is cut at: the first child mark in it, or the first
space if there is no child mark. -/
inductive HasSides (text ancestor subject : List Char) : Prop
  | child (cut : Text.FirstCut childMark text ancestor subject)
  | descendant (noChild : ¬ childMark <:+: text)
      (cut : Text.FirstCut descendantMark text ancestor subject)

/-- A malformed text and the error it is given. Every case asks that the checks before its own have
passed. -/
inductive Malformed : List Char → SelectorError → Prop
  | noName {text : List Char} (noSpace : ' ' ∉ text) (lacks : LacksName text) :
      Malformed text (.emptySelector (String.ofList text))
  | classes {text : List Char} (noSpace : ' ' ∉ text) (repeated : RepeatsClass text) :
      Malformed text (.multipleClasses (String.ofList text))
  | ancestorEmpty {text subject : List Char} (sides : HasSides text [] subject) :
      Malformed text (.emptySelector (String.ofList text))
  | ancestorNested {text ancestor subject : List Char} (sides : HasSides text ancestor subject)
      (space : ' ' ∈ ancestor) : Malformed text (.nestedCombinator (String.ofList text))
  | subjectEmpty {text ancestor : List Char} (sides : HasSides text ancestor [])
      (above : IsWord ancestor) : Malformed text (.emptySelector (String.ofList text))
  | subjectNested {text ancestor subject : List Char} (sides : HasSides text ancestor subject)
      (above : IsWord ancestor) (space : ' ' ∈ subject) :
      Malformed text (.nestedCombinator (String.ofList text))
  | ofAncestor {text ancestor subject : List Char} {error : SelectorError}
      (sides : HasSides text ancestor subject) (above : IsWord ancestor) (below : IsWord subject)
      (inner : Malformed ancestor error) : Malformed text error
  | ofSubject {text ancestor subject : List Char} {matcher : Matcher} {error : SelectorError}
      (sides : HasSides text ancestor subject) (above : IsWord ancestor) (below : IsWord subject)
      (accepted : Reads (String.ofList ancestor) matcher) (inner : Malformed subject error) :
      Malformed text error

variable {text name front back ancestor subject side : List Char} {error : SelectorError}

namespace Shape

theorem of?_hash (noSpace : ' ' ∉ name) :
    of? ('#' :: name) = (named ('#' :: name) (some name)).map .id := by
  rw [of?,compiledKind_of_noSpace (by simp [noSpace])]
  rfl

theorem of?_dot (noSpace : ' ' ∉ name) :
    of? ('.' :: name) = (do
      let found ← named ('.' :: name) (some name)
      if found.contains '.' then .error (.multipleClasses (String.ofList ('.' :: name)))
      else .ok (.className found)) := by
  rw [of?,compiledKind_of_noSpace (by simp [noSpace])]
  rfl

theorem of?_plain (noSpace : ' ' ∉ text) (noHash : text.head? ≠ some '#')
    (noDot : text.head? ≠ some '.') :
    of? text = if '.' ∈ text then compoundOf text else (named text (some text)).map .tag := by
  rw [of?,compiledKind_of_noSpace noSpace,classify_of_plain noSpace noHash noDot]
  by_cases dot : '.' ∈ text
  · simp [dot]
  · simp [dot]

theorem named_eq_error_iff :
    named text (some name) = .error error ↔
      name = [] ∧ error = .emptySelector (String.ofList text) := by
  cases name <;> simp [named,eq_comm]

theorem compoundOf_eq_error_iff (joined : text = front ++ '.' :: back) (first : '.' ∉ front)
    (filled : front ≠ []) :
    compoundOf text = .error error ↔
      back = [] ∧ error = .emptySelector (String.ofList text) ∨
        '.' ∈ back ∧ error = .multipleClasses (String.ofList text) := by
  rw [compoundOf,Text.splitFirst?_singleton.mpr ⟨joined,first⟩]
  by_cases empty : back = []
  · simpa [empty] using eq_comm
  · by_cases dot : '.' ∈ back
    · simpa [empty,filled,dot] using eq_comm
    · simp [empty,filled,dot]

theorem checkSide_eq_error_iff :
    checkSide text side = .error error ↔
      side = [] ∧ error = .emptySelector (String.ofList text) ∨
        ' ' ∈ side ∧ error = .nestedCombinator (String.ofList text) := by
  unfold checkSide
  by_cases empty : side = []
  · simpa [empty] using eq_comm
  · by_cases space : ' ' ∈ side
    · simpa [empty,occurs_descendantMark.mpr space,space] using eq_comm
    · simp [empty,occurs_descendantMark,space]

theorem malformed_of_rejected (noSpace : ' ' ∉ text) (rejected : of? text = .error error) :
    Malformed text error := by
  by_cases hash : text.head? = some '#'
  · obtain ⟨name,rfl⟩ := List.head?_eq_some_iff.mp hash
    rw [of?_hash (by simp_all),map_eq_error_iff,named_eq_error_iff] at rejected
    obtain ⟨rfl,rfl⟩ := rejected
    exact .noName noSpace .hash
  by_cases dot : text.head? = some '.'
  · obtain ⟨name,rfl⟩ := List.head?_eq_some_iff.mp dot
    rw [of?_dot (by simp_all),bind_eq_error_iff,named_eq_error_iff] at rejected
    rcases rejected with ⟨rfl,rfl⟩ | ⟨found,named,rejected⟩
    · exact .noName noSpace .dot
    · obtain ⟨same,_⟩ := named_eq_ok_iff.mp named
      cases same
      split at rejected
      · rename_i further
        cases rejected
        exact .classes noSpace (.behindClass (by simpa using further))
      · contradiction
  rw [of?_plain noSpace hash dot] at rejected
  split at rejected
  · rename_i inside
    obtain ⟨front,back,joined,first,filled⟩ := Text.exists_front inside dot
    rcases (compoundOf_eq_error_iff joined first filled).mp rejected with ⟨rfl,rfl⟩ | ⟨further,rfl⟩
    · subst joined
      have tag : IsTag front := by
        refine ⟨⟨⟨filled,fun member => noSpace (by simp [member])⟩,first⟩,fun head => hash ?_⟩
        rw [List.head?_append,head]
        rfl
      exact .noName noSpace (.behindTag tag)
    · have positive : 0 < back.count '.' := List.count_pos_iff.mpr further
      have dots : 2 ≤ text.count '.' := by
        rw [joined,List.count_append,List.count_cons_self]
        omega
      exact .classes noSpace (.behindTag dot hash dots)
  · rw [map_eq_error_iff,named_eq_error_iff] at rejected
    obtain ⟨rfl,rfl⟩ := rejected
    exact .noName noSpace .nothing

theorem rejected_of_lacksName (noSpace : ' ' ∉ text) (lacks : LacksName text) :
    of? text = .error (.emptySelector (String.ofList text)) := by
  cases lacks with
  | nothing =>
    rw [of?_plain noSpace (by simp) (by simp),if_neg List.not_mem_nil,map_eq_error_iff,
      named_eq_error_iff]
    exact ⟨rfl,rfl⟩
  | hash =>
    rw [of?_hash List.not_mem_nil,map_eq_error_iff,named_eq_error_iff]
    exact ⟨rfl,rfl⟩
  | dot =>
    rw [of?_dot List.not_mem_nil,bind_eq_error_iff,named_eq_error_iff]
    exact .inl ⟨rfl,rfl⟩
  | @behindTag tag front =>
    have head : (tag ++ ['.']).head? = tag.head? := by
      rw [List.head?_append,Option.or_of_isSome (List.isSome_head?.mpr front.filled)]
    rw [of?_plain noSpace (head ▸ front.noHash) (head ▸ front.head),if_pos (by simp),
      compoundOf_eq_error_iff rfl front.noDot front.filled]
    exact .inl ⟨rfl,rfl⟩

theorem rejected_of_repeatsClass (noSpace : ' ' ∉ text) (repeated : RepeatsClass text) :
    of? text = .error (.multipleClasses (String.ofList text)) := by
  cases repeated with
  | @behindClass name further =>
    have found : named ('.' :: name) (some name) = .ok name :=
      named_eq_ok_iff.mpr ⟨rfl,List.ne_nil_of_mem further⟩
    rw [of?_dot (by simp_all),found]
    simp [further]
  | behindTag noDot noHash dots =>
    have inside : '.' ∈ text := List.count_pos_iff.mp (by omega)
    obtain ⟨front,back,joined,first,filled⟩ := Text.exists_front inside noDot
    have further : '.' ∈ back := by
      rw [joined,List.count_append,List.count_cons_self,List.count_eq_zero.mpr first] at dots
      exact List.count_pos_iff.mp (by omega)
    rw [of?_plain noSpace noHash noDot,if_pos inside,compoundOf_eq_error_iff joined first filled]
    exact .inr ⟨further,rfl⟩

/-- The parts of a compound are always accepted, so a part fails by its shape only. -/
theorem Describes.exists_compile {shape : Shape} (described : shape.Describes text)
    (noSpace : ' ' ∉ text) : ∃ matcher, shape.compile = .ok matcher := by
  cases shape with
  | id name | className name | tag name => exact ⟨_,rfl⟩
  | compound front back =>
    obtain ⟨rfl,tag,className⟩ := described
    rw [Shape.compile,compileChars_tag tag,compileChars_className className]
    exact ⟨_,rfl⟩
  | relative combinator ancestor subject => exact absurd described.space noSpace

end Shape

theorem compileChars_eq_error_iff_of_noSpace (noSpace : ' ' ∉ text) :
    compileChars text = .error error ↔ Shape.of? text = .error error := by
  rw [compileChars_eq]
  constructor
  · intro failed
    rcases bind_eq_error_iff.mp failed with rejected | ⟨shape,taken,failed⟩
    · exact rejected
    · obtain ⟨matcher,compiled⟩ := (Shape.of?_eq_ok_iff.mp taken).exists_compile noSpace
      rw [compiled] at failed
      contradiction
  · intro rejected
    exact bind_eq_error_iff.mpr (.inl rejected)

theorem hasSides_iff :
    HasSides text ancestor subject ↔
      Text.splitFirst? (outerCombinator text).mark text = some (ancestor,subject) := by
  rw [Text.splitFirst?_eq_some_iff,outerCombinator]
  by_cases child : Text.occurs childMark text = true
  · rw [if_pos child]
    constructor
    · rintro (cut | ⟨noChild,_⟩)
      · exact cut
      · exact absurd (Text.occurs_iff_block.mp child) noChild
    · exact .child
  · rw [if_neg child]
    constructor
    · rintro (cut | ⟨_,cut⟩)
      · exact absurd (Text.occurs_iff_block.mpr ⟨_,_,cut.joined.symm⟩) child
      · exact cut
    · exact .descendant fun block => child (Text.occurs_iff_block.mpr block)

theorem HasSides.space (sides : HasSides text ancestor subject) : ' ' ∈ text := by
  cases sides with
  | child cut => simp [cut.joined,childMark]
  | descendant _ cut => simp [cut.joined,descendantMark]

theorem exists_hasSides (space : ' ' ∈ text) : ∃ ancestor subject, HasSides text ancestor subject := by
  have found : Text.occurs (outerCombinator text).mark text = true := by
    rw [outerCombinator]
    split
    · assumption
    · exact occurs_descendantMark.mpr space
  obtain ⟨ancestor,subject,cut⟩ := Text.exists_cut found
  exact ⟨ancestor,subject,hasSides_iff.mpr cut⟩

/-- The order of the checks where there is a space. -/
theorem compileChars_of_sides (sides : HasSides text ancestor subject) :
    compileChars text = (do
      Shape.checkSide text ancestor
      Shape.checkSide text subject
      let above ← compileChars ancestor
      let below ← compileChars subject
      return .relative (outerCombinator text) above below) := by
  rw [compileChars_eq,Shape.of?_of_space sides.space,Shape.relativeOf,hasSides_iff.mp sides]
  dsimp only
  cases Shape.checkSide text ancestor with
  | error error => rfl
  | ok _ =>
    cases Shape.checkSide text subject with
    | error error => rfl
    | ok _ => rfl

theorem compileChars_eq_error_iff_of_sides (sides : HasSides text ancestor subject) :
    compileChars text = .error error ↔
      Shape.checkSide text ancestor = .error error ∨ IsWord ancestor ∧
        (Shape.checkSide text subject = .error error ∨ IsWord subject ∧
          (compileChars ancestor = .error error ∨
            ∃ above, compileChars ancestor = .ok above ∧ compileChars subject = .error error)) := by
  have passes (side : List Char) :
      (∃ passed, Shape.checkSide text side = .ok passed) ↔ IsWord side := by
    rw [← Shape.checkSide_eq_ok_iff]
    exact ⟨fun ⟨_,passed⟩ => passed,fun passed => ⟨(),passed⟩⟩
  have never (combinator : Combinator) (above below : Matcher) :
      (pure (.relative combinator above below) : Except SelectorError Matcher) ≠ .error error := by
    intro failed
    cases failed
  simp only [compileChars_of_sides sides,bind_eq_error_iff,exists_and_right,passes,never,and_false,
    exists_false,or_false]

theorem malformed_of_error_of_noSpace (noSpace : ' ' ∉ text)
    (failed : compileChars text = .error error) : Malformed text error :=
  Shape.malformed_of_rejected noSpace ((compileChars_eq_error_iff_of_noSpace noSpace).mp failed)

theorem malformed_of_error (failed : compileChars text = .error error) : Malformed text error := by
  by_cases space : ' ' ∈ text
  · obtain ⟨ancestor,subject,sides⟩ := exists_hasSides space
    rw [compileChars_eq_error_iff_of_sides sides,Shape.checkSide_eq_error_iff,
      Shape.checkSide_eq_error_iff] at failed
    rcases failed with (⟨rfl,rfl⟩ | ⟨nested,rfl⟩) | ⟨above,(⟨rfl,rfl⟩ | ⟨nested,rfl⟩) | ⟨below,inner⟩⟩
    · exact .ancestorEmpty sides
    · exact .ancestorNested sides nested
    · exact .subjectEmpty sides above
    · exact .subjectNested sides above nested
    · rcases inner with inner | ⟨matcher,compiled,inner⟩
      · exact .ofAncestor sides above below (malformed_of_error_of_noSpace above.noSpace inner)
      · exact .ofSubject sides above below (reads_of_compiled compiled)
          (malformed_of_error_of_noSpace below.noSpace inner)
  · exact malformed_of_error_of_noSpace space failed

theorem Malformed.fails (malformed : Malformed text error) : compileChars text = .error error := by
  induction malformed with
  | noName noSpace lacks =>
    rw [compileChars_eq_error_iff_of_noSpace noSpace]
    exact Shape.rejected_of_lacksName noSpace lacks
  | classes noSpace repeated =>
    rw [compileChars_eq_error_iff_of_noSpace noSpace]
    exact Shape.rejected_of_repeatsClass noSpace repeated
  | ancestorEmpty sides =>
    rw [compileChars_eq_error_iff_of_sides sides]
    exact .inl (Shape.checkSide_eq_error_iff.mpr (.inl ⟨rfl,rfl⟩))
  | ancestorNested sides space =>
    rw [compileChars_eq_error_iff_of_sides sides]
    exact .inl (Shape.checkSide_eq_error_iff.mpr (.inr ⟨space,rfl⟩))
  | subjectEmpty sides above =>
    rw [compileChars_eq_error_iff_of_sides sides]
    exact .inr ⟨above,.inl (Shape.checkSide_eq_error_iff.mpr (.inl ⟨rfl,rfl⟩))⟩
  | subjectNested sides above space =>
    rw [compileChars_eq_error_iff_of_sides sides]
    exact .inr ⟨above,.inl (Shape.checkSide_eq_error_iff.mpr (.inr ⟨space,rfl⟩))⟩
  | ofAncestor sides above below inner ih =>
    rw [compileChars_eq_error_iff_of_sides sides]
    exact .inr ⟨above,.inr ⟨below,.inl ih⟩⟩
  | ofSubject sides above below accepted inner ih =>
    rw [compileChars_eq_error_iff_of_sides sides]
    have compiled := accepted.compile?
    rw [compile?,String.toList_ofList] at compiled
    exact .inr ⟨above,.inr ⟨below,.inr ⟨_,compiled,ih⟩⟩⟩

/-- Compiling fails exactly on the malformed selectors, and with the error that the first check to
fail calls for. -/
theorem compile?_eq_error_iff (selector : String) (error : SelectorError) :
    compile? selector = .error error ↔ Malformed selector.toList error :=
  ⟨malformed_of_error,Malformed.fails⟩

example : compile? "div. > ." = .error (.emptySelector "div.") := by cbv

example : compile? "a b > " = .error (.nestedCombinator "a b > ") := by cbv

end TreeQuery.Selector
