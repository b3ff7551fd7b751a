import TreeQuery.Proofs.Selector.Grammar

/-! The calls inside a compilation. The compiler calls itself for the parts of a selector, and each call
looks again for a mark that the kind of its text has promised. `Entered` follows the calls and counts
how many are open; `calls_guarded` says that no call misses its mark, that the two parts of a compound
always compile, that a side of a combinator is never taken for a combinator again, and that no more
than three calls are open at once. -/
namespace TreeQuery.Selector

/-- Compile a shape, where `inner` is called for its parts. -/
def Shape.compileBy {m : Type → Type} [Monad m] (inner : List Char → m Matcher) : Shape → m Matcher
  | .id name => return .id (String.ofList name)
  | .className name => return .className (String.ofList name)
  | .tag name => return .tag (String.ofList (Text.upper name))
  | .compound front back => do
    let left ← inner front
    let right ← inner ('.' :: back)
    return .both left right
  | .relative combinator ancestor subject => do
    let above ← inner ancestor
    let below ← inner subject
    return .relative combinator above below

/-- Compiling that writes down texts, and keeps what is written when it fails. -/
abbrev Noting (α : Type) := ExceptT SelectorError (StateM (List (List Char))) α

def notePart (part : List Char) : Noting Matcher := do
  modify (· ++ [part])
  ExceptT.mk (pure (compileChars part))

/-- One call of the compiler, which writes down the texts that it calls the compiler for. -/
def noteCall (text : List Char) : Noting Matcher := do
  let shape ← ExceptT.mk (pure (Shape.of? text))
  shape.compileBy notePart

/-- The texts that a call of the compiler calls it for again, in their order. -/
def calls (text : List Char) : List (List Char) := ((noteCall text).run.run []).2

/-- The calls that compiling a selector leads to. The depth of a call is the number of calls that are
open in it, itself included. -/
inductive Entered (selector : List Char) : Nat → List Char → Prop
  | whole : Entered selector 1 selector
  | part {depth : Nat} {text part : List Char} (entered : Entered selector depth text)
      (called : part ∈ calls text) : Entered selector (depth + 1) part

/-- The mark that a text has when it is compiled as some kind. -/
def Kind.Promises : Kind → List Char → Prop
  | .id,text => text.head? = some '#'
  | .className,text => text.head? = some '.'
  | .tagAndClass,text => '.' ∈ text ∧ text.head? ≠ some '.'
  | .directChild,text => Text.occurs childMark text = true
  | .descendant,text => Text.occurs descendantMark text = true
  | .tag,_ => True

/-- What is certain in a call for `text`: the marks are where the kind looks for them, and the checks
on the parts leave nothing that could go wrong in the calls for a tag and a class. -/
structure Guarded (text : List Char) : Prop where
  hash : compiledKind text = .id → ∃ name, Shape.behind? '#' text = some name
  dot : compiledKind text = .className → ∃ name, Shape.behind? '.' text = some name
  tagCut : compiledKind text = .tagAndClass →
    ∃ tag className, Text.splitFirst? ['.'] text = some (tag,className) ∧ tag ≠ []
  childCut : compiledKind text = .directChild →
    ∃ ancestor subject, Text.splitFirst? childMark text = some (ancestor,subject)
  descendantCut : compiledKind text = .descendant →
    ∃ ancestor subject, Text.splitFirst? descendantMark text = some (ancestor,subject)
  parts : ∀ tag className, Shape.of? text = .ok (.compound tag className) →
    calls text = [tag,'.' :: className] ∧
      compileChars tag = .ok (.tag (String.ofList (Text.upper tag))) ∧
      compileChars ('.' :: className) = .ok (.className (String.ofList className))
  sides : ∀ combinator ancestor subject,
    Shape.of? text = .ok (.relative combinator ancestor subject) →
      calls text = ancestor :: (if (compileChars ancestor).isOk then [subject] else []) ∧
        (compiledKind ancestor).isCombinator = false ∧ (compiledKind subject).isCombinator = false

def Shape.parts : Shape → List (List Char)
  | .compound front back => [front,'.' :: back]
  | .relative _ ancestor subject => [ancestor,subject]
  | _ => []

/-- How many calls can be open inside the call for a text of this shape. -/
def Shape.rank : Shape → Nat
  | .compound _ _ => 1
  | .relative _ _ _ => 2
  | _ => 0

def rank (text : List Char) : Nat :=
  match Shape.of? text with
  | .ok shape => shape.rank
  | .error _ => 0

variable {selector text part first second tag className ancestor subject : List Char} {depth : Nat}
  {shape : Shape} {combinator : Combinator} {error : SelectorError}

/-- The second part is called for when the first one has compiled. -/
theorem noteParts_run (make : Matcher → Matcher → Matcher) :
    (do return make (← notePart first) (← notePart second) : Noting Matcher).run.run [] =
      (do return make (← compileChars first) (← compileChars second),
        first :: if (compileChars first).isOk then [second] else []) := by
  unfold notePart
  cases compileChars first with
  | error error => rfl
  | ok left => cases compileChars second <;> rfl

theorem noteCall_of_taken (taken : Shape.of? text = .ok shape) :
    noteCall text = shape.compileBy notePart := by
  rw [noteCall,taken]
  rfl

theorem noteCall_of_rejected (rejected : Shape.of? text = .error error) :
    noteCall text = throw error := by
  rw [noteCall,rejected]
  rfl

/-- The compiler itself has this body, with its own calls for the parts. -/
theorem compileChars_eq_compileBy (text : List Char) :
    compileChars text = (do
      let shape ← Shape.of? text
      shape.compileBy compileChars) := by
  rw [compileChars_eq]
  cases Shape.of? text with
  | error error => rfl
  | ok shape => cases shape <;> rfl

/-- Writing the calls down changes nothing about the answer. -/
theorem noteCall_answer (text : List Char) :
    ((noteCall text).run.run []).1 = compileChars text := by
  rw [compileChars_eq_compileBy]
  cases taken : Shape.of? text with
  | error error =>
    rw [noteCall_of_rejected taken]
    rfl
  | ok shape =>
    rw [noteCall_of_taken taken]
    cases shape with
    | id | className | tag => rfl
    | compound front back =>
      rw [Shape.compileBy,noteParts_run Matcher.both]
      rfl
    | relative combinator ancestor subject =>
      rw [Shape.compileBy,noteParts_run (Matcher.relative combinator)]
      rfl

theorem calls_of_rejected (rejected : Shape.of? text = .error error) : calls text = [] := by
  rw [calls,noteCall_of_rejected rejected]
  rfl

theorem calls_of_compound (taken : Shape.of? text = .ok (.compound tag className)) :
    calls text = tag :: if (compileChars tag).isOk then ['.' :: className] else [] := by
  rw [calls,noteCall_of_taken taken,Shape.compileBy,noteParts_run Matcher.both]

theorem calls_of_relative (taken : Shape.of? text = .ok (.relative combinator ancestor subject)) :
    calls text = ancestor :: if (compileChars ancestor).isOk then [subject] else [] := by
  rw [calls,noteCall_of_taken taken,Shape.compileBy,noteParts_run (Matcher.relative combinator)]

theorem calls_begin (taken : Shape.of? text = .ok shape) : calls text <+: shape.parts := by
  cases shape with
  | id | className | tag =>
    rw [calls,noteCall_of_taken taken]
    exact List.nil_prefix
  | compound front back =>
    rw [calls_of_compound taken]
    split
    · exact List.prefix_rfl
    · exact List.prefix_append [front] _
  | relative combinator ancestor subject =>
    rw [calls_of_relative taken]
    split
    · exact List.prefix_rfl
    · exact List.prefix_append [ancestor] _

theorem exists_shape_of_call (called : part ∈ calls text) :
    ∃ shape, Shape.of? text = .ok shape ∧ part ∈ shape.parts := by
  cases taken : Shape.of? text with
  | error error =>
    rw [calls_of_rejected taken] at called
    contradiction
  | ok shape => exact ⟨shape,rfl,(calls_begin taken).subset called⟩

theorem rank_of_describes (shape : Shape) (described : shape.Describes text) :
    rank text = shape.rank := by
  rw [rank,Shape.of?_eq_ok_iff.mpr described]

theorem rank_le (text : List Char) : rank text ≤ 2 := by
  unfold rank
  split
  · rename_i shape _
    cases shape <;> simp [Shape.rank]
  · exact Nat.zero_le 2

theorem rank_of_noSpace (noSpace : ' ' ∉ text) : rank text ≤ 1 := by
  unfold rank
  split
  · rename_i shape taken
    cases shape with
    | relative combinator ancestor subject =>
      exact absurd (Shape.of?_eq_ok_iff.mp taken).space noSpace
    | _ => simp [Shape.rank]
  · exact Nat.zero_le 1

theorem rank_lt_of_call (called : part ∈ calls text) : rank part < rank text := by
  obtain ⟨shape,taken,member⟩ := exists_shape_of_call called
  have described := Shape.of?_eq_ok_iff.mp taken
  rw [rank_of_describes shape described]
  cases shape with
  | id | className | tag => contradiction
  | compound front back =>
    obtain ⟨_,tag,className⟩ := described
    have either : part = front ∨ part = '.' :: back := by simpa [Shape.parts] using member
    rcases either with rfl | rfl
    · rw [rank_of_describes (.tag part) ⟨rfl,tag⟩]
      exact Nat.zero_lt_one
    · rw [rank_of_describes (.className back) ⟨rfl,className⟩]
      exact Nat.zero_lt_one
  | relative combinator ancestor subject =>
    obtain ⟨_,above,below⟩ := described
    have either : part = ancestor ∨ part = subject := by simpa [Shape.parts] using member
    rcases either with rfl | rfl
    · exact Nat.lt_succ_of_le (rank_of_noSpace above.noSpace)
    · exact Nat.lt_succ_of_le (rank_of_noSpace below.noSpace)

/-- A call that opens another one gives up some of its rank. -/
theorem Entered.depth_add_rank (entered : Entered selector depth text) :
    depth + rank text ≤ 1 + rank selector := by
  induction entered with
  | whole => exact Nat.le_refl _
  | part _ called ih =>
    have smaller := rank_lt_of_call called
    omega

/-- What the order of the tests comes to, and the combinator that outweighs them. -/
theorem compiledKind_promises (text : List Char) : (compiledKind text).Promises text := by
  by_cases space : ' ' ∈ text
  · rw [compiledKind_of_space space]
    split
    · assumption
    · exact occurs_descendantMark.mpr space
  · rw [compiledKind_of_noSpace space]
    unfold classify
    rw [combinatorKind?_of_noSpace space]
    split
    · rfl
    · rfl
    · rename_i noHash noDot
      split
      · rename_i dot
        refine ⟨by simpa using dot,?_⟩
        cases text <;> simp_all
      · trivial

theorem isCombinator_of_noSpace (noSpace : ' ' ∉ text) :
    (compiledKind text).isCombinator = false := by
  rw [compiledKind_of_noSpace noSpace]
  rcases classify_of_noSpace noSpace with kind | kind | ⟨kind,_⟩ | ⟨kind,_⟩
  all_goals
    rw [kind]
    rfl

theorem exists_behind {mark : Char} (head : text.head? = some mark) :
    ∃ name, Shape.behind? mark text = some name := by
  obtain ⟨name,same⟩ := List.head?_eq_some_iff.mp head
  exact ⟨name,Shape.behind?_eq_some_iff.mpr same⟩

theorem guarded (text : List Char) : Guarded text := by
  have promised := compiledKind_promises text
  constructor
  case hash | dot =>
    intro kind
    rw [kind] at promised
    exact exists_behind promised
  case tagCut =>
    intro kind
    rw [kind] at promised
    obtain ⟨tag,className,joined,first,filled⟩ := Text.exists_front promised.1 promised.2
    exact ⟨tag,className,Text.splitFirst?_singleton.mpr ⟨joined,first⟩,filled⟩
  case childCut | descendantCut =>
    intro kind
    rw [kind] at promised
    exact Text.exists_cut promised
  case parts =>
    intro tag className taken
    obtain ⟨_,front,back⟩ := Shape.of?_eq_ok_iff.mp taken
    have compiled := compileChars_tag front
    refine ⟨?_,compiled,compileChars_className back⟩
    rw [calls_of_compound taken,compiled]
    rfl
  case sides =>
    intro combinator ancestor subject taken
    obtain ⟨_,above,below⟩ := Shape.of?_eq_ok_iff.mp taken
    exact ⟨calls_of_relative taken,isCombinator_of_noSpace above.noSpace,
      isCombinator_of_noSpace below.noSpace⟩

/-- Whatever the selector, every call that compiling it leads to finds its marks and compiles the parts
of a compound, and at most three calls are open in it. -/
theorem calls_guarded {selector : String} {depth : Nat} {text : List Char}
    (entered : Entered selector.toList depth text) :
    ((noteCall text).run.run []).1 = compileChars text ∧ Guarded text ∧ depth ≤ 3 := by
  refine ⟨noteCall_answer text,guarded text,?_⟩
  have spent := entered.depth_add_rank
  have most := rank_le selector.toList
  omega

/-- Three calls are open where a class stands behind a tag beside a combinator, and never four. -/
theorem calls_guarded_nested :
    Entered "ul.nav > .x".toList 3 ".nav".toList ∧
      (∃ name, Shape.behind? '.' ".nav".toList = some name) ∧
      ((noteCall ".nav".toList).run.run []).1 = .ok (.className "nav") ∧
      ¬ ∃ text, Entered "ul.nav > .x".toList 4 text := by
  have sides : Shape.of? "ul.nav > .x".toList =
      .ok (.relative .child "ul.nav".toList ".x".toList) := rfl
  have pair : Shape.of? "ul.nav".toList = .ok (.compound "ul".toList "nav".toList) := rfl
  have above : Entered "ul.nav > .x".toList 2 "ul.nav".toList :=
    .part .whole (calls_of_relative sides ▸ List.mem_cons_self)
  obtain ⟨_,guard,_⟩ := calls_guarded above
  obtain ⟨called,_,compiled⟩ := guard.parts _ _ pair
  have inner : Entered "ul.nav > .x".toList 3 ".nav".toList :=
    .part above (called ▸ List.mem_cons_of_mem _ List.mem_cons_self)
  obtain ⟨answer,inside,_⟩ := calls_guarded inner
  refine ⟨inner,inside.dot rfl,answer.trans compiled,?_⟩
  rintro ⟨text,deeper⟩
  obtain ⟨_,_,bound⟩ := calls_guarded deeper
  exact absurd bound (by decide)

/-- An ancestor that does not compile keeps the subject from being called for. -/
example : calls "div. > p".toList = ["div.".toList] := by cbv

end TreeQuery.Selector
