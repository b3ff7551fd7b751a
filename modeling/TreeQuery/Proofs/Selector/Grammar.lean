import TreeQuery.Outcome
import TreeQuery.Proofs.Text.Cut
import TreeQuery.Selector.Compile

/-! The grammar of selectors. A selector is one simple part, or two of them with a combinator
between. The compiler never looks at a text this way: it makes overlapping tests in a fixed order
and cuts at first occurrences. `of?_eq_ok_iff` says what the tests come to for the outermost shape,
and `compile?_eq_ok_iff` that whole selectors are compiled exactly as the grammar reads them. -/
namespace TreeQuery.Selector

/-- The name behind `#`; dots are allowed in it. -/
structure IsWord (name : List Char) : Prop where
  filled : name ≠ []
  noSpace : ' ' ∉ name

structure IsClass (name : List Char) : Prop extends IsWord name where
  noDot : '.' ∉ name

structure IsTag (name : List Char) : Prop extends IsClass name where
  noHash : name.head? ≠ some '#'

inductive Simple : String → Matcher → Prop
  | id {name : String} (word : IsWord name.toList) : Simple ("#" ++ name) (.id name)
  | className {name : String} (part : IsClass name.toList) : Simple ("." ++ name) (.className name)
  | tag {name : String} (part : IsTag name.toList) : Simple name (.tag (Text.uppercase name))
  | compound {tag className : String} (front : IsTag tag.toList) (back : IsClass className.toList) :
      Simple (tag ++ "." ++ className) (.both (.tag (Text.uppercase tag)) (.className className))

/-- A selector and the matcher it means. -/
inductive Reads : String → Matcher → Prop
  | simple {text : String} {matcher : Matcher} (part : Simple text matcher) : Reads text matcher
  | child {left right : String} {ancestor subject : Matcher} (above : Simple left ancestor)
      (below : Simple right subject) :
      Reads (left ++ " > " ++ right) (.relative .child ancestor subject)
  | descendant {left right : String} {ancestor subject : Matcher} (above : Simple left ancestor)
      (below : Simple right subject) :
      Reads (left ++ " " ++ right) (.relative .descendant ancestor subject)

def Combinator.mark : Combinator → List Char
  | .child => childMark
  | .descendant => descendantMark

/-- The combinator that a text with a space in it is cut at. -/
def outerCombinator (text : List Char) : Combinator :=
  if Text.occurs childMark text then .child else .descendant

/-- The texts that have a given shape. -/
def Shape.Describes : Shape → List Char → Prop
  | .id name,text => text = '#' :: name ∧ IsWord name
  | .className name,text => text = '.' :: name ∧ IsClass name
  | .tag name,text => text = name ∧ IsTag name
  | .compound front back,text => text = front ++ '.' :: back ∧ IsTag front ∧ IsClass back
  | .relative combinator ancestor subject,text =>
    text = ancestor ++ combinator.mark ++ subject ∧ IsWord ancestor ∧ IsWord subject

variable {text name tag className ancestor subject : List Char}

theorem IsClass.head (part : IsClass name) : name.head? ≠ some '.' := fun head =>
  part.noDot (List.mem_of_head? head)

theorem occurs_descendantMark : Text.occurs descendantMark text = true ↔ ' ' ∈ text :=
  Text.occurs_singleton

theorem occurs_childMark (found : Text.occurs childMark text = true) : ' ' ∈ text :=
  (Text.occurs_iff_block.mp found).subset (by simp [childMark])

theorem combinatorKind?_of_noSpace (noSpace : ' ' ∉ text) : combinatorKind? text = none := by
  have noDescendant : ¬ Text.occurs descendantMark text = true := fun found =>
    noSpace (occurs_descendantMark.mp found)
  have noChild : ¬ Text.occurs childMark text = true := fun found => noSpace (occurs_childMark found)
  simp [combinatorKind?,noDescendant,noChild]

theorem compiledKind_of_noSpace (noSpace : ' ' ∉ text) : compiledKind text = classify text := by
  simp [compiledKind,combinatorKind?_of_noSpace noSpace]

theorem compiledKind_of_space (space : ' ' ∈ text) :
    compiledKind text = if Text.occurs childMark text then .directChild else .descendant := by
  have found : combinatorKind? text =
      some (if Text.occurs childMark text then .directChild else .descendant) := by
    simp only [combinatorKind?,occurs_descendantMark.mpr space,if_true]
    split <;> rfl
  have classified : classify text = .id ∨ classify text = .className ∨ classify text = .tagAndClass ∨
      classify text = if Text.occurs childMark text then .directChild else .descendant := by
    unfold classify
    rw [found]
    split
    · simp
    · simp
    · split <;> simp
  simp only [compiledKind,found,Option.getD_some]
  rcases classified with same | same | same | same <;> rw [same]
  · rfl
  · rfl
  · rfl
  · split <;> rfl

theorem classify_of_noSpace (noSpace : ' ' ∉ text) :
    classify text = .id ∨ classify text = .className ∨
      classify text = .tagAndClass ∧ text.head? ≠ some '#' ∨
      classify text = .tag ∧ text.head? ≠ some '#' ∧ '.' ∉ text := by
  unfold classify
  rw [combinatorKind?_of_noSpace noSpace]
  split
  · simp
  · simp
  · rename_i noHash _
    have head : text.head? ≠ some '#' := by cases text <;> simp_all
    split <;> simp_all

theorem classify_of_plain (noSpace : ' ' ∉ text) (noHash : text.head? ≠ some '#')
    (noDot : text.head? ≠ some '.') :
    classify text = if text.contains '.' then .tagAndClass else .tag := by
  unfold classify
  rw [combinatorKind?_of_noSpace noSpace]
  split
  · simp at noHash
  · simp at noDot
  · rfl

theorem outerCombinator_of_parts {combinator : Combinator} (above : IsWord ancestor)
    (below : IsWord subject) :
    outerCombinator (ancestor ++ combinator.mark ++ subject) = combinator := by
  cases combinator with
  | child =>
    have found : Text.occurs childMark (ancestor ++ childMark ++ subject) = true :=
      Text.occurs_iff_block.mpr ⟨ancestor,subject,rfl⟩
    simp only [outerCombinator,Combinator.mark,found,if_true]
  | descendant =>
    -- A child mark has two spaces, and there is only one here.
    have absent : ¬ Text.occurs childMark (ancestor ++ descendantMark ++ subject) = true := by
      intro found
      have spaces := (Text.occurs_iff_block.mp found).sublist.count_le ' '
      simp [childMark,descendantMark,List.count_eq_zero.mpr above.noSpace,
        List.count_eq_zero.mpr below.noSpace] at spaces
    simp only [outerCombinator,Combinator.mark,absent,Bool.false_eq_true,if_false]

namespace Shape

theorem named_eq_ok_iff {found : Option (List Char)} :
    named text found = .ok name ↔ found = some name ∧ name ≠ [] := by
  cases found with
  | none => simp [named]
  | some found => cases found <;> cases name <;> simp [named]

theorem compoundOf_eq_ok_iff {shape : Shape} :
    compoundOf text = .ok shape ↔ ∃ front back, shape = .compound front back ∧
      text = front ++ '.' :: back ∧ '.' ∉ front ∧ '.' ∉ back ∧ front ≠ [] ∧ back ≠ [] := by
  constructor
  · intro taken
    unfold compoundOf at taken
    split at taken
    · simp at taken
    · rename_i front back cut
      obtain ⟨joined,noDot⟩ := Text.splitFirst?_singleton.mp cut
      split at taken
      · simp at taken
      · split at taken
        · simp at taken
        · cases taken
          exact ⟨front,back,rfl,joined,noDot,by simp_all,by simp_all,by simp_all⟩
  · rintro ⟨front,back,rfl,joined,frontNoDot,backNoDot,frontFilled,backFilled⟩
    simp [compoundOf,Text.splitFirst?_singleton.mpr ⟨joined,frontNoDot⟩,backNoDot,frontFilled,
      backFilled]

theorem checkSide_eq_ok_iff {side : List Char} : checkSide text side = .ok () ↔ IsWord side := by
  unfold checkSide
  constructor
  · intro checked
    split at checked
    · simp at checked
    · split at checked
      · simp at checked
      · rename_i filled noSpace
        rw [occurs_descendantMark] at noSpace
        exact ⟨by simpa using filled,noSpace⟩
  · rintro ⟨filled,noSpace⟩
    simp [filled,occurs_descendantMark,noSpace]

theorem relativeOf_eq_ok_iff {combinator : Combinator} {shape : Shape} :
    relativeOf text combinator combinator.mark = .ok shape ↔
      ∃ ancestor subject, shape = .relative combinator ancestor subject ∧
        text = ancestor ++ combinator.mark ++ subject ∧ IsWord ancestor ∧ IsWord subject := by
  constructor
  · intro taken
    unfold relativeOf at taken
    split at taken
    · simp at taken
    · rename_i ancestor subject cut
      obtain ⟨_,above,taken⟩ := bind_eq_ok_iff.mp taken
      obtain ⟨_,below,taken⟩ := bind_eq_ok_iff.mp taken
      cases taken
      exact ⟨ancestor,subject,rfl,Text.splitFirst?_eq_some cut,checkSide_eq_ok_iff.mp above,
        checkSide_eq_ok_iff.mp below⟩
  · rintro ⟨ancestor,subject,rfl,joined,above,below⟩
    have cut : Text.splitFirst? combinator.mark text = some (ancestor,subject) := by
      rw [joined]
      cases combinator <;> exact Text.splitFirst?_of_absent above.noSpace
    simp [relativeOf,cut,checkSide_eq_ok_iff.mpr above,checkSide_eq_ok_iff.mpr below,bind,
      Except.bind,pure,Except.pure]

theorem of?_of_space (space : ' ' ∈ text) :
    of? text = relativeOf text (outerCombinator text) (outerCombinator text).mark := by
  rw [of?,compiledKind_of_space space,outerCombinator]
  cases Text.occurs childMark text <;> rfl

theorem behind?_eq_some_iff {mark : Char} : behind? mark text = some name ↔ text = mark :: name := by
  cases text with
  | nil => simp [behind?]
  | cons c rest =>
    simp only [behind?,List.cons.injEq]
    split <;> simp_all

theorem Describes.space {combinator : Combinator}
    (described : (relative combinator ancestor subject).Describes text) : ' ' ∈ text := by
  rw [described.1]
  cases combinator <;> simp [Combinator.mark,childMark,descendantMark]

theorem describes_of_taken {shape : Shape} (taken : of? text = .ok shape) : shape.Describes text := by
  by_cases space : ' ' ∈ text
  · rw [of?_of_space space] at taken
    obtain ⟨ancestor,subject,rfl,described⟩ := relativeOf_eq_ok_iff.mp taken
    exact described
  · rw [of?,compiledKind_of_noSpace space] at taken
    rcases classify_of_noSpace space with kind | kind | ⟨kind,noHash⟩ | ⟨kind,noHash,noDot⟩
    all_goals rw [kind] at taken
    · obtain ⟨name,named,rfl⟩ := map_eq_ok_iff.mp taken
      obtain ⟨found,filled⟩ := named_eq_ok_iff.mp named
      obtain rfl := behind?_eq_some_iff.mp found
      exact ⟨rfl,filled,by simp_all⟩
    · obtain ⟨name,named,taken⟩ := bind_eq_ok_iff.mp taken
      obtain ⟨found,filled⟩ := named_eq_ok_iff.mp named
      obtain rfl := behind?_eq_some_iff.mp found
      split at taken
      · simp at taken
      · rename_i noDot
        cases taken
        exact ⟨rfl,⟨filled,by simp_all⟩,by simpa using noDot⟩
    · obtain ⟨front,back,rfl,rfl,frontNoDot,backNoDot,frontFilled,backFilled⟩ :=
        compoundOf_eq_ok_iff.mp taken
      have head : front.head? ≠ some '#' := by cases front <;> simp_all
      simp only [List.mem_append,List.mem_cons,not_or] at space
      exact ⟨rfl,⟨⟨⟨frontFilled,space.1⟩,frontNoDot⟩,head⟩,⟨backFilled,space.2.2⟩,backNoDot⟩
    · obtain ⟨name,named,rfl⟩ := map_eq_ok_iff.mp taken
      obtain ⟨found,filled⟩ := named_eq_ok_iff.mp named
      cases found
      exact ⟨rfl,⟨⟨filled,space⟩,noDot⟩,noHash⟩

theorem taken_of_describes {shape : Shape} (described : shape.Describes text) :
    of? text = .ok shape := by
  cases shape with
  | id name =>
    obtain ⟨rfl,word⟩ := described
    have noSpace : ' ' ∉ '#' :: name := by simp [word.noSpace]
    rw [of?,compiledKind_of_noSpace noSpace]
    exact map_eq_ok_iff.mpr ⟨name,named_eq_ok_iff.mpr ⟨rfl,word.filled⟩,rfl⟩
  | className name =>
    obtain ⟨rfl,part⟩ := described
    have noSpace : ' ' ∉ '.' :: name := by simp [part.noSpace]
    rw [of?,compiledKind_of_noSpace noSpace]
    exact bind_eq_ok_iff.mpr ⟨name,named_eq_ok_iff.mpr ⟨rfl,part.filled⟩,by simp [part.noDot]⟩
  | tag name =>
    obtain ⟨rfl,part⟩ := described
    have kind : classify text = .tag := by
      simp [classify_of_plain part.noSpace part.noHash part.head,part.noDot]
    rw [of?,compiledKind_of_noSpace part.noSpace,kind]
    exact map_eq_ok_iff.mpr ⟨text,named_eq_ok_iff.mpr ⟨rfl,part.filled⟩,rfl⟩
  | compound front back =>
    obtain ⟨rfl,tag,className⟩ := described
    have noSpace : ' ' ∉ front ++ '.' :: back := by simp [tag.noSpace,className.noSpace]
    have sameHead : (front ++ '.' :: back).head? = front.head? := by
      cases filled : front with
      | nil => exact absurd filled tag.filled
      | cons => rfl
    have kind : classify (front ++ '.' :: back) = .tagAndClass := by
      rw [classify_of_plain noSpace (sameHead ▸ tag.noHash) (sameHead ▸ tag.head)]
      simp
    rw [of?,compiledKind_of_noSpace noSpace,kind]
    exact compoundOf_eq_ok_iff.mpr ⟨front,back,rfl,rfl,tag.noDot,className.noDot,tag.filled,
      className.filled⟩
  | relative combinator ancestor subject =>
    have space := Describes.space described
    obtain ⟨joined,above,below⟩ := described
    have outer : outerCombinator text = combinator := joined ▸ outerCombinator_of_parts above below
    rw [of?_of_space space,outer]
    exact relativeOf_eq_ok_iff.mpr ⟨ancestor,subject,rfl,joined,above,below⟩

theorem of?_eq_ok_iff {shape : Shape} : of? text = .ok shape ↔ shape.Describes text :=
  ⟨describes_of_taken,taken_of_describes⟩

end Shape

def Shape.compile : Shape → Except SelectorError Matcher
  | .id name => .ok (.id (String.ofList name))
  | .className name => .ok (.className (String.ofList name))
  | .tag name => .ok (.tag (String.ofList (Text.upper name)))
  | .compound front back => do
    let left ← compileChars front
    let right ← compileChars ('.' :: back)
    return .both left right
  | .relative combinator ancestor subject => do
    let above ← compileChars ancestor
    let below ← compileChars subject
    return .relative combinator above below

theorem compileChars_eq (text : List Char) :
    compileChars text = (Shape.of? text).bind Shape.compile := by
  rw [compileChars]
  split <;> simp [*,Except.bind,Shape.compile]

theorem compileChars_of_describes (shape : Shape) (described : shape.Describes text) :
    compileChars text = shape.compile := by
  rw [compileChars_eq,Shape.of?_eq_ok_iff.mpr described]
  rfl

theorem compileChars_id (word : IsWord name) :
    compileChars ('#' :: name) = .ok (.id (String.ofList name)) :=
  compileChars_of_describes (.id name) ⟨rfl,word⟩

theorem compileChars_className (part : IsClass name) :
    compileChars ('.' :: name) = .ok (.className (String.ofList name)) :=
  compileChars_of_describes (.className name) ⟨rfl,part⟩

theorem compileChars_tag (part : IsTag name) :
    compileChars name = .ok (.tag (String.ofList (Text.upper name))) :=
  compileChars_of_describes (.tag name) ⟨rfl,part⟩

theorem compileChars_compound (front : IsTag tag) (back : IsClass className) :
    compileChars (tag ++ '.' :: className) =
      .ok (.both (.tag (String.ofList (Text.upper tag))) (.className (String.ofList className))) := by
  rw [compileChars_of_describes (.compound tag className) ⟨rfl,front,back⟩,Shape.compile,
    compileChars_tag front,compileChars_className back]
  rfl

theorem compileChars_relative (combinator : Combinator) {above below : Matcher}
    (ancestorWord : IsWord ancestor) (subjectWord : IsWord subject)
    (ancestorCompiled : compileChars ancestor = .ok above)
    (subjectCompiled : compileChars subject = .ok below) :
    compileChars (ancestor ++ combinator.mark ++ subject) =
      .ok (.relative combinator above below) := by
  rw [compileChars_of_describes (.relative combinator ancestor subject)
    ⟨rfl,ancestorWord,subjectWord⟩,Shape.compile,ancestorCompiled,subjectCompiled]
  rfl

theorem ofList_cons (c : Char) (chars : List Char) :
    String.ofList (c :: chars) = String.ofList [c] ++ String.ofList chars := by
  rw [← String.ofList_append]
  rfl

theorem Simple.word {part : String} {matcher : Matcher} (simple : Simple part matcher) :
    IsWord part.toList := by
  cases simple with
  | id word => exact ⟨by simp,by simp [word.noSpace]⟩
  | className word => exact ⟨by simp,by simp [word.noSpace]⟩
  | tag word => exact word.toIsWord
  | compound front back => exact ⟨by simp,by simp [front.noSpace,back.noSpace]⟩

theorem Simple.compiled {part : String} {matcher : Matcher} (simple : Simple part matcher) :
    compileChars part.toList = .ok matcher := by
  cases simple with
  | id word => simpa using compileChars_id word
  | className word => simpa using compileChars_className word
  | tag word => simpa [Text.uppercase] using compileChars_tag word
  | compound front back => simpa [Text.uppercase] using compileChars_compound front back

theorem simple_of_describes {shape : Shape} {matcher : Matcher} (described : shape.Describes text)
    (meaning : shape.compile = .ok matcher)
    (uncombined : ∀ combinator ancestor subject, shape ≠ .relative combinator ancestor subject) :
    Simple (String.ofList text) matcher := by
  cases shape with
  | id name =>
    obtain ⟨rfl,word⟩ := described
    cases meaning
    rw [ofList_cons]
    exact .id (by simpa using word)
  | className name =>
    obtain ⟨rfl,part⟩ := described
    cases meaning
    rw [ofList_cons]
    exact .className (by simpa using part)
  | tag name =>
    obtain ⟨rfl,part⟩ := described
    cases meaning
    have simple : Simple (String.ofList text) (.tag (Text.uppercase (String.ofList text))) :=
      .tag (by simpa using part)
    simpa [Text.uppercase] using simple
  | compound front back =>
    obtain ⟨rfl,tag,className⟩ := described
    rw [Shape.compile,compileChars_tag tag,compileChars_className className] at meaning
    cases meaning
    have simple : Simple (String.ofList front ++ "." ++ String.ofList back)
        (.both (.tag (Text.uppercase (String.ofList front))) (.className (String.ofList back))) :=
      .compound (by simpa using tag) (by simpa using className)
    rw [String.ofList_append,ofList_cons,← String.append_assoc]
    simpa [Text.uppercase] using simple
  | relative combinator ancestor subject => exact absurd rfl (uncombined combinator ancestor subject)

theorem simple_of_word {matcher : Matcher} (word : IsWord text)
    (compiled : compileChars text = .ok matcher) : Simple (String.ofList text) matcher := by
  rw [compileChars_eq] at compiled
  obtain ⟨shape,taken,meaning⟩ := bind_eq_ok_iff.mp compiled
  have described := Shape.of?_eq_ok_iff.mp taken
  refine simple_of_describes described meaning ?_
  rintro combinator ancestor subject rfl
  exact word.noSpace described.space

theorem reads_of_compiled {matcher : Matcher} (compiled : compileChars text = .ok matcher) :
    Reads (String.ofList text) matcher := by
  rw [compileChars_eq] at compiled
  obtain ⟨shape,taken,meaning⟩ := bind_eq_ok_iff.mp compiled
  have described := Shape.of?_eq_ok_iff.mp taken
  cases shape with
  | relative combinator ancestor subject =>
    obtain ⟨rfl,ancestorWord,subjectWord⟩ := described
    obtain ⟨above,ancestorCompiled,meaning⟩ := bind_eq_ok_iff.mp meaning
    obtain ⟨below,subjectCompiled,meaning⟩ := bind_eq_ok_iff.mp meaning
    cases meaning
    have left := simple_of_word ancestorWord ancestorCompiled
    have right := simple_of_word subjectWord subjectCompiled
    rw [String.ofList_append,String.ofList_append]
    cases combinator with
    | child => exact .child left right
    | descendant => exact .descendant left right
  | _ => exact .simple (simple_of_describes described meaning (by simp))

theorem reads_of_compile? {selector : String} {matcher : Matcher}
    (compiled : compile? selector = .ok matcher) : Reads selector matcher := by
  simpa using reads_of_compiled compiled

theorem Reads.compile? {selector : String} {matcher : Matcher} (reads : Reads selector matcher) :
    compile? selector = .ok matcher := by
  cases reads with
  | simple part => exact part.compiled
  | child above below =>
    rw [Selector.compile?,String.toList_append,String.toList_append]
    exact compileChars_relative .child above.word below.word above.compiled below.compiled
  | descendant above below =>
    rw [Selector.compile?,String.toList_append,String.toList_append]
    exact compileChars_relative .descendant above.word below.word above.compiled below.compiled

/-- Compiling accepts exactly the selectors of the grammar, each with its one meaning. -/
theorem compile?_eq_ok_iff (selector : String) (matcher : Matcher) :
    compile? selector = .ok matcher ↔ Reads selector matcher :=
  ⟨reads_of_compile?,Reads.compile?⟩

example : compile? "> > >" = .ok (.relative .child (.tag ">") (.tag ">")) := by cbv

end TreeQuery.Selector
