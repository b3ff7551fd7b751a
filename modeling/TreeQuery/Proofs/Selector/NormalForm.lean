import TreeQuery.Proofs.Selector.Grammar
import TreeQuery.Proofs.Text.Uppercase

/-! Normal matchers and their texts. Printing puts nothing around a name, so that a matcher built
by hand may print as a selector that means something else, or as none. The normal matchers are
those that compiling gives, and just these come back from their own text. -/
namespace TreeQuery.Selector

/-- The matchers of simple parts, with every tag in upper case. -/
inductive NormalPart : Matcher → Prop
  | id {name : String} (word : IsWord name.toList) : NormalPart (.id name)
  | className {name : String} (part : IsClass name.toList) : NormalPart (.className name)
  | tag {name : String} (part : IsTag name.toList) (upper : Text.uppercase name = name) :
      NormalPart (.tag name)
  | compound {tag className : String} (front : IsTag tag.toList) (upper : Text.uppercase tag = tag)
      (back : IsClass className.toList) : NormalPart (.both (.tag tag) (.className className))

inductive Normal : Matcher → Prop
  | part {matcher : Matcher} (simple : NormalPart matcher) : Normal matcher
  | relative {combinator : Combinator} {ancestor subject : Matcher} (above : NormalPart ancestor)
      (below : NormalPart subject) : Normal (.relative combinator ancestor subject)

variable {selector text : String} {matcher : Matcher}

theorem uppercase_uppercase (text : String) :
    Text.uppercase (Text.uppercase text) = Text.uppercase text := by
  simp [Text.uppercase,Text.upper_upper]

theorem IsTag.uppercase (part : IsTag text.toList) : IsTag (Text.uppercase text).toList := by
  rw [Text.uppercase,String.toList_ofList]
  have filled : Text.upper text.toList ≠ [] := Text.upper_ne_nil part.filled
  have noSpace : ' ' ∉ Text.upper text.toList := fun space =>
    part.noSpace ((Text.mem_upper (by decide)).mp space)
  have noDot : '.' ∉ Text.upper text.toList := fun dot =>
    part.noDot ((Text.mem_upper (by decide)).mp dot)
  exact ⟨⟨⟨filled,noSpace⟩,noDot⟩,fun head => part.noHash (Text.head?_upper (by decide) head)⟩

theorem Simple.normal (simple : Simple selector matcher) : NormalPart matcher := by
  cases simple with
  | id word => exact .id word
  | className part => exact .className part
  | tag part => exact .tag part.uppercase (uppercase_uppercase _)
  | compound front back => exact .compound front.uppercase (uppercase_uppercase _) back

theorem Reads.normal (reads : Reads selector matcher) : Normal matcher := by
  cases reads with
  | simple part => exact .part part.normal
  | child above below => exact .relative above.normal below.normal
  | descendant above below => exact .relative above.normal below.normal

theorem NormalPart.simple (normal : NormalPart matcher) : Simple matcher.text matcher := by
  cases normal with
  | id word => exact .id word
  | className part => exact .className part
  | @tag name part upper =>
    have simple := Simple.tag part
    rwa [upper] at simple
  | @compound tag className front upper back =>
    have simple := Simple.compound front back
    rwa [upper,String.append_assoc] at simple

theorem Normal.reads (normal : Normal matcher) : Reads matcher.text matcher := by
  cases normal with
  | part simple => exact .simple simple.simple
  | @relative combinator ancestor subject above below =>
    cases combinator with
    | child => exact .child above.simple below.simple
    | descendant => exact .descendant above.simple below.simple

theorem compile_value (before : Warnings) (selector : String) :
    (∃ matcher, compile? selector = .ok matcher ∧ (compile before selector).value = matcher) ∨
      (compile before selector).value = .never := by
  rw [compile_value_eq]
  cases compiled : compile? selector with
  | error error => exact .inr rfl
  | ok matcher => exact .inl ⟨matcher,rfl,rfl⟩

theorem compile?_text (compiled : compile? selector = .ok matcher) :
    compile? matcher.text = .ok matcher :=
  (reads_of_compile? compiled).normal.reads.compile?

theorem text_ne_never (compiled : compile? selector = .ok matcher) :
    matcher.text ≠ Matcher.never.text := by
  intro same
  have again := compile?_text compiled
  rw [same] at again
  -- Read as a selector the text is a tag, and a compiled tag prints in upper case.
  have tag : Reads Matcher.never.text (.tag "<NEVER>") :=
    .simple (.tag ⟨⟨⟨by decide,by decide⟩,by decide⟩,by decide⟩)
  rw [tag.compile?] at again
  cases again
  exact absurd same (by decide)

/-- Printing undoes compiling exactly on the normal matchers, and it tells compiled selectors
apart. -/
theorem text_normal_form :
    (∀ selector matcher, compile? selector = .ok matcher → Normal matcher) ∧
      (∀ matcher, compile? matcher.text = .ok matcher ↔ Normal matcher) ∧
      ∀ before before' selector selector',
        (compile before selector).value.text = (compile before' selector').value.text →
          (compile before selector).value = (compile before' selector').value := by
  refine ⟨fun _ _ compiled => (reads_of_compile? compiled).normal,?_,?_⟩
  · intro matcher
    exact ⟨fun compiled => (reads_of_compile? compiled).normal,fun normal => normal.reads.compile?⟩
  · intro before before' selector selector' same
    rcases compile_value before selector with ⟨first,compiled,value⟩ | value <;>
      rcases compile_value before' selector' with ⟨second,compiled',value'⟩ | value' <;>
      rw [value,value'] at same ⊢
    · have again := compile?_text compiled
      rw [same,compile?_text compiled'] at again
      exact (Except.ok.inj again).symm
    · exact absurd same (text_ne_never compiled)
    · exact absurd same.symm (text_ne_never compiled')

/-- A name and a class side by side print as one name with a dot in it. -/
example : compile? (Matcher.both (.id "a") (.className "b")).text = .ok (.id "a.b") := by cbv

end TreeQuery.Selector
