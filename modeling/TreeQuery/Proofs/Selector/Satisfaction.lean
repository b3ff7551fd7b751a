import TreeQuery.Proofs.Selector.Composition
import TreeQuery.Proofs.Tree.Attributes

/-! Which selectors can find anything. Each simple part describes an element that it accepts in any
place; an element below another one is then enough for a relative selector. So the matcher that
accepts nothing stands for the malformed selectors only (`isNever_iff_unsatisfiable`). -/
namespace TreeQuery.Selector

/-- The matcher accepts some node of some tree that can be built. -/
def Matcher.Satisfiable (matcher : Matcher) : Prop :=
  ∃ tree node, Tree.Reachable tree ∧ matcher.accepts tree node = true

/-- A document with one element in it, and another element in that one. -/
def nested (outer inner : Element) : Tree :=
  (Tree.empty.appendElement Tree.root outer).appendElement 1 inner

variable {matcher : Matcher} {name : String}

theorem nested_reachable (outer inner : Element) : (nested outer inner).Reachable := by
  refine ⟨Tree.empty,[.appendElement Tree.root outer,.appendElement 1 inner],.inl rfl,?_⟩
  simp only [nested,Tree.run,List.foldl_cons,List.foldl_nil,Tree.perform]

theorem nested_outer (outer inner : Element) : (nested outer inner).element? 1 = some outer := by
  rw [element?_eq_some,nested,Tree.content?_appendElement,Tree.content?_appendElement]
  simp

theorem nested_inner (outer inner : Element) : (nested outer inner).element? 2 = some inner := by
  rw [element?_eq_some,nested,Tree.content?_appendElement]
  simp

theorem nested_parent (outer inner : Element) : (nested outer inner).parent? 2 = some 1 := by
  have formed : (Tree.empty.appendElement Tree.root outer).WellFormed :=
    Tree.WellFormed.empty.perform (.appendElement Tree.root outer)
  rw [nested,formed.parent?_appendElement inner (by simp)]
  simp

theorem hasClass_of_class (part : IsClass name.toList) (tag : String) :
    (Element.mk tag (Attributes.empty.insert "class" name)).hasClass name = true := by
  simp [Element.hasClass,Element.classes,Attributes.get?_insert,
    Text.tokens_of_noSpace part.filled part.noSpace]

/-- An element that a simple part accepts wherever it stands. -/
theorem NormalPart.exists_element (normal : NormalPart matcher) :
    ∃ element, ∀ tree node,
      tree.element? node = some element → matcher.accepts tree node = true := by
  cases normal with
  | @id name word =>
    refine ⟨⟨"",Attributes.empty.insert "id" name⟩,fun tree node found => ?_⟩
    simp [Matcher.accepts,found,Element.id?,Attributes.get?_insert]
  | @className name part =>
    refine ⟨⟨"",Attributes.empty.insert "class" name⟩,fun tree node found => ?_⟩
    simp [Matcher.accepts,found,hasClass_of_class part]
  | @tag name part upper =>
    refine ⟨⟨name,.empty⟩,fun tree node found => ?_⟩
    simp [Matcher.accepts,found,upper]
  | @compound tag name front upper back =>
    refine ⟨⟨tag,Attributes.empty.insert "class" name⟩,fun tree node found => ?_⟩
    simp [Matcher.accepts,found,upper,hasClass_of_class back]

theorem Normal.satisfiable (normal : Normal matcher) : matcher.Satisfiable := by
  cases normal with
  | part simple =>
    obtain ⟨element,fits⟩ := simple.exists_element
    exact ⟨nested element element,1,nested_reachable _ _,fits _ 1 (nested_outer element element)⟩
  | @relative combinator ancestor subject above below =>
    obtain ⟨outer,outerFits⟩ := above.exists_element
    obtain ⟨inner,innerFits⟩ := below.exists_element
    have subjectAccepts := innerFits _ 2 (nested_inner outer inner)
    have parent : ancestor.AcceptsParent (nested outer inner) 2 :=
      ⟨1,nested_parent outer inner,outerFits _ 1 (nested_outer outer inner)⟩
    refine ⟨nested outer inner,2,nested_reachable outer inner,?_⟩
    cases combinator with
    | child =>
      simp only [Matcher.accepts,subjectAccepts,Matcher.acceptsParent_iff.mpr parent,Bool.and_self]
    | descendant =>
      simp only [Matcher.accepts,subjectAccepts,Matcher.acceptsAbove_iff.mpr parent.acceptsAbove,
        Bool.and_self]

theorem Matcher.isNever_iff : matcher.isNever = true ↔ matcher = .never := by
  cases matcher <;> simp [isNever]

theorem never_unsatisfiable : ¬ Matcher.never.Satisfiable := by
  rintro ⟨tree,node,_,accepted⟩
  cases accepted

/-- A selector compiles to the matcher that accepts nothing exactly if no tree has a node that its
matcher accepts: every selector of the grammar can find something, and a malformed one never does. -/
theorem isNever_iff_unsatisfiable (before : Warnings) (selector : String) :
    ((compile before selector).value.isNever = true ↔
        ¬ (compile before selector).value.Satisfiable) ∧
      (Accepted selector ↔ (compile before selector).value.Satisfiable) ∧
      (Accepted selector ∨
        ∀ tree node, (compile before selector).value.accepts tree node = false) := by
  rw [compile_value_eq]
  cases compiled : compile? selector with
  | error error =>
    have rejected : ¬ Accepted selector := by
      rintro ⟨matcher,accepted⟩
      rw [compiled] at accepted
      cases accepted
    exact ⟨iff_of_true rfl never_unsatisfiable,iff_of_false rejected never_unsatisfiable,
      .inr fun _ _ => rfl⟩
  | ok matcher =>
    have satisfiable : matcher.Satisfiable := (reads_of_compile? compiled).normal.satisfiable
    have accepted : Accepted selector := ⟨matcher,compiled⟩
    have notNever : ¬ matcher.isNever = true := fun never =>
      never_unsatisfiable (Matcher.isNever_iff.mp never ▸ satisfiable)
    exact ⟨iff_of_false notNever (not_not_intro satisfiable),iff_of_true accepted satisfiable,
      .inl accepted⟩

end TreeQuery.Selector
