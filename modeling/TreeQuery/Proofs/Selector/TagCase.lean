import TreeQuery.Proofs.Selector.Satisfaction

/-! Tags are equal up to upper-casing. A selector keeps its tag in upper case, and an element's tag is
compared with it while it is expanded, one character after the other; this is the equality of the two
upper cases as whole texts (`streamed_iff`), however many characters a single one becomes. So tag texts
with one upper case stand for each other, as selectors and in the parts of selectors: two selectors
compile to the same matcher exactly if they differ in the case of their tags at most (`recased_iff`). -/
namespace TreeQuery

namespace Text

/-- Compare the upper case of a text with another text, character by character. A character of the text
is expanded when the `pending` ones of the expansion before are used up. -/
def streamed (pending text upper : List Char) : Bool :=
  match pending,text,upper with
  | c :: pending,text,d :: upper => c == d && streamed pending text upper
  | _ :: _,_,[] => false
  | [],c :: text,upper => streamed (upperChar c) text upper
  | [],[],upper => upper.isEmpty
termination_by (text.length,pending.length)
decreasing_by
  · exact Prod.Lex.right _ (Nat.lt_succ_self _)
  · exact Prod.Lex.left _ _ (Nat.lt_succ_self _)

theorem streamed_iff {pending text upper : List Char} :
    streamed pending text upper = true ↔ pending ++ Text.upper text = upper := by
  fun_induction streamed pending text upper with
  | case1 c pending text d upper ih =>
    rw [Bool.and_eq_true,ih,beq_iff_eq,List.cons_append,List.cons.injEq]
  | case2 => simp
  | case3 c text upper ih => rw [ih,List.nil_append,Text.upper,Text.upper,List.flatMap_cons]
  | case4 upper => rw [List.isEmpty_iff,List.nil_append,Text.upper,List.flatMap_nil,eq_comm]

theorem uppercase_eq_iff {text other : String} :
    streamed [] text.toList (uppercase other).toList = true ↔ uppercase text = uppercase other := by
  rw [streamed_iff,List.nil_append,uppercase,uppercase,String.toList_ofList]
  exact String.ofList_inj.symm

theorem head?_upper_iff {text : List Char} {mark : Char} (low : mark.toNat < 0x41) :
    (upper text).head? = some mark ↔ text.head? = some mark := by
  refine ⟨head?_upper low,fun head => ?_⟩
  obtain ⟨rest,rfl⟩ := List.head?_eq_some_iff.mp head
  rcases upperChar_settles mark with same | ⟨high,_⟩
  · rw [upper,List.flatMap_cons,same]
    rfl
  · omega

end Text

namespace Selector

/-- Elements with this tag are found by the selector, wherever they stand. -/
def FindsTag (selector tag : String) : Prop :=
  ∀ before tree node element, Tree.element? tree node = some element → element.tag = tag →
    (compile before selector).value.accepts tree node = true

/-- Simple parts with the same marks and names; a tag text may be exchanged for another one with the
same upper case. -/
inductive RecasedPart : String → String → Prop
  | kept {part : String} {matcher : Matcher} (simple : Simple part matcher) : RecasedPart part part
  | tag {old new : String} (oldTag : IsTag old.toList) (newTag : IsTag new.toList)
      (same : Text.uppercase old = Text.uppercase new) : RecasedPart old new
  | compound {old new className : String} (oldTag : IsTag old.toList) (newTag : IsTag new.toList)
      (same : Text.uppercase old = Text.uppercase new) (back : IsClass className.toList) :
      RecasedPart (old ++ "." ++ className) (new ++ "." ++ className)

/-- Selectors that differ in the case of their tags at most. -/
inductive Recased : String → String → Prop
  | simple {old new : String} (part : RecasedPart old new) : Recased old new
  | child {left left' right right' : String} (above : RecasedPart left left')
      (below : RecasedPart right right') : Recased (left ++ " > " ++ right) (left' ++ " > " ++ right')
  | descendant {left left' right right' : String} (above : RecasedPart left left')
      (below : RecasedPart right right') : Recased (left ++ " " ++ right) (left' ++ " " ++ right')

variable {selector selector' tag other text : String} {matcher : Matcher}

theorem isTag_uppercase_iff : IsTag (Text.uppercase text).toList ↔ IsTag text.toList := by
  refine ⟨fun part => ?_,IsTag.uppercase⟩
  rw [Text.uppercase,String.toList_ofList] at part
  have filled : text.toList ≠ [] := fun empty => part.filled (by rw [empty]; rfl)
  have noSpace : ' ' ∉ text.toList := fun space =>
    part.noSpace ((Text.mem_upper (by decide)).mpr space)
  have noDot : '.' ∉ text.toList := fun dot => part.noDot ((Text.mem_upper (by decide)).mpr dot)
  have noHash : text.toList.head? ≠ some '#' := fun head =>
    part.noHash ((Text.head?_upper_iff (by decide)).mpr head)
  exact ⟨⟨⟨filled,noSpace⟩,noDot⟩,noHash⟩

theorem compile?_tag (part : IsTag tag.toList) :
    compile? tag = .ok (.tag (Text.uppercase tag)) :=
  (Reads.simple (.tag part)).compile?

theorem compile?_uppercase (part : IsTag tag.toList) : compile? (Text.uppercase tag) = compile? tag := by
  rw [compile?_tag part.uppercase,compile?_tag part,uppercase_uppercase]

theorem accepts_tag {tree : Tree} {node : NodeId} {element : Element} (part : IsTag tag.toList)
    (before : Warnings) (found : tree.element? node = some element) :
    (compile before tag).value.accepts tree node = true ↔
      Text.uppercase element.tag = Text.uppercase tag := by
  rw [compile_of_accepted before (compile?_tag part),Matcher.accepts,found,Option.any_some,beq_iff_eq]

theorem findsTag_iff (part : IsTag tag.toList) :
    FindsTag tag other ↔ Text.uppercase other = Text.uppercase tag := by
  constructor
  · intro finds
    have found := nested_outer ⟨other,.empty⟩ ⟨other,.empty⟩
    exact (accepts_tag part {} found).mp (finds {} _ 1 _ found rfl)
  · rintro same before tree node element found rfl
    exact (accepts_tag part before found).mpr same

theorem FindsTag.isTag (finds : FindsTag tag other) (part : IsTag tag.toList) :
    IsTag other.toList := by
  rw [← isTag_uppercase_iff,(findsTag_iff part).mp finds]
  exact part.uppercase

theorem recasedPart_iff :
    RecasedPart selector selector' ↔ ∃ matcher, Simple selector matcher ∧ Simple selector' matcher := by
  constructor
  · intro recased
    cases recased with
    | kept simple => exact ⟨_,simple,simple⟩
    | tag oldTag newTag same => exact ⟨_,.tag oldTag,same ▸ .tag newTag⟩
    | compound oldTag newTag same back =>
      exact ⟨_,.compound oldTag back,same ▸ .compound newTag back⟩
  · rintro ⟨matcher,first,second⟩
    cases first with
    | id word =>
      cases second
      exact .kept (.id word)
    | className part =>
      cases second
      exact .kept (.className part)
    | tag oldTag =>
      -- The two readings share the upper case only, so the texts under it are kept apart.
      generalize upper : Text.uppercase selector = name at second
      cases second with
      | tag newTag => exact .tag oldTag newTag upper
    | @compound old className oldTag back =>
      generalize upper : Text.uppercase old = name at second
      cases second with
      | compound newTag => exact .compound oldTag newTag upper back

theorem recased_iff :
    Recased selector selector' ↔
      ∃ matcher, compile? selector = .ok matcher ∧ compile? selector' = .ok matcher := by
  simp only [compile?_eq_ok_iff]
  constructor
  · intro recased
    cases recased with
    | simple part =>
      obtain ⟨matcher,first,second⟩ := recasedPart_iff.mp part
      exact ⟨matcher,.simple first,.simple second⟩
    | child above below =>
      obtain ⟨ancestor,left,left'⟩ := recasedPart_iff.mp above
      obtain ⟨subject,right,right'⟩ := recasedPart_iff.mp below
      exact ⟨_,.child left right,.child left' right'⟩
    | descendant above below =>
      obtain ⟨ancestor,left,left'⟩ := recasedPart_iff.mp above
      obtain ⟨subject,right,right'⟩ := recasedPart_iff.mp below
      exact ⟨_,.descendant left right,.descendant left' right'⟩
  · rintro ⟨matcher,first,second⟩
    cases first with
    | simple part =>
      cases second with
      | simple part' => exact .simple (recasedPart_iff.mpr ⟨_,part,part'⟩)
      | child | descendant => cases part
    | child left right =>
      cases second with
      | simple part => cases part
      | child left' right' =>
        exact .child (recasedPart_iff.mpr ⟨_,left,left'⟩) (recasedPart_iff.mpr ⟨_,right,right'⟩)
    | descendant left right =>
      cases second with
      | simple part => cases part
      | descendant left' right' =>
        exact .descendant (recasedPart_iff.mpr ⟨_,left,left'⟩) (recasedPart_iff.mpr ⟨_,right,right'⟩)

theorem Recased.query_eq (recased : Recased selector selector') (before : Warnings) (tree : Tree)
    (root : NodeId) : query before tree selector root = query before tree selector' root := by
  obtain ⟨matcher,first,second⟩ := recased_iff.mp recased
  rw [query,compile_of_ok first,query,compile_of_ok second]

/-- A tag selector finds the elements whose tag has its upper case, and this is an equivalence of tag
texts: such texts compile alike, find each other and can be exchanged in every selector. -/
theorem tags_up_to_case :
    (∀ tag : String, IsTag tag.toList →
        (∀ before tree node element, Tree.element? tree node = some element →
          (compile before tag).value.accepts tree node =
              Text.streamed [] element.tag.toList (Text.uppercase tag).toList ∧
            ((compile before tag).value.accepts tree node = true ↔
              Text.uppercase element.tag = Text.uppercase tag)) ∧
          IsTag (Text.uppercase tag).toList ∧ compile? tag = .ok (.tag (Text.uppercase tag)) ∧
          compile? (Text.uppercase tag) = compile? tag ∧
          (∀ other, FindsTag tag other → IsTag other.toList ∧ FindsTag other tag) ∧
          ∀ other third, FindsTag tag other → FindsTag other third → FindsTag tag third) ∧
      ∀ selector selector',
        (Recased selector selector' ↔
          ∃ matcher, compile? selector = .ok matcher ∧ compile? selector' = .ok matcher) ∧
        (Recased selector selector' → ∀ before tree root,
          query before tree selector root = query before tree selector' root) := by
  constructor
  · intro tag part
    refine ⟨?_,part.uppercase,compile?_tag part,compile?_uppercase part,?_,?_⟩
    · intro before tree node element found
      have accepted := accepts_tag part before found
      exact ⟨Bool.eq_iff_iff.mpr (accepted.trans Text.uppercase_eq_iff.symm),accepted⟩
    · intro other finds
      have otherPart := finds.isTag part
      exact ⟨otherPart,(findsTag_iff otherPart).mpr ((findsTag_iff part).mp finds).symm⟩
    · intro other third finds findsThird
      have otherPart := finds.isTag part
      exact (findsTag_iff part).mpr
        (((findsTag_iff otherPart).mp findsThird).trans ((findsTag_iff part).mp finds))
  · intro selector selector'
    exact ⟨recased_iff,Recased.query_eq⟩

/-- One character becomes two; a tag whose upper case is only the beginning of another one is not found. -/
theorem tags_up_to_case_expanded :
    let tree := Tree.empty.run [.appendElement 0 ⟨"STRASSE",{}⟩,
      .appendElement 1 ⟨"li",Attributes.empty.insert "class" "x"⟩,.appendElement 0 ⟨"straß",{}⟩]
    IsTag "straße".toList ∧ (compile {} "straße").value.accepts tree 1 = true ∧
      (compile {} "straße").value.accepts tree 3 = false ∧
      compile? "STRASSE" = compile? "straße" ∧ FindsTag "straße" "STRASSE" ∧
      FindsTag "STRASSE" "straße" ∧ FindsTag "straße" "ſtrasse" ∧
      Recased "straße > li.x" "ſtrasse > LI.x" ∧
      (query {} tree "straße > li.x" Tree.root).value = [2] ∧
      (query {} tree "ſtrasse > LI.x" Tree.root).value = [2] := by
  intro tree
  have part : IsTag "straße".toList := ⟨⟨⟨by decide,by decide⟩,by decide⟩,by decide⟩
  have upper : Text.uppercase "straße" = "STRASSE" := by decide +kernel
  have inner : tree.element? 3 = some ⟨"straß",{}⟩ := by decide
  obtain ⟨tags,selectors⟩ := tags_up_to_case
  obtain ⟨found,_,_,alike,symmetric,transitive⟩ := tags "straße" part
  have finds : FindsTag "straße" "STRASSE" := by
    intro before tree node element here same
    refine (found before tree node element here).2.mpr ?_
    rw [same]
    decide +kernel
  obtain ⟨upperPart,back⟩ := symmetric "STRASSE" finds
  have onwards : FindsTag "STRASSE" "ſtrasse" := by
    intro before tree node element here same
    refine ((tags "STRASSE" upperPart).1 before tree node element here).2.mpr ?_
    rw [same]
    decide +kernel
  have absent : ¬ (compile {} "straße").value.accepts tree 3 = true := fun accepted =>
    absurd ((found {} tree 3 _ inner).2.mp accepted) (by decide +kernel)
  obtain ⟨same,answers⟩ := selectors "straße > li.x" "ſtrasse > LI.x"
  have recased : Recased "straße > li.x" "ſtrasse > LI.x" := same.mpr
    ⟨.relative .child (.tag "STRASSE") (.both (.tag "LI") (.className "x")),by decide +kernel,
      by decide +kernel⟩
  have answer : (query {} tree "straße > li.x" Tree.root).value = [2] := by decide +kernel
  refine ⟨part,finds {} tree 1 _ (by decide : tree.element? 1 = some ⟨"STRASSE",{}⟩) rfl,
    Bool.eq_false_iff.mpr absent,upper ▸ alike,finds,back,
    transitive "STRASSE" "ſtrasse" finds onwards,recased,answer,?_⟩
  rw [← answers recased {} tree Tree.root,answer]

end Selector
end TreeQuery
