import TreeQuery.Proofs.Selector.Collect
import TreeQuery.Proofs.Selector.Evaluation

/-! What a change of the tree leaves alone. A matcher decides by what is at a node and above it, and a
move changes what is above the nodes of the moved subtree only. For all others, whether they stand
next to the old place or the new one or above them, every matcher decides as before; a new node
disturbs none of the old ones (`accepts_frame`). -/
namespace TreeQuery.Selector

variable {tree : Tree} {matcher : Matcher} {parent child node : NodeId}

theorem accepts_append_outside (formed : tree.WellFormed) (outside : ¬ tree.Within node child) :
    matcher.accepts (tree.append parent child) node = matcher.accepts tree node := by
  cases accepted : tree.accepts parent child with
  | false => rw [Tree.append_refused accepted]
  | true => exact matcher.accepts_mirrored (formed.mirrors_append accepted) outside

theorem accepts_append_flat (flat : matcher.isFlat = true) :
    matcher.accepts (tree.append parent child) node = matcher.accepts tree node := by
  apply matcher.accepts_of_element flat
  rw [Tree.element?,Tree.content?_append,Tree.element?]

theorem accepts_alloc (formed : tree.WellFormed) (content : Content) (inside : node < tree.size) :
    matcher.accepts (tree.alloc content) node = matcher.accepts tree node :=
  matcher.accepts_mirrored (formed.mirrors_alloc content) inside

theorem accepts_appendElement (formed : tree.WellFormed) (element : Element)
    (inside : node < tree.size) :
    matcher.accepts (tree.appendElement parent element) node = matcher.accepts tree node := by
  rw [Tree.appendElement,accepts_append_outside (formed.alloc _) (formed.not_within_fresh _ inside),
    accepts_alloc formed _ inside]

/-- Matchers decide as before about every node outside a subtree that an append moves or fails to
move, and a matcher without a relative part does so about every node. Adding a node changes no
decision about the nodes that were there. -/
theorem accepts_frame (reachable : tree.Reachable) (matcher : Matcher) :
    (∀ parent child node, ¬ (node = child ∨ tree.isDescendant node child = true) →
        matcher.accepts (tree.append parent child) node = matcher.accepts tree node) ∧
      (matcher.isFlat = true → ∀ parent child node,
        matcher.accepts (tree.append parent child) node = matcher.accepts tree node) ∧
      (∀ content, ∀ node < tree.size,
        matcher.accepts (tree.alloc content) node = matcher.accepts tree node) ∧
      ∀ parent element, ∀ node < tree.size,
        matcher.accepts (tree.appendElement parent element) node = matcher.accepts tree node := by
  have formed := reachable.wellFormed
  refine ⟨?_,?_,?_,?_⟩
  · intro parent child node outside
    rw [← formed.within_iff_isDescendant] at outside
    exact accepts_append_outside formed outside
  · intro flat parent child node
    exact accepts_append_flat flat
  · intro content node inside
    exact accepts_alloc formed content inside
  · intro parent element node inside
    exact accepts_appendElement formed element inside

/-- One of two sisters moves away; only the one that stays is still a `c` below a `b` of an `a`. -/
theorem accepts_frame_sisters :
    let tree := Tree.empty.run [.appendElement 0 ⟨"a",{}⟩,.appendElement 1 ⟨"b",{}⟩,
      .appendElement 2 ⟨"c",{}⟩,.appendElement 2 ⟨"c",{}⟩]
    let tag : Matcher := .tag "C"
    let nested : Matcher := .relative .descendant (.relative .child (.tag "A") (.tag "B")) tag
    tree.Reachable ∧ nested.accepts tree 3 = true ∧ nested.accepts tree 4 = true ∧
      nested.accepts (tree.append 0 3) 3 = false ∧
      ¬ (4 = 3 ∨ tree.isDescendant 4 3 = true) ∧ nested.accepts (tree.append 0 3) 4 = true ∧
      tag.isFlat = true ∧ tag.accepts (tree.append 0 3) 3 = tag.accepts tree 3 ∧
      4 < tree.size ∧ nested.accepts (tree.alloc (.text "x")) 4 = true ∧
      nested.accepts (tree.appendElement 4 ⟨"b",{}⟩) 4 = true := by
  intro tree tag nested
  have reachable : tree.Reachable := ⟨Tree.empty,_,.inl rfl,rfl⟩
  have staying : nested.accepts tree 4 = true := by decide +kernel
  have outside : ¬ (4 = 3 ∨ tree.isDescendant 4 3 = true) := by decide
  have inside : 4 < tree.size := by decide
  obtain ⟨moved,_,alloc,appendElement⟩ := accepts_frame reachable nested
  obtain ⟨_,flat,_⟩ := accepts_frame reachable tag
  refine ⟨reachable,by decide +kernel,staying,by decide +kernel,outside,?_,rfl,?_,inside,?_,?_⟩
  · rw [moved 0 3 4 outside,staying]
  · exact flat rfl 0 3 3
  · rw [alloc (.text "x") 4 inside,staying]
  · rw [appendElement 4 ⟨"b",{}⟩ 4 inside,staying]

end TreeQuery.Selector
