import TreeQuery.Proofs.Tree.Mirroring

/-! Moves that do not depend on each other. Whether an append is accepted depends on what is above the
new parent, and a move changes that inside the moved subtree only. Two appends that give different
children to different parents, neither parent in the subtree that the other one moves, are therefore
accepted or refused without regard to each other (`accepts_append_of_outside`), and they make the same
tree in either order (`append_commutes`). They may still meet in many places: both children may leave
one list, a child may leave the list that the other one joins, or move out of the other one's subtree. -/
namespace TreeQuery.Tree

variable {tree left right : Tree} {parent child other moved id : NodeId}

theorem get?_eq_of_lookups (content : left.content? id = right.content? id)
    (parent : left.parent? id = right.parent? id) (children : left.children id = right.children id) :
    left.get? id = right.get? id := by
  unfold content? at content
  unfold parent? at parent
  unfold Tree.children at children
  cases first : left.get? id with
  | none =>
    cases second : right.get? id with
    | none => rfl
    | some node => simp [first,second] at content
  | some node =>
    cases second : right.get? id with
    | none => simp [first,second] at content
    | some twin =>
      obtain ⟨_,_,_⟩ := node
      obtain ⟨_,_,_⟩ := twin
      simp_all

/-- A tree is given by its look-ups. -/
theorem ext_lookups (content : ∀ id, left.content? id = right.content? id)
    (parent : ∀ id, left.parent? id = right.parent? id)
    (children : ∀ id, left.children id = right.children id) : left = right := by
  have nodes : left.nodes = right.nodes :=
    Array.ext_getElem? fun id => get?_eq_of_lookups (content id) (parent id) (children id)
  obtain ⟨_⟩ := left
  obtain ⟨_⟩ := right
  cases nodes
  rfl

namespace WellFormed

theorem accepts_append_of_outside (formed : tree.WellFormed) (outside : ¬ tree.Within other child)
    (parent moved : NodeId) :
    (tree.append parent child).accepts other moved = tree.accepts other moved := by
  cases accepted : tree.accepts parent child with
  | false => rw [append_refused accepted]
  | true =>
    -- Nothing above `other` is moved, so the guard of the second append climbs the same way.
    have above := (formed.mirrors_append accepted).ancestors other outside
    rw [List.map_id'] at above
    rw [accepts,accepts,size_append,isDescendant,isDescendant,above]

theorem childrenWithout_append (formed : tree.WellFormed)
    (accepted : tree.accepts parent child = true) (different : child ≠ moved) (id : NodeId) :
    (tree.append parent child).childrenWithout moved id =
      ((tree.childrenWithout moved id).filter fun node => node != child) ++
        if id = parent then [child] else [] := by
  have joined : (if id = parent then [child] else []).filter (fun node => node != moved) =
      if id = parent then [child] else [] := by
    split <;> simp [different]
  rw [childrenWithout,children_append formed accepted,List.filter_append,joined,childrenWithout,
    List.filter_comm,childrenWithout]

theorem children_append_append (formed : tree.WellFormed)
    (first : tree.accepts parent child = true)
    (second : (tree.append parent child).accepts other moved = true) (different : child ≠ moved)
    (id : NodeId) :
    ((tree.append parent child).append other moved).children id =
      ((tree.childrenWithout moved id).filter fun node => node != child) ++
        ((if id = parent then [child] else []) ++ if id = other then [moved] else []) := by
  rw [children_append (formed.append parent child) second,
    formed.childrenWithout_append first different,List.append_assoc]

theorem append_append_comm (formed : tree.WellFormed) (parents : parent ≠ other)
    (children : child ≠ moved) (first : tree.accepts parent child = true)
    (second : tree.accepts other moved = true)
    (first' : (tree.append other moved).accepts parent child = true)
    (second' : (tree.append parent child).accepts other moved = true) :
    (tree.append parent child).append other moved = (tree.append other moved).append parent child := by
  apply ext_lookups
  · intro id
    simp only [content?_append]
  · intro id
    rw [parent?_append second',parent?_append first,parent?_append first',parent?_append second]
    by_cases here : id = child
    · rw [if_pos here,if_pos here,if_neg fun there => children (here.symm.trans there)]
    · rw [if_neg here,if_neg here]
  · intro id
    -- A list that gains a child gains only one, as the parents differ.
    have gained : (if id = parent then [child] else []) ++ (if id = other then [moved] else []) =
        (if id = other then [moved] else []) ++ if id = parent then [child] else [] := by
      by_cases here : id = parent
      · rw [if_neg fun there => parents (here.symm.trans there),List.append_nil,List.nil_append]
      · rw [if_neg here,List.append_nil,List.nil_append]
    rw [formed.children_append_append first second' children,
      formed.children_append_append second first' children.symm,gained,childrenWithout,
      List.filter_comm,childrenWithout]

end WellFormed

/-- Two appends of different children to different parents, neither parent in the other one's moved
subtree, make the same tree in either order, and each is accepted after the other one exactly if it is
accepted alone. -/
theorem append_commutes (reachable : tree.Reachable) (parents : parent ≠ other)
    (children : child ≠ moved)
    (parentOutside : ¬ (parent = moved ∨ tree.isDescendant parent moved = true))
    (otherOutside : ¬ (other = child ∨ tree.isDescendant other child = true)) :
    (tree.append parent child).accepts other moved = tree.accepts other moved ∧
      (tree.append other moved).accepts parent child = tree.accepts parent child ∧
      (tree.append parent child).append other moved =
        (tree.append other moved).append parent child := by
  have formed := reachable.wellFormed
  rw [← formed.within_iff_isDescendant] at parentOutside otherOutside
  have second := formed.accepts_append_of_outside otherOutside parent moved
  have first := formed.accepts_append_of_outside parentOutside other child
  refine ⟨second,first,?_⟩
  cases firstAccepted : tree.accepts parent child with
  | false =>
    rw [firstAccepted] at first
    rw [append_refused firstAccepted,append_refused first]
  | true =>
    cases secondAccepted : tree.accepts other moved with
    | false =>
      rw [secondAccepted] at second
      rw [append_refused secondAccepted,append_refused second]
    | true =>
      exact formed.append_append_comm parents children firstAccepted secondAccepted
        (first.trans firstAccepted) (second.trans secondAccepted)

/-- One child moves out of the other one's subtree into the list that this one leaves; and an append
that would close a cycle is refused before and after another move. -/
theorem append_commutes_nested :
    let tree := empty.run [.appendElement 0 ⟨"a",{}⟩,.appendElement 1 ⟨"b",{}⟩,
      .appendElement 1 ⟨"c",{}⟩,.appendElement 2 ⟨"d",{}⟩]
    tree.Reachable ∧ tree.children 1 = [2,3] ∧ tree.children 2 = [4] ∧
      ¬ (1 = 2 ∨ tree.isDescendant 1 2 = true) ∧ ¬ (3 = 4 ∨ tree.isDescendant 3 4 = true) ∧
      ((tree.append 1 4).append 3 2).children 1 = [3,4] ∧
      ((tree.append 1 4).append 3 2).children 3 = [2] ∧
      (tree.append 1 4).append 3 2 = (tree.append 3 2).append 1 4 ∧
      ¬ (4 = 3 ∨ tree.isDescendant 4 3 = true) ∧ ¬ (0 = 2 ∨ tree.isDescendant 0 2 = true) ∧
      tree.accepts 4 2 = false ∧ (tree.append 0 3).accepts 4 2 = false ∧
      (tree.append 4 2).append 0 3 = (tree.append 0 3).append 4 2 := by
  intro tree
  have reachable : tree.Reachable := ⟨empty,_,.inl rfl,rfl⟩
  have parentOutside : ¬ (1 = 2 ∨ tree.isDescendant 1 2 = true) := by decide
  have otherOutside : ¬ (3 = 4 ∨ tree.isDescendant 3 4 = true) := by decide
  have refusedOutside : ¬ (4 = 3 ∨ tree.isDescendant 4 3 = true) := by decide
  have rootOutside : ¬ (0 = 2 ∨ tree.isDescendant 0 2 = true) := by decide
  have refused : tree.accepts 4 2 = false := by decide
  obtain ⟨_,_,moved⟩ := append_commutes reachable (by decide) (by decide) parentOutside otherOutside
  obtain ⟨_,still,same⟩ :=
    append_commutes reachable (by decide) (by decide) refusedOutside rootOutside
  exact ⟨reachable,by decide,by decide,parentOutside,otherOutside,by decide,by decide,moved,
    refusedOutside,rootOutside,refused,still.trans refused,same⟩

/-- Behind one parent the order of two appends is the order of the children. -/
example :
    let tree := empty.run [.alloc (.text "a"),.alloc (.text "b")]
    ((tree.append 0 1).append 0 2).children 0 = [1,2] ∧
      ((tree.append 0 2).append 0 1).children 0 = [2,1] := by decide

end TreeQuery.Tree
