import TreeQuery.Proofs.Tree.Ancestry

/-! What the changes of a tree do to its look-ups. A new node alters no parent and no list of
children. An accepted append gives one node another parent, takes it off the list it was on and
puts it at the end of another one; contents and size stay. -/
namespace TreeQuery.Tree

variable {tree : Tree} {id parent child : NodeId}

theorem get?_inside (inside : id < tree.size) : ∃ node, tree.get? id = some node := by
  apply Option.isSome_iff_exists.mp
  simpa [get?,size] using inside

@[simp] theorem size_empty : empty.size = 1 := rfl

@[simp] theorem size_alloc (tree : Tree) (content : Content) :
    (tree.alloc content).size = tree.size + 1 := by
  simp [size,alloc]

theorem get?_alloc (tree : Tree) (content : Content) (id : NodeId) :
    (tree.alloc content).get? id = if id = tree.size then some { content } else tree.get? id :=
  Array.getElem?_push

@[simp] theorem parent?_alloc (tree : Tree) (content : Content) (id : NodeId) :
    (tree.alloc content).parent? id = tree.parent? id := by
  by_cases fresh : id = tree.size
  · simp [parent?,get?_alloc,fresh,get?_eq_none (Nat.le_refl _)]
  · simp [parent?,get?_alloc,fresh]

@[simp] theorem children_alloc (tree : Tree) (content : Content) (id : NodeId) :
    (tree.alloc content).children id = tree.children id := by
  by_cases fresh : id = tree.size
  · simp [children,get?_alloc,fresh,get?_eq_none (Nat.le_refl _)]
  · simp [children,get?_alloc,fresh]

theorem content?_alloc (tree : Tree) (content : Content) (id : NodeId) :
    (tree.alloc content).content? id =
      if id = tree.size then some content else tree.content? id := by
  by_cases fresh : id = tree.size <;> simp [content?,get?_alloc,fresh]

@[simp] theorem size_modify (tree : Tree) (id : NodeId) (change : Node → Node) :
    (tree.modify id change).size = tree.size := by
  simp [size,modify]

theorem get?_modify (tree : Tree) (id : NodeId) (change : Node → Node) (other : NodeId) :
    (tree.modify id change).get? other =
      if id = other then (tree.get? other).map change else tree.get? other :=
  Array.getElem?_modify

/-- A change that keeps a part of a node keeps it for every node of the tree. -/
theorem map_get?_modify {α : Type} {part : Node → α} {change : Node → Node}
    (kept : ∀ node, part (change node) = part node) (tree : Tree) (id other : NodeId) :
    ((tree.modify id change).get? other).map part = (tree.get? other).map part := by
  rw [get?_modify]
  split
  · have same : part ∘ change = part := funext kept
    rw [Option.map_map,same]
  · rfl

@[simp] theorem parent?_modify {change : Node → Node} (kept : ∀ node, (change node).parent = node.parent)
    (tree : Tree) (id other : NodeId) :
    (tree.modify id change).parent? other = tree.parent? other := by
  have joined := congrArg Option.join (map_get?_modify kept tree id other)
  simp only [← Option.bind_id_eq_join,Option.bind_map] at joined
  exact joined

@[simp] theorem children_modify {change : Node → Node}
    (kept : ∀ node, (change node).children = node.children) (tree : Tree) (id other : NodeId) :
    (tree.modify id change).children other = tree.children other :=
  congrArg (Option.getD · []) (map_get?_modify kept tree id other)

@[simp] theorem content?_modify {change : Node → Node}
    (kept : ∀ node, (change node).content = node.content) (tree : Tree) (id other : NodeId) :
    (tree.modify id change).content? other = tree.content? other :=
  map_get?_modify kept tree id other

@[simp] theorem size_unlist (tree : Tree) (child : NodeId) :
    (tree.unlist child).size = tree.size := by
  unfold unlist
  split <;> simp

@[simp] theorem parent?_unlist (tree : Tree) (child id : NodeId) :
    (tree.unlist child).parent? id = tree.parent? id := by
  unfold unlist
  split <;> simp

@[simp] theorem content?_unlist (tree : Tree) (child id : NodeId) :
    (tree.unlist child).content? id = tree.content? id := by
  unfold unlist
  split <;> simp

def childrenWithout (tree : Tree) (child id : NodeId) : List NodeId :=
  (tree.children id).filter fun other => other != child

theorem childrenWithout_of_absent (absent : child ∉ tree.children id) :
    tree.childrenWithout child id = tree.children id :=
  List.filter_eq_self.mpr fun _ member => bne_iff_ne.mpr fun same => absent (same ▸ member)

theorem mem_childrenWithout {other : NodeId} :
    other ∈ tree.childrenWithout child id ↔ other ∈ tree.children id ∧ other ≠ child := by
  simp [childrenWithout]

theorem children_unlist (formed : tree.WellFormed) (child id : NodeId) :
    (tree.unlist child).children id = tree.childrenWithout child id := by
  cases orphan : tree.parent? child with
  | none =>
    have absent : child ∉ tree.children id := fun member => by
      simp [formed.listed.mp member] at orphan
    simp [unlist,orphan,childrenWithout_of_absent absent]
  | some old =>
    simp only [unlist,orphan]
    by_cases same : old = id
    · subst same
      cases found : tree.get? old <;>
        simp [childrenWithout,children,get?_modify,found]
    · have absent : child ∉ tree.children id := fun member => same (by
        simpa [formed.listed.mp member] using orphan.symm)
      rw [childrenWithout_of_absent absent,children,get?_modify,if_neg same,children]

/-- The conditions of an append, with the walk to the ancestors read as a relation. -/
theorem WellFormed.accepts_iff (formed : tree.WellFormed) :
    tree.accepts parent child = true ↔
      parent < tree.size ∧ child < tree.size ∧ ¬ tree.Within parent child := by
  simp [accepts,formed.within_iff_isDescendant,and_assoc]

theorem append_refused (refused : tree.accepts parent child = false) :
    tree.append parent child = tree := by
  simp [append,refused]

theorem append_accepted (accepted : tree.accepts parent child = true) :
    tree.append parent child =
      ((tree.unlist child).modify parent fun node =>
        { node with children := node.children ++ [child] }).modify child fun node =>
          { node with parent := some parent } := by
  simp [append,accepted]

@[simp] theorem size_append (tree : Tree) (parent child : NodeId) :
    (tree.append parent child).size = tree.size := by
  unfold append
  split <;> simp

@[simp] theorem content?_append (tree : Tree) (parent child id : NodeId) :
    (tree.append parent child).content? id = tree.content? id := by
  cases accepted : tree.accepts parent child with
  | false => rw [append_refused accepted]
  | true => simp [append_accepted accepted]

@[simp] theorem size_appendElement (tree : Tree) (parent : NodeId) (element : Element) :
    (tree.appendElement parent element).size = tree.size + 1 := by
  simp [appendElement]

theorem content?_appendElement (tree : Tree) (parent : NodeId) (element : Element) (id : NodeId) :
    (tree.appendElement parent element).content? id =
      if id = tree.size then some (.element element) else tree.content? id := by
  rw [appendElement,content?_append,content?_alloc]

theorem parent?_append (accepted : tree.accepts parent child = true) (id : NodeId) :
    (tree.append parent child).parent? id =
      if id = child then some parent else tree.parent? id := by
  rw [append_accepted accepted]
  by_cases same : id = child
  · have inside : id < ((tree.unlist child).modify parent fun node =>
        { node with children := node.children ++ [child] }).size := by simp_all [accepts]
    obtain ⟨node,found⟩ := get?_inside inside
    rw [parent?,get?_modify,if_pos same.symm,found,if_pos same]
    rfl
  · rw [parent?,get?_modify,if_neg (Ne.symm same),if_neg same,← parent?]
    simp

theorem children_append (formed : tree.WellFormed) (accepted : tree.accepts parent child = true)
    (id : NodeId) :
    (tree.append parent child).children id =
      tree.childrenWithout child id ++ if id = parent then [child] else [] := by
  have relinked : (tree.append parent child).children id =
      ((tree.unlist child).modify parent fun node =>
        { node with children := node.children ++ [child] }).children id := by
    simp [append_accepted accepted]
  rw [relinked,← children_unlist formed,children,get?_modify]
  by_cases same : id = parent
  · have inside : id < (tree.unlist child).size := by simp_all [accepts]
    obtain ⟨node,found⟩ := get?_inside inside
    simp [children,found,same.symm]
  · simp [children,same,Ne.symm same]

theorem mem_children_append (formed : tree.WellFormed)
    (accepted : tree.accepts parent child = true) (id other : NodeId) :
    other ∈ (tree.append parent child).children id ↔
      other ∈ tree.children id ∧ other ≠ child ∨ id = parent ∧ other = child := by
  rw [children_append formed accepted,List.mem_append,mem_childrenWithout]
  split <;> simp_all

end TreeQuery.Tree
