import TreeQuery.Proofs.Tree.Move

/-! Trees that are alike from a node upwards. What is above a node is told by parent links alone, so
nodes that keep their parents keep everything above them (`WellFormed.mirrors`). A move gives a new
parent to one node, and everything outside the subtree of that node keeps what is above it
(`mirrors_append`); a new node is above nothing (`mirrors_alloc`). -/
namespace TreeQuery.Tree

/-- The selected nodes of one tree stand in another tree too, each at its place and below the same
nodes. What is above a selected node is selected. -/
structure Mirrors (first second : Tree) (kept : NodeId → Prop) (place : NodeId → NodeId) : Prop where
  content : ∀ id, kept id → second.content? (place id) = first.content? id
  parent : ∀ id, kept id → second.parent? (place id) = (first.parent? id).map place
  ancestors : ∀ id, kept id → second.ancestors (place id) = (first.ancestors id).map place
  upward : ∀ id, kept id → ∀ upper ∈ first.ancestors id, kept upper

variable {first second : Tree} {kept : NodeId → Prop} {place : NodeId → NodeId} {id : NodeId}

theorem Mirrors.element? (mirrors : first.Mirrors second kept place) (selected : kept id) :
    second.element? (place id) = first.element? id := by
  rw [Tree.element?,mirrors.content id selected,Tree.element?]

/-- Nodes that keep their ids, contents and parents keep everything above them. -/
theorem WellFormed.mirrors (formed : first.WellFormed) (formed' : second.WellFormed)
    (content : ∀ id, kept id → second.content? id = first.content? id)
    (parent : ∀ id, kept id → second.parent? id = first.parent? id)
    (upward : ∀ lower upper, kept lower → first.Link lower upper → kept upper) :
    first.Mirrors second kept fun id => id where
  content := content
  parent id selected := by rw [parent id selected,Option.map_id']
  ancestors id selected := by
    rw [List.map_id']
    induction id using formed.parent_induction with
    | step id ih =>
      rw [formed'.ancestors_unfold,parent id selected,formed.ancestors_unfold]
      cases link : first.parent? id with
      | none => rfl
      | some upper => simp only [ih upper link (upward id upper selected link)]
  upward id selected upper member := by
    have below := formed.mem_ancestors.mp member
    induction below with
    | single link => exact upward _ _ selected link
    | tail rest link ih => exact upward _ _ (ih (formed.mem_ancestors.mpr rest)) link

namespace WellFormed

variable {tree : Tree} {parent child : NodeId}

/-- The nodes outside the moved subtree. -/
theorem mirrors_append (formed : tree.WellFormed) (accepted : tree.accepts parent child = true) :
    tree.Mirrors (tree.append parent child) (fun id => ¬ tree.Within id child) fun id => id := by
  have moves := formed.append_moves accepted
  apply formed.mirrors (formed.append parent child)
  · exact fun id _ => moves.content id
  · intro id outside
    apply moves.otherParents
    rintro rfl
    exact outside .refl
  · intro lower upper outside link within
    exact outside (within.head link)

theorem mirrors_alloc (formed : tree.WellFormed) (content : Content) :
    tree.Mirrors (tree.alloc content) (fun id => id < tree.size) fun id => id := by
  apply formed.mirrors (formed.alloc content)
  · intro id inside
    rw [content?_alloc,if_neg (Nat.ne_of_lt inside)]
  · exact fun id _ => parent?_alloc tree content id
  · exact fun _ _ _ link => formed.parentInside link

end WellFormed
end TreeQuery.Tree
