import TreeQuery.Proofs.Tree.Forest

/-! The two ways between a node and the nodes above it. Parent links lead up, lists of children lead
down, and a tree keeps both. On a well-formed tree they agree over any distance (`above_iff`), so
that the walk to the ancestors, which only reads parent links, tells what the lists of children
reach. -/
namespace TreeQuery.Tree

def Lists (tree : Tree) (upper lower : NodeId) : Prop := lower ∈ tree.children upper

/-- One or more lists of children lead from `upper` down to `lower`. -/
def Above (tree : Tree) (upper lower : NodeId) : Prop := Relation.TransGen tree.Lists upper lower

/-- A list of nodes climbs from a node to the top, over one parent link at a time. -/
structure Climbs (tree : Tree) (id : NodeId) (uppers : List NodeId) : Prop where
  members : ∀ upper, upper ∈ uppers ↔ tree.isDescendant id upper = true
  once : uppers.Nodup
  linked : (id :: uppers).IsChain tree.Link
  nearestFirst : uppers.Pairwise fun near far => tree.isDescendant near far = true
  complete : ∀ top ∈ (id :: uppers).getLast?, tree.parent? top = none

variable {tree : Tree} {id lower upper : NodeId}

theorem ancestorsWithin_linked (bound : Nat) (id : NodeId) :
    (id :: tree.ancestorsWithin bound id).IsChain tree.Link := by
  induction bound generalizing id with
  | zero => simp [ancestorsWithin]
  | succ bound ih =>
    cases found : tree.parent? id with
    | none => simp [ancestorsWithin,found]
    | some parent =>
      rw [ancestorsWithin,found]
      exact .cons_cons found (ih parent)

/-- A walk that ends before its bound has met a node without a parent. -/
theorem ancestorsWithin_complete (bound : Nat) (id : NodeId)
    (ended : (tree.ancestorsWithin bound id).length < bound) :
    ∀ top ∈ (id :: tree.ancestorsWithin bound id).getLast?, tree.parent? top = none := by
  induction bound generalizing id with
  | zero => simp at ended
  | succ bound ih =>
    cases found : tree.parent? id with
    | none => simp [ancestorsWithin,found]
    | some parent =>
      simp only [ancestorsWithin,found,List.length_cons,Nat.add_lt_add_iff_right] at ended ⊢
      simpa using ih parent ended

namespace WellFormed

theorem above_iff (formed : tree.WellFormed) : tree.Above upper lower ↔ tree.Below lower upper := by
  have swapped : tree.Lists = Function.swap tree.Link := by
    funext upper lower
    exact propext formed.listed
  rw [Above,swapped,Relation.transGen_swap,Below]

theorem ancestors_complete (formed : tree.WellFormed) (id : NodeId) :
    ∀ top ∈ (id :: tree.ancestors id).getLast?, tree.parent? top = none := by
  by_cases inside : id < tree.size
  · exact ancestorsWithin_complete tree.size id (formed.ancestorsWithin_length tree.size inside)
  · have orphan := parent?_outside (Nat.not_lt.mp inside)
    simp [formed.ancestors_unfold id,orphan]

theorem ancestors_climbs (formed : tree.WellFormed) (id : NodeId) :
    tree.Climbs id (tree.ancestors id) where
  members upper := by rw [isDescendant,List.contains_iff_mem]
  once := (List.nodup_cons.mp (formed.ancestorsWithin_nodup tree.size id)).2
  linked := ancestorsWithin_linked tree.size id
  nearestFirst := (List.pairwise_cons.mp (ancestorsWithin_pairwise tree.size id)).2.imp
    formed.isDescendant_iff.mpr
  complete := formed.ancestors_complete id

end WellFormed

/-- Being below a node is the same read upwards and downwards, and the ancestors of a node are the
way from it to the top. -/
theorem isDescendant_views (reachable : tree.Reachable) :
    (∀ lower upper, tree.isDescendant lower upper = true ↔ tree.Above upper lower) ∧
      (∀ id, tree.isDescendant id id = false) ∧
      (∀ lower middle upper, tree.isDescendant lower middle = true →
        tree.isDescendant middle upper = true → tree.isDescendant lower upper = true) ∧
      (∀ id, tree.Climbs id (tree.ancestors id)) ∧
      ∀ id, tree.size ≤ id →
        tree.ancestors id = [] ∧ ∀ other, tree.isDescendant other id = false := by
  have formed := reachable.wellFormed
  refine ⟨?_,?_,?_,formed.ancestors_climbs,?_⟩
  · intro lower upper
    rw [formed.isDescendant_iff,formed.above_iff]
  · intro id
    rw [Bool.eq_false_iff,Ne,formed.isDescendant_iff]
    exact formed.acyclic id
  · intro lower middle upper first second
    rw [formed.isDescendant_iff] at first second ⊢
    exact first.trans second
  · intro id outside
    refine ⟨by rw [formed.ancestors_unfold,parent?_outside outside],?_⟩
    intro other
    rw [Bool.eq_false_iff,Ne,formed.isDescendant_iff]
    exact fun below => Nat.not_lt.mpr outside (formed.below_inside below)

/-- The document below a text that was never attached, with an element below the document. -/
theorem isDescendant_views_below_text :
    let tree := empty.run [.appendElement 0 ⟨"a",{}⟩,.alloc (.text "x"),.append 2 0,.append 1 2]
    tree.Reachable ∧ tree.isDescendant 1 2 = true ∧ tree.Above 2 1 ∧ ¬ tree.Above 1 2 ∧
      tree.Climbs 1 [0,2] ∧ tree.size ≤ 7 ∧ tree.ancestors 7 = [] := by
  intro tree
  have reachable : tree.Reachable := ⟨empty,_,.inl rfl,rfl⟩
  have walk : tree.ancestors 1 = [0,2] := by decide
  obtain ⟨views,_,transitive,climbs,outside⟩ := isDescendant_views reachable
  have below : tree.isDescendant 1 2 = true := transitive 1 0 2 (by decide) (by decide)
  have down : tree.Above 2 1 := (views 1 2).mp below
  have notUp : ¬ tree.Above 1 2 := fun above => absurd ((views 2 1).mpr above) (by decide)
  exact ⟨reachable,below,down,notUp,walk ▸ climbs 1,by decide,(outside 7 (by decide)).1⟩

end TreeQuery.Tree
