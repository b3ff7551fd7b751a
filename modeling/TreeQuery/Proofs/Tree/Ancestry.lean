import Mathlib.Data.List.Basic
import Mathlib.Data.List.Perm.Subperm
import Mathlib.Logic.Relation
import TreeQuery.Tree.Basic

/-! Well-formed trees and the ancestors of their nodes. In a well-formed tree the parent links and
the lists of children say the same and no node is below itself. The walk to the ancestors then
always comes to an end within its bound (`ancestors_unfold`), so that it lists exactly the nodes
above a node (`mem_ancestors`). -/
namespace TreeQuery.Tree

def Link (tree : Tree) (lower upper : NodeId) : Prop := tree.parent? lower = some upper

/-- One or more parent links lead from `lower` to `upper`. -/
def Below (tree : Tree) (lower upper : NodeId) : Prop := Relation.TransGen tree.Link lower upper

/-- In the subtree of `upper`, `upper` itself included. -/
def Within (tree : Tree) (lower upper : NodeId) : Prop := Relation.ReflTransGen tree.Link lower upper

structure WellFormed (tree : Tree) : Prop where
  document : tree.content? root = some .document
  parentInside : ∀ {parent child}, tree.parent? child = some parent → parent < tree.size
  childInside : ∀ {parent child}, child ∈ tree.children parent → child < tree.size
  listed : ∀ {parent child}, child ∈ tree.children parent ↔ tree.parent? child = some parent
  once : ∀ parent, (tree.children parent).Nodup
  acyclic : ∀ id, ¬ tree.Below id id

variable {tree : Tree} {id lower middle upper : NodeId}

theorem get?_eq_none (outside : tree.size ≤ id) : tree.get? id = none := by
  simpa [get?,size] using outside

theorem parent?_outside (outside : tree.size ≤ id) : tree.parent? id = none := by
  simp [parent?,get?_eq_none outside]

theorem children_outside (outside : tree.size ≤ id) : tree.children id = [] := by
  simp [children,get?_eq_none outside]

theorem content?_outside (outside : tree.size ≤ id) : tree.content? id = none := by
  simp [content?,get?_eq_none outside]

theorem Link.inside (link : tree.Link lower upper) : lower < tree.size := by
  apply Nat.lt_of_not_le
  intro outside
  rw [Link,parent?_outside outside] at link
  contradiction

theorem Link.unique {other : NodeId} (first : tree.Link lower upper) (second : tree.Link lower other) :
    upper = other :=
  Option.some.inj (first.symm.trans second)

theorem Below.within (below : tree.Below lower upper) : tree.Within lower upper :=
  Relation.TransGen.to_reflTransGen below

theorem within_iff : tree.Within lower upper ↔ lower = upper ∨ tree.Below lower upper := by
  rw [Within,Relation.reflTransGen_iff_eq_or_transGen,eq_comm,Below]

theorem Within.inside (within : tree.Within lower upper) (inside : upper < tree.size) :
    lower < tree.size := by
  rcases Relation.ReflTransGen.cases_head within with rfl | ⟨_,link,_⟩
  · exact inside
  · exact link.inside

theorem Within.chain {other : NodeId} (first : tree.Within id upper) (second : tree.Within id other) :
    tree.Within upper other ∨ tree.Within other upper :=
  Relation.ReflTransGen.total_of_right_unique (fun _ _ _ a b => a.unique b) first second

theorem length_le_size {nodes : List NodeId} (once : nodes.Nodup)
    (inside : ∀ id ∈ nodes, id < tree.size) : nodes.length ≤ tree.size := by
  have bounded : nodes ⊆ List.range tree.size := fun id member => List.mem_range.mpr (inside id member)
  simpa using (List.subperm_of_subset once bounded).length_le

theorem ancestorsWithin_below (bound : Nat) (id : NodeId) :
    ∀ upper ∈ tree.ancestorsWithin bound id, tree.Below id upper := by
  induction bound generalizing id with
  | zero => simp [ancestorsWithin]
  | succ bound ih =>
    intro upper member
    cases found : tree.parent? id with
    | none => simp [ancestorsWithin,found] at member
    | some parent =>
      simp only [ancestorsWithin,found,List.mem_cons] at member
      rcases member with rfl | later
      · exact .single found
      · exact .head found (ih parent upper later)

theorem ancestorsWithin_pairwise (bound : Nat) (id : NodeId) :
    (id :: tree.ancestorsWithin bound id).Pairwise tree.Below := by
  induction bound generalizing id with
  | zero => simp [ancestorsWithin]
  | succ bound ih =>
    refine List.pairwise_cons.mpr ⟨ancestorsWithin_below (bound + 1) id,?_⟩
    cases found : tree.parent? id with
    | none => simp [ancestorsWithin,found]
    | some parent => simpa [ancestorsWithin,found] using ih parent

theorem Link.mem_ancestors (link : tree.Link lower upper) : upper ∈ tree.ancestors lower := by
  obtain ⟨bound,total⟩ := Nat.exists_eq_add_one.mpr (Nat.zero_lt_of_lt link.inside)
  have linked : tree.parent? lower = some upper := link
  simp [ancestors,total,ancestorsWithin,linked]

/-- A walk that ends before its bound has met every ancestor. -/
theorem ancestorsWithin_succ (bound : Nat) (id : NodeId)
    (ended : (tree.ancestorsWithin bound id).length < bound) :
    tree.ancestorsWithin (bound + 1) id = tree.ancestorsWithin bound id := by
  induction bound generalizing id with
  | zero => simp at ended
  | succ bound ih =>
    cases found : tree.parent? id with
    | none => simp [ancestorsWithin,found]
    | some parent =>
      have shorter : (tree.ancestorsWithin bound parent).length < bound := by
        simpa [ancestorsWithin,found] using ended
      rw [ancestorsWithin]
      conv_rhs => rw [ancestorsWithin]
      simp only [found]
      rw [ih parent shorter]

namespace WellFormed

theorem below_inside (formed : tree.WellFormed) (below : tree.Below lower upper) :
    upper < tree.size := by
  obtain ⟨child,_,link⟩ := Relation.TransGen.tail'_iff.mp below
  exact formed.parentInside link

theorem ancestorsWithin_nodup (formed : tree.WellFormed) (bound : Nat) (id : NodeId) :
    (id :: tree.ancestorsWithin bound id).Nodup := by
  refine (ancestorsWithin_pairwise bound id).imp ?_
  rintro lower upper below rfl
  exact formed.acyclic lower below

theorem ancestorsWithin_length (formed : tree.WellFormed) (bound : Nat) (inside : id < tree.size) :
    (tree.ancestorsWithin bound id).length < tree.size := by
  have bounded : ∀ node ∈ id :: tree.ancestorsWithin bound id, node < tree.size := by
    intro node member
    rcases List.mem_cons.mp member with rfl | later
    · exact inside
    · exact formed.below_inside (ancestorsWithin_below bound id node later)
  exact Nat.lt_of_succ_le (length_le_size (formed.ancestorsWithin_nodup bound id) bounded)

theorem ancestors_unfold (formed : tree.WellFormed) (id : NodeId) :
    tree.ancestors id =
      match tree.parent? id with
      | none => []
      | some parent => parent :: tree.ancestors parent := by
  cases found : tree.parent? id with
  | none => cases total : tree.size <;> simp [ancestors,ancestorsWithin,found,total]
  | some parent =>
    have inside : id < tree.size := Link.inside found
    obtain ⟨bound,total⟩ := Nat.exists_eq_add_one.mpr (Nat.zero_lt_of_lt inside)
    have shorter := formed.ancestorsWithin_length (bound + 1) inside
    simp only [ancestorsWithin,found,List.length_cons,total] at shorter
    simp only [ancestors,total]
    rw [ancestorsWithin_succ bound parent (by omega)]
    simp [ancestorsWithin,found]

theorem ancestors_of_link (formed : tree.WellFormed) (link : tree.Link lower upper) :
    tree.ancestors lower = upper :: tree.ancestors upper := by
  rw [formed.ancestors_unfold,link]

theorem mem_ancestors (formed : tree.WellFormed) :
    upper ∈ tree.ancestors lower ↔ tree.Below lower upper := by
  constructor
  · exact ancestorsWithin_below tree.size lower upper
  · intro below
    induction below using Relation.TransGen.head_induction_on with
    | single link => simp [formed.ancestors_of_link link]
    | head link _ ih => simp [formed.ancestors_of_link link,ih]

/-- Induction from the top of a tree down to a node. -/
theorem parent_induction (formed : tree.WellFormed) {motive : NodeId → Prop}
    (step : ∀ id, (∀ parent, tree.Link id parent → motive parent) → motive id) (id : NodeId) :
    motive id := by
  induction height : (tree.ancestors id).length using Nat.strongRecOn generalizing id with
  | ind height ih =>
    apply step
    intro parent link
    have lower := congrArg List.length (formed.ancestors_of_link link)
    rw [List.length_cons] at lower
    exact ih (tree.ancestors parent).length (by omega) parent rfl

theorem isDescendant_iff (formed : tree.WellFormed) :
    tree.isDescendant lower upper = true ↔ tree.Below lower upper := by
  rw [isDescendant,List.contains_iff_mem,formed.mem_ancestors]

theorem within_iff_isDescendant (formed : tree.WellFormed) :
    tree.Within lower upper ↔ lower = upper ∨ tree.isDescendant lower upper = true := by
  rw [within_iff,formed.isDescendant_iff]

end WellFormed
end TreeQuery.Tree
