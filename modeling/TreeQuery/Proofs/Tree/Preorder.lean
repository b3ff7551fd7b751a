import Mathlib.Data.List.Nodup
import TreeQuery.Proofs.Tree.Ancestry
import TreeQuery.Tree.Walk

/-! Tree order. The walk down the lists of children always reaches the leaves within its bound
(`preorder_unfold`), so that it lists exactly the subtree of its root (`mem_preorder`), every node
once (`preorder_nodup`). The order of the list is a relation between the nodes alone
(`preorder_pairwise`): a node stands before those below it, and two others stand as their branches
do below the lowest node above both. -/
namespace TreeQuery.Tree

/-- One of two nodes stands before the other in a list. -/
def Precedes (nodes : List NodeId) (first second : NodeId) : Prop := [first,second].Sublist nodes

def LowestCommonAncestor (tree : Tree) (meet first second : NodeId) : Prop :=
  tree.Within first meet ∧ tree.Within second meet ∧
    ∀ other, tree.Within first other → tree.Within second other → tree.Within meet other

/-- Tree order between two nodes, said without a walk. -/
def Earlier (tree : Tree) (first second : NodeId) : Prop :=
  tree.Below second first ∨
    ∃ meet left right, tree.LowestCommonAncestor meet first second ∧
      Precedes (tree.children meet) left right ∧ tree.Within first left ∧ tree.Within second right

theorem precedes_iff {relation : NodeId → NodeId → Prop} {nodes : List NodeId}
    (ordered : nodes.Pairwise relation) (asymmetric : ∀ a b, relation a b → ¬ relation b a)
    {first second : NodeId} (firstMember : first ∈ nodes) (secondMember : second ∈ nodes) :
    Precedes nodes first second ↔ relation first second := by
  constructor
  · intro precedes
    exact List.pairwise_iff_forall_sublist.mp ordered precedes
  · intro related
    induction nodes with
    | nil => simp at firstMember
    | cons head rest ih =>
      obtain ⟨headFirst,ordered⟩ := List.pairwise_cons.mp ordered
      rcases List.mem_cons.mp firstMember with rfl | firstLater
      · rcases List.mem_cons.mp secondMember with rfl | secondLater
        · exact absurd related (asymmetric _ _ related)
        · exact List.cons_sublist_cons.mpr (List.singleton_sublist.mpr secondLater)
      · rcases List.mem_cons.mp secondMember with rfl | secondLater
        · exact absurd related (asymmetric _ _ (headFirst first firstLater))
        · exact (ih ordered firstLater secondLater).cons head

theorem precedes_asymm {nodes : List NodeId} {first second : NodeId} (once : nodes.Nodup)
    (precedes : Precedes nodes first second) : ¬ Precedes nodes second first := by
  intro reversed
  induction nodes with
  | nil => cases precedes
  | cons head rest ih =>
    obtain ⟨absent,once⟩ := List.nodup_cons.mp once
    cases precedes with
    | cons _ precedes =>
      cases reversed with
      | cons _ reversed => exact ih once precedes reversed
      | cons_cons _ _ => exact absent (precedes.subset (by simp))
    | cons_cons _ later =>
      cases reversed with
      | cons _ reversed => exact absent (reversed.subset (by simp))
      | cons_cons _ _ => exact absent (later.subset (by simp))

/-- A block of a list without repetitions is found by its members, and so is what is around it. -/
theorem filter_block {before block after : List NodeId} (once : (before ++ block ++ after).Nodup) :
    ((before ++ block ++ after).filter fun id => id ∈ block) = block ∧
      ((before ++ block ++ after).filter fun id => id ∉ block) = before ++ after := by
  obtain ⟨front,_,apart⟩ := List.nodup_append.mp once
  obtain ⟨_,_,frontApart⟩ := List.nodup_append.mp front
  have absentBefore : ∀ id ∈ before, id ∉ block := fun id member inBlock =>
    frontApart id member id inBlock rfl
  have absentAfter : ∀ id ∈ after, id ∉ block := fun id member inBlock =>
    apart id (List.mem_append_right _ inBlock) id member rfl
  have noneBefore : (before.filter fun id => id ∈ block) = [] := by simpa using absentBefore
  have noneAfter : (after.filter fun id => id ∈ block) = [] := by simpa using absentAfter
  have keepsBefore : (before.filter fun id => id ∉ block) = before := by simpa using absentBefore
  have keepsAfter : (after.filter fun id => id ∉ block) = after := by simpa using absentAfter
  constructor
  · simp [noneBefore,noneAfter]
  · rw [List.filter_append,List.filter_append,keepsBefore,keepsAfter]
    simp

variable {tree : Tree} {id root node : NodeId}

def depth (tree : Tree) (id : NodeId) : Nat := (tree.ancestors id).length

namespace WellFormed

theorem depth_lt (formed : tree.WellFormed) (inside : id < tree.size) : tree.depth id < tree.size :=
  formed.ancestorsWithin_length tree.size inside

theorem depth_of_link {lower upper : NodeId} (formed : tree.WellFormed)
    (link : tree.Link lower upper) : tree.depth lower = tree.depth upper + 1 := by
  simp [depth,formed.ancestors_of_link link]

theorem preorderWithin_succ (formed : tree.WellFormed) (bound : Nat) (id : NodeId)
    (enough : tree.size ≤ bound + tree.depth id) :
    tree.preorderWithin (bound + 1) id = tree.preorderWithin bound id := by
  induction bound generalizing id with
  | zero =>
    have outside : ¬ id < tree.size := fun inside => by
      have := formed.depth_lt inside
      omega
    simp [preorderWithin,outside]
  | succ bound ih =>
    have below : (tree.children id).flatMap (tree.preorderWithin (bound + 1)) =
        (tree.children id).flatMap (tree.preorderWithin bound) := by
      apply List.flatMap_congr
      intro child member
      have deeper := formed.depth_of_link (formed.listed.mp member)
      exact ih child (by omega)
    rw [preorderWithin,below,preorderWithin]

theorem preorder_unfold (formed : tree.WellFormed) (id : NodeId) :
    tree.preorder id =
      if id < tree.size then id :: (tree.children id).flatMap tree.preorder else [] := by
  split
  · rename_i inside
    obtain ⟨bound,total⟩ := Nat.exists_eq_add_one.mpr (Nat.zero_lt_of_lt inside)
    have below : (tree.children id).flatMap tree.preorder =
        (tree.children id).flatMap (tree.preorderWithin bound) := by
      apply List.flatMap_congr
      intro child member
      have deeper := formed.depth_of_link (formed.listed.mp member)
      rw [preorder,total]
      exact formed.preorderWithin_succ bound child (by omega)
    rw [below,preorder,total,preorderWithin,if_pos inside]
  · rename_i outside
    rw [preorder]
    cases tree.size <;> simp [preorderWithin,outside]

/-- Induction from the leaves to the root of a subtree. -/
theorem subtree_induction (formed : tree.WellFormed) {motive : NodeId → Prop}
    (step : ∀ id, (∀ child ∈ tree.children id, motive child) → motive id) (id : NodeId) :
    motive id := by
  induction room : tree.size - tree.depth id using Nat.strongRecOn generalizing id with
  | ind room ih =>
    apply step
    intro child member
    have deeper := formed.depth_of_link (formed.listed.mp member)
    have bounded := formed.depth_lt (formed.childInside member)
    exact ih (tree.size - tree.depth child) (by omega) child rfl

theorem mem_preorder (formed : tree.WellFormed) :
    node ∈ tree.preorder root ↔ root < tree.size ∧ tree.Within node root := by
  constructor
  · induction root using formed.subtree_induction with
    | step root ih =>
      intro member
      rw [formed.preorder_unfold] at member
      split_ifs at member with inside
      · refine ⟨inside,?_⟩
        rcases List.mem_cons.mp member with rfl | deeper
        · exact .refl
        · obtain ⟨child,listed,member⟩ := List.mem_flatMap.mp deeper
          exact (ih child listed member).2.tail (formed.listed.mp listed)
      · simp at member
  · rintro ⟨inside,within⟩
    induction within with
    | refl =>
      rw [formed.preorder_unfold,if_pos inside]
      exact List.mem_cons_self
    | tail _ link ih =>
      rw [formed.preorder_unfold,if_pos inside]
      apply List.mem_cons_of_mem
      exact List.mem_flatMap.mpr ⟨_,formed.listed.mpr link,ih link.inside⟩

theorem siblings_disjoint {parent left right : NodeId} (formed : tree.WellFormed)
    (leftLink : tree.Link left parent) (rightLink : tree.Link right parent)
    (leftWithin : tree.Within node left) (rightWithin : tree.Within node right) : left = right := by
  have apart {a b : NodeId} (within : tree.Within a b) (aLink : tree.Link a parent)
      (bLink : tree.Link b parent) : a = b := by
    rcases Relation.ReflTransGen.cases_head within with same | ⟨next,link,rest⟩
    · exact same
    · obtain rfl := link.unique aLink
      exact absurd (Relation.TransGen.tail' rest bLink) (formed.acyclic next)
  rcases leftWithin.chain rightWithin with within | within
  · exact apart within leftLink rightLink
  · exact (apart within rightLink leftLink).symm

theorem preorder_nodup (formed : tree.WellFormed) (root : NodeId) : (tree.preorder root).Nodup := by
  induction root using formed.subtree_induction with
  | step root ih =>
    rw [formed.preorder_unfold]
    split_ifs
    · refine List.nodup_cons.mpr ⟨?_,List.nodup_flatMap.mpr ⟨ih,?_⟩⟩
      · intro member
        obtain ⟨child,listed,member⟩ := List.mem_flatMap.mp member
        have within := (formed.mem_preorder.mp member).2
        exact formed.acyclic root (Relation.TransGen.tail' within (formed.listed.mp listed))
      · refine (formed.once root).imp_of_mem ?_
        intro left right leftListed rightListed different node inLeft inRight
        exact different (formed.siblings_disjoint (formed.listed.mp leftListed)
          (formed.listed.mp rightListed) (formed.mem_preorder.mp inLeft).2
          (formed.mem_preorder.mp inRight).2)
    · exact List.nodup_nil

/-- The walk from a node is a block of the walk from any node above it. -/
theorem preorder_infix (formed : tree.WellFormed) (inside : root < tree.size)
    (within : tree.Within node root) : tree.preorder node <:+: tree.preorder root := by
  induction within with
  | refl => exact List.infix_rfl
  | @tail upper root _ link ih =>
    have listed : upper ∈ tree.children root := formed.listed.mpr link
    have branch : tree.preorder upper <:+: tree.preorder root := by
      rw [formed.preorder_unfold root,if_pos inside]
      exact (List.infix_flatMap_of_mem listed tree.preorder).trans (List.infix_cons List.infix_rfl)
    exact (ih link.inside).trans branch

section Branches

variable {parent left right first second : NodeId}

theorem links_of_precedes (formed : tree.WellFormed)
    (precedes : Precedes (tree.children parent) left right) :
    tree.Link left parent ∧ tree.Link right parent :=
  ⟨formed.listed.mp (precedes.subset (by simp)),formed.listed.mp (precedes.subset (by simp))⟩

theorem branches_disjoint (formed : tree.WellFormed)
    (precedes : Precedes (tree.children parent) left right) (inLeft : tree.Within node left) :
    ¬ tree.Within node right := by
  intro inRight
  obtain ⟨leftLink,rightLink⟩ := formed.links_of_precedes precedes
  have different : left ≠ right :=
    List.pairwise_iff_forall_sublist.mp (formed.once parent) precedes
  exact different (formed.siblings_disjoint leftLink rightLink inLeft inRight)

theorem lowestCommonAncestor_of_branches (formed : tree.WellFormed)
    (precedes : Precedes (tree.children parent) left right)
    (firstWithin : tree.Within first left) (secondWithin : tree.Within second right) :
    tree.LowestCommonAncestor parent first second := by
  obtain ⟨leftLink,rightLink⟩ := formed.links_of_precedes precedes
  refine ⟨firstWithin.tail leftLink,secondWithin.tail rightLink,?_⟩
  intro other firstOther secondOther
  -- A common ancestor inside the left branch would put `second` into both branches.
  have outside : ¬ tree.Within other left := fun within =>
    formed.branches_disjoint precedes (secondOther.trans within) secondWithin
  rcases firstWithin.chain firstOther with above | below
  · rcases Relation.ReflTransGen.cases_head above with rfl | ⟨next,link,rest⟩
    · exact absurd .refl outside
    · obtain rfl := link.unique leftLink
      exact rest
  · exact absurd below outside

theorem earlier_of_branches (formed : tree.WellFormed)
    (precedes : Precedes (tree.children parent) left right)
    (firstWithin : tree.Within first left) (secondWithin : tree.Within second right) :
    tree.Earlier first second :=
  .inr ⟨parent,left,right,formed.lowestCommonAncestor_of_branches precedes firstWithin secondWithin,
    precedes,firstWithin,secondWithin⟩

theorem within_antisymm (formed : tree.WellFormed) (up : tree.Within first second)
    (down : tree.Within second first) : first = second := by
  rcases within_iff.mp up with same | below
  · exact same
  · exact absurd (below.trans_left down) (formed.acyclic first)

theorem earlier_asymm (formed : tree.WellFormed) (earlier : tree.Earlier first second) :
    ¬ tree.Earlier second first := by
  intro later
  rcases earlier with below | ⟨meet,left,right,common,precedes,inLeft,inRight⟩
  · rcases later with above | ⟨_,_,_,_,precedes,inLeft,inRight⟩
    · exact formed.acyclic first (above.trans below)
    · exact formed.branches_disjoint precedes inLeft (below.within.trans inRight)
  · rcases later with above | ⟨other,left',right',common',precedes',inLeft',inRight'⟩
    · exact formed.branches_disjoint precedes inLeft (above.within.trans inRight)
    · -- Both orders are decided below the same node, and there by the same two children.
      obtain rfl : meet = other := formed.within_antisymm
        (common.2.2 other common'.2.1 common'.1) (common'.2.2 meet common.2.1 common.1)
      obtain ⟨leftLink,rightLink⟩ := formed.links_of_precedes precedes
      obtain ⟨leftLink',rightLink'⟩ := formed.links_of_precedes precedes'
      obtain rfl := formed.siblings_disjoint leftLink rightLink' inLeft inRight'
      obtain rfl := formed.siblings_disjoint rightLink leftLink' inRight inLeft'
      exact precedes_asymm (formed.once meet) precedes precedes'

end Branches

theorem preorder_pairwise (formed : tree.WellFormed) (root : NodeId) :
    (tree.preorder root).Pairwise tree.Earlier := by
  induction root using formed.subtree_induction with
  | step root ih =>
    rw [formed.preorder_unfold]
    split_ifs
    · refine List.pairwise_cons.mpr ⟨?_,List.pairwise_flatMap.mpr ⟨ih,?_⟩⟩
      · intro node member
        obtain ⟨child,listed,member⟩ := List.mem_flatMap.mp member
        have within := (formed.mem_preorder.mp member).2
        exact .inl (Relation.TransGen.tail' within (formed.listed.mp listed))
      · apply List.pairwise_iff_forall_sublist.mpr
        intro left right precedes first inLeft second inRight
        exact formed.earlier_of_branches precedes (formed.mem_preorder.mp inLeft).2
          (formed.mem_preorder.mp inRight).2
    · exact .nil

end WellFormed
end TreeQuery.Tree
