import TreeQuery.Proofs.Tree.Forest
import TreeQuery.Proofs.Tree.Preorder

/-! Moving a node. An accepted append changes the parent of one node and at most two lists of
children (`Moves`), yet the order in which a walk meets the nodes changes over the whole tree. Seen
from outside the moved subtree this is one change of a listing: the block of the subtree is taken out,
where it was, and stands again right behind what is left of the new parent's own subtree
(`append_effect`). Inside the moved subtree nothing changes. -/
namespace TreeQuery.Tree

/-- The appends that leave a tree as it is. -/
def Refuses (tree : Tree) (parent child : NodeId) : Prop :=
  tree.size ≤ parent ∨ tree.size ≤ child ∨ parent = child ∨ tree.isDescendant parent child = true

/-- What one tree is to another one in which `child` has become the last child of `parent`. -/
structure Moves (before after : Tree) (parent child : NodeId) : Prop where
  size : after.size = before.size
  content : ∀ id, after.content? id = before.content? id
  parentOf : after.parent? child = some parent
  otherParents : ∀ id, id ≠ child → after.parent? id = before.parent? id
  childrenOf : after.children parent = before.childrenWithout child parent ++ [child]
  formerChildren : ∀ old, before.parent? child = some old → old ≠ parent →
    after.children old = before.childrenWithout child old
  otherChildren : ∀ id, id ≠ parent → before.parent? child ≠ some id →
    after.children id = before.children id

/-- What is left of a listing when a block is taken out of it, if the block is there. -/
inductive TakenOut (block : List NodeId) : List NodeId → List NodeId → Prop
  | there (before after : List NodeId) : TakenOut block (before ++ block ++ after) (before ++ after)
  | elsewhere {nodes : List NodeId} (apart : nodes.Disjoint block) : TakenOut block nodes nodes

/-- A listing with a block put into it right behind some nodes that stand together. -/
def PutBehind (block nodes listing result : List NodeId) : Prop :=
  ∃ before after, listing = before ++ nodes ++ after ∧ result = before ++ nodes ++ block ++ after

/-- The listing from `root` without the nodes that the listing from `child` has. -/
def preorderWithout (tree : Tree) (child root : NodeId) : List NodeId :=
  (tree.preorder root).filter fun node => node ∉ tree.preorder child

variable {tree : Tree} {parent child root node upper : NodeId}

theorem refuses_iff : tree.Refuses parent child ↔ tree.accepts parent child = false := by
  simp only [Refuses,accepts,Bool.and_eq_false_iff,decide_eq_false_iff_not,Nat.not_lt,
    bne_eq_false_iff_eq,Bool.not_eq_false',or_assoc]

theorem flatMap_childrenWithout {listing : NodeId → List NodeId} (nothing : listing child = []) :
    (tree.childrenWithout child root).flatMap listing = (tree.children root).flatMap listing := by
  unfold childrenWithout
  induction tree.children root with
  | nil => rfl
  | cons id ids ih =>
    by_cases same : id = child
    · simp [same,nothing,ih]
    · simp [same,ih]

/-- Only `child` itself leads into its subtree from outside. -/
theorem outside_of_link (link : tree.Link node upper) (different : node ≠ child)
    (outside : ¬ tree.Within upper child) : ¬ tree.Within node child := by
  intro within
  rcases Relation.ReflTransGen.cases_head within with same | ⟨next,other,rest⟩
  · exact different same
  · exact outside (link.unique other ▸ rest)

instance : Decidable (tree.Refuses parent child) := decidable_of_iff _ refuses_iff.symm

namespace WellFormed

theorem append_moves (formed : tree.WellFormed) (accepted : tree.accepts parent child = true) :
    tree.Moves (tree.append parent child) parent child where
  size := size_append tree parent child
  content := content?_append tree parent child
  parentOf := by rw [parent?_append accepted,if_pos rfl]
  otherParents id different := by rw [parent?_append accepted,if_neg different]
  childrenOf := by rw [children_append formed accepted,if_pos rfl]
  formerChildren old _ different := by
    rw [children_append formed accepted,if_neg different,List.append_nil]
  otherChildren id notParent notFormer := by
    have absent : child ∉ tree.children id := fun member => notFormer (formed.listed.mp member)
    rw [children_append formed accepted,if_neg notParent,List.append_nil,
      childrenWithout_of_absent absent]

theorem preorderWithout_unfold (formed : tree.WellFormed) (inside : root < tree.size)
    (outside : ¬ tree.Within root child) :
    tree.preorderWithout child root =
      root :: (tree.childrenWithout child root).flatMap (tree.preorderWithout child) := by
  have absent : root ∉ tree.preorder child := fun member =>
    outside (formed.mem_preorder.mp member).2
  have nothing : tree.preorderWithout child child = [] := by simp [preorderWithout]
  rw [flatMap_childrenWithout nothing,preorderWithout,formed.preorder_unfold root,if_pos inside,
    List.filter_cons_of_pos (by simpa using absent),List.filter_flatMap]
  rfl

theorem preorderWithout_takenOut (formed : tree.WellFormed) (outside : ¬ tree.Within root child) :
    TakenOut (tree.preorder child) (tree.preorder root) (tree.preorderWithout child root) := by
  by_cases below : tree.Below child root
  · have inside : root < tree.size := formed.below_inside below
    obtain ⟨before,after,whole⟩ := formed.preorder_infix inside below.within
    have once : (before ++ tree.preorder child ++ after).Nodup := whole ▸ formed.preorder_nodup root
    rw [preorderWithout,← whole,(filter_block once).2]
    exact .there before after
  · have apart : (tree.preorder root).Disjoint (tree.preorder child) := by
      intro node inRoot inChild
      rcases (formed.mem_preorder.mp inRoot).2.chain (formed.mem_preorder.mp inChild).2 with up | down
      · exact outside up
      · rcases within_iff.mp down with rfl | strictly
        · exact outside .refl
        · exact below strictly
    have kept : tree.preorderWithout child root = tree.preorder root := by
      apply List.filter_eq_self.mpr
      intro node member
      exact decide_eq_true fun inChild => apart member inChild
    rw [kept]
    exact .elsewhere apart

section Moved

variable (formed : tree.WellFormed) (accepted : tree.accepts parent child = true)

include formed accepted

theorem preorder_append_within (within : tree.Within root child) :
    (tree.append parent child).preorder root = tree.preorder root := by
  have moves := formed.append_moves accepted
  have apart := (formed.accepts_iff.mp accepted).2.2
  induction root using formed.subtree_induction with
  | step root ih =>
    have notParent : root ≠ parent := by
      rintro rfl
      exact apart within
    have notFormer : tree.parent? child ≠ some root := fun link =>
      formed.acyclic child (Relation.TransGen.head' link within)
    have below : (tree.children root).flatMap (tree.append parent child).preorder =
        (tree.children root).flatMap tree.preorder := by
      apply List.flatMap_congr
      intro node member
      exact ih node member (within.head (formed.listed.mp member))
    rw [(formed.append parent child).preorder_unfold,formed.preorder_unfold,moves.size,
      moves.otherChildren root notParent notFormer,below]

/-- Outside the moved subtree a walk that never meets the new parent loses the block. -/
theorem preorder_append_elsewhere (outside : ¬ tree.Within root child)
    (elsewhere : ¬ tree.Within parent root) :
    (tree.append parent child).preorder root = tree.preorderWithout child root := by
  induction root using formed.subtree_induction with
  | step root ih =>
    rw [(formed.append parent child).preorder_unfold,size_append]
    split_ifs with inside
    · have notParent : root ≠ parent := by
        rintro rfl
        exact elsewhere .refl
      have below : (tree.childrenWithout child root).flatMap (tree.append parent child).preorder =
          (tree.childrenWithout child root).flatMap (tree.preorderWithout child) := by
        apply List.flatMap_congr
        intro node member
        obtain ⟨listed,different⟩ := mem_childrenWithout.mp member
        have link := formed.listed.mp listed
        apply ih node listed (outside_of_link link different outside)
        exact fun within => elsewhere (within.tail link)
      rw [children_append formed accepted,if_neg notParent,List.append_nil,below,
        formed.preorderWithout_unfold inside outside]
    · simp [preorderWithout,formed.preorder_unfold root,inside]

/-- The children whose branch does not hold the new parent. -/
theorem flatMap_append_elsewhere {nodes : List NodeId} (outside : ¬ tree.Within root child)
    (kept : ∀ node ∈ nodes, node ∈ tree.childrenWithout child root)
    (elsewhere : ∀ node ∈ nodes, ¬ tree.Within parent node) :
    nodes.flatMap (tree.append parent child).preorder = nodes.flatMap (tree.preorderWithout child) := by
  apply List.flatMap_congr
  intro node member
  obtain ⟨listed,different⟩ := mem_childrenWithout.mp (kept node member)
  apply formed.preorder_append_elsewhere accepted
  · exact outside_of_link (formed.listed.mp listed) different outside
  · exact elsewhere node member

theorem preorder_append_parent :
    (tree.append parent child).preorder parent =
      tree.preorderWithout child parent ++ tree.preorder child := by
  obtain ⟨inside,_,outside⟩ := formed.accepts_iff.mp accepted
  have others : (tree.childrenWithout child parent).flatMap (tree.append parent child).preorder =
      (tree.childrenWithout child parent).flatMap (tree.preorderWithout child) := by
    apply formed.flatMap_append_elsewhere accepted outside fun _ member => member
    intro node member within
    obtain ⟨listed,_⟩ := mem_childrenWithout.mp member
    exact formed.acyclic node (Relation.TransGen.head' (formed.listed.mp listed) within)
  have self : tree.Within child child := .refl
  rw [(formed.append parent child).preorder_unfold,size_append,if_pos inside,
    children_append formed accepted,if_pos rfl,List.flatMap_append,others,List.flatMap_singleton,
    formed.preorder_append_within accepted self,formed.preorderWithout_unfold inside outside,
    List.cons_append]

/-- The walk from a node above the new parent changes in the branch of the new parent only; in the
others the block is left out. -/
theorem preorder_append_branch (toUpper : tree.Within parent upper)
    (link : tree.Link upper root) (outside : ¬ tree.Within root child) :
    ∃ before after,
      tree.preorderWithout child root = before ++ tree.preorderWithout child upper ++ after ∧
      (tree.append parent child).preorder root =
        before ++ (tree.append parent child).preorder upper ++ after := by
  have apart := (formed.accepts_iff.mp accepted).2.2
  have inside := formed.parentInside link
  have notParent : root ≠ parent := by
    rintro rfl
    exact formed.acyclic root (Relation.TransGen.tail' toUpper link)
  have kept : upper ∈ tree.childrenWithout child root :=
    mem_childrenWithout.mpr ⟨formed.listed.mpr link,fun same => apart (same ▸ toUpper)⟩
  obtain ⟨front,back,split⟩ := List.append_of_mem kept
  have once : (front ++ upper :: back).Nodup := split ▸ (formed.once root).filter _
  have absent : upper ∉ front ++ back := (List.nodup_cons.mp (List.nodup_middle.mp once)).1
  have siblings {nodes : List NodeId} (beside : nodes ⊆ front ++ back) :
      nodes.flatMap (tree.append parent child).preorder =
        nodes.flatMap (tree.preorderWithout child) := by
    have listed : ∀ node ∈ nodes, node ∈ tree.childrenWithout child root := by
      intro node member
      rw [split,List.perm_middle.mem_iff]
      exact List.mem_cons_of_mem _ (beside member)
    apply formed.flatMap_append_elsewhere accepted outside listed
    intro node member within
    have sibling := formed.listed.mp (mem_childrenWithout.mp (listed node member)).1
    obtain rfl := formed.siblings_disjoint sibling link within toUpper
    exact absent (beside member)
  refine ⟨root :: front.flatMap (tree.preorderWithout child),
    back.flatMap (tree.preorderWithout child),?_,?_⟩
  · rw [formed.preorderWithout_unfold inside outside,split]
    simp
  · rw [(formed.append parent child).preorder_unfold,size_append,if_pos inside,
      children_append formed accepted,if_neg notParent,List.append_nil,split,List.flatMap_append,
      List.flatMap_cons,siblings (List.subset_append_left front back),
      siblings (List.subset_append_right front back)]
    simp

/-- Every walk that meets the new parent from outside the moved subtree finds the block behind what
is left of the parent's subtree. The induction climbs from the parent to the root of the walk. -/
theorem preorder_append_around (within : tree.Within parent root)
    (outside : ¬ tree.Within root child) :
    PutBehind (tree.preorder child) (tree.preorderWithout child parent)
      (tree.preorderWithout child root) ((tree.append parent child).preorder root) := by
  have apart := (formed.accepts_iff.mp accepted).2.2
  induction within with
  | refl => exact ⟨[],[],by simp,by simp [formed.preorder_append_parent accepted]⟩
  | @tail upper root toUpper link ih =>
    have different : upper ≠ child := fun same => apart (same ▸ toUpper)
    obtain ⟨front,back,left,right⟩ := formed.preorder_append_branch accepted toUpper link outside
    obtain ⟨before,after,listing,result⟩ := ih (outside_of_link link different outside)
    refine ⟨front ++ before,after ++ back,?_,?_⟩
    · simp [left,listing]
    · simp [right,result]

end Moved
end WellFormed

/-- The exact effect of an append on a tree that can be built: it is refused, or it moves one node, and
then the listing from every node is the old one with the block of the moved subtree at its new place. -/
theorem append_effect (reachable : tree.Reachable) (parent child : NodeId) :
    (tree.Refuses parent child → tree.append parent child = tree) ∧
      (¬ tree.Refuses parent child →
        tree.Moves (tree.append parent child) parent child ∧
        (∀ root, root = child ∨ tree.isDescendant root child = true →
          (tree.append parent child).preorder root = tree.preorder root) ∧
        ∀ root, ¬ (root = child ∨ tree.isDescendant root child = true) →
          ∃ rest, TakenOut (tree.preorder child) (tree.preorder root) rest ∧
            (¬ (parent = root ∨ tree.isDescendant parent root = true) →
              (tree.append parent child).preorder root = rest) ∧
            (parent = root ∨ tree.isDescendant parent root = true →
              ∃ below, TakenOut (tree.preorder child) (tree.preorder parent) below ∧
                PutBehind (tree.preorder child) below rest
                  ((tree.append parent child).preorder root))) := by
  have formed := reachable.wellFormed
  simp only [← formed.within_iff_isDescendant]
  refine ⟨fun refused => append_refused (refuses_iff.mp refused),fun notRefused => ?_⟩
  have accepted : tree.accepts parent child = true := by
    rwa [refuses_iff,Bool.not_eq_false] at notRefused
  have apart := (formed.accepts_iff.mp accepted).2.2
  refine ⟨formed.append_moves accepted,?_,?_⟩
  · intro root within
    exact formed.preorder_append_within accepted within
  · intro root outside
    refine ⟨tree.preorderWithout child root,formed.preorderWithout_takenOut outside,?_,?_⟩
    · intro elsewhere
      exact formed.preorder_append_elsewhere accepted outside elsewhere
    · intro within
      exact ⟨_,formed.preorderWithout_takenOut apart,
        formed.preorder_append_around accepted within outside⟩

/-- A node moves up behind its uncle, with its own child; then it cannot go below that child. -/
theorem append_effect_upwards :
    let tree := empty.run [.appendElement 0 ⟨"a",{}⟩,.appendElement 1 ⟨"b",{}⟩,
      .appendElement 2 ⟨"c",{}⟩,.alloc (.text "d"),.append 3 4,.appendElement 1 ⟨"e",{}⟩]
    tree.Reachable ∧ ¬ tree.Refuses 1 3 ∧ tree.Moves (tree.append 1 3) 1 3 ∧
      tree.preorder 0 = [0,1,2,3,4,5] ∧ (tree.append 1 3).preorder 0 = [0,1,2,5,3,4] ∧
      (tree.append 1 3).preorder 2 = [2] ∧ (tree.append 1 3).preorder 3 = [3,4] ∧
      (∃ below rest, TakenOut [3,4] [1,2,3,4,5] below ∧ TakenOut [3,4] [0,1,2,3,4,5] rest ∧
        PutBehind [3,4] below rest [0,1,2,5,3,4]) ∧
      tree.Refuses 4 3 ∧ tree.append 4 3 = tree := by
  intro tree
  have reachable : tree.Reachable := ⟨empty,_,.inl rfl,rfl⟩
  have notRefused : ¬ tree.Refuses 1 3 := by decide
  have refused : tree.Refuses 4 3 := by decide
  have old : tree.preorder 0 = [0,1,2,3,4,5] := by decide
  have new : (tree.append 1 3).preorder 0 = [0,1,2,5,3,4] := by decide
  obtain ⟨_,effect⟩ := append_effect reachable 1 3
  obtain ⟨moves,inside,outside⟩ := effect notRefused
  obtain ⟨rest,takenOut,_,around⟩ := outside 0 (by decide)
  obtain ⟨below,belowTakenOut,putBehind⟩ := around (by decide)
  rw [old] at takenOut
  rw [new] at putBehind
  refine ⟨reachable,notRefused,moves,old,new,by decide,(inside 3 (by decide)).trans (by decide),
    ⟨below,rest,belowTakenOut,takenOut,putBehind⟩,refused,?_⟩
  exact (append_effect reachable 4 3).1 refused

end TreeQuery.Tree
