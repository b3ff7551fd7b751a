import TreeQuery.Proofs.Selector.Collect

/-! The root of a query. It only restricts the answer: the walk from a lower root is a block of the
walk from an upper one, and a matcher decides about a node without knowing the root. A query without
a root of its own starts at the document or below it, so that its answer is a block of the answer
for the whole document. -/
namespace TreeQuery

namespace Tree

/-- The block of an answer that lies in the subtree of a node. -/
structure Block (tree : Tree) (id : NodeId) (part whole : List NodeId) : Prop where
  together : part <:+: whole
  selected : part = whole.filter fun node => node = id ∨ tree.isDescendant node id = true

variable {tree : Tree} {id lower upper : NodeId}

/-- Thinning out both lists leaves a block a block. -/
theorem Block.filter {part whole : List NodeId} (block : tree.Block id part whole)
    (keep : NodeId → Bool) : tree.Block id (part.filter keep) (whole.filter keep) where
  together := block.together.filter keep
  selected := by
    rw [List.filter_filter]
    conv_lhs => rw [block.selected,List.filter_filter]
    simp only [Bool.and_comm]

namespace WellFormed

theorem preorder_block (formed : tree.WellFormed) (within : tree.Within lower upper) :
    tree.Block lower (tree.preorder lower) (tree.preorder upper) := by
  rcases Nat.lt_or_ge upper tree.size with inside | outside
  · have together := formed.preorder_infix inside within
    have lowerInside : lower < tree.size := within.inside inside
    have same : (tree.preorder upper).filter (fun id => id ∈ tree.preorder lower) =
        tree.preorder lower := by
      obtain ⟨before,after,whole⟩ := together
      rw [← whole]
      exact (filter_block (whole ▸ formed.preorder_nodup upper)).1
    refine ⟨together,same.symm.trans ?_⟩
    apply List.filter_congr
    intro id _
    apply decide_eq_decide.mpr
    rw [formed.mem_preorder,formed.within_iff_isDescendant]
    simp [lowerInside]
  · rcases within_iff.mp within with rfl | below
    · have empty : tree.preorder lower = [] := by
        rw [formed.preorder_unfold,if_neg (Nat.not_lt.mpr outside)]
      rw [empty]
      exact ⟨List.infix_rfl,rfl⟩
    · exact absurd (formed.below_inside below) (Nat.not_lt.mpr outside)

theorem documentElement?_link (formed : tree.WellFormed) (found : tree.documentElement? = some id) :
    tree.Link id root :=
  formed.listed.mp (List.mem_of_find?_eq_some found)

theorem body?_below (formed : tree.WellFormed) (found : tree.body? = some id) :
    tree.Below id root := by
  obtain ⟨top,above,listed⟩ := Option.bind_eq_some_iff.mp found
  have link : tree.Link id top := formed.listed.mp (List.mem_of_find?_eq_some listed)
  exact .head link (.single (formed.documentElement?_link above))

theorem defaultRoot_within (formed : tree.WellFormed) : tree.Within tree.defaultRoot root := by
  unfold defaultRoot
  cases body : tree.body? with
  | some id => exact (formed.body?_below body).within
  | none =>
    cases top : tree.documentElement? with
    | some id => exact .single (formed.documentElement?_link top)
    | none => exact .refl

end WellFormed
end Tree

namespace Selector

variable {tree : Tree}

theorem collect_block {lower upper : NodeId} (formed : tree.WellFormed)
    (within : tree.Within lower upper) (matcher : Matcher) :
    tree.Block lower (collect tree matcher lower) (collect tree matcher upper) :=
  (formed.preorder_block within).filter _

/-- The answer below a root is the block of any answer from above that lies in the root's subtree;
this also says what a query without a root of its own finds. -/
theorem collect_restriction (reachable : tree.Reachable) :
    (∀ matcher upper root, root = upper ∨ tree.isDescendant root upper = true →
        tree.Block root (collect tree matcher root) (collect tree matcher upper)) ∧
      (tree.defaultRoot = Tree.root ∨ tree.isDescendant tree.defaultRoot Tree.root = true) ∧
      ∀ before before' selector, tree.Block tree.defaultRoot
        (queryDocument before tree selector).value (query before' tree selector Tree.root).value := by
  have formed := reachable.wellFormed
  refine ⟨?_,?_,?_⟩
  · intro matcher upper root lower
    rw [formed.isDescendant_iff,← Tree.within_iff] at lower
    exact collect_block formed lower matcher
  · rw [formed.isDescendant_iff,← Tree.within_iff]
    exact formed.defaultRoot_within
  · intro before before' selector
    have same : (compile before selector).value = (compile before' selector).value := by
      rw [compile_value_eq,compile_value_eq]
    simp only [queryDocument,query,Warned.map,same]
    exact collect_block formed formed.defaultRoot_within _

/-- A body with a moved paragraph in it, asked for by an element above the body. -/
theorem collect_restriction_body :
    let tree := Tree.empty.run [.appendElement 0 ⟨"html",{}⟩,.appendElement 1 ⟨"p",{}⟩,
      .appendElement 1 ⟨"BODY",{}⟩,.appendElement 3 ⟨"p",{}⟩,.appendElement 4 ⟨"p",{}⟩,
      .appendElement 1 ⟨"p",{}⟩,.append 3 2]
    tree.Reachable ∧ tree.defaultRoot = 3 ∧
      (query {} tree "html p" Tree.root).value = [4,5,2,6] ∧
      (queryDocument {} tree "html p").value = [4,5,2] ∧
      tree.Block 3 [4,5,2] [4,5,2,6] ∧ tree.isDescendant 4 3 = true ∧
      tree.Block 4 (collect tree (.tag "P") 4) (collect tree (.tag "P") 3) := by
  intro tree
  have reachable : tree.Reachable := ⟨Tree.empty,_,.inl rfl,rfl⟩
  have start : tree.defaultRoot = 3 := by decide +kernel
  have whole : (query {} tree "html p" Tree.root).value = [4,5,2,6] := by decide +kernel
  have part : (queryDocument {} tree "html p").value = [4,5,2] := by decide +kernel
  have below : tree.isDescendant 4 3 = true := by decide +kernel
  obtain ⟨roots,_,document⟩ := collect_restriction reachable
  have block := document {} {} "html p"
  rw [start,whole,part] at block
  exact ⟨reachable,start,whole,part,block,below,roots (.tag "P") 3 4 (.inr below)⟩

end Selector
end TreeQuery
