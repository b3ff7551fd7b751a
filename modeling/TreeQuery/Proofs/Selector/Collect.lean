import TreeQuery.Proofs.Tree.Forest
import TreeQuery.Proofs.Tree.Preorder
import TreeQuery.Selector.Query

/-! What a query collects. Any matcher accepts elements only, so that nothing outside the tree is
ever found. On a well-formed tree the answer is the matching part of the root's subtree in tree
order (`collect_subtree`), and it can be put together from the answers for the children
(`collect_unfold`). -/
namespace TreeQuery.Selector

variable {tree : Tree} {matcher : Matcher} {root node : NodeId}

theorem element?_eq_some {element : Element} :
    tree.element? node = some element ↔ tree.content? node = some (.element element) := by
  unfold Tree.element?
  split <;> simp_all

theorem element?_inside {element : Element} (found : tree.element? node = some element) :
    node < tree.size := by
  apply Nat.lt_of_not_le
  intro outside
  rw [element?_eq_some,Tree.content?_outside outside] at found
  contradiction

theorem Matcher.accepts_element (accepted : matcher.accepts tree node = true) :
    ∃ element, tree.element? node = some element := by
  induction matcher with
  | id name | className name | tag name =>
    obtain ⟨element,found,_⟩ := (Option.any_eq_true _ _).mp accepted
    exact ⟨element,found⟩
  | both left right ih _ => exact ih (Bool.and_eq_true_iff.mp accepted).1
  | relative combinator ancestor subject _ ih =>
    cases combinator with
    | child => exact ih (Bool.and_eq_true_iff.mp accepted).1
    | descendant => exact ih (Bool.and_eq_true_iff.mp accepted).1
  | never => contradiction

theorem collect_inside (found : node ∈ collect tree matcher root) : node < tree.size := by
  obtain ⟨_,accepted⟩ := List.mem_filter.mp found
  obtain ⟨_,found⟩ := matcher.accepts_element accepted
  exact element?_inside found

theorem mem_collect (formed : tree.WellFormed) :
    node ∈ collect tree matcher root ↔ tree.Within node root ∧ matcher.accepts tree node = true := by
  rw [collect,List.mem_filter,formed.mem_preorder]
  constructor
  · rintro ⟨⟨_,within⟩,accepted⟩
    exact ⟨within,accepted⟩
  · rintro ⟨within,accepted⟩
    obtain ⟨element,found⟩ := matcher.accepts_element accepted
    have inside : root < tree.size := by
      rcases Tree.within_iff.mp within with rfl | below
      · exact element?_inside found
      · exact formed.below_inside below
    exact ⟨⟨inside,within⟩,accepted⟩

/-- The answer below a root is the root itself, if it matches, and then the answers below its
children. -/
theorem collect_unfold (formed : tree.WellFormed) (matcher : Matcher) (root : NodeId) :
    collect tree matcher root =
      (if matcher.accepts tree root then [root] else []) ++
        (tree.children root).flatMap (collect tree matcher) := by
  rw [collect,formed.preorder_unfold]
  split
  · rw [List.filter_cons,List.filter_flatMap]
    split <;> rfl
  · rename_i outside
    have refused : ¬ matcher.accepts tree root = true := fun accepted => by
      obtain ⟨element,found⟩ := matcher.accepts_element accepted
      exact outside (element?_inside found)
    simp [refused,Tree.children_outside (Nat.le_of_not_lt outside)]

/-- A query finds the matching nodes of a subtree, each once and in tree order. -/
theorem collect_subtree (reachable : tree.Reachable) (matcher : Matcher) (root : NodeId) :
    (collect tree matcher root).Nodup ∧
      (∀ node, node ∈ collect tree matcher root ↔
        (node = root ∨ tree.isDescendant node root = true) ∧ matcher.accepts tree node = true) ∧
      (∀ node ∈ collect tree matcher root,
        node < tree.size ∧ ∃ element, tree.content? node = some (.element element)) ∧
      (∀ first ∈ collect tree matcher root, ∀ second ∈ collect tree matcher root,
        Tree.Precedes (collect tree matcher root) first second ↔ tree.Earlier first second) ∧
      (tree.size ≤ root → collect tree matcher root = []) := by
  have formed := reachable.wellFormed
  refine ⟨(formed.preorder_nodup root).filter _,?_,?_,?_,?_⟩
  · intro node
    rw [mem_collect formed,Tree.within_iff,formed.isDescendant_iff]
  · intro node member
    obtain ⟨element,found⟩ := matcher.accepts_element ((mem_collect formed).mp member).2
    exact ⟨element?_inside found,element,element?_eq_some.mp found⟩
  · intro first firstMember second secondMember
    exact Tree.precedes_iff ((formed.preorder_pairwise root).filter _)
      (fun a b => formed.earlier_asymm) firstMember secondMember
  · intro outside
    simp [collect,formed.preorder_unfold,Nat.not_lt.mpr outside]

/-- A text with an element in it, moved behind that element's namesake. -/
theorem collect_subtree_moved :
    ∃ tree : Tree, tree.Reachable ∧
      collect tree (.relative .descendant (.tag "A") (.tag "B")) Tree.root = [4,3] ∧
      tree.Earlier 4 3 := by
  have reachable : ((Tree.empty.run [.appendElement 0 ⟨"a",{}⟩,.alloc (.text "x"),.append 1 2,
      .appendElement 2 ⟨"b",{}⟩,.appendElement 1 ⟨"b",{}⟩,.append 1 2]) : Tree).Reachable :=
    ⟨Tree.empty,_,.inl rfl,rfl⟩
  refine ⟨_,reachable,by decide +kernel,?_⟩
  obtain ⟨_,_,_,order,_⟩ := collect_subtree reachable (.relative .descendant (.tag "A") (.tag "B")) 0
  exact (order 4 (by decide +kernel) 3 (by decide +kernel)).mp (by unfold Tree.Precedes; decide +kernel)

end TreeQuery.Selector
