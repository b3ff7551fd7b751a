import TreeQuery.Proofs.Selector.Composition
import TreeQuery.Proofs.Tree.Loops

/-! The walks that answer a question about a tree, as they are run. Collecting calls itself for every
child and joins the answers (`Collects`); the search for an id keeps a stack and stops early. The two
agree on the first node with an id (`elementById?_collected`), and all of them, like the way up to the
ancestors, come to an end after at most as many steps as the tree has nodes (`walks_end`). -/
namespace TreeQuery.Selector

mutual

/-- A call of the collector at a node: the nodes it is called at, in the order of the calls, and the
answer. -/
inductive Collects (tree : Tree) (matcher : Matcher) : NodeId → List NodeId → List NodeId → Prop
  | call (id : NodeId) (calls found : List NodeId)
      (below : CollectsAll tree matcher (tree.children id) calls found) :
      Collects tree matcher id (id :: calls)
        ((if matcher.accepts tree id then [id] else []) ++ found)

inductive CollectsAll (tree : Tree) (matcher : Matcher) :
    List NodeId → List NodeId → List NodeId → Prop
  | nil : CollectsAll tree matcher [] [] []
  | cons (id : NodeId) (ids calls calls' found found' : List NodeId)
      (first : Collects tree matcher id calls found)
      (others : CollectsAll tree matcher ids calls' found') :
      CollectsAll tree matcher (id :: ids) (calls ++ calls') (found ++ found')

end

/-- The nodes that collecting from `root` calls itself at: the root, also one outside the tree, and the
nodes below it. -/
def visits (tree : Tree) (root : NodeId) : List NodeId :=
  root :: (tree.children root).flatMap tree.preorder

variable {tree : Tree} {matcher : Matcher} {root node : NodeId} {ids calls found : List NodeId}

theorem collectsAll_iff {listing answer : NodeId → List NodeId}
    (each : ∀ id ∈ ids, ∀ calls found,
      Collects tree matcher id calls found ↔ calls = listing id ∧ found = answer id) :
    CollectsAll tree matcher ids calls found ↔
      calls = ids.flatMap listing ∧ found = ids.flatMap answer := by
  induction ids generalizing calls found with
  | nil =>
    constructor
    · intro run
      cases run
      exact ⟨rfl,rfl⟩
    · rintro ⟨rfl,rfl⟩
      exact .nil
  | cons id ids ih =>
    obtain ⟨here,others⟩ := List.forall_mem_cons.mp each
    constructor
    · intro run
      cases run with
      | cons _ _ _ _ _ _ first rest =>
        obtain ⟨rfl,rfl⟩ := (here _ _).mp first
        obtain ⟨rfl,rfl⟩ := (ih others).mp rest
        exact ⟨rfl,rfl⟩
    · rintro ⟨rfl,rfl⟩
      exact .cons id ids _ _ _ _ ((here _ _).mpr ⟨rfl,rfl⟩) ((ih others).mpr ⟨rfl,rfl⟩)

theorem visits_of_inside (formed : tree.WellFormed) (inside : root < tree.size) :
    visits tree root = tree.preorder root := by
  rw [formed.preorder_unfold,if_pos inside,visits]

theorem visits_of_outside (outside : tree.size ≤ root) : visits tree root = [root] := by
  rw [visits,Tree.children_outside outside,List.flatMap_nil]

/-- Collecting from a root has one run. -/
theorem collects_iff (formed : tree.WellFormed) :
    Collects tree matcher root calls found ↔
      calls = visits tree root ∧ found = collect tree matcher root := by
  -- From the leaves up: a call is settled when the calls below it are.
  induction root using formed.subtree_induction generalizing calls found with
  | step root ih =>
    have below : ∀ calls found, CollectsAll tree matcher (tree.children root) calls found ↔
        calls = (tree.children root).flatMap tree.preorder ∧
          found = (tree.children root).flatMap (collect tree matcher) := by
      refine fun calls found => collectsAll_iff fun child member calls found => ?_
      rw [ih child member,visits_of_inside formed (formed.childInside member)]
    rw [collect_unfold formed,visits]
    constructor
    · intro run
      cases run with
      | call _ _ _ rest =>
        obtain ⟨rfl,rfl⟩ := (below _ _).mp rest
        exact ⟨rfl,rfl⟩
    · rintro ⟨rfl,rfl⟩
      exact .call root _ _ ((below _ _).mpr ⟨rfl,rfl⟩)

theorem visits_nodup (formed : tree.WellFormed) (root : NodeId) : (visits tree root).Nodup := by
  rcases Nat.lt_or_ge root tree.size with inside | outside
  · exact visits_of_inside formed inside ▸ formed.preorder_nodup root
  · exact visits_of_outside outside ▸ List.nodup_singleton root

theorem mem_visits (formed : tree.WellFormed) :
    node ∈ visits tree root ↔ node = root ∨ tree.isDescendant node root = true := by
  rw [← formed.within_iff_isDescendant]
  rcases Nat.lt_or_ge root tree.size with inside | outside
  · rw [visits_of_inside formed inside,formed.mem_preorder]
    exact and_iff_right inside
  · rw [visits_of_outside outside,List.mem_singleton,Tree.within_iff]
    have notBelow : ¬ tree.Below node root := fun below =>
      Nat.not_lt.mpr outside (formed.below_inside below)
    exact (or_iff_left notBelow).symm

theorem visits_length (formed : tree.WellFormed) (root : NodeId) :
    (visits tree root).length ≤ tree.size := by
  rcases Nat.lt_or_ge root tree.size with inside | outside
  · exact visits_of_inside formed inside ▸ formed.preorder_length root
  · rw [visits_of_outside outside]
    exact Nat.zero_lt_of_lt formed.root_inside

theorem isNamed_eq_accepts (tree : Tree) (name : String) :
    tree.isNamed name = (Matcher.id name).accepts tree := by
  funext node
  rw [Tree.isNamed,Matcher.accepts]
  cases tree.element? node with
  | none => rfl
  | some element => exact (beq_eq_decide element.id? (some name)).symm

theorem elementById?_eq (formed : tree.WellFormed) (name : String) :
    tree.elementById? name = (collect tree (.id name) Tree.root).head? := by
  obtain ⟨_,_,_,same⟩ := formed.searches_root name
  rw [same,collect,List.head?_filter,isNamed_eq_accepts]

/-- The search for an id stops at the first node that collecting would list from the document on, if
there is one. So it finds nothing that is not below the document; and if the id can be written behind
`#`, it finds the first node of that query. -/
theorem elementById?_collected (reachable : tree.Reachable) (name : String) :
    tree.elementById? name = (collect tree (.id name) Tree.root).head? ∧
      (∀ node, tree.elementById? name = some node → tree.isDescendant node Tree.root = true) ∧
      (name ≠ "" → ' ' ∉ name.toList → ∀ before,
        tree.elementById? name = (query before tree ("#" ++ name) Tree.root).value.head?) := by
  have formed := reachable.wellFormed
  have same := elementById?_eq formed name
  refine ⟨same,?_,?_⟩
  · intro node found
    rw [same] at found
    obtain ⟨within,accepted⟩ := (mem_collect formed).mp (List.mem_of_head? found)
    obtain ⟨element,isElement⟩ := Matcher.accepts_element accepted
    rcases formed.within_iff_isDescendant.mp within with rfl | below
    · rw [element?_eq_some,formed.document] at isElement
      cases isElement
    · exact below
  · intro filled noSpace before
    have word : IsWord name.toList := ⟨by simpa using filled,noSpace⟩
    rw [query_of_accepted before (Reads.simple (.id word)).compile?,same]

/-- The first of two nodes with one id lies later in the tree since it was moved; a node that was never
attached is not found. -/
theorem elementById?_collected_moved :
    let named (name : String) : Attributes := Attributes.empty.insert "id" name
    let tree := Tree.empty.run [.appendElement 0 ⟨"a",{}⟩,.appendElement 1 ⟨"b",named "x.y"⟩,
      .appendElement 2 ⟨"c",named "x.y"⟩,.appendElement 1 ⟨"d",named "x.y"⟩,.append 1 2,
      .alloc (.element ⟨"e",named "z"⟩)]
    tree.Reachable ∧ collect tree (.id "x.y") Tree.root = [4,2,3] ∧
      tree.elementById? "x.y" = some 4 ∧ tree.isDescendant 4 Tree.root = true ∧
      (query {} tree "#x.y" Tree.root).value.head? = some 4 ∧
      collect tree (.id "z") 5 = [5] ∧ tree.elementById? "z" = none := by
  intro named tree
  have reachable : tree.Reachable := ⟨Tree.empty,_,.inl rfl,rfl⟩
  have listed : collect tree (.id "x.y") Tree.root = [4,2,3] := by decide +kernel
  have unlisted : collect tree (.id "z") Tree.root = [] := by decide +kernel
  obtain ⟨first,below,asked⟩ := elementById?_collected reachable "x.y"
  obtain ⟨none,_,_⟩ := elementById?_collected reachable "z"
  rw [listed] at first
  rw [unlisted] at none
  exact ⟨reachable,listed,first,below 4 first,
    (asked (by decide) (by decide) {}).symm.trans first,by decide +kernel,none⟩

/-- On a tree that can be built every walk ends, and each has one run. Climbing from a node gives out
its ancestors, fewer than there are nodes; collecting is called once at every node of the root's subtree;
and a search takes no node from its stack twice. -/
theorem walks_end (reachable : tree.Reachable) :
    (∀ id, (∀ uppers, tree.Ascends (tree.parent? id) uppers ↔ uppers = tree.ancestors id) ∧
        (tree.ancestors id).length < tree.size) ∧
      (∀ root, ∃ calls, calls.Nodup ∧ calls.length ≤ tree.size ∧
        (∀ node, node ∈ calls ↔ node = root ∨ tree.isDescendant node root = true) ∧
        ∀ matcher calls' found, Collects tree matcher root calls' found ↔
          calls' = calls ∧ found = collect tree matcher root) ∧
      ∀ name, ∃ taken, taken.Nodup ∧ taken.length ≤ tree.size ∧
        ∀ taken' result, tree.Searches name [Tree.root] taken' result ↔
          taken' = taken ∧ result = tree.elementById? name := by
  have formed := reachable.wellFormed
  refine ⟨?_,?_,?_⟩
  · intro id
    have run := formed.ascends_ancestors id
    refine ⟨fun uppers => ⟨fun other => other.unique run,?_⟩,formed.ancestors_length id⟩
    rintro rfl
    exact run
  · intro root
    exact ⟨visits tree root,visits_nodup formed root,visits_length formed root,
      fun node => mem_visits formed,fun matcher calls' found => collects_iff formed⟩
  · intro name
    obtain ⟨taken,beginning,run,_⟩ := formed.searches_root name
    refine ⟨taken,(formed.preorder_nodup Tree.root).sublist beginning.sublist,
      Nat.le_trans beginning.length_le (formed.preorder_length Tree.root),?_⟩
    intro taken' result
    constructor
    · intro other
      exact other.unique run
    · rintro ⟨rfl,rfl⟩
      exact run

/-- The document below a node that was never attached, and four appends that would have closed a
cycle. -/
theorem walks_end_below_detached :
    let named : Attributes := Attributes.empty.insert "id" "x"
    let tree := Tree.empty.run [.appendElement 0 ⟨"a",{}⟩,.appendElement 1 ⟨"b",named⟩,.append 2 1,
      .append 2 2,.alloc (.text "t"),.append 3 0,.append 1 3,.append 2 0]
    tree.Reachable ∧ tree.ancestors 2 = [1,0,3] ∧ tree.Ascends (tree.parent? 2) [1,0,3] ∧
      (∃ calls, calls.length ≤ 4 ∧ Collects tree (.tag "B") 3 calls [2]) ∧
      ∃ taken, taken.length ≤ 4 ∧ tree.Searches "x" [Tree.root] taken (some 2) := by
  intro named tree
  have reachable : tree.Reachable := ⟨Tree.empty,_,.inl rfl,rfl⟩
  have uppers : tree.ancestors 2 = [1,0,3] := by decide
  have answer : collect tree (.tag "B") 3 = [2] := by decide +kernel
  have result : tree.elementById? "x" = some 2 := by decide +kernel
  have size : tree.size = 4 := by decide
  obtain ⟨climbs,collects,searches⟩ := walks_end reachable
  obtain ⟨calls,_,few,_,runs⟩ := collects 3
  obtain ⟨taken,_,short,stops⟩ := searches "x"
  exact ⟨reachable,uppers,((climbs 2).1 _).mpr uppers.symm,
    ⟨calls,size ▸ few,(runs (.tag "B") calls [2]).mpr ⟨rfl,answer.symm⟩⟩,
    taken,size ▸ short,(stops taken (some 2)).mpr ⟨rfl,result.symm⟩⟩

end TreeQuery.Selector
