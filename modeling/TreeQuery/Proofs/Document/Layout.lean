import TreeQuery.Proofs.Tree.Forest

/-! Where the described nodes come to stand. Attaching outlines gives them consecutive ids, each
described node before those below it, and leaves the older nodes as they were but for the list of
children at the parent (`attachAll_adds`). The tree of a document is this with nothing older than
the document itself (`Shows`, `ofOutlines_layout`). -/
namespace TreeQuery

namespace Outline

/-- What an outline says of its own node. -/
def content : Outline → Content
  | .element tag attributes _ => .element ⟨tag,attributes⟩
  | .text words => .text words
  | .comment words => .comment words

def children : Outline → List Outline
  | .element _ _ children => children
  | .text _ | .comment _ => []

mutual

/-- How many nodes are described. -/
def count : Outline → Nat
  | .element _ _ children => countAll children + 1
  | .text _ | .comment _ => 1

def countAll : List Outline → Nat
  | [] => 0
  | node :: nodes => node.count + countAll nodes

end

/-- The ids of outlines that stand one behind the other from `start` on. -/
def places (start : Nat) : List Outline → List NodeId
  | [] => []
  | node :: nodes => start :: places (start + node.count) nodes

theorem count_eq (node : Outline) : node.count = countAll node.children + 1 := by
  cases node <;> simp [count,countAll,children]

theorem attach_eq (tree : Tree) (parent : NodeId) (node : Outline) :
    attach tree parent node =
      attachAll ((tree.alloc node.content).append parent tree.size) tree.size node.children := by
  cases node <;> rfl

mutual

/-- Induction from the innermost nodes outwards. -/
theorem outline_induction {motive : Outline → Prop}
    (step : ∀ node : Outline, (∀ child ∈ node.children, motive child) → motive node)
    (node : Outline) : motive node := by
  cases node with
  | element tag attributes nodes => exact step _ (outlines_induction step nodes)
  | text words => exact step _ (by simp [children])
  | comment words => exact step _ (by simp [children])

theorem outlines_induction {motive : Outline → Prop}
    (step : ∀ node : Outline, (∀ child ∈ node.children, motive child) → motive node)
    (nodes : List Outline) : ∀ node ∈ nodes, motive node := by
  cases nodes with
  | nil => simp
  | cons first others =>
    exact List.forall_mem_cons.mpr
      ⟨outline_induction step first,outlines_induction step others⟩

end

/-- Facts about outlines at their places, changed one by one. -/
theorem forall₂_places_imp {before after : NodeId → Outline → Prop} {start : Nat}
    {nodes : List Outline} (all : List.Forall₂ before (places start nodes) nodes)
    (change : ∀ id : Nat, ∀ node ∈ nodes, start ≤ id → id + node.count ≤ start + countAll nodes →
      before id node → after id node) :
    List.Forall₂ after (places start nodes) nodes := by
  induction nodes generalizing start with
  | nil => exact .nil
  | cons node nodes ih =>
    simp only [places,List.forall₂_cons,countAll] at all change ⊢
    refine ⟨change start node List.mem_cons_self (Nat.le_refl _) (by omega) all.1,ih all.2 ?_⟩
    intro id other member low high
    exact change id other (List.mem_cons_of_mem _ member) (by omega) (by omega)

end Outline

namespace Tree
open Outline

/-- A node with everything below it is what an outline describes. -/
inductive Shows (tree : Tree) : NodeId → Outline → Prop
  | intro {id : NodeId} {node : Outline} (content : tree.content? id = some node.content)
      (below : List.Forall₂ tree.Shows (tree.children id) node.children) : tree.Shows id node

/-- The described nodes stand in order from `id` on. -/
inductive LaidOut (tree : Tree) : NodeId → Outline → Prop
  | intro {id : NodeId} {node : Outline} (content : tree.content? id = some node.content)
      (children : tree.children id = places (id + 1) node.children)
      (below : List.Forall₂ tree.LaidOut (places (id + 1) node.children) node.children) :
      tree.LaidOut id node

/-- The effect of outlines that are attached: they are laid out behind the nodes of `before`, whose
contents stay, and of whose lists of children only that of `parent` grows. -/
structure Adds (before : Tree) (parent : NodeId) (nodes : List Outline) (after : Tree) : Prop where
  size : after.size = before.size + countAll nodes
  content : ∀ id < before.size, after.content? id = before.content? id
  children : ∀ id < before.size, after.children id =
    before.children id ++ if id = parent then places before.size nodes else []
  laid : List.Forall₂ after.LaidOut (places before.size nodes) nodes

variable {tree before middle after : Tree} {id parent : Nat} {node : Outline}
  {nodes : List Outline}

theorem LaidOut.shows (laid : tree.LaidOut id node) : tree.Shows id node := by
  induction node using outline_induction generalizing id with
  | step node ih =>
    obtain ⟨content,children,below⟩ := laid
    refine .intro content ?_
    rw [children]
    exact forall₂_places_imp below fun _ child member _ _ => ih child member

/-- A layout only depends on the nodes that it covers. -/
theorem LaidOut.frame (laid : before.LaidOut id node)
    (same : ∀ other : Nat, id ≤ other → other < id + node.count →
      after.content? other = before.content? other ∧ after.children other = before.children other) :
    after.LaidOut id node := by
  induction node using outline_induction generalizing id with
  | step node ih =>
    obtain ⟨content,children,below⟩ := laid
    have total := node.count_eq
    have here := same id (Nat.le_refl _) (by omega)
    refine .intro (here.1.trans content) (here.2.trans children) ?_
    refine forall₂_places_imp below fun place child member low high laid => ?_
    exact ih child member laid fun other above under => same other (by omega) (by omega)

theorem Adds.refl (tree : Tree) (parent : NodeId) : tree.Adds parent [] tree where
  size := rfl
  content _ _ := rfl
  children id _ := by simp [places]
  laid := .nil

theorem Adds.cons (inside : parent < before.size) (first : before.Adds parent [node] middle)
    (others : middle.Adds parent nodes after) : before.Adds parent (node :: nodes) after := by
  have grown : middle.size = before.size + node.count := by
    simpa [countAll] using first.size
  have laid : middle.LaidOut before.size node := by
    simpa [places] using first.laid
  constructor
  case size =>
    rw [others.size,grown,countAll]
    omega
  case content =>
    intro id old
    rw [others.content id (by omega),first.content id old]
  case children =>
    intro id old
    rw [others.children id (by omega),first.children id old,grown]
    split <;> simp [places]
  case laid =>
    have later := others.laid
    rw [grown] at later
    refine .cons (laid.frame fun other above under => ?_) later
    -- The parent is older than the nodes that are laid out, so none of them gets new children.
    have apart : other ≠ parent := by omega
    exact ⟨others.content other (by omega),by
      rw [others.children other (by omega),if_neg apart,List.append_nil]⟩

namespace WellFormed

/-- One level of an outline: the node itself is added, and then the outlines below it. -/
theorem adds_below (formed : tree.WellFormed) (inside : parent < tree.size)
    (below : ((tree.alloc node.content).append parent tree.size).Adds tree.size node.children after) :
    tree.Adds parent [node] after := by
  have total := node.count_eq
  have grown : ((tree.alloc node.content).append parent tree.size).size = tree.size + 1 := by simp
  constructor
  case size =>
    rw [below.size,grown,countAll,countAll,total]
    omega
  case content =>
    intro id old
    rw [below.content id (by omega),content?_append,content?_alloc,if_neg (Nat.ne_of_lt old)]
  case children =>
    intro id old
    rw [below.children id (by omega),if_neg (Nat.ne_of_lt old),
      formed.children_append_fresh node.content inside]
    simp [places]
  case laid =>
    refine .cons (.intro ?_ ?_ ?_) .nil
    · rw [below.content _ (by omega),content?_append,content?_alloc,if_pos rfl]
    · rw [below.children _ (by omega),if_pos rfl,formed.children_append_fresh node.content inside,
        if_neg (Nat.ne_of_gt inside),children_outside (Nat.le_refl _),grown]
      rfl
    · have laid := below.laid
      rwa [grown] at laid

theorem attach (formed : tree.WellFormed) (parent : NodeId) (node : Outline) :
    (Outline.attach tree parent node).WellFormed := by
  obtain ⟨actions,built⟩ := exists_run_attach tree parent node
  exact built ▸ formed.run actions

theorem attachAll_adds_of_each (formed : tree.WellFormed) (inside : parent < tree.size)
    (each : ∀ node ∈ nodes, ∀ {tree : Tree} {parent : NodeId}, tree.WellFormed →
      parent < tree.size → tree.Adds parent [node] (Outline.attach tree parent node)) :
    tree.Adds parent nodes (attachAll tree parent nodes) := by
  induction nodes generalizing tree with
  | nil => exact .refl tree parent
  | cons node nodes ih =>
    have first := each node List.mem_cons_self formed inside
    have grown : tree.size ≤ (Outline.attach tree parent node).size := first.size ▸ Nat.le_add_right _ _
    exact .cons inside first (ih (formed.attach parent node) (by omega)
      fun other member => each other (List.mem_cons_of_mem _ member))

theorem attach_adds (formed : tree.WellFormed) (inside : parent < tree.size) (node : Outline) :
    tree.Adds parent [node] (Outline.attach tree parent node) := by
  induction node using outline_induction generalizing tree parent with
  | step node ih =>
    rw [attach_eq]
    refine formed.adds_below inside (attachAll_adds_of_each ?_ (by simp) ?_)
    · exact (formed.alloc node.content).append parent tree.size
    · exact fun child member => ih child member

theorem attachAll_adds (formed : tree.WellFormed) (inside : parent < tree.size)
    (nodes : List Outline) : tree.Adds parent nodes (attachAll tree parent nodes) :=
  formed.attachAll_adds_of_each inside fun node _ _ _ formed inside => formed.attach_adds inside node

end WellFormed

/-- The tree of a document: its nodes are numbered from 1 on in the order in which they are
described. -/
theorem ofOutlines_layout (nodes : List Outline) :
    (ofOutlines nodes).WellFormed ∧ (ofOutlines nodes).size = countAll nodes + 1 ∧
      (ofOutlines nodes).children root = places 1 nodes ∧
      List.Forall₂ (ofOutlines nodes).LaidOut (places 1 nodes) nodes := by
  have added : Tree.empty.Adds root nodes (attachAll Tree.empty root nodes) :=
    WellFormed.empty.attachAll_adds Nat.zero_lt_one nodes
  obtain ⟨actions,built⟩ := exists_run_attachAll Tree.empty root nodes
  refine ⟨?_,?_,?_,?_⟩
  · rw [ofOutlines,built]
    exact WellFormed.empty.run actions
  · rw [ofOutlines,added.size,size_empty,Nat.add_comm]
  · rw [ofOutlines,added.children root Nat.zero_lt_one,children_empty,size_empty]
    rfl
  · exact added.laid

/-- The tree is made of the document and the described nodes, in their order, and nothing else. -/
structure Holds (tree : Tree) (nodes : List Outline) : Prop where
  formed : tree.WellFormed
  shown : List.Forall₂ tree.Shows (tree.children root) nodes
  size : tree.size = countAll nodes + 1

theorem ofOutlines_holds (nodes : List Outline) : (ofOutlines nodes).Holds nodes := by
  obtain ⟨formed,size,children,laid⟩ := ofOutlines_layout nodes
  refine ⟨formed,?_,size⟩
  rw [children]
  exact forall₂_places_imp laid fun _ _ _ _ _ => LaidOut.shows

end Tree

theorem Document.parse_eq_ok_iff {text : String} {tree : Tree} :
    Document.parse text = .ok tree ↔
      ∃ nodes, Document.outlines text.toList = .ok nodes ∧ Tree.ofOutlines nodes = tree := by
  unfold Document.parse
  cases Document.outlines text.toList <;> simp

end TreeQuery
