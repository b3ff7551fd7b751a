import TreeQuery.Document.Source
import TreeQuery.Proofs.Tree.Change

/-! Well-formedness along every run of changes. The changes of a tree may name any ids; a run of
them from the empty tree or from a document that was read ends in a well-formed tree
(`run_wellFormed`). The step that needs an argument is an append: the new link leads up from
`child`, and a cycle through it would put the new parent below `child`, which an append refuses. -/
namespace TreeQuery.Tree

inductive Action where
  | alloc (content : Content)
  | append (parent child : NodeId)
  | appendElement (parent : NodeId) (element : Element)
  deriving Repr,DecidableEq

def perform (tree : Tree) : Action → Tree
  | .alloc content => tree.alloc content
  | .append parent child => tree.append parent child
  | .appendElement parent element => tree.appendElement parent element

def run (tree : Tree) (actions : List Action) : Tree := actions.foldl perform tree

/-- A tree that changes may start from. -/
def Initial (tree : Tree) : Prop := tree = empty ∨ ∃ text, Document.parse text = .ok tree

def Reachable (tree : Tree) : Prop :=
  ∃ (start : Tree) (actions : List Action), start.Initial ∧ tree = start.run actions

variable {tree : Tree} {id parent child lower upper : NodeId}

/-- A path through the links after an append goes through the old links, or it leads up to `child`
and then on from its new parent. -/
theorem below_append (accepted : tree.accepts parent child = true)
    (below : (tree.append parent child).Below lower upper) :
    tree.Below lower upper ∨ tree.Within lower child ∧ tree.Within parent upper := by
  have step {a b : NodeId} (link : (tree.append parent child).Link a b) :
      tree.Link a b ∨ a = child ∧ b = parent := by
    rw [Link,parent?_append accepted] at link
    split_ifs at link with moved
    · exact .inr ⟨moved,(Option.some.inj link).symm⟩
    · exact .inl link
  induction below with
  | single link =>
    rcases step link with old | ⟨rfl,rfl⟩
    · exact .inl (.single old)
    · exact .inr ⟨.refl,.refl⟩
  | tail _ link ih =>
    rcases step link with old | ⟨rfl,rfl⟩
    · rcases ih with below | ⟨toChild,fromParent⟩
      · exact .inl (below.tail old)
      · exact .inr ⟨toChild,fromParent.tail old⟩
    · rcases ih with below | ⟨toChild,_⟩
      · exact .inr ⟨below.within,.refl⟩
      · exact .inr ⟨toChild,.refl⟩

theorem parent?_empty (id : NodeId) : empty.parent? id = none := by
  cases id with
  | zero => rfl
  | succ id => exact parent?_outside (Nat.le_add_left 1 id)

theorem children_empty (id : NodeId) : empty.children id = [] := by
  cases id with
  | zero => rfl
  | succ id => exact children_outside (Nat.le_add_left 1 id)

namespace WellFormed

theorem root_inside (formed : tree.WellFormed) : root < tree.size := by
  apply Nat.lt_of_not_le
  intro outside
  have document := formed.document
  rw [content?_outside outside] at document
  contradiction

theorem empty : Tree.empty.WellFormed where
  document := rfl
  parentInside link := by simp [parent?_empty] at link
  childInside member := by simp [children_empty] at member
  listed := by simp [parent?_empty,children_empty]
  once := by simp [children_empty]
  acyclic id cycle := by
    obtain ⟨parent,link,_⟩ := Relation.TransGen.head'_iff.mp cycle
    simp [Link,parent?_empty] at link

theorem alloc (formed : tree.WellFormed) (content : Content) : (tree.alloc content).WellFormed where
  document := by
    rw [content?_alloc,if_neg (Nat.ne_of_lt formed.root_inside),formed.document]
  parentInside link := by
    rw [parent?_alloc] at link
    rw [size_alloc]
    exact Nat.lt_succ_of_lt (formed.parentInside link)
  childInside member := by
    rw [children_alloc] at member
    rw [size_alloc]
    exact Nat.lt_succ_of_lt (formed.childInside member)
  listed := by
    intro parent child
    rw [children_alloc,parent?_alloc,formed.listed]
  once := by simpa using formed.once
  acyclic := by
    have same : (tree.alloc content).Link = tree.Link := by
      funext lower upper
      simp [Link]
    simpa [Below,same] using formed.acyclic

theorem append (formed : tree.WellFormed) (parent child : NodeId) :
    (tree.append parent child).WellFormed := by
  cases accepted : tree.accepts parent child with
  | false => rwa [append_refused accepted]
  | true =>
    obtain ⟨parentInside,childInside,apart⟩ := formed.accepts_iff.mp accepted
    constructor
    case document => simpa using formed.document
    case parentInside =>
      intro upper lower link
      rw [parent?_append accepted] at link
      rw [size_append]
      split_ifs at link with moved
      · cases link
        exact parentInside
      · exact formed.parentInside link
    case childInside =>
      intro upper lower member
      rw [size_append]
      rcases (mem_children_append formed accepted upper lower).mp member with ⟨old,_⟩ | ⟨_,rfl⟩
      · exact formed.childInside old
      · exact childInside
    case listed =>
      intro upper lower
      rw [mem_children_append formed accepted,parent?_append accepted,formed.listed]
      by_cases moved : lower = child <;> simp [moved,eq_comm]
    case once =>
      intro upper
      rw [children_append formed accepted]
      have rest : (tree.childrenWithout child upper).Nodup := (formed.once upper).filter _
      split_ifs
      · exact List.nodup_append.mpr ⟨rest,by simp,by simp [mem_childrenWithout]⟩
      · simpa using rest
    case acyclic =>
      intro id cycle
      rcases below_append accepted cycle with old | ⟨toChild,fromParent⟩
      · exact formed.acyclic id old
      · exact apart (fromParent.trans toChild)

theorem not_within_fresh (formed : tree.WellFormed) (content : Content) (inside : id < tree.size) :
    ¬ (tree.alloc content).Within id tree.size := by
  intro within
  rcases within_iff.mp within with same | below
  · exact Nat.ne_of_lt inside same
  · obtain ⟨child,_,link⟩ := Relation.TransGen.tail'_iff.mp below
    rw [Link,parent?_alloc] at link
    exact Nat.lt_irrefl _ (formed.parentInside link)

theorem accepts_fresh (formed : tree.WellFormed) (content : Content) (inside : parent < tree.size) :
    (tree.alloc content).accepts parent tree.size = true := by
  refine (formed.alloc content).accepts_iff.mpr ⟨?_,?_,formed.not_within_fresh content inside⟩
  · simpa using Nat.lt_succ_of_lt inside
  · simp

theorem children_append_fresh (formed : tree.WellFormed) (content : Content)
    (inside : parent < tree.size) (id : NodeId) :
    ((tree.alloc content).append parent tree.size).children id =
      tree.children id ++ if id = parent then [tree.size] else [] := by
  have absent : tree.size ∉ (tree.alloc content).children id := fun member => by
    rw [children_alloc] at member
    exact Nat.lt_irrefl _ (formed.childInside member)
  rw [children_append (formed.alloc content) (formed.accepts_fresh content inside),
    childrenWithout_of_absent absent,children_alloc]

theorem parent?_appendElement (formed : tree.WellFormed) (element : Element)
    (inside : parent < tree.size) (id : NodeId) :
    (tree.appendElement parent element).parent? id =
      if id = tree.size then some parent else tree.parent? id := by
  rw [appendElement,parent?_append (formed.accepts_fresh _ inside),parent?_alloc]

theorem perform (formed : tree.WellFormed) (action : Action) : (tree.perform action).WellFormed := by
  cases action with
  | alloc content => exact formed.alloc content
  | append parent child => exact formed.append parent child
  | appendElement parent element => exact (formed.alloc (.element element)).append parent tree.size

theorem run (formed : tree.WellFormed) (actions : List Action) : (tree.run actions).WellFormed := by
  induction actions generalizing tree with
  | nil => exact formed
  | cons action actions ih => exact ih (formed.perform action)

end WellFormed

/-! The nodes of a document are attached by such changes too. -/

theorem run_append (tree : Tree) (first second : List Action) :
    tree.run (first ++ second) = (tree.run first).run second :=
  List.foldl_append

mutual

theorem exists_run_attach (tree : Tree) (parent : NodeId) (node : Outline) :
    ∃ actions, Outline.attach tree parent node = tree.run actions := by
  cases node with
  | text words => exact ⟨[.alloc (.text words),.append parent tree.size],rfl⟩
  | comment words => exact ⟨[.alloc (.comment words),.append parent tree.size],rfl⟩
  | element tag attributes children =>
    obtain ⟨actions,below⟩ := exists_run_attachAll
      (tree.run [.alloc (.element ⟨tag,attributes⟩),.append parent tree.size]) tree.size children
    refine ⟨[.alloc (.element ⟨tag,attributes⟩),.append parent tree.size] ++ actions,?_⟩
    rw [run_append,← below]
    rfl

theorem exists_run_attachAll (tree : Tree) (parent : NodeId) (nodes : List Outline) :
    ∃ actions, Outline.attachAll tree parent nodes = tree.run actions := by
  cases nodes with
  | nil => exact ⟨[],rfl⟩
  | cons node nodes =>
    obtain ⟨first,attached⟩ := exists_run_attach tree parent node
    obtain ⟨second,others⟩ := exists_run_attachAll (tree.run first) parent nodes
    refine ⟨first ++ second,?_⟩
    rw [run_append,← others,← attached]
    rfl

end

theorem Initial.exists_run (initial : tree.Initial) : ∃ actions, tree = empty.run actions := by
  rcases initial with rfl | ⟨text,read⟩
  · exact ⟨[],rfl⟩
  · unfold Document.parse at read
    split at read
    · simp at read
    · rename_i nodes _
      obtain ⟨actions,built⟩ := exists_run_attachAll empty root nodes
      cases read
      exact ⟨actions,built⟩

theorem Reachable.wellFormed (reachable : tree.Reachable) : tree.WellFormed := by
  obtain ⟨start,actions,initial,rfl⟩ := reachable
  obtain ⟨before,rfl⟩ := initial.exists_run
  exact (WellFormed.empty.run before).run actions

/-! The append again, with every access to the array checked: it has no value when one misses. -/

def modifyChecked? (tree : Tree) (id : NodeId) (change : Node → Node) : Option Tree :=
  if id < tree.size then some (tree.modify id change) else none

def unlistChecked? (tree : Tree) (child : NodeId) : Option Tree := do
  let moved ← tree.get? child
  match moved.parent with
  | none => some tree
  | some old => tree.modifyChecked? old fun node =>
    { node with children := node.children.filter fun id => id != child }

def appendChecked? (tree : Tree) (parent child : NodeId) : Option Tree :=
  if tree.accepts parent child then do
    let unlisted ← tree.unlistChecked? child
    let listed ← unlisted.modifyChecked? parent fun node =>
      { node with children := node.children ++ [child] }
    listed.modifyChecked? child fun node => { node with parent := some parent }
  else some tree

namespace WellFormed

theorem unlistChecked?_eq (formed : tree.WellFormed) (inside : child < tree.size) :
    tree.unlistChecked? child = some (tree.unlist child) := by
  obtain ⟨moved,found⟩ := get?_inside inside
  have linked : tree.parent? child = moved.parent := by simp [parent?,found]
  simp only [unlistChecked?,unlist,found,linked,bind,Option.bind]
  cases attached : moved.parent with
  | none => rfl
  | some old =>
    have oldInside : old < tree.size := formed.parentInside (linked.trans attached)
    simp [modifyChecked?,oldInside]

theorem appendChecked?_eq (formed : tree.WellFormed) (parent child : NodeId) :
    tree.appendChecked? parent child = some (tree.append parent child) := by
  cases accepted : tree.accepts parent child with
  | false => simp [appendChecked?,append_refused,accepted]
  | true =>
    obtain ⟨parentInside,childInside,_⟩ := formed.accepts_iff.mp accepted
    simp [appendChecked?,accepted,append_accepted,formed.unlistChecked?_eq childInside,
      modifyChecked?,parentInside,childInside]

end WellFormed

/-- Every run of changes keeps the forest, and no append in it can miss the array. -/
theorem run_forest {start : Tree} (initial : start.Initial) (actions : List Action) :
    (start.run actions).WellFormed ∧
      ∀ parent child, (start.run actions).appendChecked? parent child =
        some ((start.run actions).append parent child) := by
  have formed : (start.run actions).WellFormed := Reachable.wellFormed ⟨start,actions,initial,rfl⟩
  exact ⟨formed,formed.appendChecked?_eq⟩

/-- The document moves below a new node, and then nothing can move that node below the document. -/
theorem run_forest_below_document :
    let start : Tree := ⟨#[⟨.document,none,[1]⟩,⟨.element ⟨"a",{}⟩,some 0,[]⟩]⟩
    let actions : List Action := [.alloc (.text "x"),.append 2 0,.append 1 2,.append 7 7,
      .append 0 1,.appendElement 9 ⟨"b",{}⟩]
    Document.parse "\x7b\"tag\":\"a\"\x7d" = .ok start ∧
      start.run actions = ⟨#[⟨.document,some 2,[1]⟩,⟨.element ⟨"a",{}⟩,some 0,[]⟩,
        ⟨.text "x",none,[0]⟩,⟨.element ⟨"b",{}⟩,none,[]⟩]⟩ ∧
      (start.run actions).WellFormed ∧
      ∀ parent child, (start.run actions).appendChecked? parent child =
        some ((start.run actions).append parent child) := by
  intro start actions
  have read : Document.parse "\x7b\"tag\":\"a\"\x7d" = .ok start := by decide +kernel
  exact ⟨read,by decide,run_forest (.inr ⟨_,read⟩) actions⟩

end TreeQuery.Tree
