import TreeQuery.Proofs.Tree.Forest
import TreeQuery.Proofs.Tree.Preorder

/-! The loops over a tree, run without a bound. One climbs from a node to the top (`Ascends`), the other
one searches for an id with a stack of waiting nodes (`Searches`). A run is a finite derivation, so a
loop that never came to an end would have none. On a well-formed tree both end. The stack holds the
subtrees that are left of the walk in tree order, one behind the other (`searches_rest`): a search takes
a beginning of that walk from its stack and stops at the first node with the id. -/
namespace TreeQuery.Tree

/-- The loop over ancestors stands at a node or nowhere; it gives the node out and goes on to the
parent. -/
inductive Ascends (tree : Tree) : Option NodeId → List NodeId → Prop
  | ended : Ascends tree none []
  | given (id : NodeId) (rest : List NodeId) (onwards : Ascends tree (tree.parent? id) rest) :
      Ascends tree (some id) (id :: rest)

def isNamed (tree : Tree) (name : String) (id : NodeId) : Bool :=
  (tree.element? id).bind (·.id?) = some name

/-- Put nodes on a stack one at a time; the last one comes to lie on top. -/
def push (stack nodes : List NodeId) : List NodeId := nodes.foldl (fun stack id => id :: stack) stack

/-- The search takes the top of its stack and stops there or puts the children on the stack, the last
child first. A run names the nodes taken and the result. -/
inductive Searches (tree : Tree) (name : String) : List NodeId → List NodeId → Option NodeId → Prop
  | exhausted : Searches tree name [] [] none
  | found (current : NodeId) (waiting : List NodeId) (named : tree.isNamed name current = true) :
      Searches tree name (current :: waiting) [current] (some current)
  | passed (current : NodeId) (waiting taken : List NodeId) (result : Option NodeId)
      (other : tree.isNamed name current = false)
      (onwards : Searches tree name (push waiting (tree.children current).reverse) taken result) :
      Searches tree name (current :: waiting) (current :: taken) result

variable {tree : Tree} {name : String} {id : NodeId} {waiting taken taken' uppers uppers' : List NodeId}
  {position result result' : Option NodeId}

theorem push_reverse (stack nodes : List NodeId) : push stack nodes.reverse = nodes ++ stack := by
  rw [push,List.foldl_reverse]
  induction nodes with
  | nil => rfl
  | cons node nodes ih => rw [List.foldr_cons,ih,List.cons_append]

theorem Ascends.unique (first : tree.Ascends position uppers) (second : tree.Ascends position uppers') :
    uppers = uppers' := by
  induction first generalizing uppers' with
  | ended =>
    cases second
    rfl
  | given id rest _ ih =>
    cases second with
    | given _ rest' onwards => rw [ih onwards]

theorem Searches.unique (first : tree.Searches name waiting taken result)
    (second : tree.Searches name waiting taken' result') : taken = taken' ∧ result = result' := by
  induction first generalizing taken' result' with
  | exhausted =>
    cases second
    exact ⟨rfl,rfl⟩
  | found current waiting named =>
    cases second with
    | found => exact ⟨rfl,rfl⟩
    | passed _ _ _ _ other => simp [named] at other
  | passed current waiting taken result other _ ih =>
    cases second with
    | found _ _ named => simp [named] at other
    | passed _ _ _ _ _ onwards =>
      obtain ⟨rfl,rfl⟩ := ih onwards
      exact ⟨rfl,rfl⟩

/-- A search with a bound is the same search, if the bound covers the nodes taken. -/
theorem Searches.searchWithin_eq (run : tree.Searches name waiting taken result) (bound : Nat)
    (enough : taken.length ≤ bound) : tree.searchWithin name bound waiting = result := by
  induction run generalizing bound with
  | exhausted => cases bound <;> rfl
  | found current waiting named =>
    obtain ⟨bound,rfl⟩ := Nat.exists_eq_add_one.mpr (Nat.lt_of_lt_of_le Nat.zero_lt_one enough)
    rw [searchWithin,if_pos (of_decide_eq_true named)]
  | passed current waiting taken result other _ ih =>
    obtain ⟨bound,rfl⟩ := Nat.exists_eq_add_one.mpr (Nat.lt_of_lt_of_le (Nat.succ_pos _) enough)
    rw [searchWithin,if_neg (of_decide_eq_false other),← push_reverse]
    exact ih bound (Nat.le_of_succ_le_succ enough)

namespace WellFormed

theorem ascends_ancestors (formed : tree.WellFormed) (id : NodeId) :
    tree.Ascends (tree.parent? id) (tree.ancestors id) := by
  induction id using formed.parent_induction with
  | step id ih =>
    rw [formed.ancestors_unfold]
    cases link : tree.parent? id with
    | none => exact .ended
    | some parent => exact .given parent _ (ih parent link)

theorem ancestors_length (formed : tree.WellFormed) (id : NodeId) :
    (tree.ancestors id).length < tree.size := by
  by_cases inside : id < tree.size
  · exact formed.depth_lt inside
  · rw [formed.ancestors_unfold,parent?_outside (Nat.not_lt.mp inside)]
    exact Nat.zero_lt_of_lt formed.root_inside

theorem preorder_length (formed : tree.WellFormed) (id : NodeId) :
    (tree.preorder id).length ≤ tree.size := by
  apply length_le_size (formed.preorder_nodup id)
  intro node member
  obtain ⟨inside,within⟩ := formed.mem_preorder.mp member
  exact within.inside inside

/-- Searching with nodes waiting goes through their subtrees in tree order. -/
theorem searches_rest (formed : tree.WellFormed) (name : String)
    (inside : ∀ id ∈ waiting, id < tree.size) :
    ∃ taken, taken <+: waiting.flatMap tree.preorder ∧
      tree.Searches name waiting taken ((waiting.flatMap tree.preorder).find? (tree.isNamed name)) := by
  -- The stack may grow; what gets shorter with every node taken is the walk that is left.
  induction left : (waiting.flatMap tree.preorder).length using Nat.strongRecOn
    generalizing waiting with
  | ind left ih =>
    cases waiting with
    | nil => exact ⟨[],List.nil_prefix,.exhausted⟩
    | cons current waiting =>
      obtain ⟨here,others⟩ := List.forall_mem_cons.mp inside
      have next : ∀ id ∈ tree.children current ++ waiting, id < tree.size := fun id member =>
        (List.mem_append.mp member).elim formed.childInside (others id)
      have rest : (current :: waiting).flatMap tree.preorder =
          current :: (tree.children current ++ waiting).flatMap tree.preorder := by
        rw [List.flatMap_cons,formed.preorder_unfold,if_pos here,List.cons_append,List.flatMap_append]
      rw [rest] at left ⊢
      cases named : tree.isNamed name current with
      | true =>
        rw [List.find?_cons_of_pos named]
        exact ⟨[current],List.prefix_append [current] _,.found current waiting named⟩
      | false =>
        obtain ⟨taken,beginning,run⟩ := ih _ (by simp [← left]) next rfl
        rw [List.find?_cons_of_neg (by simp [named])]
        refine ⟨current :: taken,List.cons_prefix_cons.mpr ⟨rfl,beginning⟩,
          .passed current waiting taken _ named ?_⟩
        rwa [push_reverse]

/-- The whole search takes a beginning of the walk below the document and finds what the library's
bounded search finds. -/
theorem searches_root (formed : tree.WellFormed) (name : String) :
    ∃ taken, taken <+: tree.preorder root ∧
      tree.Searches name [root] taken (tree.elementById? name) ∧
      tree.elementById? name = (tree.preorder root).find? (tree.isNamed name) := by
  have start : ∀ id ∈ [root], id < tree.size := List.forall_mem_singleton.mpr formed.root_inside
  obtain ⟨taken,beginning,run⟩ := formed.searches_rest name start
  rw [List.flatMap_singleton] at beginning run
  have enough : taken.length ≤ tree.size :=
    Nat.le_trans beginning.length_le (formed.preorder_length root)
  have same : tree.elementById? name = (tree.preorder root).find? (tree.isNamed name) :=
    run.searchWithin_eq tree.size enough
  exact ⟨taken,beginning,same ▸ run,same⟩

end WellFormed
end TreeQuery.Tree
