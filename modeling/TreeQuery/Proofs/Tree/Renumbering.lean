import Mathlib.Data.Finset.Card
import Mathlib.Data.List.Find
import TreeQuery.Proofs.Tree.Forest
import TreeQuery.Tree.Landmarks
import TreeQuery.Tree.Walk

/-! Trees of the same shape. Two trees may hold the same nodes under different ids, when they were
built by different changes or one was built and the other one loaded (`Renumbers`). Everything a walk
finds in the one tree it finds in the other one under the new ids: the ancestors of a node, the
subtree of a node in tree order, and the search for an id. What is looked up from the document on
needs the document to be the document again. -/
namespace TreeQuery.Tree

/-- `place` takes the nodes of the first tree one to one to those of the second one; contents,
parents and lists of children stay the same. -/
structure Renumbers (first second : Tree) (place : NodeId → NodeId) : Prop where
  bijective : Set.BijOn place (Set.Iio first.size) (Set.Iio second.size)
  content : ∀ id < first.size, second.content? (place id) = first.content? id
  parent : ∀ id < first.size, second.parent? (place id) = (first.parent? id).map place
  children : ∀ id < first.size, second.children (place id) = (first.children id).map place

variable {first second : Tree} {place : NodeId → NodeId} {id : NodeId}

namespace Renumbers

theorem size (same : first.Renumbers second place) : first.size = second.size := by
  have ranges : Set.BijOn place (Finset.range first.size) (Finset.range second.size) := by
    simpa using same.bijective
  simpa using ranges.finsetCard_eq

theorem inside (same : first.Renumbers second place) (inside : id < first.size) :
    place id < second.size :=
  same.bijective.mapsTo inside

theorem element? (same : first.Renumbers second place) (inside : id < first.size) :
    second.element? (place id) = first.element? id := by
  rw [Tree.element?,same.content id inside,Tree.element?]

theorem ancestorsWithin (same : first.Renumbers second place) (formed : first.WellFormed)
    (bound : Nat) (inside : id < first.size) :
    second.ancestorsWithin bound (place id) = (first.ancestorsWithin bound id).map place := by
  induction bound generalizing id with
  | zero => rfl
  | succ bound ih =>
    rw [Tree.ancestorsWithin,Tree.ancestorsWithin,same.parent id inside]
    cases found : first.parent? id with
    | none => rfl
    | some parent => simp [ih (formed.parentInside found)]

theorem ancestors (same : first.Renumbers second place) (formed : first.WellFormed)
    (inside : id < first.size) : second.ancestors (place id) = (first.ancestors id).map place := by
  rw [Tree.ancestors,← same.size,same.ancestorsWithin formed first.size inside,Tree.ancestors]

theorem preorderWithin (same : first.Renumbers second place) (formed : first.WellFormed)
    (bound : Nat) (inside : id < first.size) :
    second.preorderWithin bound (place id) = (first.preorderWithin bound id).map place := by
  induction bound generalizing id with
  | zero => rfl
  | succ bound ih =>
    have below : (first.children id).flatMap (fun child => second.preorderWithin bound (place child)) =
        (first.children id).flatMap (fun child => (first.preorderWithin bound child).map place) :=
      List.flatMap_congr fun child member => ih (formed.childInside member)
    rw [Tree.preorderWithin,if_pos (same.inside inside),same.children id inside,
      List.flatMap_map,below,Tree.preorderWithin,if_pos inside,List.map_cons,List.map_flatMap]

theorem preorder (same : first.Renumbers second place) (formed : first.WellFormed)
    (inside : id < first.size) : second.preorder (place id) = (first.preorder id).map place := by
  rw [Tree.preorder,← same.size,same.preorderWithin formed first.size inside,Tree.preorder]

/-- The search takes the same nodes from its stack in both trees. -/
theorem searchWithin (same : first.Renumbers second place) (formed : first.WellFormed)
    (name : String) (bound : Nat) {waiting : List NodeId} (inside : ∀ id ∈ waiting, id < first.size) :
    second.searchWithin name bound (waiting.map place) =
      (first.searchWithin name bound waiting).map place := by
  induction bound generalizing waiting with
  | zero => rfl
  | succ bound ih =>
    cases waiting with
    | nil => rfl
    | cons current waiting =>
      obtain ⟨here,others⟩ := List.forall_mem_cons.mp inside
      have next : ∀ id ∈ first.children current ++ waiting, id < first.size := fun id member =>
        (List.mem_append.mp member).elim formed.childInside (others id)
      rw [List.map_cons,Tree.searchWithin,Tree.searchWithin,same.element? here,
        same.children current here,← List.map_append,ih next]
      split <;> rfl

theorem elementById? (same : first.Renumbers second place) (formed : first.WellFormed)
    (rooted : place root = root) (name : String) :
    second.elementById? name = (first.elementById? name).map place := by
  have start : ∀ id ∈ [root], id < first.size := List.forall_mem_singleton.mpr formed.root_inside
  have search := same.searchWithin formed name first.size start
  rw [List.map_singleton,rooted] at search
  rw [Tree.elementById?,← same.size,search,Tree.elementById?]

theorem find?_children (same : first.Renumbers second place) (formed : first.WellFormed)
    (inside : id < first.size) (wanted : Option Element → Bool) :
    (second.children (place id)).find? (fun child => wanted (second.element? child)) =
      ((first.children id).find? fun child => wanted (first.element? child)).map place := by
  rw [same.children id inside,List.find?_map]
  congr 1
  apply List.find?_congr
  intro child member
  rw [Function.comp_apply,same.element? (formed.childInside member)]

theorem documentElement? (same : first.Renumbers second place) (formed : first.WellFormed)
    (rooted : place root = root) :
    second.documentElement? = first.documentElement?.map place := by
  have found := same.find?_children formed formed.root_inside Option.isSome
  rwa [rooted] at found

theorem body? (same : first.Renumbers second place) (formed : first.WellFormed)
    (rooted : place root = root) : second.body? = first.body?.map place := by
  unfold Tree.body?
  rw [same.documentElement? formed rooted]
  cases found : first.documentElement? with
  | none => rfl
  | some top =>
    have inside : top < first.size := formed.childInside (List.mem_of_find?_eq_some found)
    simp only [Option.map_some,Option.bind_eq_bind,Option.bind_some]
    exact same.find?_children formed inside (Option.any fun element => isBodyTag element.tag)

theorem defaultRoot (same : first.Renumbers second place) (formed : first.WellFormed)
    (rooted : place root = root) : second.defaultRoot = place first.defaultRoot := by
  have found : second.body?.or second.documentElement? =
      (first.body?.or first.documentElement?).map place := by
    rw [same.body? formed rooted,same.documentElement? formed rooted,Option.map_or]
  rw [Tree.defaultRoot,found,Tree.defaultRoot]
  cases first.body?.or first.documentElement? with
  | none => exact rooted.symm
  | some id => rfl

end Renumbers
end TreeQuery.Tree
