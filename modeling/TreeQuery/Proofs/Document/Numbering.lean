import TreeQuery.Proofs.Document.Description
import TreeQuery.Proofs.Selector.Collect

/-! The numbers of a document that was read. Nodes are numbered as they are described, and this is
tree order: the walk from the document meets 0, 1, 2 and so on, and a subtree is an interval of
numbers (`parse_numbering`). Answers to queries therefore come with increasing numbers. -/
namespace TreeQuery
open Outline

namespace Tree

variable {tree : Tree} {id : Nat} {node : Outline} {nodes : List Outline}

theorem flatMap_places {walk : NodeId → List NodeId} {start : Nat}
    (each : List.Forall₂ (fun id node => walk id = List.range' id node.count)
      (places start nodes) nodes) :
    (places start nodes).flatMap walk = List.range' start (countAll nodes) := by
  induction nodes generalizing start with
  | nil => rfl
  | cons node nodes ih =>
    obtain ⟨first,others⟩ := List.forall₂_cons.mp each
    rw [places,List.flatMap_cons,first,ih others,countAll,List.range'_append_1]

theorem LaidOut.preorder (formed : tree.WellFormed) (laid : tree.LaidOut id node)
    (inside : id + node.count ≤ tree.size) : tree.preorder id = List.range' id node.count := by
  induction node using outline_induction generalizing id with
  | step node ih =>
    obtain ⟨_,children,below⟩ := laid
    have total := node.count_eq
    have branches : (places (id + 1) node.children).flatMap tree.preorder =
        List.range' (id + 1) (countAll node.children) := by
      refine flatMap_places (forall₂_places_imp below fun place child member _ high laid => ?_)
      exact ih child member laid (by omega)
    have here : id < tree.size := by omega
    rw [formed.preorder_unfold,if_pos here,children,branches,total,List.range'_succ]

theorem ofOutlines_preorder (nodes : List Outline) :
    (ofOutlines nodes).preorder root = List.range (ofOutlines nodes).size := by
  obtain ⟨formed,size,children,laid⟩ := ofOutlines_layout nodes
  have branches : (places 1 nodes).flatMap (ofOutlines nodes).preorder =
      List.range' 1 (countAll nodes) :=
    flatMap_places (forall₂_places_imp laid fun _ _ _ _ high laid => laid.preorder formed (by omega))
  rw [formed.preorder_unfold,if_pos formed.root_inside,children,branches,size,List.range_eq_range',
    List.range'_succ]
  rfl

/-- A block of the first numbers is the interval from its first entry on. -/
theorem range'_of_infix {first bound : Nat} {others : List Nat}
    (block : first :: others <:+: List.range bound) :
    first :: others = List.range' first (others.length + 1) := by
  obtain ⟨before,after,whole⟩ := block
  rw [List.range_eq_range',eq_comm,List.range'_eq_append_iff] at whole
  obtain ⟨_,_,front,_⟩ := whole
  obtain ⟨_,_,_,same⟩ := List.range'_eq_append_iff.mp front.symm
  have length := congrArg List.length same
  rw [List.length_cons,List.length_range'] at length
  rw [← length,List.range'_succ,List.cons.injEq] at same
  obtain ⟨rfl,rest⟩ := same
  rw [List.range'_succ,← rest]

/-- Nodes are numbered in tree order. -/
structure Numbered (tree : Tree) : Prop where
  formed : tree.WellFormed
  preorder : tree.preorder root = List.range tree.size

namespace Numbered

variable {upper : Nat}

theorem attached (numbered : tree.Numbered) (inside : id < tree.size) : tree.Within id root := by
  have listed : id ∈ tree.preorder root := by
    rw [numbered.preorder]
    exact List.mem_range.mpr inside
  exact (numbered.formed.mem_preorder.mp listed).2

theorem preorder_range' (numbered : tree.Numbered) (inside : id < tree.size) :
    tree.preorder id = List.range' id (tree.preorder id).length := by
  have block := numbered.formed.preorder_infix numbered.formed.root_inside (numbered.attached inside)
  rw [numbered.preorder] at block
  rw [numbered.formed.preorder_unfold,if_pos inside] at block ⊢
  exact range'_of_infix block

theorem within_iff (numbered : tree.Numbered) (inside : upper < tree.size) :
    tree.Within id upper ↔ upper ≤ id ∧ id < upper + (tree.preorder upper).length := by
  have member : id ∈ tree.preorder upper ↔ upper < tree.size ∧ tree.Within id upper :=
    numbered.formed.mem_preorder
  rw [numbered.preorder_range' inside,List.mem_range'_1] at member
  rw [member]
  exact ⟨fun within => ⟨inside,within⟩,And.right⟩

theorem collect_increasing (numbered : tree.Numbered) (matcher : Selector.Matcher) (id : NodeId) :
    (Selector.collect tree matcher id).Pairwise (· < ·) := by
  apply List.Pairwise.filter
  by_cases inside : id < tree.size
  · rw [numbered.preorder_range' inside]
    exact List.pairwise_lt_range' 1
  · rw [numbered.formed.preorder_unfold,if_neg inside]
    exact .nil

end Numbered

theorem ofOutlines_numbered (nodes : List Outline) : (ofOutlines nodes).Numbered :=
  ⟨(ofOutlines_layout nodes).1,ofOutlines_preorder nodes⟩

end Tree

namespace Document

/-- A document that was read has one node more than it describes, all of them below the document
node and numbered in tree order, so that the numbers in every answer increase. -/
theorem parse_numbering {text : String} {tree : Tree} (loaded : parse text = .ok tree) :
    (∃ value nodes, Json.Writes value text.toList ∧ DescribesDocument value nodes ∧
        List.Forall₂ tree.Shows (tree.children Tree.root) nodes ∧ tree.size = countAll nodes + 1) ∧
      (∀ id < tree.size, tree.Within id Tree.root) ∧
      tree.preorder Tree.root = List.range tree.size ∧
      (∀ upper < tree.size, ∀ id : Nat, tree.Within id upper ↔
        upper ≤ id ∧ id ≤ upper + (tree.preorder upper).length - 1) ∧
      ∀ before selector root,
        (Selector.query before tree selector root).value.Pairwise (· < ·) := by
  obtain ⟨nodes,described,rfl⟩ := parse_eq_ok_iff.mp loaded
  have numbered := Tree.ofOutlines_numbered nodes
  have held := Tree.ofOutlines_holds nodes
  obtain ⟨value,written,_,describes⟩ := outlines_eq_ok_iff.mp described
  refine ⟨⟨value,nodes,written,describes,held.shown,held.size⟩,fun id => numbered.attached,
    numbered.preorder,?_,fun before selector => numbered.collect_increasing _⟩
  intro upper inside id
  have filled : 0 < ((Tree.ofOutlines nodes).preorder upper).length := by
    rw [numbered.formed.preorder_unfold,if_pos inside]
    exact Nat.succ_pos _
  rw [numbered.within_iff inside]
  omega

/-- A text and an element in an element, and another element behind it. -/
theorem parse_numbering_nested :
    let text := "[\x7b\"tag\":\"a\",\"children\":[\x7b\"text\":\"b\"\x7d,\x7b\"tag\":\"b\"\x7d]\x7d,\x7b\"tag\":\"b\"\x7d]"
    let tree : Tree := ⟨#[⟨.document,none,[1,4]⟩,⟨.element ⟨"a",{}⟩,some 0,[2,3]⟩,
      ⟨.text "b",some 1,[]⟩,⟨.element ⟨"b",{}⟩,some 1,[]⟩,⟨.element ⟨"b",{}⟩,some 0,[]⟩]⟩
    parse text = .ok tree ∧ tree.preorder Tree.root = [0,1,2,3,4] ∧
      (∀ id : Nat, tree.Within id 1 ↔ 1 ≤ id ∧ id ≤ 3) ∧
      (Selector.query {} tree "b" Tree.root).value = [3,4] ∧
      (Selector.query {} tree "b" Tree.root).value.Pairwise (· < ·) := by
  intro text tree
  have loaded : parse text = .ok tree := by decide +kernel
  obtain ⟨_,_,order,interval,increasing⟩ := parse_numbering loaded
  exact ⟨loaded,order,interval 1 (by decide),by decide +kernel,increasing {} "b" Tree.root⟩

end Document
end TreeQuery
