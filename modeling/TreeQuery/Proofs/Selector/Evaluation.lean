import TreeQuery.Proofs.Tree.Mirroring
import TreeQuery.Selector.Matcher

/-! What a matcher reads. To decide about a node it looks at the node and at the nodes above it, never
at lists of children, at other branches or at the ids themselves. Two trees that are alike from a node
upwards (`Tree.Mirrors`) are therefore the same for every matcher (`Matcher.accepts_mirrored`), and a
matcher without a relative part only reads the element at hand (`Matcher.accepts_of_element`). -/
namespace TreeQuery.Selector

/-- Whether a matcher has no relative part, at any depth. -/
def Matcher.isFlat : Matcher → Bool
  | .both left right => left.isFlat && right.isFlat
  | .relative .. => false
  | _ => true

variable {first second : Tree} {kept : NodeId → Prop} {place : NodeId → NodeId} {id other : NodeId}
  {matcher : Matcher}

theorem Matcher.accepts_of_element (flat : matcher.isFlat = true)
    (same : second.element? other = first.element? id) :
    matcher.accepts second other = matcher.accepts first id := by
  induction matcher with
  | id name | className name | tag name => simp only [Matcher.accepts,same]
  | both left right ihLeft ihRight =>
    obtain ⟨leftFlat,rightFlat⟩ := Bool.and_eq_true_iff.mp flat
    simp only [Matcher.accepts,ihLeft leftFlat,ihRight rightFlat]
  | relative combinator ancestor subject => contradiction
  | never => rfl

/-- Matchers decide about a node as they do about the node that mirrors it. -/
theorem Matcher.accepts_mirrored (mirrors : first.Mirrors second kept place) (selected : kept id) :
    matcher.accepts second (place id) = matcher.accepts first id := by
  induction matcher generalizing id with
  | id name | className name | tag name =>
    simp only [Matcher.accepts,mirrors.element? selected]
  | both left right ihLeft ihRight =>
    simp only [Matcher.accepts,ihLeft selected,ihRight selected]
  | relative combinator ancestor subject ihAncestor ihSubject =>
    have above := mirrors.upward id selected
    cases combinator with
    | child =>
      have same : (second.parent? (place id)).any (ancestor.accepts second) =
          (first.parent? id).any (ancestor.accepts first) := by
        rw [mirrors.parent id selected]
        cases link : first.parent? id with
        | none => rfl
        | some upper => exact ihAncestor (above upper (Tree.Link.mem_ancestors link))
      simp only [Matcher.accepts,ihSubject selected,same]
    | descendant =>
      have same : (second.ancestors (place id)).any (ancestor.accepts second) =
          (first.ancestors id).any (ancestor.accepts first) := by
        rw [mirrors.ancestors id selected,List.any_map,Bool.eq_iff_iff,List.any_eq_true,
          List.any_eq_true]
        apply exists_congr
        intro upper
        apply and_congr_right
        intro member
        rw [Function.comp_apply,ihAncestor (above upper member)]
      simp only [Matcher.accepts,ihSubject selected,same]
  | never => rfl

end TreeQuery.Selector
