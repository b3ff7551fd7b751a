import TreeQuery.Proofs.Selector.Collect
import TreeQuery.Proofs.Selector.NormalForm

/-! How answers are put together. The answer to a relative selector is the answer to its right
side, thinned out to the nodes whose parent, or one of whose ancestors, the left side accepts; the
answer to a compound is the common part of two answers. A matcher shows this at once; for the texts
of selectors it needs that a combinator between two parts without spaces is the one that is cut at,
whatever marks the parts begin with or contain. -/
namespace TreeQuery.Selector

/-- The node has a parent, and the matcher accepts it. -/
def Matcher.AcceptsParent (matcher : Matcher) (tree : Tree) (node : NodeId) : Prop :=
  ∃ upper, tree.parent? node = some upper ∧ matcher.accepts tree upper = true

/-- The matcher accepts a node above the given one, however far up. -/
def Matcher.AcceptsAbove (matcher : Matcher) (tree : Tree) (node : NodeId) : Prop :=
  ∃ upper, tree.isDescendant node upper = true ∧ matcher.accepts tree upper = true

variable {tree : Tree} {matcher above below : Matcher} {node root : NodeId} {selector : String}

theorem Matcher.acceptsParent_iff :
    (tree.parent? node).any (matcher.accepts tree) = true ↔ matcher.AcceptsParent tree node :=
  Option.any_eq_true _ _

theorem Matcher.acceptsAbove_iff :
    (tree.ancestors node).any (matcher.accepts tree) = true ↔ matcher.AcceptsAbove tree node := by
  simp only [Matcher.AcceptsAbove,Tree.isDescendant,List.contains_iff_mem,List.any_eq_true]

instance : Decidable (matcher.AcceptsParent tree node) := decidable_of_iff _ Matcher.acceptsParent_iff

instance : Decidable (matcher.AcceptsAbove tree node) := decidable_of_iff _ Matcher.acceptsAbove_iff

theorem Matcher.AcceptsParent.acceptsAbove (parent : matcher.AcceptsParent tree node) :
    matcher.AcceptsAbove tree node := by
  obtain ⟨upper,link,accepted⟩ := parent
  have above : upper ∈ tree.ancestors node := Tree.Link.mem_ancestors link
  exact ⟨upper,by rwa [Tree.isDescendant,List.contains_iff_mem],accepted⟩

theorem collect_child (tree : Tree) (above below : Matcher) (root : NodeId) :
    collect tree (.relative .child above below) root =
      (collect tree below root).filter fun node => above.AcceptsParent tree node := by
  rw [collect,collect,List.filter_filter]
  apply List.filter_congr
  intro node _
  simp only [Matcher.accepts,Bool.and_comm,← Matcher.acceptsParent_iff,Bool.decide_eq_true]

theorem collect_descendant (tree : Tree) (above below : Matcher) (root : NodeId) :
    collect tree (.relative .descendant above below) root =
      (collect tree below root).filter fun node => above.AcceptsAbove tree node := by
  rw [collect,collect,List.filter_filter]
  apply List.filter_congr
  intro node _
  simp only [Matcher.accepts,Bool.and_comm,← Matcher.acceptsAbove_iff,Bool.decide_eq_true]

theorem collect_child_sublist (tree : Tree) (above below : Matcher) (root : NodeId) :
    (collect tree (.relative .child above below) root).Sublist
      (collect tree (.relative .descendant above below) root) := by
  rw [collect_child,collect_descendant]
  apply List.monotone_filter_right
  intro node parent
  exact decide_eq_true (of_decide_eq_true parent).acceptsAbove

theorem collect_both (tree : Tree) (left right : Matcher) (root : NodeId) :
    collect tree (.both left right) root =
      (collect tree left root).filter fun node => node ∈ collect tree right root := by
  have common : (collect tree left root).filter (fun node => node ∈ collect tree right root) =
      (collect tree left root).filter (right.accepts tree) := by
    apply List.filter_congr
    intro node member
    have listed : node ∈ tree.preorder root := List.mem_of_mem_filter member
    simp [collect,listed]
  rw [common,collect,collect,List.filter_filter]
  apply List.filter_congr
  intro node _
  simp only [Matcher.accepts,Bool.and_comm]

def Accepted (selector : String) : Prop := ∃ matcher, compile? selector = .ok matcher

theorem compile_of_accepted (before : Warnings) (compiled : compile? selector = .ok matcher) :
    (compile before selector).value = matcher := by
  rw [compile_of_ok compiled]

theorem query_of_accepted (before : Warnings) (compiled : compile? selector = .ok matcher)
    (tree : Tree) (root : NodeId) :
    (query before tree selector root).value = collect tree matcher root := by
  rw [← compile_of_accepted before compiled]
  rfl

theorem Accepted.simple (accepted : Accepted selector) (noSpace : ' ' ∉ selector.toList) :
    ∃ matcher, Simple selector matcher := by
  obtain ⟨matcher,compiled⟩ := accepted
  cases reads_of_compile? compiled with
  | simple part => exact ⟨matcher,part⟩
  | child | descendant => simp at noSpace

/-- Queries compose from the texts of their selectors, whatever was warned of before. -/
theorem query_composition (tree : Tree) (root : NodeId) (first second third : Warnings) :
    (∀ a b, ' ' ∉ a.toList → ' ' ∉ b.toList → Accepted a → Accepted b →
      (query first tree (a ++ " > " ++ b) root).value =
          ((query second tree b root).value.filter fun node =>
            (compile third a).value.AcceptsParent tree node) ∧
        (query first tree (a ++ " " ++ b) root).value =
          ((query second tree b root).value.filter fun node =>
            (compile third a).value.AcceptsAbove tree node) ∧
        (query first tree (a ++ " > " ++ b) root).value.Sublist
          (query second tree (a ++ " " ++ b) root).value) ∧
      ∀ tag className : String, IsTag tag.toList → IsClass className.toList →
        (query first tree (tag ++ "." ++ className) root).value =
          (query second tree tag root).value.filter fun node =>
            node ∈ (query third tree ("." ++ className) root).value := by
  constructor
  · intro a b aNoSpace bNoSpace aAccepted bAccepted
    obtain ⟨above,left⟩ := aAccepted.simple aNoSpace
    obtain ⟨below,right⟩ := bAccepted.simple bNoSpace
    have leftAlone := (Reads.simple left).compile?
    have rightAlone := (Reads.simple right).compile?
    have child := (Reads.child left right).compile?
    have descendant := (Reads.descendant left right).compile?
    rw [query_of_accepted first child,query_of_accepted first descendant,
      query_of_accepted second descendant,query_of_accepted second rightAlone,
      compile_of_accepted third leftAlone]
    exact ⟨collect_child tree above below root,collect_descendant tree above below root,
      collect_child_sublist tree above below root⟩
  · intro tag className front back
    have tagAlone := (Reads.simple (.tag front)).compile?
    have classAlone := (Reads.simple (.className back)).compile?
    have compound := (Reads.simple (.compound front back)).compile?
    rw [query_of_accepted first compound,query_of_accepted second tagAlone,
      query_of_accepted third classAlone]
    exact collect_both tree _ _ root

/-- A name with a dot in it above, and a class that reads like a combinator below. -/
theorem query_composition_marks :
    let attributes (name value : String) : Attributes := Attributes.empty.insert name value
    let tree := Tree.empty.run [.appendElement 0 ⟨"a",attributes "id" "m.x"⟩,
      .appendElement 1 ⟨"b",attributes "class" ">"⟩,.appendElement 2 ⟨"B",attributes "class" "> >"⟩,
      .appendElement 2 ⟨"b",attributes "class" "x>"⟩]
    (query {} tree "b.>" 0).value = [2,3] ∧ (query {} tree "#m.x > b.>" 0).value = [2] ∧
      (query {} tree "#m.x b.>" 0).value = [2,3] := by
  intro attributes tree
  obtain ⟨relative,compound⟩ := query_composition tree 0 {} {} {}
  have both := compound "b" ">" ⟨⟨⟨by decide,by decide⟩,by decide⟩,by decide⟩
    ⟨⟨by decide,by decide⟩,by decide⟩
  obtain ⟨child,descendant,_⟩ := relative "#m.x" "b.>" (by decide) (by decide)
    ⟨.id "m.x",by decide +kernel⟩ ⟨.both (.tag "B") (.className ">"),by decide +kernel⟩
  have right : (query {} tree "b.>" 0).value = [2,3] := both.trans (by decide +kernel)
  rw [right] at child descendant
  exact ⟨right,child.trans (by decide +kernel),descendant.trans (by decide +kernel)⟩

end TreeQuery.Selector
