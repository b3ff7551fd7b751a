import TreeQuery.Proofs.Selector.Evaluation
import TreeQuery.Proofs.Selector.Restriction
import TreeQuery.Proofs.Tree.Renumbering

/-! Answers on trees of the same shape. A matcher reads contents and links only, so it decides about a
node as it decides about the renumbered node in another tree (`Matcher.accepts_renumbered`); the
answer to a query is then the same list under the new ids (`answers_renumbered`). Neither the size of
an id nor the way a tree was built makes a difference. -/
namespace TreeQuery.Selector

variable {first second : Tree} {place : NodeId → NodeId} {matcher : Matcher} {id : NodeId}

theorem mirrors_of_renumbers (same : first.Renumbers second place) (formed : first.WellFormed) :
    first.Mirrors second (fun id => id < first.size) place where
  content := same.content
  parent := same.parent
  ancestors _ inside := same.ancestors formed inside
  upward _ _ _ member := formed.below_inside (formed.mem_ancestors.mp member)

theorem Matcher.accepts_renumbered (same : first.Renumbers second place)
    (formed : first.WellFormed) (inside : id < first.size) :
    matcher.accepts second (place id) = matcher.accepts first id :=
  matcher.accepts_mirrored (mirrors_of_renumbers same formed) inside

theorem collect_renumbered (same : first.Renumbers second place) (formed : first.WellFormed)
    (matcher : Matcher) (inside : id < first.size) :
    collect second matcher (place id) = (collect first matcher id).map place := by
  rw [collect,same.preorder formed inside,List.filter_map,collect]
  congr 1
  apply List.filter_congr
  intro node member
  have nodeInside : node < first.size := (formed.mem_preorder.mp member).2.inside inside
  exact matcher.accepts_renumbered same formed nodeInside

theorem queryDocument_renumbered (same : first.Renumbers second place) (formed : first.WellFormed)
    (rooted : place Tree.root = Tree.root) (before : Warnings) (selector : String) :
    queryDocument before second selector =
      (queryDocument before first selector).map (List.map place) := by
  have inside : first.defaultRoot < first.size :=
    formed.defaultRoot_within.inside formed.root_inside
  simp only [queryDocument,query,Warned.map,same.defaultRoot formed rooted,
    collect_renumbered same formed _ inside]

/-- On two trees that hold the same nodes under different ids, matchers accept the same nodes and
queries list the same nodes. If the document keeps its id, the landmarks of the trees, the search for
an id and the queries that start at a landmark agree too. -/
theorem answers_renumbered (reachable : first.Reachable) (same : first.Renumbers second place) :
    (∀ matcher : Matcher, ∀ id < first.size,
        matcher.accepts second (place id) = matcher.accepts first id ∧
          collect second matcher (place id) = (collect first matcher id).map place) ∧
      (place Tree.root = Tree.root →
        second.documentElement? = first.documentElement?.map place ∧
          second.body? = first.body?.map place ∧
          (∀ name, second.elementById? name = (first.elementById? name).map place) ∧
          second.defaultRoot = place first.defaultRoot ∧
          ∀ before selector, queryDocument before second selector =
            (queryDocument before first selector).map (List.map place)) := by
  have formed := reachable.wellFormed
  refine ⟨fun matcher id inside => ⟨?_,?_⟩,fun rooted => ⟨?_,?_,?_,?_,?_⟩⟩
  · exact matcher.accepts_renumbered same formed inside
  · exact collect_renumbered same formed matcher inside
  · exact same.documentElement? formed rooted
  · exact same.body? formed rooted
  · exact same.elementById? formed rooted
  · exact same.defaultRoot formed rooted
  · exact queryDocument_renumbered same formed rooted

/-- A document that was loaded, and the same one put together in another order with a move. -/
theorem answers_renumbered_moved :
    let text := "\x7b\"tag\":\"html\",\"children\":[\x7b\"tag\":\"body\",\"children\":[" ++
      "\x7b\"tag\":\"p\",\"attrs\":\x7b\"id\":\"x\"\x7d\x7d,\x7b\"text\":\"t\"\x7d]\x7d]\x7d"
    let second := Tree.empty.run [.alloc (.text "t"),.appendElement 0 ⟨"p",Attributes.empty.insert "id" "x"⟩,
      .appendElement 0 ⟨"html",{}⟩,.appendElement 3 ⟨"body",{}⟩,.append 4 2,.append 4 1]
    let place : NodeId → NodeId := fun id => [0,3,4,2,1].getD id id
    ∃ first, Document.parse text = .ok first ∧ first.Reachable ∧ first.Renumbers second place ∧
      place Tree.root = Tree.root ∧ 3 < first.size ∧
      collect first (.tag "P") 3 = [3] ∧ collect second (.tag "P") (place 3) = [2] ∧
      second.elementById? "x" = some 2 ∧ second.defaultRoot = 4 ∧
      (queryDocument {} first "body > #x").value = [3] ∧
      queryDocument {} second "body > #x" = ⟨[2],{},none⟩ := by
  intro text second place
  let first : Tree := ⟨#[⟨.document,none,[1]⟩,⟨.element ⟨"html",{}⟩,some 0,[2]⟩,
    ⟨.element ⟨"body",{}⟩,some 1,[3,4]⟩,⟨.element ⟨"p",Attributes.empty.insert "id" "x"⟩,some 2,[]⟩,
    ⟨.text "t",some 2,[]⟩]⟩
  have read : Document.parse text = .ok first := by decide +kernel
  have reachable : first.Reachable := ⟨first,[],.inr ⟨text,read⟩,rfl⟩
  have maps : ∀ id < 5, place id < 5 := by decide
  have apart : ∀ id < 5, ∀ other < 5, place id = place other → id = other := by decide
  have covers : ∀ id < 5, ∃ old < 5, place old = id := by decide
  have same : first.Renumbers second place := {
    bijective := ⟨maps,fun id inside other => apart id inside other,covers⟩
    content := by decide +kernel
    parent := by decide +kernel
    children := by decide +kernel }
  obtain ⟨answers,landmarks⟩ := answers_renumbered reachable same
  obtain ⟨_,_,search,start,queries⟩ := landmarks rfl
  have found : collect first (.tag "P") 3 = [3] := by decide +kernel
  have asked : queryDocument {} first "body > #x" = ⟨[3],{},none⟩ := by decide +kernel
  refine ⟨first,read,reachable,same,rfl,by decide,found,?_,?_,?_,?_,?_⟩
  · rw [(answers (.tag "P") 3 (by decide)).2,found]
    rfl
  · rw [search "x",show first.elementById? "x" = some 3 by decide +kernel]
    rfl
  · rw [start,show first.defaultRoot = 2 by decide +kernel]
    rfl
  · rw [asked]
  · rw [queries {} "body > #x",asked]
    rfl

end TreeQuery.Selector
