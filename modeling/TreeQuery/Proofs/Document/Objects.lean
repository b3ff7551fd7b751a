import TreeQuery.Proofs.Document.Numbering

/-! What becomes of the objects of a document. The values of the document stand in the tree in the
places of the nodes that they describe (`Becomes`). An object becomes an element with everything that
it describes if its tag, attributes and children are all well-formed, down to the innermost of the
children; otherwise it becomes a text or a comment with nothing below it, whatever tag it has
(`parse_objects`, `parse_tagged_text`). -/
namespace TreeQuery
open Json Outline

/-- The values that stand for the nodes of a document. -/
def Json.Value.top : Value → List Value
  | .array items => items
  | value => [value]

namespace Tree

/-- A value of the document stands where the node stands: at the same place in the list of nodes, or
in the children of an object that becomes the parent of the node. -/
inductive Becomes (tree : Tree) (document : Value) : Value → NodeId → Prop
  | top {value : Value} {id : NodeId} (pair : (value,id) ∈ document.top.zip (tree.children root)) :
      Becomes tree document value id
  | child {members : List (String × Value)} {items : List Value} {value : Value} {id upper : NodeId}
      (above : Becomes tree document (.object members) upper)
      (only : valuesOf "children" members = [.array items])
      (pair : (value,id) ∈ items.zip (tree.children upper)) : Becomes tree document value id

/-- The node is an element with the tag, the attributes and all of the children that the members
describe. -/
def Carries (tree : Tree) (id : NodeId) (members : List (String × Value)) : Prop :=
  ∃ tag attributes nodes, ReadsElement Describes members tag attributes nodes ∧
    tree.content? id = some (.element ⟨tag,attributes⟩) ∧
    List.Forall₂ tree.Shows (tree.children id) nodes

/-- The node is the text or, if there is none, the comment among the members, without children. -/
def Falls (tree : Tree) (id : NodeId) (members : List (String × Value)) : Prop :=
  tree.children id = [] ∧ ∃ words,
    (valuesOf "text" members = [.string words] ∧ tree.content? id = some (.text words) ∨
      (∀ others, valuesOf "text" members ≠ [.string others]) ∧
        valuesOf "comment" members = [.string words] ∧ tree.content? id = some (.comment words))

theorem forall₂_common {α β γ : Type} {first : α → γ → Prop} {second : β → γ → Prop} {left : List α}
    {right : List β} {common : List γ} (one : List.Forall₂ first left common)
    (other : List.Forall₂ second right common) :
    List.Forall₂ (fun a b => ∃ c, first a c ∧ second b c) left right := by
  induction one generalizing right with
  | nil =>
    cases other
    exact .nil
  | cons here _ ih =>
    cases other with
    | cons there others => exact .cons ⟨_,here,there⟩ (ih others)

theorem exists_mem_zip {α β : Type} {left : List α} {right : List β} {b : β}
    (lengths : left.length = right.length) (member : b ∈ right) : ∃ a, (a,b) ∈ left.zip right := by
  rw [← List.map_snd_zip (Nat.le_of_eq lengths.symm)] at member
  obtain ⟨⟨a,_⟩,pair,rfl⟩ := List.mem_map.mp member
  exact ⟨a,pair⟩

variable {tree : Tree} {document value : Value} {id upper : NodeId} {nodes : List Outline}
  {members : List (String × Value)} {items : List Value}

theorem describes_top (described : DescribesDocument document nodes) :
    List.Forall₂ Describes document.top nodes := by
  rcases described with ⟨items,rfl,all⟩ | ⟨node,rfl,described⟩
  · exact all
  · obtain ⟨members,rfl,_⟩ := describes_iff.mp described
    exact .cons described .nil

/-- The node of an object shows what the object describes. -/
theorem carries_or_falls {node : Outline} (described : Describes (.object members) node)
    (shown : tree.Shows id node) :
    tree.Carries id members ∨ ¬ IsElement Describes members ∧ tree.Falls id members := by
  obtain ⟨_,⟨⟩,read⟩ := describes_iff.mp described
  obtain ⟨content,below⟩ := shown
  cases read with
  | element read => exact .inl ⟨_,_,_,read,content,below⟩
  | text noElement only =>
    exact .inr ⟨noElement,List.forall₂_nil_right_iff.mp below,_,.inl ⟨only,content⟩⟩
  | comment noElement noText only =>
    exact .inr ⟨noElement,List.forall₂_nil_right_iff.mp below,_,.inr ⟨noText,only,content⟩⟩

/-- Only the children of an element are nodes, and each of them is what the value at its place
describes. -/
theorem Carries.children (carries : tree.Carries upper members)
    (only : valuesOf "children" members = [.array items]) :
    List.Forall₂ (fun value id => ∃ node, Describes value node ∧ tree.Shows id node) items
      (tree.children upper) := by
  obtain ⟨_,_,nodes,read,_,below⟩ := carries
  rcases read.children with ⟨none,_⟩ | ⟨_,same,all⟩
  · simp [none] at only
  · rw [only] at same
    cases same
    exact forall₂_common all below

theorem Becomes.describes (held : tree.Holds nodes) (described : DescribesDocument document nodes)
    (becomes : tree.Becomes document value id) :
    ∃ node, Describes value node ∧ tree.Shows id node := by
  induction becomes with
  | top pair => exact List.forall₂_zip (forall₂_common (describes_top described) held.shown) pair
  | child _ only pair ih =>
    obtain ⟨node,described,shown⟩ := ih
    rcases carries_or_falls described shown with carries | ⟨_,leaf,_⟩
    · exact List.forall₂_zip (carries.children only) pair
    · simp [leaf] at pair

/-- The children of a node are what the values in its object become. -/
theorem Becomes.exists_child (held : tree.Holds nodes) (described : DescribesDocument document nodes)
    (becomes : tree.Becomes document value upper) (child : id ∈ tree.children upper) :
    ∃ value, tree.Becomes document value id := by
  obtain ⟨node,described,shown⟩ := becomes.describes held described
  obtain ⟨members,rfl,_⟩ := describes_iff.mp described
  rcases carries_or_falls described shown with carries | ⟨_,leaf,_⟩
  · have ⟨_,_,_,read,_,below⟩ := carries
    rcases read.children with ⟨_,rfl⟩ | ⟨items,only,_⟩
    · simp [List.forall₂_nil_right_iff.mp below] at child
    · obtain ⟨value,pair⟩ := exists_mem_zip (carries.children only).length_eq child
      exact ⟨value,.child becomes only pair⟩
  · simp [leaf] at child

/-- Every node but the document is what a value becomes. -/
theorem exists_becomes (held : tree.Holds nodes) (described : DescribesDocument document nodes)
    (within : tree.Within id root) (apart : id ≠ root) :
    ∃ value, tree.Becomes document value id := by
  induction within using Relation.ReflTransGen.head_induction_on with
  | refl => contradiction
  | @head lower upper link _ ih =>
    have child : lower ∈ tree.children upper := held.formed.listed.mpr link
    by_cases top : upper = root
    · subst top
      have lengths := (forall₂_common (describes_top described) held.shown).length_eq
      obtain ⟨value,pair⟩ := exists_mem_zip lengths child
      exact ⟨value,.top pair⟩
    · obtain ⟨value,becomes⟩ := ih top
      exact becomes.exists_child held described child

end Tree

namespace Document

/-- In a document that was read, every node but the first is what an object becomes. Each such object
is an element with everything it describes exactly if it can be read as an element, and a text or a
comment without children if it cannot; so one that has neither a text nor a comment is an element. -/
theorem parse_objects {text : String} {tree : Tree} (loaded : parse text = .ok tree) :
    ∃ document, Writes document text.toList ∧
      (∀ id, 0 < id → id < tree.size → ∃ members, tree.Becomes document (.object members) id) ∧
      ∀ members id, tree.Becomes document (.object members) id →
        (tree.Carries id members ↔ IsElement Describes members) ∧
          (¬ IsElement Describes members → tree.Falls id members) ∧
          ((∀ words, valuesOf "text" members ≠ [.string words]) →
            (∀ words, valuesOf "comment" members ≠ [.string words]) → tree.Carries id members) := by
  obtain ⟨nodes,read,rfl⟩ := parse_eq_ok_iff.mp loaded
  obtain ⟨document,written,_,described⟩ := outlines_eq_ok_iff.mp read
  have held := Tree.ofOutlines_holds nodes
  have numbered := Tree.ofOutlines_numbered nodes
  refine ⟨document,written,fun id positive inside => ?_,fun members id becomes => ?_⟩
  · obtain ⟨value,becomes⟩ := Tree.exists_becomes held described (numbered.attached inside)
      (Nat.ne_of_gt positive)
    obtain ⟨_,describes,_⟩ := becomes.describes held described
    obtain ⟨members,rfl,_⟩ := describes_iff.mp describes
    exact ⟨members,becomes⟩
  · obtain ⟨node,describes,shown⟩ := becomes.describes held described
    have element : (Tree.ofOutlines nodes).Carries id members → IsElement Describes members :=
      fun ⟨tag,attributes,nodes,read,_⟩ => ⟨tag,attributes,nodes,read⟩
    rcases Tree.carries_or_falls describes shown with carries | ⟨noElement,falls⟩
    · exact ⟨iff_of_true carries (element carries),fun noElement => absurd (element carries) noElement,
        fun _ _ => carries⟩
    · refine ⟨iff_of_false (noElement ∘ element) noElement,fun _ => falls,fun noText noComment => ?_⟩
      obtain ⟨_,words,⟨only,_⟩ | ⟨_,only,_⟩⟩ := falls
      · exact absurd only (noText words)
      · exact absurd only (noComment words)

/-- A text beside a well-formed element does not count, and inside it stands the text node. -/
theorem parse_objects_ignored_text :
    let inner : List (String × Value) := [("text",.string "x")]
    let members : List (String × Value) :=
      [("text",.string "t"),("tag",.string "p"),("children",.array [.object inner])]
    let document : Value := .array [.object members]
    let text := String.ofList (document.pretty 0)
    let tree := Tree.ofOutlines [.element "p" .empty [.text "x"]]
    parse text = .ok tree ∧ tree.Becomes document (.object members) 1 ∧
      tree.Becomes document (.object inner) 2 ∧ tree.Carries 1 members ∧ tree.Falls 2 inner := by
  intro inner members document text tree
  have written : Writes document text.toList := by
    have spellable : document.Spellable := by
      simp [document,members,inner,Value.Spellable,SpellableItems,SpellableMembers]
    simpa [text] using spellable.writes 0
  have fits : document.nesting ≤ nestingLimit := by decide
  have loaded : parse text = .ok tree :=
    parse_of_describes written fits (ofDocument?_eq_some_iff.mp rfl)
  obtain ⟨_,written',_,objects⟩ := parse_objects loaded
  obtain rfl := (written.unique fits).mp written'
  have outer : tree.Becomes document (.object members) 1 := by
    refine .top ?_
    rw [show tree.children Tree.root = [1] by decide]
    exact .head _
  have nested : tree.Becomes document (.object inner) 2 := by
    refine .child outer rfl ?_
    rw [show tree.children 1 = [2] by decide]
    exact .head _
  have element : IsElement Describes members := by
    rw [describes_eq]
    exact ⟨"p",.empty,[.text "x"],rfl,.inl ⟨rfl,rfl⟩,.inr ⟨_,rfl,.cons rfl .nil⟩⟩
  exact ⟨loaded,outer,nested,(objects _ _ outer).1.mpr element,
    (objects _ _ nested).2.1 (not_isElement rfl)⟩

/-- A tag is not enough: here the second child is no node, and the object with its well-formed tag and
first child is loaded as the text in it. -/
theorem parse_tagged_text :
    let first : Value := .object [("tag",.string "p")]
    let members : List (String × Value) := [("tag",.string "div"),
      ("children",.array [first,.object [("id",.string "x")]]),("text",.string "t")]
    let text := String.ofList ((Value.object members).pretty 0)
    Writes (.object members) text.toList ∧ ∃ tree, parse text = .ok tree ∧
      tree.Becomes (.object members) (.object members) 1 ∧
      valuesOf "tag" members = [.string "div"] ∧ Describes first (.element "p" .empty []) ∧
      tree.content? 1 = some (.text "t") ∧ tree.children 1 = [] ∧ ¬ tree.Carries 1 members := by
  intro first members text
  have written : Writes (.object members) text.toList := by
    have spellable : (Value.object members).Spellable := by
      simp [members,first,Value.Spellable,SpellableItems,SpellableMembers]
    simpa [text] using spellable.writes 0
  have loaded : parse text = .ok (Tree.ofOutlines [.text "t"]) :=
    parse_of_describes written (by decide) (ofDocument?_eq_some_iff.mp rfl)
  have content : (Tree.ofOutlines [.text "t"]).content? 1 = some (.text "t") := by decide
  refine ⟨written,_,loaded,.top ?_,rfl,(ofValue?_eq_some_iff _ _).mp rfl,content,by decide,?_⟩
  · rw [show (Tree.ofOutlines [.text "t"]).children Tree.root = [1] by decide]
    exact .head _
  · rintro ⟨_,_,_,_,element,_⟩
    simp [content] at element

end Document
end TreeQuery
