import TreeQuery.Proofs.Document.Description

/-! Changes to a document that do not change what is read from it. The members of every object may be
reordered, and an object that stands where a node is wanted may get further members under names that
no node has (`Edited`). What is read of a value where it stands stays the same, from the innermost
values outwards (`Edited.readsAlike`), and so the tree that is loaded stays the same in whatever way
both values are written (`parse_edited`). -/
namespace TreeQuery
open Json

namespace Json

mutual

/-- No object in the value has two members of one name. -/
def Value.Distinct : Value → Prop
  | .array items => DistinctItems items
  | .object members => (members.map (·.1)).Nodup ∧ DistinctMembers members
  | _ => True

def DistinctItems : List Value → Prop
  | [] => True
  | value :: values => value.Distinct ∧ DistinctItems values

def DistinctMembers : List (String × Value) → Prop
  | [] => True
  | (_,value) :: members => value.Distinct ∧ DistinctMembers members

end

theorem valuesOf_length {members : List (String × Value)} (distinct : (members.map (·.1)).Nodup)
    (name : String) : (valuesOf name members).length ≤ 1 := by
  have once := List.nodup_iff_count_le_one.mp distinct name
  rw [List.count_eq_countP,List.countP_map,List.countP_eq_length_filter] at once
  rwa [valuesOf,List.length_map]

end Json

namespace Outline

/-- Where a value stands in a document. -/
inductive Place where
  /-- The whole document, which is a node or an array of nodes. -/
  | document
  | node
  /-- The value of a `children` member. -/
  | nodes
  | other
  deriving Repr,DecidableEq

namespace Place

def item : Place → Place
  | .document | .nodes => .node
  | .node | .other => .other

def member (name : String) : Place → Place
  | .document | .node => if name = "children" then .nodes else .other
  | .nodes | .other => .other

/-- An object at this place is read as a node. -/
def HoldsNode : Place → Prop
  | .document | .node => True
  | .nodes | .other => False

end Place

/-- The names of the members that a node is read from. -/
def nodeNames : List String := ["tag","attrs","children","text","comment"]

mutual

/-- The members of the objects in a value are put in another order, and those that are read as nodes
get members of other names. -/
inductive Edited : Place → Value → Value → Prop
  | same (place : Place) (value : Value) : Edited place value value
  | array {place : Place} {items items' : List Value} (inside : EditedItems place.item items items') :
      Edited place (.array items) (.array items')
  | object {place : Place} {members middle extra members' : List (String × Value)}
      (inside : EditedMembers place members middle)
      (fresh : ∀ member ∈ extra, place.HoldsNode ∧ member.1 ∉ nodeNames)
      (order : members'.Perm (middle ++ extra)) : Edited place (.object members) (.object members')

inductive EditedItems : Place → List Value → List Value → Prop
  | nil {place : Place} : EditedItems place [] []
  | cons {place : Place} {value value' : Value} {items items' : List Value}
      (first : Edited place value value') (others : EditedItems place items items') :
      EditedItems place (value :: items) (value' :: items')

inductive EditedMembers : Place → List (String × Value) → List (String × Value) → Prop
  | nil {place : Place} : EditedMembers place [] []
  | cons {place : Place} {name : String} {value value' : Value}
      {members members' : List (String × Value)} (first : Edited (place.member name) value value')
      (others : EditedMembers place members members') :
      EditedMembers place ((name,value) :: members) ((name,value') :: members')

end

def wordsOf? : Value → Option String
  | .string words => some words
  | _ => none

def attributesReading? : Value → Option Attributes
  | .object members => attributesOf? members
  | _ => none

/-- The same is read of two values where one of the readings is wanted. -/
structure ReadsAlike (place : Place) (value value' : Value) : Prop where
  words : wordsOf? value' = wordsOf? value
  attributes : place = .other → attributesReading? value' = attributesReading? value
  items : place.item = .node → arrayReading? value' = arrayReading? value
  node : place.HoldsNode → ofValue? value' = ofValue? value

/-- Two members of one name of which the same is read. -/
def MembersAlike (place : Place) (member member' : String × Value) : Prop :=
  member.1 = member'.1 ∧ ReadsAlike (place.member member.1) member.2 member'.2

variable {place : Place} {value value' : Value} {items items' : List Value} {name : String}
  {members middle extra members' : List (String × Value)}

theorem ReadsAlike.refl (place : Place) (value : Value) : ReadsAlike place value value :=
  ⟨rfl,fun _ => rfl,fun _ => rfl,fun _ => rfl⟩

theorem ofItems?_alike (alike : List.Forall₂ (ReadsAlike .node) items items') :
    ofItems? items' = ofItems? items := by
  induction alike with
  | nil => rfl
  | cons first others ih => rw [ofItems?,ofItems?,first.node trivial,ih]

theorem readsAlike_array (alike : List.Forall₂ (ReadsAlike place.item) items items') :
    ReadsAlike place (.array items) (.array items') := by
  refine ⟨rfl,fun _ => rfl,fun wanted => ?_,fun _ => rfl⟩
  rw [wanted] at alike
  exact ofItems?_alike alike

theorem map_eq_of_forall₂ {α β γ : Type} {relation : α → β → Prop} {f : α → γ} {g : β → γ}
    {left : List α} {right : List β} (all : List.Forall₂ relation left right)
    (same : ∀ a b, relation a b → g b = f a) : right.map g = left.map f := by
  induction all with
  | nil => rfl
  | cons first _ ih => rw [List.map_cons,List.map_cons,same _ _ first,ih]

theorem map_fst_alike (alike : List.Forall₂ (MembersAlike place) members middle) :
    middle.map (·.1) = members.map (·.1) :=
  map_eq_of_forall₂ alike fun _ _ member => member.1.symm

theorem valuesOf_alike (alike : List.Forall₂ (MembersAlike place) members middle) (name : String) :
    List.Forall₂ (ReadsAlike (place.member name)) (valuesOf name members) (valuesOf name middle) := by
  induction alike with
  | nil => exact .nil
  | @cons member member' members middle first _ ih =>
    obtain ⟨names,values⟩ := first
    by_cases here : member.1 = name
    · have here' : member'.1 = name := names ▸ here
      have both := List.Forall₂.cons (here ▸ values) ih
      simpa [valuesOf,here,here'] using both
    · have apart : member'.1 ≠ name := names ▸ here
      simpa [valuesOf,here,apart] using ih

/-! A node is read from the readings of its members, name by name. -/

/-- The reading of a member that may stand only once; `missing` counts where there is none. -/
def onlyOf {α : Type} (missing : Option α) : List (Option α) → Option α
  | [] => missing
  | [reading] => reading
  | _ => none

theorem stringMember?_eq :
    stringMember? name members = onlyOf none ((valuesOf name members).map wordsOf?) := by
  unfold stringMember?
  match valuesOf name members with
  | [] => rfl
  | [value] => cases value <;> rfl
  | _ :: _ :: _ => simp [onlyOf]

theorem attributesMember?_eq : attributesMember? members =
    onlyOf (some .empty) ((valuesOf "attrs" members).map attributesReading?) := by
  unfold attributesMember?
  match valuesOf "attrs" members with
  | [] => rfl
  | [value] => cases value <;> rfl
  | _ :: _ :: _ => simp [onlyOf]

theorem ofValue?_alike (holds : place.HoldsNode)
    (alike : ∀ name ∈ nodeNames,
      List.Forall₂ (ReadsAlike (place.member name)) (valuesOf name members) (valuesOf name members')) :
    ofValue? (.object members') = ofValue? (.object members) := by
  have words : ∀ name ∈ nodeNames, stringMember? name members' = stringMember? name members := by
    intro name listed
    rw [stringMember?_eq,stringMember?_eq]
    exact congrArg _ (map_eq_of_forall₂ (alike name listed) fun _ _ => ReadsAlike.words)
  have attributes : attributesMember? members' = attributesMember? members := by
    rw [attributesMember?_eq,attributesMember?_eq]
    have holdsOther : place.member "attrs" = .other := by cases place <;> rfl
    exact congrArg _ (map_eq_of_forall₂ (alike "attrs" (by decide))
      fun _ _ alike => alike.attributes holdsOther)
  have children : childReadings members' = childReadings members := by
    rw [childReadings_eq,childReadings_eq]
    have holdsNodes : (place.member "children").item = .node := by
      cases place with
      | document | node => rfl
      | nodes | other => contradiction
    exact map_eq_of_forall₂ (alike "children" (by decide)) fun _ _ alike => alike.items holdsNodes
  have element : elementOf? members' (childReadings members') =
      elementOf? members (childReadings members) := by
    rw [elementOf?,elementOf?,words "tag" (by decide),attributes,children]
  rw [ofValue?,ofValue?,element,words "text" (by decide),words "comment" (by decide)]

/-- New members under other names and another order leave the values of the names of a node alone. -/
theorem valuesOf_edited (distinct : (members.map (·.1)).Nodup)
    (alike : List.Forall₂ (MembersAlike place) members middle)
    (fresh : ∀ member ∈ extra, member.1 ∉ nodeNames) (order : members'.Perm (middle ++ extra))
    (listed : name ∈ nodeNames) : valuesOf name members' = valuesOf name middle := by
  have absent : valuesOf name extra = [] := by
    simp only [valuesOf,List.map_eq_nil_iff,List.filter_eq_nil_iff,beq_iff_eq]
    rintro member inside rfl
    exact fresh member inside listed
  have joined : valuesOf name (middle ++ extra) = valuesOf name middle := by
    rw [valuesOf,List.filter_append,List.map_append]
    exact (congrArg _ absent).trans (List.append_nil _)
  rw [← joined]
  apply valuesOf_of_perm order
  rw [joined]
  exact valuesOf_length (map_fst_alike alike ▸ distinct) name

/-! The attributes of an object do not depend on the order of its members. -/

theorem textPair?_eq (member : String × Value) :
    textPair? member = (wordsOf? member.2).map fun words => (member.1,words) := by
  obtain ⟨_,value⟩ := member
  cases value <;> rfl

theorem mapM_alike (alike : List.Forall₂ (MembersAlike place) members middle) :
    middle.mapM textPair? = members.mapM textPair? := by
  induction alike with
  | nil => rfl
  | cons first _ ih =>
    rw [List.mapM_cons,List.mapM_cons,ih,textPair?_eq,textPair?_eq,first.1,first.2.words]

theorem stringMembers_of_perm {texts : List (String × String)}
    (order : members.Perm (stringMembers texts)) :
    ∃ moved, members = stringMembers moved ∧ moved.Perm texts :=
  (congrFun₂ (List.eq_map_comp_perm _) members texts).mpr order

theorem attributesOf?_of_perm (order : members'.Perm members)
    (distinct : (members.map (·.1)).Nodup) : attributesOf? members' = attributesOf? members := by
  have carry : ∀ {left right : List (String × Value)}, left.Perm right → (right.map (·.1)).Nodup →
      ∀ attributes, attributesOf? right = some attributes → attributesOf? left = some attributes := by
    intro left right order distinct attributes read
    obtain ⟨texts,rfl,gets⟩ := attributesOf?_eq_some_iff.mp read
    obtain ⟨moved,rfl,also⟩ := stringMembers_of_perm order
    rw [stringMembers,List.map_map] at distinct
    have same := Attributes.ofList_eq_ofList also (List.pairwise_map.mp distinct)
    rw [← Attributes.ofList_eq_iff,← same,Attributes.ofList_eq_iff] at gets
    exact attributesOf?_eq_some_iff.mpr ⟨moved,rfl,gets⟩
  have distinct' := (order.map (·.1)).nodup_iff.mpr distinct
  exact Option.ext fun attributes =>
    ⟨carry order.symm distinct' attributes,carry order distinct attributes⟩

theorem readsAlike_object (distinct : (members.map (·.1)).Nodup)
    (alike : List.Forall₂ (MembersAlike place) members middle)
    (fresh : ∀ member ∈ extra, place.HoldsNode ∧ member.1 ∉ nodeNames)
    (order : members'.Perm (middle ++ extra)) :
    ReadsAlike place (.object members) (.object members') := by
  refine ⟨rfl,?_,fun _ => rfl,fun holds => ofValue?_alike holds fun name listed => ?_⟩
  · -- Attributes stand where no node is wanted, and nothing was added there.
    rintro rfl
    have none : extra = [] := List.eq_nil_iff_forall_not_mem.mpr fun member inside =>
      (fresh member inside).1
    rw [none,List.append_nil] at order
    have distinct' := map_fst_alike alike ▸ distinct
    rw [attributesReading?,attributesReading?,attributesOf?_of_perm order distinct',
      attributesOf?_eq,attributesOf?_eq,mapM_alike alike]
  · rw [valuesOf_edited distinct alike (fun member inside => (fresh member inside).2) order listed]
    exact valuesOf_alike alike name

mutual

/-- What is read of a value where it stands does not change when it is edited. -/
theorem Edited.readsAlike {place : Place} {value value' : Value} :
    Edited place value value' → value.Distinct → ReadsAlike place value value'
  | .same place value, _ => .refl place value
  | .array inside, distinct => readsAlike_array (inside.readsAlike distinct)
  | .object inside fresh order, distinct =>
    readsAlike_object distinct.1 (inside.readsAlike distinct.2) fresh order

theorem EditedItems.readsAlike {place : Place} {items items' : List Value} :
    EditedItems place items items' → DistinctItems items →
      List.Forall₂ (ReadsAlike place) items items'
  | .nil, _ => .nil
  | .cons first others, distinct =>
    .cons (first.readsAlike distinct.1) (others.readsAlike distinct.2)

theorem EditedMembers.readsAlike {place : Place} {members middle : List (String × Value)} :
    EditedMembers place members middle → DistinctMembers members →
      List.Forall₂ (MembersAlike place) members middle
  | .nil, _ => .nil
  | .cons first others, distinct =>
    .cons ⟨rfl,first.readsAlike distinct.1⟩ (others.readsAlike distinct.2)

end

theorem ofDocument?_eq :
    ofDocument? value = (arrayReading? value).or ((ofValue? value).map fun node => [node]) := by
  cases value <;> simp [ofDocument?,arrayReading?,ofValue?]

end Outline

namespace Document
open Outline

variable {value value' : Value} {text text' : String}

theorem parse_written (written : Writes value text.toList) (fits : value.nesting ≤ nestingLimit) :
    parse text = (ofDocument? value).elim (.error (.document .mismatch))
      fun nodes => .ok (Tree.ofOutlines nodes) := by
  by_cases described : ∃ nodes, DescribesDocument value nodes
  · obtain ⟨nodes,described⟩ := described
    rw [parse_of_describes written fits described,ofDocument?_eq_some_iff.mpr described]
    rfl
  · rw [parse_of_undescribed written fits described,ofDocument?_eq_none described]
    rfl

/-- A text is loaded as before, or refused as before, when the members of its objects are reordered,
when its nodes get members of other names, and when it is laid out in another way. -/
theorem parse_edited (written : Writes value text.toList) (fits : value.nesting ≤ nestingLimit)
    (distinct : value.Distinct) (edited : Edited .document value value')
    (written' : Writes value' text'.toList) (fits' : value'.nesting ≤ nestingLimit) :
    parse text' = parse text := by
  have alike := edited.readsAlike distinct
  have same : ofDocument? value' = ofDocument? value := by
    rw [ofDocument?_eq,ofDocument?_eq,alike.items rfl,alike.node trivial]
  rw [parse_written written fits,parse_written written' fits',same]

/-- The members of all objects are reversed; the element and the text in it get new members, one with
a value in which a name is repeated. -/
theorem parse_edited_reversed :
    let attrs : Value := .object [("id",.string "a"),("class",.string "b")]
    let attrs' : Value := .object [("class",.string "b"),("id",.string "a")]
    let child : Value := .object [("text",.string "x")]
    let child' : Value := .object [("Tag",.string "q"),("text",.string "x")]
    let note : Value := .object [("tag",.null),("tag",.null)]
    let value : Value :=
      .array [.object [("tag",.string "p"),("attrs",attrs),("children",.array [child])]]
    let value' : Value := .array [.object [("note",note),("children",.array [child']),
      ("attrs",attrs'),("tag",.string "p")]]
    let text := String.ofList (value.pretty 0)
    let text' := String.ofList (value'.pretty 1)
    parse text' = parse text ∧ ∃ tree, parse text' = .ok tree ∧ tree.Holds [.element "p"
      ((Attributes.empty.insert "id" "a").insert "class" "b") [.text "x"]] := by
  intro attrs attrs' child child' note value value' text text'
  have written : Writes value text.toList := by
    have spellable : value.Spellable := by
      simp [value,attrs,child,Value.Spellable,SpellableItems,SpellableMembers]
    simpa [text] using spellable.writes 0
  have written' : Writes value' text'.toList := by
    have spellable : value'.Spellable := by
      simp [value',attrs',child',note,Value.Spellable,SpellableItems,SpellableMembers]
    simpa [text'] using spellable.writes 1
  have fits : value.nesting ≤ nestingLimit := by decide
  have distinct : value.Distinct := by
    simp [value,attrs,child,Value.Distinct,DistinctItems,DistinctMembers]
  have editedAttrs : Edited .other attrs attrs' := by
    refine @Edited.object _ _ _ [] _ (.cons (.same _ _) (.cons (.same _ _) .nil)) ?_ (.swap _ _ _)
    simp
  have editedChild : Edited .node child child' := by
    refine @Edited.object _ _ _ [("Tag",.string "q")] _ (.cons (.same _ _) .nil) ?_ (.swap _ _ _)
    simp [Place.HoldsNode,nodeNames]
  have edited : Edited .document value value' := by
    refine .array (.cons (@Edited.object _ _ _ [("note",note)] _ (.cons (.same _ _) (.cons editedAttrs
      (.cons (.array (.cons editedChild .nil)) .nil))) ?_ (List.reverse_perm [_,_,_,_])) .nil)
    simp [Place.HoldsNode,Place.item,nodeNames]
  have same := parse_edited written fits distinct edited written' (by decide)
  refine ⟨same,_,same.trans (parse_of_describes written fits ?_),Tree.ofOutlines_holds _⟩
  exact ofDocument?_eq_some_iff.mp rfl

end Document
end TreeQuery
