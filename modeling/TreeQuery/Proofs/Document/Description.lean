import TreeQuery.Document.Source
import TreeQuery.Proofs.Document.Layout
import TreeQuery.Proofs.Json.Printing
import TreeQuery.Proofs.Json.Soundness
import TreeQuery.Proofs.Tree.Attributes

/-! Which JSON values describe a document, and which one (`Describes`, `DescribesDocument`). An
object that is no element may still be a text, and one that is neither a comment; whether it is an
element depends in the same way on every value in its `children`. Reading follows this description
(`ofValue?_eq_some_iff`), so a text is loaded if and only if its value describes a document, and
then the tree shows what is described (`parse_described`). -/
namespace TreeQuery
open Json

namespace Outline

/-- The members of an object whose values are all strings. -/
def stringMembers (texts : List (String × String)) : List (String × Value) :=
  texts.map fun text => (text.1,.string text.2)

/-- The attributes of an object with these members; of equal names the last one counts. -/
def ReadsAttributes (members : List (String × Value)) (attributes : Attributes) : Prop :=
  valuesOf "attrs" members = [] ∧ attributes = .empty ∨
    ∃ texts, valuesOf "attrs" members = [.object (stringMembers texts)] ∧
      ∀ name, attributes.get? name = texts.reverse.lookup name

/-- How the members of an object are read as an element, where `item` says which nodes the values
of a `children` array describe. -/
structure ReadsElement (item : Value → Outline → Prop) (members : List (String × Value))
    (tag : String) (attributes : Attributes) (nodes : List Outline) : Prop where
  tag : valuesOf "tag" members = [.string tag]
  attributes : ReadsAttributes members attributes
  children : valuesOf "children" members = [] ∧ nodes = [] ∨
    ∃ items, valuesOf "children" members = [.array items] ∧ List.Forall₂ item items nodes

def IsElement (item : Value → Outline → Prop) (members : List (String × Value)) : Prop :=
  ∃ tag attributes nodes, ReadsElement item members tag attributes nodes

/-- How the members of an object are read as a node: as an element, failing that as a text, failing
that as a comment. -/
inductive ReadsNode (item : Value → Outline → Prop) (members : List (String × Value)) :
    Outline → Prop
  | element {tag : String} {attributes : Attributes} {nodes : List Outline}
      (read : ReadsElement item members tag attributes nodes) :
      ReadsNode item members (.element tag attributes nodes)
  | text {words : String} (noElement : ¬ IsElement item members)
      (only : valuesOf "text" members = [.string words]) : ReadsNode item members (.text words)
  | comment {words : String} (noElement : ¬ IsElement item members)
      (noText : ∀ words, valuesOf "text" members ≠ [.string words])
      (only : valuesOf "comment" members = [.string words]) : ReadsNode item members (.comment words)

/-- The node that a value describes. The values inside it are smaller, which is what makes this a
definition; `describes_iff` is the equation without the sizes. -/
def Describes (value : Value) (node : Outline) : Prop :=
  ∃ members, value = .object members ∧
    ReadsNode (fun item node => ∃ _smaller : sizeOf item < sizeOf value, Describes item node)
      members node
termination_by sizeOf value

/-- A document is an array of nodes or a single node. -/
def DescribesDocument (value : Value) (nodes : List Outline) : Prop :=
  (∃ items, value = .array items ∧ List.Forall₂ Describes items nodes) ∨
    ∃ node, nodes = [node] ∧ Describes value node

variable {item item' : Value → Outline → Prop} {value : Value} {node : Outline} {name : String}
  {items : List Value} {members : List (String × Value)} {nodes : List Outline}
  {attributes : Attributes} {tag : String}

theorem forall₂_imp_mem {α β : Type} {before after : α → β → Prop} {left : List α} {right : List β}
    (each : ∀ a ∈ left, ∀ b, before a b → after a b) (all : List.Forall₂ before left right) :
    List.Forall₂ after left right := by
  induction all with
  | nil => exact .nil
  | @cons a b left right first others ih =>
    exact .cons (each a List.mem_cons_self b first)
      (ih fun other member => each other (List.mem_cons_of_mem _ member))

theorem not_isElement (untagged : valuesOf "tag" members = []) : ¬ IsElement item members := by
  rintro ⟨tag,_,_,read⟩
  simpa [untagged] using read.tag

theorem valuesOf_of_perm {others : List (String × Value)} (order : members.Perm others)
    (single : (valuesOf name others).length ≤ 1) : valuesOf name members = valuesOf name others := by
  have listed : (valuesOf name members).Perm (valuesOf name others) := (order.filter _).map _
  match only : valuesOf name others with
  | [] => exact (only ▸ listed).eq_nil
  | [value] => exact List.perm_singleton.mp (only ▸ listed)
  | _ :: _ :: _ => simp [only] at single

theorem ReadsElement.imp
    (each : ∀ items, .array items ∈ valuesOf "children" members →
      ∀ value ∈ items, ∀ node, item value node → item' value node)
    (read : ReadsElement item members tag attributes nodes) :
    ReadsElement item' members tag attributes nodes := by
  refine ⟨read.tag,read.attributes,read.children.imp_right ?_⟩
  rintro ⟨items,only,all⟩
  exact ⟨items,only,forall₂_imp_mem (each items (only ▸ List.mem_singleton_self _)) all⟩

theorem ReadsNode.imp
    (each : ∀ items, .array items ∈ valuesOf "children" members →
      ∀ value ∈ items, ∀ node, item value node ↔ item' value node)
    (read : ReadsNode item members node) : ReadsNode item' members node := by
  -- That an object is no element carries over because its values are read alike both ways.
  have back : IsElement item' members → IsElement item members := fun ⟨tag,attributes,nodes,read⟩ =>
    ⟨tag,attributes,nodes,read.imp fun items listed value member node =>
      (each items listed value member node).mpr⟩
  cases read with
  | element read =>
    exact .element (read.imp fun items listed value member node =>
      (each items listed value member node).mp)
  | text noElement only => exact .text (noElement ∘ back) only
  | comment noElement noText only => exact .comment (noElement ∘ back) noText only

theorem sizeOf_of_mem_valuesOf (listed : value ∈ valuesOf name members) :
    sizeOf value < sizeOf (Value.object members) := by
  obtain ⟨⟨_,_⟩,kept,rfl⟩ := List.mem_map.mp listed
  have bound := List.sizeOf_lt_of_mem (List.mem_filter.mp kept).1
  simp only [Prod.mk.sizeOf_spec,Value.object.sizeOf_spec] at bound ⊢
  omega

theorem sizeOf_child (listed : .array items ∈ valuesOf name members) (member : value ∈ items) :
    sizeOf value < sizeOf (Value.object members) := by
  have outer := sizeOf_of_mem_valuesOf listed
  have inner := List.sizeOf_lt_of_mem member
  simp only [Value.array.sizeOf_spec] at outer
  omega

/-! What the reader finds, one of its definitions at a time. -/

theorem stringMember?_eq_some_iff {words : String} :
    stringMember? name members = some words ↔ valuesOf name members = [.string words] := by
  unfold stringMember?
  split <;> simp_all

theorem stringMember?_eq_none_iff :
    stringMember? name members = none ↔ ∀ words, valuesOf name members ≠ [.string words] := by
  simp only [Option.eq_none_iff_forall_ne_some,ne_eq,stringMember?_eq_some_iff]

def textPair? (member : String × Value) : Option (String × String) :=
  match member.2 with
  | .string value => some (member.1,value)
  | _ => none

theorem textPair?_eq_some_iff {member : String × Value} {text : String × String} :
    textPair? member = some text ↔ member = (text.1,.string text.2) := by
  obtain ⟨name,value⟩ := member
  cases value <;> simp [textPair?,Prod.ext_iff]

theorem mapM_textPair?_eq_some_iff {texts : List (String × String)} :
    members.mapM textPair? = some texts ↔ members = stringMembers texts := by
  induction members generalizing texts with
  | nil => cases texts <;> simp [stringMembers]
  | cons member members ih =>
    cases texts <;>
      simp [stringMembers,List.mapM_cons,Option.bind_eq_some_iff,textPair?_eq_some_iff,ih]

theorem attributesOf?_eq : attributesOf? members = (members.mapM textPair?).map Attributes.ofList := by
  rw [Option.map_eq_bind]
  rfl

theorem attributesOf?_eq_some_iff :
    attributesOf? members = some attributes ↔
      ∃ texts, members = stringMembers texts ∧
        ∀ name, attributes.get? name = texts.reverse.lookup name := by
  simp only [attributesOf?_eq,Option.map_eq_some_iff,mapM_textPair?_eq_some_iff,Attributes.ofList_eq_iff]

theorem attributesMember?_eq_some_iff :
    attributesMember? members = some attributes ↔ ReadsAttributes members attributes := by
  unfold attributesMember? ReadsAttributes
  split
  · rename_i none
    simp [none,eq_comm]
  · rename_i pairs only
    simp [only,attributesOf?_eq_some_iff]
  · rename_i filled noObject
    refine iff_of_false (by simp) ?_
    rintro (⟨none,_⟩ | ⟨texts,only,_⟩)
    · exact filled none
    · exact noObject _ only

theorem ofItems?_eq_some_iff :
    ofItems? items = some nodes ↔
      List.Forall₂ (fun item node => ofValue? item = some node) items nodes := by
  induction items generalizing nodes with
  | nil => simp [ofItems?,eq_comm]
  | cons item items ih =>
    cases nodes <;> simp [ofItems?,Option.bind_eq_some_iff,ih]

/-- What a value is read as where an array of nodes is wanted. -/
def arrayReading? : Value → Option (List Outline)
  | .array items => ofItems? items
  | _ => none

theorem childReadings_eq : childReadings members = (valuesOf "children" members).map arrayReading? := by
  induction members with
  | nil => simp [childReadings,valuesOf]
  | cons member members ih =>
    obtain ⟨name,value⟩ := member
    cases value <;> by_cases same : name = "children" <;>
      simp_all [childReadings,valuesOf,arrayReading?]

theorem onlyReading?_eq_some_iff :
    onlyReading? (childReadings members) = some nodes ↔
      valuesOf "children" members = [] ∧ nodes = [] ∨
        ∃ items, valuesOf "children" members = [.array items] ∧
          List.Forall₂ (fun item node => ofValue? item = some node) items nodes := by
  rw [childReadings_eq]
  match valuesOf "children" members with
  | [] => simp [onlyReading?,eq_comm]
  | [value] => cases value <;> simp [onlyReading?,arrayReading?,ofItems?_eq_some_iff]
  | _ :: _ :: _ => simp [onlyReading?]

theorem elementOf?_eq_some_iff :
    elementOf? members (childReadings members) = some node ↔
      ∃ tag attributes nodes, ReadsElement (fun item node => ofValue? item = some node) members
        tag attributes nodes ∧ .element tag attributes nodes = node := by
  simp only [elementOf?,Option.bind_eq_bind,Option.bind_eq_some_iff,stringMember?_eq_some_iff,
    attributesMember?_eq_some_iff,onlyReading?_eq_some_iff,Option.pure_def,Option.some.injEq]
  constructor
  · rintro ⟨tag,tagged,attributes,attributed,nodes,children,made⟩
    exact ⟨tag,attributes,nodes,⟨tagged,attributed,children⟩,made⟩
  · rintro ⟨tag,attributes,nodes,⟨tagged,attributed,children⟩,made⟩
    exact ⟨tag,tagged,attributes,attributed,nodes,children,made⟩

theorem elementOf?_eq_none_iff :
    elementOf? members (childReadings members) = none ↔
      ¬ IsElement (fun item node => ofValue? item = some node) members := by
  rw [Option.eq_none_iff_forall_ne_some]
  simp only [ne_eq,elementOf?_eq_some_iff,IsElement]
  grind

theorem ofValue?_object_eq_some_iff :
    ofValue? (.object members) = some node ↔
      ReadsNode (fun item node => ofValue? item = some node) members node := by
  simp only [ofValue?,Option.or_eq_some_iff,Option.or_eq_none_iff,Option.map_eq_some_iff,
    Option.map_eq_none_iff,elementOf?_eq_some_iff,elementOf?_eq_none_iff,
    stringMember?_eq_some_iff,stringMember?_eq_none_iff]
  constructor
  · rintro ((⟨tag,attributes,nodes,read,rfl⟩ | ⟨noElement,words,only,rfl⟩) |
      ⟨⟨noElement,noText⟩,words,only,rfl⟩)
    · exact .element read
    · exact .text noElement only
    · exact .comment noElement noText only
  · rintro (read | ⟨noElement,only⟩ | ⟨noElement,noText,only⟩)
    · exact .inl (.inl ⟨_,_,_,read,rfl⟩)
    · exact .inl (.inr ⟨noElement,_,only,rfl⟩)
    · exact .inr ⟨⟨noElement,noText⟩,_,only,rfl⟩

/-- Reading finds the node that a value describes. -/
theorem ofValue?_eq_some_iff (value : Value) (node : Outline) :
    ofValue? value = some node ↔ Describes value node := by
  rw [Describes]
  cases value with
  | object members =>
    have inside : ∀ items, .array items ∈ valuesOf "children" members →
        ∀ item ∈ items, ∀ node, ofValue? item = some node ↔
          ∃ _smaller : sizeOf item < sizeOf (Value.object members), Describes item node := by
      intro items listed item member node
      have smaller := sizeOf_child listed member
      rw [ofValue?_eq_some_iff item node,exists_prop,and_iff_right smaller]
    rw [ofValue?_object_eq_some_iff]
    constructor
    · exact fun read => ⟨members,rfl,read.imp inside⟩
    · rintro ⟨_,⟨⟩,read⟩
      exact read.imp fun items listed item member node => (inside items listed item member node).symm
  | _ => simp [ofValue?]
termination_by sizeOf value
decreasing_by exact smaller

theorem describes_eq : Describes = fun value node => ofValue? value = some node := by
  funext value node
  exact propext (ofValue?_eq_some_iff value node).symm

theorem describes_iff :
    Describes value node ↔
      ∃ members, value = .object members ∧ ReadsNode Describes members node := by
  rw [describes_eq]
  cases value with
  | object members => simp [ofValue?_object_eq_some_iff]
  | _ => simp [ofValue?]

theorem ofDocument?_eq_some_iff :
    ofDocument? value = some nodes ↔ DescribesDocument value nodes := by
  unfold DescribesDocument
  rw [describes_eq]
  cases value with
  | array items => simp [ofDocument?,ofItems?_eq_some_iff,ofValue?]
  | object members => simp [ofDocument?,eq_comm,and_comm]
  | _ => simp [ofDocument?,ofValue?]

theorem ofDocument?_eq_none (undescribed : ¬ ∃ nodes, DescribesDocument value nodes) :
    ofDocument? value = none :=
  Option.eq_none_iff_forall_ne_some.mpr fun nodes read =>
    undescribed ⟨nodes,ofDocument?_eq_some_iff.mp read⟩

end Outline

namespace Document
open Outline

variable {text : String} {value : Value} {nodes : List Outline}

/-- What is read from a text is what its value describes. -/
theorem outlines_eq_ok_iff :
    outlines text.toList = .ok nodes ↔ ∃ value, Writes value text.toList ∧
      value.nesting ≤ nestingLimit ∧ DescribesDocument value nodes := by
  constructor
  · intro read
    unfold outlines at read
    split at read
    · cases read
    rename_i value rest front
    split at read
    · cases read
    rename_i found described
    split at read
    · rename_i blank
      cases read
      obtain ⟨written,fits⟩ := reads_iff_writes.mp ⟨rest,front,blank⟩
      exact ⟨value,written,fits,ofDocument?_eq_some_iff.mp described⟩
    · cases read
  · rintro ⟨value,written,fits,described⟩
    obtain ⟨after,blank,front⟩ := written.meets_readFront
    simp only [outlines,front.reads fits,ofDocument?_eq_some_iff.mpr described,blank]

theorem parse_of_describes (written : Writes value text.toList) (fits : value.nesting ≤ nestingLimit)
    (described : DescribesDocument value nodes) : parse text = .ok (Tree.ofOutlines nodes) :=
  parse_eq_ok_iff.mpr ⟨nodes,outlines_eq_ok_iff.mpr ⟨value,written,fits,described⟩,rfl⟩

theorem parse_of_undescribed (written : Writes value text.toList)
    (fits : value.nesting ≤ nestingLimit) (undescribed : ¬ ∃ nodes, DescribesDocument value nodes) :
    parse text = .error (.document .mismatch) := by
  obtain ⟨after,_,front⟩ := written.meets_readFront
  simp only [parse,outlines,front.reads fits,ofDocument?_eq_none undescribed]

/-- A text with at most 127 brackets inside each other is loaded if and only if its value describes
a document, and then the tree holds what the value describes. -/
theorem parse_described (written : Writes value text.toList)
    (fits : value.nesting ≤ nestingLimit) :
    ((∃ tree, parse text = .ok tree) ↔ ∃ nodes, DescribesDocument value nodes) ∧
      (∀ nodes, DescribesDocument value nodes → ∃ tree, parse text = .ok tree ∧ tree.Holds nodes) ∧
      ((¬ ∃ nodes, DescribesDocument value nodes) → parse text = .error (.document .mismatch)) := by
  have loaded : ∀ nodes, DescribesDocument value nodes →
      ∃ tree, parse text = .ok tree ∧ tree.Holds nodes := fun nodes described =>
    ⟨_,parse_of_describes written fits described,Tree.ofOutlines_holds nodes⟩
  have refused := parse_of_undescribed written fits
  refine ⟨⟨?_,?_⟩,loaded,refused⟩
  · rintro ⟨tree,success⟩
    by_contra undescribed
    simp [refused undescribed] at success
  · rintro ⟨nodes,described⟩
    obtain ⟨tree,success,_⟩ := loaded nodes described
    exact ⟨tree,success⟩

/-- The last of two equal names counts, and an object whose attributes are no object is a text. -/
theorem parse_described_fallback :
    let value : Value := .array [.object [("tag",.string "p"),
      ("attrs",.object [("id",.string "a"),("id",.string "b")]),
      ("children",.array [.object [("tag",.string "q"),("attrs",.null),("text",.string "x")]])]]
    let text := String.ofList (value.pretty 0)
    Writes value text.toList ∧ value.nesting ≤ nestingLimit ∧ ∃ tree, parse text = .ok tree ∧
      tree.Holds [.element "p" (Attributes.empty.insert "id" "b") [.text "x"]] := by
  intro value text
  have spellable : value.Spellable := by
    simp [value,Value.Spellable,SpellableItems,SpellableMembers]
  have written : Writes value text.toList := by
    simpa [text] using spellable.writes 0
  have fits : value.nesting ≤ nestingLimit := by decide
  have described : DescribesDocument value
      [.element "p" (Attributes.empty.insert "id" "b") [.text "x"]] :=
    ofDocument?_eq_some_iff.mp rfl
  exact ⟨written,fits,(parse_described written fits).2.1 _ described⟩

end Document
end TreeQuery
