import TreeQuery.Proofs.Document.Description

/-! Outlines written as JSON and read back. An element becomes an object with its tag, attributes
and children in any order, where attributes and children need no member if there are none
(`Encodes`). Every encoding describes what it encodes, so a text of it is loaded as the same
outlines unless its brackets nest too deep (`parse_encoded`). -/
namespace TreeQuery
open Json

namespace Outline

inductive EncodesAttributes (attributes : Attributes) : List (String × Value) → Prop
  | written {texts : List (String × String)} (all : texts.Perm attributes.toList) :
      EncodesAttributes attributes [("attrs",.object (stringMembers texts))]
  | omitted (none : attributes = .empty) : EncodesAttributes attributes []

mutual

inductive Encodes : Outline → Value → Prop
  | element {tag : String} {attributes : Attributes} {nodes : List Outline}
      {attrs below members : List (String × Value)} (attributed : EncodesAttributes attributes attrs)
      (children : EncodesChildren nodes below)
      (order : members.Perm (("tag",.string tag) :: attrs ++ below)) :
      Encodes (.element tag attributes nodes) (.object members)
  | text {words : String} : Encodes (.text words) (.object [("text",.string words)])
  | comment {words : String} : Encodes (.comment words) (.object [("comment",.string words)])

inductive EncodesChildren : List Outline → List (String × Value) → Prop
  | written {nodes : List Outline} {items : List Value} (all : List.Forall₂ Encodes nodes items) :
      EncodesChildren nodes [("children",.array items)]
  | omitted : EncodesChildren [] []

end

variable {node : Outline} {nodes : List Outline} {value : Value} {items : List Value}
  {name : String} {members attrs below : List (String × Value)} {attributes : Attributes}

theorem EncodesAttributes.reads (attributed : EncodesAttributes attributes attrs) :
    ReadsAttributes attrs attributes := by
  cases attributed with
  | @written texts all =>
    have same : Attributes.ofList texts = attributes := Attributes.ofList_of_perm all
    exact .inr ⟨texts,by simp [valuesOf],Attributes.ofList_eq_iff.mp same⟩
  | omitted none => exact .inl ⟨rfl,none⟩

/-- What an element's members of each name are. -/
theorem valuesOf_element {tag : String} (attributed : EncodesAttributes attributes attrs)
    (children : EncodesChildren nodes below)
    (order : members.Perm (("tag",.string tag) :: attrs ++ below)) :
    valuesOf "tag" members = [.string tag] ∧ valuesOf "attrs" members = valuesOf "attrs" attrs ∧
      valuesOf "children" members = valuesOf "children" below := by
  refine ⟨(valuesOf_of_perm order ?_).trans ?_,(valuesOf_of_perm order ?_).trans ?_,
    (valuesOf_of_perm order ?_).trans ?_⟩ <;>
  cases attributed <;> cases children <;> simp [valuesOf]

theorem Encodes.describes (encoded : Encodes node value) : Describes value node := by
  induction node using outline_induction generalizing value with
  | step node ih =>
    rw [describes_iff]
    cases encoded with
    | text => exact ⟨_,rfl,.text (not_isElement rfl) rfl⟩
    | comment => exact ⟨_,rfl,.comment (not_isElement rfl) (by simp [valuesOf]) rfl⟩
    | element attributed children order =>
      obtain ⟨tagged,attrs,below⟩ := valuesOf_element attributed children order
      refine ⟨_,rfl,.element ⟨tagged,?_,?_⟩⟩
      · rw [ReadsAttributes,attrs]
        exact attributed.reads
      · rw [below]
        cases children with
        | written all =>
          have described := forall₂_imp_mem (fun child member value => @ih child member value) all
          exact .inr ⟨_,by simp [valuesOf],described.flip⟩
        | omitted => exact .inl ⟨rfl,rfl⟩

theorem spellable_stringMembers (texts : List (String × String)) :
    SpellableMembers (stringMembers texts) := by
  induction texts with
  | nil => trivial
  | cons text texts ih => exact ⟨trivial,ih⟩

theorem spellableItems_of_encodes
    (each : ∀ node ∈ nodes, ∀ {value}, Encodes node value → value.Spellable)
    (all : List.Forall₂ Encodes nodes items) : SpellableItems items := by
  induction all with
  | nil => trivial
  | cons first others ih =>
    obtain ⟨one,rest⟩ := List.forall_mem_cons.mp each
    exact ⟨one first,ih rest⟩

theorem Encodes.spellable (encoded : Encodes node value) : value.Spellable := by
  induction node using outline_induction generalizing value with
  | step node ih =>
    cases encoded with
    | text | comment => exact ⟨trivial,trivial⟩
    | @element _ _ _ attrs below _ attributed children order =>
      have first : SpellableMembers attrs := by
        cases attributed with
        | written => exact ⟨spellable_stringMembers _,trivial⟩
        | omitted => trivial
      have second : SpellableMembers below := by
        cases children with
        | written all => exact ⟨spellableItems_of_encodes ih all,trivial⟩
        | omitted => trivial
      rw [spellableMembers_iff] at first second
      rw [Value.Spellable,spellableMembers_iff]
      intro member listed
      rcases List.mem_cons.mp (order.mem_iff.mp listed) with rfl | inside
      · trivial
      · exact (List.mem_append.mp inside).elim (first member) (second member)

theorem exists_forall₂ {α β : Type} {relation : α → β → Prop} {left : List α}
    (each : ∀ a ∈ left, ∃ b, relation a b) : ∃ right, List.Forall₂ relation left right := by
  induction left with
  | nil => exact ⟨[],.nil⟩
  | cons a left ih =>
    obtain ⟨⟨b,first⟩,others⟩ := List.forall_mem_cons.mp each
    obtain ⟨right,all⟩ := ih others
    exact ⟨b :: right,.cons first all⟩

theorem exists_encodes (node : Outline) : ∃ value, Encodes node value := by
  induction node using outline_induction with
  | step node ih =>
    cases node with
    | text => exact ⟨_,.text⟩
    | comment => exact ⟨_,.comment⟩
    | element tag attributes nodes =>
      obtain ⟨items,all⟩ := exists_forall₂ ih
      exact ⟨_,.element (.written (.refl _)) (.written all) (.refl _)⟩

/-- An element with `depth` elements around it, each the only child of the next. -/
def chain : Nat → Outline
  | 0 => .element "p" .empty []
  | depth + 1 => .element "p" .empty [chain depth]

def chainValue : Nat → Value
  | 0 => .object [("tag",.string "p")]
  | depth + 1 => .object [("tag",.string "p"),("children",.array [chainValue depth])]

theorem encodes_chain (depth : Nat) : Encodes (chain depth) (chainValue depth) := by
  induction depth with
  | zero => exact .element (.omitted rfl) .omitted (.refl _)
  | succ depth ih => exact .element (.omitted rfl) (.written (.cons ih .nil)) (.refl _)

theorem nesting_chainValue (depth : Nat) : (chainValue depth).nesting = 2 * depth + 1 := by
  induction depth with
  | zero => rfl
  | succ depth ih => simp [chainValue,Value.nesting,nestingOfMembers,nestingOfItems,ih]; omega

end Outline

namespace Document
open Outline

/-- Every list of nodes has encodings, and all of them have texts. Such a text is loaded as the
nodes if at most 127 of its brackets stand inside each other, and a single node written without the
array is loaded as the same tree; otherwise the nesting limit is reported. -/
theorem parse_encoded (nodes : List Outline) :
    (∃ items, List.Forall₂ Encodes nodes items) ∧
      ∀ items, List.Forall₂ Encodes nodes items →
        (∃ text : String, Writes (.array items) text.toList) ∧
          ∀ text : String, Writes (.array items) text.toList →
            ((Value.array items).nesting ≤ nestingLimit →
              ∃ tree, parse text = .ok tree ∧ tree.Holds nodes ∧
                ∀ node value, nodes = [node] → Encodes node value → value.nesting ≤ nestingLimit →
                  ∀ bare : String, Writes value bare.toList → parse bare = .ok tree) ∧
            (nestingLimit < (Value.array items).nesting →
              ∃ error, parse text = .error (.document (.malformed error)) ∧
                error.fault = .recursionLimit) := by
  refine ⟨exists_forall₂ fun node _ => exists_encodes node,fun items encoded =>
    ⟨?_,fun text written => ⟨fun fits => ?_,fun deep => ?_⟩⟩⟩
  · have spellable : (Value.array items).Spellable :=
      spellableItems_of_encodes (fun _ _ => Encodes.spellable) encoded
    exact ⟨String.ofList ((Value.array items).pretty 0),by simpa using spellable.writes 0⟩
  · have described : DescribesDocument (.array items) nodes :=
      .inl ⟨items,rfl,(encoded.imp fun _ _ => Encodes.describes).flip⟩
    refine ⟨_,parse_of_describes written fits described,Tree.ofOutlines_holds nodes,?_⟩
    rintro node value rfl alone low bare written
    exact parse_of_describes written low (.inr ⟨node,rfl,alone.describes⟩)
  · obtain ⟨_,_,front⟩ := written.meets_readFront
    obtain ⟨stop,stopped,fault⟩ := front.stops (Nat.not_le.mpr deep)
    exact ⟨stop.toError text.toList,by simp [parse,outlines,stopped],fault⟩

/-- Without attributes, 63 elements inside each other can be loaded from an array and 64 cannot. -/
theorem parse_encoded_chain :
    let text := fun depth => String.ofList ((Value.array [chainValue depth]).pretty 0)
    (∃ tree, parse (text 62) = .ok tree ∧ tree.Holds [chain 62] ∧
        parse (String.ofList ((chainValue 62).pretty 0)) = .ok tree) ∧
      ∃ error, parse (text 63) = .error (.document (.malformed error)) ∧
        error.fault = .recursionLimit := by
  intro text
  have encoded : ∀ depth, List.Forall₂ Encodes [chain depth] [chainValue depth] := fun depth =>
    .cons (encodes_chain depth) .nil
  have written : ∀ depth, Writes (.array [chainValue depth]) (text depth).toList := fun depth => by
    have spellable : (Value.array [chainValue depth]).Spellable :=
      ⟨(encodes_chain depth).spellable,trivial⟩
    simpa [text] using spellable.writes 0
  have bare : Writes (chainValue 62) (String.ofList ((chainValue 62).pretty 0)).toList := by
    simpa using (encodes_chain 62).spellable.writes 0
  have nesting : ∀ depth, (Value.array [chainValue depth]).nesting = 2 * depth + 2 := fun depth => by
    simp [Value.nesting,nestingOfItems,nesting_chainValue]
  constructor
  · obtain ⟨tree,loaded,held,alone⟩ := ((parse_encoded [chain 62]).2 _ (encoded 62)).2 _ (written 62)
      |>.1 (by rw [nesting]; decide)
    refine ⟨tree,loaded,held,alone _ _ rfl (encodes_chain 62) ?_ _ bare⟩
    rw [nesting_chainValue]
    decide
  · exact (((parse_encoded [chain 63]).2 _ (encoded 63)).2 _ (written 63)).2 (by rw [nesting]; decide)

end Document
end TreeQuery
