import TreeQuery.Json.Pretty
import TreeQuery.Proofs.Json.Grammar

/-! The written form of a value is a text of the value, for values whose numbers are written as JSON
numbers (`Spellable.spells`). -/
namespace TreeQuery.Json

theorem hexValue?_hexDigit {n : Nat} (small : n < 16) : hexValue? (hexDigit n) = some n := by
  revert n
  decide

theorem spellsUnit_control {c : Char} (control : c.toNat < 0x20) :
    SpellsUnit c.toNat ['0','0',hexDigit (c.toNat / 16),hexDigit (c.toNat % 16)] := by
  have high := hexValue?_hexDigit (show c.toNat / 16 < 16 by omega)
  have low := hexValue?_hexDigit (show c.toNat % 16 < 16 by omega)
  refine ⟨[0,0,c.toNat / 16,c.toNat % 16],.cons rfl (.cons rfl (.cons high (.cons low .nil))),rfl,?_⟩
  simp only [hexNumber,List.foldl_cons,List.foldl_nil]
  omega

theorem spellsChar_escapeChar (c : Char) : SpellsChar c (escapeChar c) := by
  by_cases short : c ∈ ['"','\\','\x08','\x0c','\n','\r','\t']
  · simp only [List.mem_cons,List.not_mem_nil,or_false] at short
    rcases short with rfl | rfl | rfl | rfl | rfl | rfl | rfl <;> exact .short rfl
  · simp only [List.mem_cons,List.not_mem_nil,or_false,not_or] at short
    obtain ⟨noQuote,noBackslash,_⟩ := short
    by_cases control : c.toNat < 0x20
    · have coded : escapeChar c =
          '\\' :: 'u' :: ['0','0',hexDigit (c.toNat / 16),hexDigit (c.toNat % 16)] := by
        simp_all [escapeChar]
      exact coded ▸ .code (spellsUnit_control control)
    · have bare : escapeChar c = [c] := by simp_all [escapeChar]
      exact bare ▸ .plain noQuote noBackslash (Nat.not_lt.mp control)

theorem spellsChars_flatMap (text : List Char) : SpellsChars text (text.flatMap escapeChar) := by
  induction text with
  | nil => exact .nil
  | cons c text ih => exact .cons (spellsChar_escapeChar c) ih

theorem blank_lineAt (level : Nat) : Blank (lineAt level) := by
  intro c member
  rcases List.mem_cons.mp member with rfl | later
  · rfl
  · rw [List.eq_of_mem_replicate later]
    rfl

mutual

/-- The numbers of a value are spelled as the grammar wants it. -/
def Value.Spellable : Value → Prop
  | .number spelling => ∃ numeral : Numeral, numeral.Formed ∧ numeral.InRange ∧
      spelling = String.ofList numeral.spelling
  | .array items => SpellableItems items
  | .object members => SpellableMembers members
  | _ => True

def SpellableItems : List Value → Prop
  | [] => True
  | value :: values => value.Spellable ∧ SpellableItems values

def SpellableMembers : List (String × Value) → Prop
  | [] => True
  | (_,value) :: members => value.Spellable ∧ SpellableMembers members

end

theorem spellableItems_iff {items : List Value} :
    SpellableItems items ↔ ∀ item ∈ items, item.Spellable := by
  induction items with
  | nil => simp [SpellableItems]
  | cons item items ih => simp [SpellableItems,ih]

theorem spellableMembers_iff {members : List (String × Value)} :
    SpellableMembers members ↔ ∀ member ∈ members, member.2.Spellable := by
  induction members with
  | nil => simp [SpellableMembers]
  | cons member members ih => simp [SpellableMembers,ih]

/-! One bracket or one line of the written form, for the values in it that are written already. -/

variable {value next : Value} {values : List Value} {name : String}
  {members : List (String × Value)} {level : Nat} {before text after : List Char}

theorem blank_nil : Blank [] := by simp [Blank]

theorem spells_array (inside : WritesItems (value :: values) (lineAt (level + 1) ++
      (value.pretty (level + 1) ++ (prettyItems (level + 1) values ++ lineAt level)))) :
    Spells (.array (value :: values)) (Value.pretty level (.array (value :: values))) := by
  simpa [Value.pretty] using Spells.array inside

theorem spells_object (inside : WritesMembers ((name,value) :: members) (lineAt (level + 1) ++
      (quote name.toList ++ ':' :: ' ' :: (value.pretty (level + 1) ++
        (prettyMembers (level + 1) members ++ lineAt level))))) :
    Spells (.object ((name,value) :: members))
      (Value.pretty level (.object ((name,value) :: members))) := by
  simpa [Value.pretty] using Spells.object inside

theorem writesItems_more (left : Blank before) (spelled : Spells value text)
    (others : WritesItems (next :: values)
      (lineAt level ++ (next.pretty level ++ (prettyItems level values ++ after)))) :
    WritesItems (value :: next :: values)
      (before ++ (text ++ (prettyItems level (next :: values) ++ after))) := by
  simpa [prettyItems] using WritesItems.more (.intro left spelled blank_nil) others

theorem writesMember (spelled : Spells value text) (right : Blank after) :
    WritesMember (name,value)
      (lineAt level ++ (quote name.toList ++ ':' :: ' ' :: (text ++ after))) := by
  have value : Writes value ([' '] ++ (text ++ after)) := .intro (by simp [Blank,isBlank]) spelled right
  simpa [quote] using
    WritesMember.intro (blank_lineAt level) (spellsChars_flatMap name.toList) blank_nil value

theorem writesMembers_more {other : String} (spelled : Spells value text)
    (others : WritesMembers ((other,next) :: members) (lineAt level ++ (quote other.toList ++
      ':' :: ' ' :: (next.pretty level ++ (prettyMembers level members ++ after))))) :
    WritesMembers ((name,value) :: (other,next) :: members) (lineAt level ++ (quote name.toList ++
      ':' :: ' ' :: (text ++ (prettyMembers level ((other,next) :: members) ++ after)))) := by
  simpa [prettyMembers] using WritesMembers.more (writesMember spelled blank_nil) others

mutual

theorem Value.Spellable.spells :
    ∀ {value : Value}, value.Spellable → ∀ level, Spells value (value.pretty level)
  | .null,_,_ => .null
  | .bool true,_,_ => .truth
  | .bool false,_,_ => .falsity
  | .number _,⟨numeral,formed,inRange,same⟩,_ => by
    rw [same,Value.pretty,String.toList_ofList]
    exact .number formed inRange
  | .string text,_,_ => .string (spellsChars_flatMap text.toList)
  | .array [],_,_ => .emptyArray blank_nil
  | .array (_ :: _),⟨first,others⟩,level =>
    spells_array (others.writes (blank_lineAt _) (first.spells (level + 1)) (blank_lineAt level))
  | .object [],_,_ => .emptyObject blank_nil
  | .object (_ :: _),⟨first,others⟩,level =>
    spells_object (others.writes (first.spells (level + 1)) (blank_lineAt level))

/-- The items of an array behind a first one. -/
theorem SpellableItems.writes : ∀ {values : List Value}, SpellableItems values →
    ∀ {value : Value} {level : Nat} {before text after : List Char}, Blank before →
      Spells value text → Blank after →
      WritesItems (value :: values) (before ++ (text ++ (prettyItems level values ++ after)))
  | [],_,_,_,_,_,_,left,spelled,right => .last (.intro left spelled right)
  | _ :: _,⟨next,others⟩,_,level,_,_,_,left,spelled,right =>
    writesItems_more left spelled (others.writes (blank_lineAt level) (next.spells level) right)

theorem SpellableMembers.writes : ∀ {members : List (String × Value)}, SpellableMembers members →
    ∀ {name : String} {value : Value} {level : Nat} {text after : List Char},
      Spells value text → Blank after →
      WritesMembers ((name,value) :: members) (lineAt level ++ (quote name.toList ++
        ':' :: ' ' :: (text ++ (prettyMembers level members ++ after))))
  | [],_,_,_,_,_,_,spelled,right => .last (writesMember spelled right)
  | _ :: _,⟨next,others⟩,_,_,level,_,_,spelled,right =>
    writesMembers_more spelled (others.writes (next.spells level) right)

end

/-- The written form is a whole text of the value. -/
theorem Value.Spellable.writes (spellable : value.Spellable) (level : Nat) :
    Writes value (value.pretty level) := by
  simpa using Writes.intro blank_nil (spellable.spells level) blank_nil

end TreeQuery.Json
