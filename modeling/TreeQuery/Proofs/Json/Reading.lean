import TreeQuery.Proofs.Json.Scalars

/-! Reading values. The reader takes every text of the grammar for its value as long as brackets nest
no deeper than allowed, and stops at the nesting limit otherwise (`Spells.reads`). -/
namespace TreeQuery.Json

variable {text rest : List Char} {value : Value}

/-- A reading that yields a value if it fits into the nesting limit, and that stops at the limit if
it does not. -/
structure Meets {α : Type} (result : Except Stop (α × List Char)) (fits : Prop) (value : α)
    (rest : List Char) : Prop where
  reads : fits → result = .ok (value,rest)
  stops : ¬ fits → ∃ stop, result = .error stop ∧ stop.fault = .recursionLimit

namespace Meets

variable {α β : Type} {first : Except Stop (α × List Char)} {fits fits' : Prop} {value : α}
  {result : β} {left rest : List Char}

theorem ok (value : α) (rest : List Char) : Meets (.ok (value,rest)) True value rest :=
  ⟨fun _ => rfl,fun never => absurd trivial never⟩

theorem congr (meets : Meets first fits value rest) (same : fits ↔ fits') :
    Meets first fits' value rest :=
  ⟨fun holds => meets.reads (same.mpr holds),fun fails => meets.stops (mt same.mp fails)⟩

theorem bind {next : α × List Char → Except Stop (β × List Char)}
    (before : Meets first fits value left) (after : Meets (next (value,left)) fits' result rest) :
    Meets (first >>= next) (fits ∧ fits') result rest := by
  constructor
  · rintro ⟨holds,holds'⟩
    rw [before.reads holds,ok_bind,after.reads holds']
  · intro fails
    by_cases holds : fits
    · obtain ⟨stop,stopped,fault⟩ := after.stops fun holds' => fails ⟨holds,holds'⟩
      exact ⟨stop,by rw [before.reads holds,ok_bind,stopped],fault⟩
    · obtain ⟨stop,stopped,fault⟩ := before.stops holds
      exact ⟨stop,by rw [stopped,error_bind],fault⟩

theorem bind_ok {next : α × List Char → Except Stop (β × List Char)}
    (before : Meets first fits value left) (after : next (value,left) = .ok (result,rest)) :
    Meets (first >>= next) fits result rest :=
  (before.bind (after ▸ ok result rest)).congr (iff_of_eq (and_true fits))

end Meets

theorem skipBlank_append {before : List Char} (blank : Blank before) :
    skipBlank (before ++ text) = skipBlank text :=
  List.dropWhile_append_of_pos blank

theorem skipBlank_blank (blank : Blank text) : skipBlank text = [] := by
  have whole : skipBlank (text ++ []) = [] := skipBlank_append blank
  rwa [List.append_nil] at whole

theorem skipBlank_of_head {c : Char} (dark : isBlank c = false) :
    skipBlank (c :: rest) = c :: rest := by
  simp [skipBlank,dark]

/-! The readers, one step at a time. -/

section Steps

variable {reader : Reader Value} {inner : Option (Reader Value)}

/-- The items from the next one on. -/
def readItems (reader : Reader Value) (text : List Char) :
    Except Stop (List Value × List Char) := do
  let (value,left) ← reader.run text
  let (values,left) ← moreItems reader left
  return (value :: values,left)

/-- The members from the next one on, which starts behind the opening quote of its name. -/
def readMembers (reader : Reader Value) (text : List Char) :
    Except Stop (List (String × Value) × List Char) := do
  let (member,left) ← readMember reader text
  let (members,left) ← moreMembers reader left
  return (member :: members,left)

theorem moreItems_close (found : skipBlank text = ']' :: rest) :
    moreItems reader text = .ok ([],rest) := by
  rw [moreItems]
  split <;> simp_all

theorem moreItems_comma (found : skipBlank text = ',' :: rest)
    (further : ∀ later, skipBlank rest ≠ ']' :: later) :
    moreItems reader text = readItems reader rest := by
  rw [moreItems,readItems]
  split
  · simp_all
  · rename_i c after same
    rw [found] at same
    cases same
    rw [if_neg (by decide),if_pos rfl]
    split
    · rename_i later closing
      exact absurd closing (further later)
    · split <;> simp_all

theorem moreMembers_close (found : skipBlank text = '}' :: rest) :
    moreMembers reader text = .ok ([],rest) := by
  rw [moreMembers]
  split <;> simp_all

theorem moreMembers_comma {name : List Char} (found : skipBlank text = ',' :: rest)
    (further : skipBlank rest = '"' :: name) :
    moreMembers reader text = readMembers reader name := by
  rw [moreMembers,readMembers]
  split
  · simp_all
  · rename_i c after same
    rw [found] at same
    cases same
    rw [if_neg (by decide),if_pos rfl]
    split
    · rename_i same
      rw [further] at same
      cases same
      split <;> simp_all
    · simp_all
    · simp_all

theorem readArray_close (found : skipBlank text = ']' :: rest) :
    readArray reader text = .ok ([],rest) := by
  simp [readArray,found]

theorem readArray_items {c : Char} (found : skipBlank text = c :: rest) (further : c ≠ ']') :
    readArray reader text = readItems reader text := by
  unfold readArray
  rw [found]
  split <;> simp_all
  rfl

theorem readObject_close (found : skipBlank text = '}' :: rest) :
    readObject reader text = .ok ([],rest) := by
  simp [readObject,found]

theorem readObject_members (found : skipBlank text = '"' :: rest) :
    readObject reader text = readMembers reader rest := by
  simp [readObject,found]
  rfl

theorem readValue_string (found : skipBlank text = '"' :: rest) :
    readValue inner text = (do let (string,left) ← readString rest; return (.string string,left)) := by
  simp [readValue,found]

theorem readValue_number {c : Char} (found : skipBlank text = c :: rest)
    (starts : c = '-' ∨ c.isDigit = true) : readValue inner text = readNumber (c :: rest) := by
  unfold readValue
  rw [found]
  rcases starts with rfl | digit
  · simp
  · split <;> simp_all

end Steps

def innerReader : Nat → Option (Reader Value)
  | 0 => none
  | depth + 1 => some (valueReader depth)

theorem valueReader_run (depth : Nat) (text : List Char) :
    (valueReader depth).run text = readValue (innerReader depth) text := by
  cases depth <;> rfl

/-- At an opening bracket the nesting limit goes down by one; at none there is no way on. -/
theorem meets_array {depth : Nat} {items : List Value} (found : skipBlank text = '[' :: rest)
    {left : List Char}
    (inside : ∀ depth, Meets (readArray (valueReader depth) rest) (nestingOfItems items ≤ depth)
      items left) :
    Meets ((valueReader depth).run text) ((Value.array items).nesting ≤ depth) (.array items) left := by
  rw [valueReader_run]
  cases depth with
  | zero =>
    refine ⟨fun fits => absurd fits (by simp [Value.nesting]),fun _ => ?_⟩
    exact ⟨⟨.recursionLimit,'[' :: rest,1⟩,by simp [readValue,found,innerReader],rfl⟩
  | succ depth =>
    have opened : readValue (innerReader (depth + 1)) text =
        (do let (values,left) ← readArray (valueReader depth) rest; return (.array values,left)) := by
      simp [readValue,found,innerReader]
    rw [opened]
    refine ((inside depth).bind_ok ?_).congr ?_
    · rfl
    · simp [Value.nesting]

theorem meets_object {depth : Nat} {members : List (String × Value)}
    (found : skipBlank text = '{' :: rest) {left : List Char}
    (inside : ∀ depth, Meets (readObject (valueReader depth) rest) (nestingOfMembers members ≤ depth)
      members left) :
    Meets ((valueReader depth).run text) ((Value.object members).nesting ≤ depth) (.object members)
      left := by
  rw [valueReader_run]
  cases depth with
  | zero =>
    refine ⟨fun fits => absurd fits (by simp [Value.nesting]),fun _ => ?_⟩
    exact ⟨⟨.recursionLimit,'{' :: rest,1⟩,by simp [readValue,found,innerReader],rfl⟩
  | succ depth =>
    have opened : readValue (innerReader (depth + 1)) text =
        (do let (members,left) ← readObject (valueReader depth) rest; return (.object members,left)) := by
      simp [readValue,found,innerReader]
    rw [opened]
    refine ((inside depth).bind_ok ?_).congr ?_
    · rfl
    · simp [Value.nesting]

theorem NumberEnds.blank_append {after : List Char} (blank : Blank after) (ends : NumberEnds rest) :
    NumberEnds (after ++ rest) := by
  cases after with
  | nil => exact ends
  | cons c after =>
    intro d head
    obtain rfl : c = d := by simpa using head
    have white := blank c List.mem_cons_self
    simp only [isBlank,Bool.or_eq_true,beq_iff_eq] at white
    rcases white with ((rfl | rfl) | rfl) | rfl <;> decide

theorem numberEnds_mark {c : Char} (mark : c = ',' ∨ c = ']' ∨ c = '}') :
    NumberEnds (c :: rest) := by
  rintro d head
  obtain rfl : c = d := by simpa using head
  rcases mark with rfl | rfl | rfl <;> decide

theorem Numeral.Formed.head_spelling {numeral : Numeral} (formed : numeral.Formed) :
    ∃ c others, numeral.spelling = c :: others ∧ (c = '-' ∨ c.isDigit = true) := by
  obtain ⟨d,others,starts,digit⟩ := formed.head_whole
  rcases formed.sign with same | same
  · rw [spelling,same,starts]
    exact ⟨d,_,rfl,.inr digit⟩
  · rw [spelling,same]
    exact ⟨'-',_,rfl,.inl rfl⟩

/-- A value does not start with a blank, nor with the bracket that would end an array. -/
theorem Spells.head (spelled : Spells value text) :
    ∃ c others, text = c :: others ∧ isBlank c = false ∧ c ≠ ']' := by
  cases spelled with
  | number formed inRange =>
    obtain ⟨c,others,starts,sign | digit⟩ := formed.head_spelling
    · exact ⟨c,others,starts,by rw [sign]; decide,by rw [sign]; decide⟩
    · refine ⟨c,others,starts,?_,?_⟩
      · simp only [isBlank,Bool.or_eq_false_iff,beq_eq_false_iff_ne]
        refine ⟨⟨⟨?_,?_⟩,?_⟩,?_⟩ <;> (rintro rfl; simp at digit)
      · rintro rfl
        simp at digit
  | _ => exact ⟨_,_,rfl,by decide,by decide⟩

theorem Spells.skipBlank_append (spelled : Spells value text) (rest : List Char) :
    skipBlank (text ++ rest) = text ++ rest := by
  obtain ⟨c,others,rfl,dark,_⟩ := spelled.head
  exact skipBlank_of_head dark

theorem Writes.skipBlank_append (written : Writes value text) (rest : List Char) :
    ∃ c others, skipBlank (text ++ rest) = c :: others ∧ c ≠ ']' := by
  obtain ⟨left,spelled,_⟩ := written
  obtain ⟨c,others,rfl,dark,noClose⟩ := spelled.head
  rw [List.append_assoc,List.append_assoc,Json.skipBlank_append left]
  exact ⟨c,_,skipBlank_of_head dark,noClose⟩

theorem WritesItems.skipBlank_append {items : List Value} (written : WritesItems items text)
    (rest : List Char) : ∃ c others, skipBlank (text ++ rest) = c :: others ∧ c ≠ ']' := by
  cases written with
  | last item => exact item.skipBlank_append rest
  | more item others =>
    rw [List.append_assoc]
    exact item.skipBlank_append _

/-! What it means that a text is read, for each part of the grammar. The texts of items and members
are read together with the bracket that closes them. -/

section Readings

variable {text before after rest : List Char} {value : Value} {values : List Value}
  {member : String × Value} {members : List (String × Value)}

def ReadsBare (value : Value) (text : List Char) : Prop :=
  ∀ {rest front : List Char} {depth : Nat}, skipBlank front = text ++ rest →
    (∀ spelling, value = .number spelling → NumberEnds rest) →
      Meets ((valueReader depth).run front) (value.nesting ≤ depth) value rest

def ReadsPadded (value : Value) (text : List Char) : Prop :=
  ∀ {rest : List Char} {depth : Nat}, NumberEnds rest → ∃ after, Blank after ∧
    Meets ((valueReader depth).run (text ++ rest)) (value.nesting ≤ depth) value (after ++ rest)

def ReadsItems (items : List Value) (text : List Char) : Prop :=
  ∀ {rest : List Char} {depth : Nat}, Meets (readItems (valueReader depth) (text ++ ']' :: rest))
    (nestingOfItems items ≤ depth) items rest

def ReadsMember (member : String × Value) (text : List Char) : Prop :=
  ∃ inner, (∀ rest, skipBlank (text ++ rest) = '"' :: (inner ++ rest)) ∧
    ∀ {rest : List Char} {depth : Nat}, NumberEnds rest → ∃ after, Blank after ∧
      Meets (readMember (valueReader depth) (inner ++ rest)) (member.2.nesting ≤ depth) member
        (after ++ rest)

def ReadsMembers (members : List (String × Value)) (text : List Char) : Prop :=
  ∃ inner, (∀ rest, skipBlank (text ++ rest) = '"' :: (inner ++ rest)) ∧
    ∀ {rest : List Char} {depth : Nat}, Meets (readMembers (valueReader depth) (inner ++ '}' :: rest))
      (nestingOfMembers members ≤ depth) members rest

theorem skipBlank_mark {c : Char} (blank : Blank after) (dark : isBlank c = false) :
    skipBlank (after ++ c :: rest) = c :: rest :=
  (skipBlank_append blank).trans (skipBlank_of_head dark)

theorem readsBare_word {word : List Char} {c : Char} (simple : value.nesting = 0)
    (starts : ∀ {text rest}, skipBlank text = c :: rest → ∀ inner,
      readValue inner text = readWord value word rest) : ReadsBare value (c :: word) := by
  intro rest front depth found _
  rw [List.cons_append] at found
  have spelled : readWord value word (word ++ rest) = .ok (value,rest) := by
    clear starts found
    induction word <;> simp_all [readWord]
  rw [valueReader_run,starts found,spelled]
  exact (Meets.ok value rest).congr (by simp [simple])

theorem readsBare_number {numeral : Numeral} (formed : numeral.Formed) (inRange : numeral.InRange) :
    ReadsBare (.number (String.ofList numeral.spelling)) numeral.spelling := by
  intro rest front depth found ends
  obtain ⟨c,others,starts,sign⟩ := formed.head_spelling
  have whole := readNumber_append formed inRange (ends _ rfl)
  rw [starts,List.cons_append] at found whole
  rw [valueReader_run,readValue_number found sign,whole,← starts]
  exact (Meets.ok _ rest).congr (by simp [Value.nesting])

theorem readsBare_string {string : String} (chars : SpellsChars string.toList text) :
    ReadsBare (.string string) ('"' :: text ++ ['"']) := by
  intro rest front depth found _
  simp only [List.cons_append,List.append_assoc,List.nil_append] at found
  rw [valueReader_run,readValue_string found,readString_append chars]
  exact (Meets.ok _ rest).congr (by simp [Value.nesting])

theorem readsBare_emptyArray (blank : Blank text) : ReadsBare (.array []) ('[' :: text ++ [']']) := by
  intro rest front depth found _
  simp only [List.cons_append,List.append_assoc,List.nil_append] at found
  refine meets_array found fun depth => ?_
  rw [readArray_close (skipBlank_append blank)]
  exact (Meets.ok _ rest).congr (by simp [nestingOfItems])

theorem readsBare_array (inside : WritesItems values text) (reads : ReadsItems values text) :
    ReadsBare (.array values) ('[' :: text ++ [']']) := by
  intro rest front depth found _
  simp only [List.cons_append,List.append_assoc,List.nil_append] at found
  obtain ⟨c,others,starts,noClose⟩ := inside.skipBlank_append (']' :: rest)
  refine meets_array found fun depth => ?_
  rw [readArray_items starts noClose]
  exact reads

theorem readsBare_emptyObject (blank : Blank text) : ReadsBare (.object []) ('{' :: text ++ ['}']) := by
  intro rest front depth found _
  simp only [List.cons_append,List.append_assoc,List.nil_append] at found
  refine meets_object found fun depth => ?_
  rw [readObject_close (skipBlank_append blank)]
  exact (Meets.ok _ rest).congr (by simp [nestingOfMembers])

theorem readsBare_object (reads : ReadsMembers members text) :
    ReadsBare (.object members) ('{' :: text ++ ['}']) := by
  intro rest front depth found _
  simp only [List.cons_append,List.append_assoc,List.nil_append] at found
  obtain ⟨name,starts,read⟩ := reads
  refine meets_object found fun depth => ?_
  rw [readObject_members (starts _)]
  exact read

theorem readsPadded (left : Blank before) (spelled : Spells value text) (right : Blank after)
    (reads : ReadsBare value text) : ReadsPadded value (before ++ (text ++ after)) := by
  intro rest depth ends
  refine ⟨after,right,reads ?_ fun _ _ => ends.blank_append right⟩
  rw [List.append_assoc,List.append_assoc,skipBlank_append left,spelled.skipBlank_append]

theorem meets_readItems {reader : Reader Value} {left : List Char} {fits fits' : Prop}
    (first : Meets (reader.run text) fits value left)
    (others : Meets (moreItems reader left) fits' values rest) :
    Meets (readItems reader text) (fits ∧ fits') (value :: values) rest :=
  first.bind (others.bind_ok rfl)

theorem meets_readMembers {reader : Reader Value} {left : List Char} {fits fits' : Prop}
    (first : Meets (readMember reader text) fits member left)
    (others : Meets (moreMembers reader left) fits' members rest) :
    Meets (readMembers reader text) (fits ∧ fits') (member :: members) rest :=
  first.bind (others.bind_ok rfl)

theorem readsItems_last (reads : ReadsPadded value text) : ReadsItems [value] text := by
  intro rest depth
  obtain ⟨after,blank,first⟩ := @reads (']' :: rest) depth (numberEnds_mark (.inr (.inl rfl)))
  have closing : moreItems (valueReader depth) (after ++ ']' :: rest) = .ok ([],rest) :=
    moreItems_close (skipBlank_mark blank (by decide))
  refine (meets_readItems first (closing ▸ Meets.ok [] rest)).congr ?_
  simp [nestingOfItems]

theorem readsItems_more {later : List Char} (item : ReadsPadded value text)
    (written : WritesItems values later) (others : ReadsItems values later) :
    ReadsItems (value :: values) (text ++ ',' :: later) := by
  intro rest depth
  obtain ⟨after,blank,first⟩ := @item (',' :: (later ++ ']' :: rest)) depth (numberEnds_mark (.inl rfl))
  have comma : moreItems (valueReader depth) (after ++ ',' :: (later ++ ']' :: rest)) =
      readItems (valueReader depth) (later ++ ']' :: rest) := by
    obtain ⟨c,tail,starts,noClose⟩ := written.skipBlank_append (']' :: rest)
    refine moreItems_comma (skipBlank_mark blank (by decide)) fun tail' closing => ?_
    rw [starts] at closing
    exact noClose (List.cons.inj closing).1
  rw [List.append_assoc,List.cons_append]
  refine (meets_readItems first (comma ▸ others)).congr ?_
  rw [nestingOfItems,Nat.max_le]

theorem readsMember {name : String} {spelling : List Char} (left : Blank before)
    (chars : SpellsChars name.toList spelling) (right : Blank after) (inside : ReadsPadded value text) :
    ReadsMember (name,value) (before ++ '"' :: (spelling ++ '"' :: (after ++ ':' :: text))) := by
  refine ⟨spelling ++ '"' :: (after ++ ':' :: text),fun rest => ?_,fun {rest depth} ends => ?_⟩
  · rw [List.append_assoc,List.cons_append,skipBlank_mark left (by decide)]
  · obtain ⟨behind,blank,read⟩ := @inside rest depth ends
    have colon : skipBlank (after ++ ':' :: (text ++ rest)) = ':' :: (text ++ rest) :=
      skipBlank_mark right (by decide)
    refine ⟨behind,blank,?_⟩
    simp only [readMember,List.append_assoc,List.cons_append,readString_append chars,ok_bind,colon]
    exact read.bind_ok rfl

theorem readsMembers_last (only : ReadsMember member text) : ReadsMembers [member] text := by
  obtain ⟨inner,starts,read⟩ := only
  refine ⟨inner,starts,fun {rest depth} => ?_⟩
  obtain ⟨after,blank,first⟩ := @read ('}' :: rest) depth (numberEnds_mark (.inr (.inr rfl)))
  have closing : moreMembers (valueReader depth) (after ++ '}' :: rest) = .ok ([],rest) :=
    moreMembers_close (skipBlank_mark blank (by decide))
  refine (meets_readMembers first (closing ▸ Meets.ok [] rest)).congr ?_
  simp [nestingOfMembers]

theorem readsMembers_more {later : List Char} (first : ReadsMember member text)
    (others : ReadsMembers members later) :
    ReadsMembers (member :: members) (text ++ ',' :: later) := by
  obtain ⟨inner,starts,read⟩ := first
  obtain ⟨name,startsLater,readLater⟩ := others
  refine ⟨inner ++ ',' :: later,fun rest => ?_,fun {rest depth} => ?_⟩
  · rw [List.append_assoc,starts,List.append_assoc]
  · obtain ⟨after,blank,first⟩ :=
      @read (',' :: (later ++ '}' :: rest)) depth (numberEnds_mark (.inl rfl))
    have comma : moreMembers (valueReader depth) (after ++ ',' :: (later ++ '}' :: rest)) =
        readMembers (valueReader depth) (name ++ '}' :: rest) :=
      moreMembers_comma (skipBlank_mark blank (by decide)) (startsLater _)
    rw [List.append_assoc,List.cons_append]
    refine (meets_readMembers first (comma ▸ readLater)).congr ?_
    rw [nestingOfMembers,Nat.max_le]

end Readings

mutual

/-- A value at the front of a text is read, whatever follows it; only a number must not be
continued. -/
theorem Spells.reads : ∀ {value : Value} {text : List Char}, Spells value text → ReadsBare value text
  | _,_,.null => readsBare_word rfl fun found inner => by simp [readValue,found]
  | _,_,.truth => readsBare_word rfl fun found inner => by simp [readValue,found]
  | _,_,.falsity => readsBare_word rfl fun found inner => by simp [readValue,found]
  | _,_,.number formed inRange => readsBare_number formed inRange
  | _,_,.string chars => readsBare_string chars
  | _,_,.emptyArray blank => readsBare_emptyArray blank
  | _,_,.array inside => readsBare_array inside inside.reads
  | _,_,.emptyObject blank => readsBare_emptyObject blank
  | _,_,.object inside => readsBare_object inside.reads

theorem Writes.reads : ∀ {value : Value} {text : List Char}, Writes value text → ReadsPadded value text
  | _,_,.intro left spelled right => readsPadded left spelled right spelled.reads

theorem WritesItems.reads :
    ∀ {items : List Value} {text : List Char}, WritesItems items text → ReadsItems items text
  | _,_,.last item => readsItems_last item.reads
  | _,_,.more item others => readsItems_more item.reads others others.reads

theorem WritesMember.reads :
    ∀ {member : String × Value} {text : List Char}, WritesMember member text → ReadsMember member text
  | _,_,.intro left chars right inside => readsMember left chars right inside.reads

theorem WritesMembers.reads :
    ∀ {members : List (String × Value)} {text : List Char}, WritesMembers members text →
      ReadsMembers members text
  | _,_,.last only => readsMembers_last only.reads
  | _,_,.more first others => readsMembers_more first.reads others.reads

end

/-- A whole text is read as its value, with nothing but blanks left, or it nests too deep and the
reader says so. -/
theorem Writes.meets_readFront (written : Writes value text) :
    ∃ after, skipBlank after = [] ∧
      Meets (readFront text) (value.nesting ≤ nestingLimit) value after := by
  obtain ⟨after,blank,read⟩ := @Writes.reads _ _ written [] nestingLimit (by simp [NumberEnds])
  rw [List.append_nil,List.append_nil] at read
  exact ⟨after,skipBlank_blank blank,read⟩

/-- A text that nests no deeper than allowed writes a single value. -/
theorem Writes.unique {other : Value} (written : Writes value text)
    (fits : value.nesting ≤ nestingLimit) : Writes other text ↔ other = value := by
  refine ⟨fun written' => ?_,fun same => same ▸ written⟩
  obtain ⟨_,_,meets⟩ := written.meets_readFront
  obtain ⟨_,_,meets'⟩ := written'.meets_readFront
  have read := meets.reads fits
  by_cases fits' : other.nesting ≤ nestingLimit
  · rw [meets'.reads fits'] at read
    cases read
    rfl
  · obtain ⟨_,stopped,_⟩ := meets'.stops fits'
    rw [stopped] at read
    contradiction

end TreeQuery.Json
