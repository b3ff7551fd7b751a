import Mathlib.Data.List.TakeWhile
import TreeQuery.Proofs.Json.Reading

/-! The reader takes nothing but texts of the grammar. What it uses up in front of what it leaves is a
text of the value it finds. Together with the other direction, a text is read as a value if and only
if it writes the value and its brackets nest no deeper than allowed (`reads_iff_writes`). -/
namespace TreeQuery.Json

variable {c : Char} {text rest digits : List Char} {value : Value}

/-! Strings. -/

theorem hexValue?_bound {value : Nat} (digit : hexValue? c = some value) : value < 16 := by
  have order : ∀ d : Char, c ≤ d → c.toNat ≤ d.toNat := fun _ below => below
  unfold hexValue? at digit
  split_ifs at digit with range range range
  all_goals
    have top := order _ range.2
    cases digit
    simp at top ⊢
    omega

theorem SpellsUnit.bound {code : Nat} (spelled : SpellsUnit code digits) : code < 0x10000 := by
  obtain ⟨values,each,length,rfl⟩ := spelled
  have small : ∀ value ∈ values, value < 16 := by
    have both := (each.imp fun digit value found => And.intro (hexValue?_bound found) found).flip
    exact ((List.forall₂_and_left _ _).mp both).1
  obtain ⟨p,q,r,s,rfl⟩ := List.length_eq_four.mp length
  simp at small
  simp [hexNumber]
  omega

theorem readHex_sound {code : Nat} (read : readHex text = .ok (code,rest)) :
    ∃ digits, text = digits ++ rest ∧ SpellsUnit code digits := by
  unfold readHex at read
  split at read
  · rename_i a b c d left
    split at read
    · rename_i p q r s first second third fourth
      cases read
      refine ⟨[a,b,c,d],rfl,[p,q,r,s],?_,rfl,rfl⟩
      exact .cons first (.cons second (.cons third (.cons fourth .nil)))
    · simp at read
  · split at read <;> simp at read

theorem toNat_ofNat {code : Nat} (valid : code.isValidChar) : (Char.ofNat code).toNat = code := by
  rw [Char.ofNat,dif_pos valid]
  rfl

theorem toNat_ofNat_of_plain {code : Nat} (small : code < 0x10000)
    (noLow : ¬ isLowSurrogate code = true) (noHigh : ¬ isHighSurrogate code = true) :
    (Char.ofNat code).toNat = code := by
  have valid : code.isValidChar := by
    simp [isLowSurrogate,isHighSurrogate] at noLow noHigh
    unfold Nat.isValidChar
    omega
  exact toNat_ofNat valid

theorem toNat_surrogatePair {high low : Nat} (isHigh : isHighSurrogate high = true)
    (isLow : isLowSurrogate low = true) :
    (surrogatePair high low).toNat = 0x10000 + (high - 0xd800) * 0x400 + (low - 0xdc00) := by
  have valid : (0x10000 + (high - 0xd800) * 0x400 + (low - 0xdc00)).isValidChar := by
    simp [isLowSurrogate,isHighSurrogate] at isLow isHigh
    unfold Nat.isValidChar
    omega
  rw [surrogatePair,toNat_ofNat valid]

theorem readLowSurrogate_sound {high : Nat} {first : List Char} (unit : SpellsUnit high first)
    (isHigh : isHighSurrogate high = true) (read : readLowSurrogate high text = .ok (c,rest)) :
    ∃ tail, text = tail ++ rest ∧ SpellsChar c ('\\' :: 'u' :: first ++ tail) := by
  unfold readLowSurrogate at read
  split at read
  · obtain ⟨⟨low,left⟩,lowRead,next⟩ := bind_eq_ok_iff.mp read
    obtain ⟨second,rfl,lowUnit⟩ := readHex_sound lowRead
    simp only at next
    split at next
    · rename_i isLow
      simp only [Except.ok.injEq,Prod.mk.injEq] at next
      obtain ⟨rfl,rfl⟩ := next
      have together := toNat_surrogatePair isHigh isLow
      exact ⟨'\\' :: 'u' :: second,by simp,.pair unit lowUnit isHigh isLow together⟩
    · cases next
  · exact absurd read stopAt_not_ok
  · exact absurd read stopAt_not_ok

theorem readCodePoint_sound (read : readCodePoint text = .ok (c,rest)) :
    ∃ digits, text = digits ++ rest ∧ SpellsChar c ('\\' :: 'u' :: digits) := by
  obtain ⟨⟨code,left⟩,codeRead,next⟩ := bind_eq_ok_iff.mp read
  obtain ⟨first,rfl,unit⟩ := readHex_sound codeRead
  simp only at next
  split at next
  · cases next
  rename_i noLow
  split at next
  · rename_i isHigh
    obtain ⟨tail,rfl,spelled⟩ := readLowSurrogate_sound unit isHigh next
    exact ⟨first ++ tail,by simp,spelled⟩
  · rename_i noHigh
    cases next
    exact ⟨first,rfl,.code ((toNat_ofNat_of_plain unit.bound noLow noHigh).symm ▸ unit)⟩

theorem readEscape_sound (read : readEscape text = .ok (c,rest)) :
    ∃ tail, text = tail ++ rest ∧ SpellsChar c ('\\' :: tail) := by
  cases text with
  | nil => simp [readEscape] at read
  | cons mark text =>
    simp only [readEscape] at read
    split at read
    · rename_i same
      obtain ⟨digits,rfl,spelled⟩ := readCodePoint_sound read
      exact ⟨mark :: digits,rfl,same ▸ spelled⟩
    · split at read
      · rename_i d escape
        cases read
        exact ⟨[mark],rfl,.short escape⟩
      · simp at read

theorem readUnit_sound {unit : Option Char} (read : readUnit text = .ok (unit,rest)) :
    unit = none ∧ text = '"' :: rest ∨
      ∃ c spelling, unit = some c ∧ text = spelling ++ rest ∧ SpellsChar c spelling := by
  cases text with
  | nil => simp [readUnit] at read
  | cons d text =>
    simp only [readUnit] at read
    split at read
    · rename_i same
      cases read
      exact .inl ⟨rfl,same ▸ rfl⟩
    split at read
    · rename_i same
      obtain ⟨⟨c,left⟩,escapeRead,next⟩ := bind_eq_ok_iff.mp read
      obtain ⟨tail,rfl,spelled⟩ := readEscape_sound escapeRead
      cases next
      exact .inr ⟨c,d :: tail,rfl,rfl,same ▸ spelled⟩
    split at read
    · simp at read
    · rename_i noQuote noBackslash printable
      cases read
      exact .inr ⟨d,[d],rfl,rfl,.plain noQuote noBackslash (Nat.not_lt.mp printable)⟩

theorem readChars_sound {before : List Char} {string : String}
    (read : readChars before text = .ok (string,rest)) :
    ∃ chars spelling, text = spelling ++ '"' :: rest ∧ SpellsChars chars spelling ∧
      string = String.ofList (before.reverse ++ chars) := by
  fun_induction readChars before text with
  | case1 => simp at read
  | case2 before text left unitRead =>
    cases read
    obtain ⟨_,rfl⟩ | ⟨c,spelling,none,_⟩ := readUnit_sound unitRead
    · exact ⟨[],[],rfl,.nil,by simp⟩
    · cases none
  | case3 before text c left unitRead ih =>
    obtain ⟨chars,later,rfl,others,rfl⟩ := ih read
    obtain ⟨none,_⟩ | ⟨d,spelling,same,rfl,first⟩ := readUnit_sound unitRead
    · cases none
    · cases same
      exact ⟨c :: chars,spelling ++ later,by simp,.cons first others,by simp⟩

theorem readString_sound {string : String} (read : readString text = .ok (string,rest)) :
    ∃ spelling, text = spelling ++ '"' :: rest ∧ SpellsChars string.toList spelling := by
  obtain ⟨chars,spelling,split,spelled,rfl⟩ := readChars_sound read
  exact ⟨spelling,split,by simpa using spelled⟩

/-! Numbers. -/

theorem readDigits_sound (read : readDigits text = .ok (digits,rest)) :
    text = digits ++ rest ∧ Digits digits ∧ digits ≠ [] := by
  unfold readDigits at read
  split at read
  · exact absurd read stopAt_not_ok
  · rename_i filled
    cases read
    refine ⟨List.takeWhile_append_dropWhile.symm,fun c member => List.mem_takeWhile_imp member,?_⟩
    simpa [List.isEmpty_iff] using filled

theorem readWhole_sound {whole : List Char} (read : readWhole text = .ok (whole,rest)) :
    text = whole ++ rest ∧
      (whole = ['0'] ∨ Digits whole ∧ whole ≠ [] ∧ whole.head? ≠ some '0') := by
  unfold readWhole at read
  split at read
  · split at read
    · cases read
      exact ⟨rfl,.inl rfl⟩
    · exact absurd read stopAt_not_ok
  · rename_i noZero
    obtain ⟨rfl,all,filled⟩ := readDigits_sound read
    obtain ⟨d,others,rfl⟩ := List.exists_cons_of_ne_nil filled
    refine ⟨rfl,.inr ⟨all,filled,fun zero => noZero (others ++ rest) ?_⟩⟩
    cases zero
    rfl

theorem readFraction_sound {fraction : List Char} (read : readFraction text = .ok (fraction,rest)) :
    text = (if fraction.isEmpty then [] else '.' :: fraction) ++ rest ∧ Digits fraction := by
  unfold readFraction at read
  split at read
  · obtain ⟨rfl,all,filled⟩ := readDigits_sound read
    simp [filled,all]
  · cases read
    simp [Digits]

theorem exponentMark_sound {mark : List Char} (found : exponentMark text = (mark,rest)) :
    text = mark ++ rest ∧
      (mark = [] ∨ mark ∈ [['e'],['e','+'],['e','-'],['E'],['E','+'],['E','-']]) := by
  unfold exponentMark at found
  split at found <;> cases found <;> simp

theorem readExponent_sound {mark exponent : List Char}
    (read : readExponent text = .ok ((mark,exponent),rest)) :
    text = mark ++ (exponent ++ rest) ∧ (mark = [] ∧ exponent = [] ∨
      mark ∈ [['e'],['e','+'],['e','-'],['E'],['E','+'],['E','-']] ∧
        Digits exponent ∧ exponent ≠ []) := by
  unfold readExponent at read
  split at read
  · cases read
    exact ⟨rfl,.inl ⟨rfl,rfl⟩⟩
  · rename_i taken left filled found
    obtain ⟨⟨digits,behind⟩,digitsRead,last⟩ := bind_eq_ok_iff.mp read
    obtain ⟨rfl,all,some⟩ := readDigits_sound digitsRead
    obtain ⟨rfl,listed⟩ := exponentMark_sound found
    cases last
    exact ⟨rfl,.inr ⟨listed.resolve_left filled,all,some⟩⟩

theorem signOf_sound (text : List Char) :
    text = (signOf text).1 ++ (signOf text).2 ∧ ((signOf text).1 = [] ∨ (signOf text).1 = ['-']) := by
  unfold signOf
  split <;> simp

theorem readNumeral_sound {numeral : Numeral} (read : readNumeral text = .ok (numeral,rest)) :
    text = numeral.spelling ++ rest ∧ numeral.Formed := by
  obtain ⟨⟨whole,afterWhole⟩,wholeRead,next⟩ := bind_eq_ok_iff.mp read
  obtain ⟨⟨fraction,afterFraction⟩,fractionRead,next⟩ := bind_eq_ok_iff.mp next
  obtain ⟨⟨⟨mark,exponent⟩,left⟩,exponentRead,next⟩ := bind_eq_ok_iff.mp next
  cases next
  obtain ⟨split,sign⟩ := signOf_sound text
  obtain ⟨first,wholeFormed⟩ := readWhole_sound wholeRead
  obtain ⟨second,fractionFormed⟩ := readFraction_sound fractionRead
  obtain ⟨third,exponentFormed⟩ := readExponent_sound exponentRead
  rw [first,second,third] at split
  exact ⟨by simpa [Numeral.spelling] using split,sign,wholeFormed,fractionFormed,exponentFormed⟩

theorem readNumber_sound (read : readNumber text = .ok (value,rest)) :
    ∃ spelled, text = spelled ++ rest ∧ Spells value spelled ∧ value.nesting = 0 := by
  obtain ⟨⟨numeral,left⟩,numeralRead,next⟩ := bind_eq_ok_iff.mp read
  obtain ⟨_,checked,next⟩ := bind_eq_ok_iff.mp next
  cases next
  obtain ⟨split,formed⟩ := readNumeral_sound numeralRead
  exact ⟨numeral.spelling,split,.number formed (Numeral.check_eq_ok_iff.mp checked),rfl⟩

/-! Values. What a reader uses up is a value with blanks in front only: those behind it are left for
the loop around it. -/

/-- A text of a value, with blanks allowed in front of it. -/
def Leads (value : Value) (text : List Char) : Prop :=
  ∃ before spelled, Blank before ∧ Spells value spelled ∧ text = before ++ spelled

/-- A text of a member from its opening quote on, with no blanks behind it. -/
def LeadsMember (member : String × Value) (text : List Char) : Prop :=
  ∃ spelling after inside, SpellsChars member.1.toList spelling ∧ Blank after ∧
    Leads member.2 inside ∧ text = '"' :: (spelling ++ '"' :: (after ++ ':' :: inside))

/-- A reader that takes values of the grammar only, with brackets no deeper than `depth`. -/
def Reader.Sound (reader : Reader Value) (depth : Nat) : Prop :=
  ∀ {text rest : List Char} {value : Value}, reader.run text = .ok (value,rest) →
    ∃ used, text = used ++ rest ∧ Leads value used ∧ value.nesting ≤ depth

variable {reader : Reader Value} {depth : Nat} {values : List Value} {member : String × Value}
  {members : List (String × Value)} {before after : List Char}

theorem Leads.writes (leads : Leads value text) (right : Blank after) :
    Writes value (text ++ after) := by
  obtain ⟨before,spelled,left,spells,rfl⟩ := leads
  rw [List.append_assoc]
  exact .intro left spells right

theorem LeadsMember.writes (leads : LeadsMember member text) (left : Blank before)
    (right : Blank after) : WritesMember member (before ++ (text ++ after)) := by
  obtain ⟨spelling,colon,inside,chars,blank,value,rfl⟩ := leads
  simpa using WritesMember.intro left chars blank (value.writes right)

theorem skipBlank_split (found : skipBlank text = rest) :
    ∃ before, Blank before ∧ text = before ++ rest :=
  ⟨text.takeWhile isBlank,fun _ => List.mem_takeWhile_imp,
    found ▸ List.takeWhile_append_dropWhile.symm⟩

theorem moreItems_sound (sound : reader.Sound depth)
    (read : moreItems reader text = .ok (values,rest)) :
    ∃ inside, text = inside ++ ']' :: rest ∧ nestingOfItems values ≤ depth ∧
      ∀ {value front}, Leads value front → WritesItems (value :: values) (front ++ inside) := by
  fun_induction moreItems reader text generalizing values with
  | case1 => simp at read
  | case2 text left found =>
    cases read
    obtain ⟨before,blank,rfl⟩ := skipBlank_split found
    exact ⟨before,rfl,Nat.zero_le _,fun leads => .last (leads.writes blank)⟩
  | case3 => simp at read
  | case4 => simp at read
  | case5 text left value last valueRead _ found _ ih =>
    obtain ⟨⟨others,final⟩,othersRead,next⟩ := bind_eq_ok_iff.mp read
    cases next
    obtain ⟨inside,rfl,fits,written⟩ := ih othersRead
    obtain ⟨used,rfl,leads,low⟩ := sound valueRead
    obtain ⟨before,blank,rfl⟩ := skipBlank_split found
    refine ⟨before ++ ',' :: (used ++ inside),by simp,Nat.max_le.mpr ⟨low,fits⟩,fun first => ?_⟩
    simpa using WritesItems.more (first.writes blank) (written leads)
  | case6 => simp at read

theorem readArray_sound (sound : reader.Sound depth)
    (read : readArray reader text = .ok (values,rest)) :
    ∃ inside, text = inside ++ ']' :: rest ∧ nestingOfItems values ≤ depth ∧
      Spells (.array values) ('[' :: inside ++ [']']) := by
  unfold readArray at read
  split at read
  · simp at read
  · rename_i found
    cases read
    obtain ⟨before,blank,rfl⟩ := skipBlank_split found
    exact ⟨before,rfl,Nat.zero_le _,.emptyArray blank⟩
  · obtain ⟨⟨value,left⟩,valueRead,next⟩ := bind_eq_ok_iff.mp read
    obtain ⟨⟨others,final⟩,othersRead,next⟩ := bind_eq_ok_iff.mp next
    cases next
    obtain ⟨inside,rfl,fits,written⟩ := moreItems_sound sound othersRead
    obtain ⟨used,rfl,leads,low⟩ := sound valueRead
    exact ⟨used ++ inside,by simp,Nat.max_le.mpr ⟨low,fits⟩,.array (written leads)⟩

theorem readMember_sound (sound : reader.Sound depth)
    (read : readMember reader text = .ok (member,rest)) :
    ∃ used, text = used ++ rest ∧ member.2.nesting ≤ depth ∧ LeadsMember member ('"' :: used) := by
  obtain ⟨⟨name,left⟩,nameRead,next⟩ := bind_eq_ok_iff.mp read
  obtain ⟨spelling,rfl,chars⟩ := readString_sound nameRead
  simp only at next
  split at next
  · rename_i found
    obtain ⟨⟨value,last⟩,valueRead,next⟩ := bind_eq_ok_iff.mp next
    cases next
    obtain ⟨used,rfl,leads,low⟩ := sound valueRead
    obtain ⟨before,blank,rfl⟩ := skipBlank_split found
    exact ⟨spelling ++ '"' :: (before ++ ':' :: used),by simp,low,
      spelling,before,used,chars,blank,leads,rfl⟩
  · exact absurd next stopAt_not_ok

theorem moreMembers_sound (sound : reader.Sound depth)
    (read : moreMembers reader text = .ok (members,rest)) :
    ∃ inside, text = inside ++ '}' :: rest ∧ nestingOfMembers members ≤ depth ∧
      ∀ {member before front}, Blank before → LeadsMember member front →
        WritesMembers (member :: members) (before ++ (front ++ inside)) := by
  fun_induction moreMembers reader text generalizing members with
  | case1 => simp at read
  | case2 text left found =>
    cases read
    obtain ⟨after,blank,rfl⟩ := skipBlank_split found
    exact ⟨after,rfl,Nat.zero_le _,fun left leads => .last (leads.writes left blank)⟩
  | case3 => simp at read
  | case4 text left inner name member last memberRead found _ ih =>
    obtain ⟨⟨others,final⟩,othersRead,next⟩ := bind_eq_ok_iff.mp read
    cases next
    obtain ⟨inside,rfl,fits,written⟩ := ih othersRead
    obtain ⟨used,rfl,low,leads⟩ := readMember_sound sound memberRead
    obtain ⟨middle,white,rfl⟩ := skipBlank_split name
    obtain ⟨after,blank,rfl⟩ := skipBlank_split found
    refine ⟨after ++ ',' :: (middle ++ '"' :: (used ++ inside)),by simp,
      Nat.max_le.mpr ⟨low,fits⟩,fun left first => ?_⟩
    simpa using WritesMembers.more (first.writes left blank) (written white leads)
  | case5 => simp at read
  | case6 => exact absurd read stopAt_not_ok
  | case7 => simp at read

theorem readObject_sound (sound : reader.Sound depth)
    (read : readObject reader text = .ok (members,rest)) :
    ∃ inside, text = inside ++ '}' :: rest ∧ nestingOfMembers members ≤ depth ∧
      Spells (.object members) ('{' :: inside ++ ['}']) := by
  unfold readObject at read
  split at read
  · rename_i found
    cases read
    obtain ⟨before,blank,rfl⟩ := skipBlank_split found
    exact ⟨before,rfl,Nat.zero_le _,.emptyObject blank⟩
  · rename_i found
    obtain ⟨⟨member,left⟩,memberRead,next⟩ := bind_eq_ok_iff.mp read
    obtain ⟨⟨others,final⟩,othersRead,next⟩ := bind_eq_ok_iff.mp next
    cases next
    obtain ⟨inside,rfl,fits,written⟩ := moreMembers_sound sound othersRead
    obtain ⟨used,rfl,low,leads⟩ := readMember_sound sound memberRead
    obtain ⟨before,blank,rfl⟩ := skipBlank_split found
    refine ⟨before ++ '"' :: (used ++ inside),by simp,Nat.max_le.mpr ⟨low,fits⟩,.object ?_⟩
    simpa using written blank leads
  · exact absurd read stopAt_not_ok

theorem readWord_sound {word : List Char} {result : Value}
    (read : readWord value word text = .ok (result,rest)) : text = word ++ rest ∧ result = value := by
  induction word generalizing text with
  | nil =>
    cases read
    exact ⟨rfl,rfl⟩
  | cons c word ih =>
    cases text with
    | nil => simp [readWord] at read
    | cons d text =>
      simp only [readWord] at read
      split at read
      · rename_i same
        obtain ⟨rfl,settled⟩ := ih read
        exact ⟨same ▸ rfl,settled⟩
      · simp at read

/-- What a value uses up behind the blanks. -/
theorem readValue_sound {inner : Option (Reader Value)}
    (sound : ∀ reader ∈ inner, ∃ below < depth, reader.Sound below)
    (read : readValue inner text = .ok (value,rest)) :
    ∃ spelled, skipBlank text = spelled ++ rest ∧ Spells value spelled ∧ value.nesting ≤ depth := by
  unfold readValue at read
  split at read
  · simp at read
  · obtain ⟨rfl,rfl⟩ := readWord_sound read
    rename_i found
    exact ⟨_,found,.null,Nat.zero_le _⟩
  · obtain ⟨rfl,rfl⟩ := readWord_sound read
    rename_i found
    exact ⟨_,found,.truth,Nat.zero_le _⟩
  · obtain ⟨rfl,rfl⟩ := readWord_sound read
    rename_i found
    exact ⟨_,found,.falsity,Nat.zero_le _⟩
  · rename_i found
    obtain ⟨⟨string,left⟩,stringRead,next⟩ := bind_eq_ok_iff.mp read
    cases next
    obtain ⟨spelling,rfl,chars⟩ := readString_sound stringRead
    exact ⟨_,by simpa using found,.string chars,Nat.zero_le _⟩
  · rename_i found
    split at read
    · simp at read
    · rename_i reader
      obtain ⟨below,less,sound⟩ := sound reader rfl
      obtain ⟨⟨values,left⟩,valuesRead,next⟩ := bind_eq_ok_iff.mp read
      cases next
      obtain ⟨inside,rfl,fits,spells⟩ := readArray_sound sound valuesRead
      exact ⟨_,by simpa using found,spells,Nat.lt_of_le_of_lt fits less⟩
  · rename_i found
    split at read
    · simp at read
    · rename_i reader
      obtain ⟨below,less,sound⟩ := sound reader rfl
      obtain ⟨⟨members,left⟩,membersRead,next⟩ := bind_eq_ok_iff.mp read
      cases next
      obtain ⟨inside,rfl,fits,spells⟩ := readObject_sound sound membersRead
      exact ⟨_,by simpa using found,spells,Nat.lt_of_le_of_lt fits less⟩
  · rename_i found
    split at read
    · obtain ⟨spelled,split,spells,flat⟩ := readNumber_sound read
      exact ⟨spelled,found.trans split,spells,by omega⟩
    · simp at read

theorem valueReader_sound_of_inner
    (sound : ∀ reader ∈ innerReader depth, ∃ below < depth, reader.Sound below) :
    (valueReader depth).Sound depth := by
  intro text rest value read
  rw [valueReader_run] at read
  obtain ⟨spelled,found,spells,fits⟩ := readValue_sound sound read
  obtain ⟨before,blank,rfl⟩ := skipBlank_split found
  exact ⟨before ++ spelled,by simp,⟨before,spelled,blank,spells,rfl⟩,fits⟩

theorem valueReader_sound (depth : Nat) : (valueReader depth).Sound depth := by
  induction depth with
  | zero => exact valueReader_sound_of_inner (by simp [innerReader])
  | succ depth ih =>
    refine valueReader_sound_of_inner fun reader inner => ⟨depth,Nat.lt_succ_self depth,?_⟩
    obtain rfl : valueReader depth = reader := by simpa [innerReader] using inner
    exact ih

/-- The reader takes a whole text as a value if and only if the text writes the value and nests no
deeper than allowed. -/
theorem reads_iff_writes : (∃ after, readFront text = .ok (value,after) ∧ skipBlank after = []) ↔
    Writes value text ∧ value.nesting ≤ nestingLimit := by
  constructor
  · rintro ⟨after,read,blank⟩
    obtain ⟨used,rfl,leads,fits⟩ := valueReader_sound nestingLimit read
    obtain ⟨white,right,rfl⟩ := skipBlank_split blank
    rw [List.append_nil]
    exact ⟨leads.writes right,fits⟩
  · rintro ⟨written,fits⟩
    obtain ⟨after,blank,front⟩ := written.meets_readFront
    exact ⟨after,front.reads fits,blank⟩

end TreeQuery.Json
