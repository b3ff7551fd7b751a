import TreeQuery.Json.Number
import TreeQuery.Json.Quoted

/-! Reading JSON values. Arrays and objects are read by loops over a reader for the values in
them; the nesting limit is the number of times such a reader is put inside another one. A
comma must be followed by another item. -/
namespace TreeQuery.Json

def moreItems (reader : Reader Value) (text : List Char) : Except Stop (List Value × List Char) :=
  match _blank : skipBlank text with
  | [] => .error ⟨.eofList,[],0⟩
  | c :: rest =>
    if c = ']' then .ok ([],rest)
    else if c = ',' then
      match skipBlank rest with
      | ']' :: later => .error ⟨.trailingComma,']' :: later,1⟩
      | _ =>
        match _read : reader.run rest with
        | .error stop => .error stop
        | .ok (value,left) => do
          let (values,left) ← moreItems reader left
          return (value :: values,left)
    else .error ⟨.expectedCommaOrBracket,c :: rest,1⟩
termination_by text.length
decreasing_by exact Nat.lt_trans (reader.shorter _read) (skipBlank_cons _blank)

/-- An array whose opening bracket has been passed. -/
def readArray (reader : Reader Value) (text : List Char) : Except Stop (List Value × List Char) :=
  match skipBlank text with
  | [] => .error ⟨.eofList,[],0⟩
  | ']' :: rest => .ok ([],rest)
  | _ => do
    let (value,left) ← reader.run text
    let (values,left) ← moreItems reader left
    return (value :: values,left)

/-- A member whose name starts behind its opening quote. -/
def readMember (reader : Reader Value) (text : List Char) : Except Stop ((String × Value) × List Char) := do
  let (name,left) ← readString text
  match skipBlank left with
  | ':' :: rest => do
    let (value,left) ← reader.run rest
    return ((name,value),left)
  | other => stopAt .expectedColon .eofObject other

theorem readMember_length {reader : Reader Value} {text rest : List Char}
    {member : String × Value} (read : readMember reader text = .ok (member,rest)) :
    rest.length < text.length := by
  obtain ⟨⟨name,left⟩,nameRead,read⟩ := bind_eq_ok_iff.mp read
  have first := readString_length nameRead
  simp only at read
  split at read
  · rename_i found
    obtain ⟨⟨value,last⟩,valueRead,read⟩ := bind_eq_ok_iff.mp read
    cases read
    exact Nat.lt_trans (reader.shorter valueRead) (Nat.lt_trans (skipBlank_cons found) first)
  · exact absurd read stopAt_not_ok

def moreMembers (reader : Reader Value) (text : List Char) : Except Stop (List (String × Value) × List Char) :=
  match _blank : skipBlank text with
  | [] => .error ⟨.eofObject,[],0⟩
  | c :: rest =>
    if c = '}' then .ok ([],rest)
    else if c = ',' then
      match _name : skipBlank rest with
      | '"' :: inner =>
        match _read : readMember reader inner with
        | .error stop => .error stop
        | .ok (member,left) => do
          let (members,left) ← moreMembers reader left
          return (member :: members,left)
      | '}' :: later => .error ⟨.trailingComma,'}' :: later,1⟩
      | other => stopAt .keyNotString .eofValue other
    else .error ⟨.expectedCommaOrBrace,c :: rest,1⟩
termination_by text.length
decreasing_by
  exact Nat.lt_trans (readMember_length _read)
    (Nat.lt_trans (skipBlank_cons _name) (skipBlank_cons _blank))

/-- An object whose opening brace has been passed. -/
def readObject (reader : Reader Value) (text : List Char) : Except Stop (List (String × Value) × List Char) :=
  match skipBlank text with
  | '}' :: rest => .ok ([],rest)
  | '"' :: inner => do
    let (member,left) ← readMember reader inner
    let (members,left) ← moreMembers reader left
    return (member :: members,left)
  | other => stopAt .keyNotString .eofObject other

theorem moreItems_length {reader : Reader Value} {text rest : List Char} {values : List Value}
    (read : moreItems reader text = .ok (values,rest)) : rest.length < text.length := by
  fun_induction moreItems reader text generalizing values with
  | case1 => simp at read
  | case2 text left found =>
    cases read
    exact skipBlank_cons found
  | case3 => simp at read
  | case4 => simp at read
  | case5 text left value last valueRead _ found _ ih =>
    obtain ⟨⟨others,final⟩,othersRead,read⟩ := bind_eq_ok_iff.mp read
    cases read
    exact Nat.lt_trans (ih othersRead) (Nat.lt_trans (reader.shorter valueRead) (skipBlank_cons found))
  | case6 => simp at read

theorem moreMembers_length {reader : Reader Value} {text rest : List Char}
    {members : List (String × Value)} (read : moreMembers reader text = .ok (members,rest)) :
    rest.length < text.length := by
  fun_induction moreMembers reader text generalizing members with
  | case1 => simp at read
  | case2 text left found =>
    cases read
    exact skipBlank_cons found
  | case3 => simp at read
  | case4 text left inner name member last memberRead found _ ih =>
    obtain ⟨⟨others,final⟩,othersRead,read⟩ := bind_eq_ok_iff.mp read
    cases read
    exact Nat.lt_trans (ih othersRead) (Nat.lt_trans (readMember_length memberRead)
      (Nat.lt_trans (skipBlank_cons name) (skipBlank_cons found)))
  | case5 => simp at read
  | case6 => exact absurd read stopAt_not_ok
  | case7 => simp at read

theorem readArray_length {reader : Reader Value} {text rest : List Char} {values : List Value}
    (read : readArray reader text = .ok (values,rest)) : rest.length < text.length := by
  unfold readArray at read
  split at read
  · simp at read
  · rename_i found
    cases read
    exact skipBlank_cons found
  · obtain ⟨⟨value,left⟩,valueRead,read⟩ := bind_eq_ok_iff.mp read
    obtain ⟨⟨others,final⟩,othersRead,read⟩ := bind_eq_ok_iff.mp read
    cases read
    exact Nat.lt_trans (moreItems_length othersRead) (reader.shorter valueRead)

theorem readObject_length {reader : Reader Value} {text rest : List Char}
    {members : List (String × Value)} (read : readObject reader text = .ok (members,rest)) :
    rest.length < text.length := by
  unfold readObject at read
  split at read
  · rename_i found
    cases read
    exact skipBlank_cons found
  · rename_i found
    obtain ⟨⟨member,left⟩,memberRead,read⟩ := bind_eq_ok_iff.mp read
    obtain ⟨⟨others,final⟩,othersRead,read⟩ := bind_eq_ok_iff.mp read
    cases read
    exact Nat.lt_trans (moreMembers_length othersRead)
      (Nat.lt_trans (readMember_length memberRead) (skipBlank_cons found))
  · exact absurd read stopAt_not_ok

/-- A value, with the reader for the values inside it; there is none at the nesting limit. -/
def readValue (inner : Option (Reader Value)) (text : List Char) :
    Except Stop (Value × List Char) :=
  match skipBlank text with
  | [] => .error ⟨.eofValue,[],0⟩
  | 'n' :: rest => readWord .null ['u','l','l'] rest
  | 't' :: rest => readWord (.bool true) ['r','u','e'] rest
  | 'f' :: rest => readWord (.bool false) ['a','l','s','e'] rest
  | '"' :: rest => do
    let (value,left) ← readString rest
    return (.string value,left)
  | '[' :: rest =>
    match inner with
    | none => .error ⟨.recursionLimit,'[' :: rest,1⟩
    | some reader => do
      let (values,left) ← readArray reader rest
      return (.array values,left)
  | '{' :: rest =>
    match inner with
    | none => .error ⟨.recursionLimit,'{' :: rest,1⟩
    | some reader => do
      let (members,left) ← readObject reader rest
      return (.object members,left)
  | c :: rest =>
    if c = '-' ∨ c.isDigit then readNumber (c :: rest) else .error ⟨.expectedValue,c :: rest,1⟩

theorem readValue_length {inner : Option (Reader Value)} {text rest : List Char} {value : Value}
    (read : readValue inner text = .ok (value,rest)) : rest.length < text.length := by
  unfold readValue at read
  split at read
  · simp at read
  · rename_i found
    exact Nat.lt_of_le_of_lt (readWord_length read) (skipBlank_cons found)
  · rename_i found
    exact Nat.lt_of_le_of_lt (readWord_length read) (skipBlank_cons found)
  · rename_i found
    exact Nat.lt_of_le_of_lt (readWord_length read) (skipBlank_cons found)
  · rename_i found
    obtain ⟨⟨string,left⟩,stringRead,read⟩ := bind_eq_ok_iff.mp read
    cases read
    exact Nat.lt_trans (readString_length stringRead) (skipBlank_cons found)
  · rename_i found
    split at read
    · simp at read
    · obtain ⟨⟨values,left⟩,valuesRead,read⟩ := bind_eq_ok_iff.mp read
      cases read
      exact Nat.lt_trans (readArray_length valuesRead) (skipBlank_cons found)
  · rename_i found
    split at read
    · simp at read
    · obtain ⟨⟨members,left⟩,membersRead,read⟩ := bind_eq_ok_iff.mp read
      cases read
      exact Nat.lt_trans (readObject_length membersRead) (skipBlank_cons found)
  · rename_i found
    split at read
    · have used := readNumber_length read
      rw [← found] at used
      exact Nat.lt_of_lt_of_le used (skipBlank_length _)
    · simp at read

/-- The reader for values in which brackets nest at most `depth` deep. -/
def valueReader : Nat → Reader Value
  | 0 => ⟨readValue none,readValue_length⟩
  | depth + 1 => ⟨readValue (some (valueReader depth)),readValue_length⟩

def nestingLimit : Nat := 127

def readFront (text : List Char) : Except Stop (Value × List Char) :=
  (valueReader nestingLimit).run text

end TreeQuery.Json
