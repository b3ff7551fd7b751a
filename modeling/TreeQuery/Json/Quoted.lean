import TreeQuery.Json.Front

/-! Reading strings: characters and escapes up to the closing quote. Escapes in hexadecimal
name UTF-16 units, so two of them make one character beyond the first 65536. -/
namespace TreeQuery.Json

def hexValue? (c : Char) : Option Nat :=
  if '0' ≤ c ∧ c ≤ '9' then some (c.toNat - 48)
  else if 'a' ≤ c ∧ c ≤ 'f' then some (c.toNat - 87)
  else if 'A' ≤ c ∧ c ≤ 'F' then some (c.toNat - 55)
  else none

def hexNumber (digits : List Nat) : Nat := digits.foldl (fun value digit => value * 16 + digit) 0

/-- Four hexadecimal digits; a fault stands at the fourth byte. -/
def readHex (text : List Char) : Except Stop (Nat × List Char) :=
  match text with
  | a :: b :: c :: d :: rest =>
    match hexValue? a,hexValue? b,hexValue? c,hexValue? d with
    | some p,some q,some r,some s => .ok (hexNumber [p,q,r,s],rest)
    | _,_,_,_ => .error ⟨.invalidEscape,text,4⟩
  | _ => if byteLength text < 4 then .error ⟨.eofString,[],0⟩ else .error ⟨.invalidEscape,text,4⟩

def isHighSurrogate (code : Nat) : Bool := 0xd800 ≤ code && code ≤ 0xdbff

def isLowSurrogate (code : Nat) : Bool := 0xdc00 ≤ code && code ≤ 0xdfff

def surrogatePair (high low : Nat) : Char :=
  Char.ofNat (0x10000 + (high - 0xd800) * 0x400 + (low - 0xdc00))

/-- The second half of a surrogate pair, with the backslash in front. -/
def readLowSurrogate (high : Nat) : List Char → Except Stop (Char × List Char)
  | '\\' :: 'u' :: text => do
    let (low,rest) ← readHex text
    if isLowSurrogate low then .ok (surrogatePair high low,rest)
    else .error ⟨.loneSurrogate,rest,0⟩
  | '\\' :: text => stopAt .unexpectedEndOfHexEscape .eofString text
  | text => stopAt .unexpectedEndOfHexEscape .eofString text

def readCodePoint (text : List Char) : Except Stop (Char × List Char) := do
  let (code,rest) ← readHex text
  if isLowSurrogate code then .error ⟨.loneSurrogate,rest,0⟩
  else if isHighSurrogate code then readLowSurrogate code rest
  else .ok (Char.ofNat code,rest)

def shortEscape? : Char → Option Char
  | '"' => some '"'
  | '\\' => some '\\'
  | '/' => some '/'
  | 'b' => some '\x08'
  | 'f' => some '\x0c'
  | 'n' => some '\n'
  | 'r' => some '\r'
  | 't' => some '\t'
  | _ => none

def readEscape : List Char → Except Stop (Char × List Char)
  | [] => .error ⟨.eofString,[],0⟩
  | c :: rest =>
    if c = 'u' then readCodePoint rest
    else match shortEscape? c with
      | some d => .ok (d,rest)
      | none => .error ⟨.invalidEscape,c :: rest,1⟩

/-- One character of a string, or none at the closing quote. -/
def readUnit : List Char → Except Stop (Option Char × List Char)
  | [] => .error ⟨.eofString,[],0⟩
  | c :: rest =>
    if c = '"' then .ok (none,rest)
    else if c = '\\' then do
      let (d,left) ← readEscape rest
      return (some d,left)
    else if c.toNat < 0x20 then .error ⟨.controlCharacter,c :: rest,1⟩
    else .ok (some c,rest)

theorem readHex_length {text rest : List Char} {code : Nat}
    (read : readHex text = .ok (code,rest)) : rest.length < text.length := by
  unfold readHex at read
  split at read
  · split at read
    · injection read with same
      injection same with _ left
      subst left
      simp only [List.length_cons]
      omega
    · simp at read
  · split at read <;> simp at read

theorem readLowSurrogate_length {high : Nat} {text rest : List Char} {c : Char}
    (read : readLowSurrogate high text = .ok (c,rest)) : rest.length < text.length := by
  unfold readLowSurrogate at read
  split at read
  · obtain ⟨⟨low,left⟩,lowRead,read⟩ := bind_eq_ok_iff.mp read
    have bound := readHex_length lowRead
    simp only at read
    split at read
    · injection read with same
      injection same with _ same
      subst same
      simp only [List.length_cons]
      omega
    · simp at read
  · exact absurd read stopAt_not_ok
  · exact absurd read stopAt_not_ok

theorem readCodePoint_length {text rest : List Char} {c : Char}
    (read : readCodePoint text = .ok (c,rest)) : rest.length < text.length := by
  obtain ⟨⟨code,left⟩,codeRead,read⟩ := bind_eq_ok_iff.mp read
  have bound := readHex_length codeRead
  simp only at read
  split at read
  · simp at read
  · split at read
    · exact Nat.lt_trans (readLowSurrogate_length read) bound
    · cases read
      exact bound

theorem readEscape_length {text rest : List Char} {c : Char}
    (read : readEscape text = .ok (c,rest)) : rest.length < text.length := by
  cases text with
  | nil => simp [readEscape] at read
  | cons d text =>
    simp only [readEscape] at read
    simp only [List.length_cons]
    split at read
    · exact Nat.lt_succ_of_lt (readCodePoint_length read)
    · split at read
      · cases read
        omega
      · simp at read

theorem readUnit_length {text rest : List Char} {unit : Option Char}
    (read : readUnit text = .ok (unit,rest)) : rest.length < text.length := by
  cases text with
  | nil => simp [readUnit] at read
  | cons c text =>
    simp only [readUnit] at read
    simp only [List.length_cons]
    split at read
    · cases read
      omega
    · split at read
      · obtain ⟨⟨d,left⟩,escapeRead,read⟩ := bind_eq_ok_iff.mp read
        cases read
        exact Nat.lt_succ_of_lt (readEscape_length escapeRead)
      · split at read
        · simp at read
        · cases read
          omega

/-- The characters of a string up to its closing quote, behind those already read, which are
kept in reverse. -/
def readChars (before text : List Char) : Except Stop (String × List Char) :=
  match _read : readUnit text with
  | .error stop => .error stop
  | .ok (none,rest) => .ok (String.ofList before.reverse,rest)
  | .ok (some c,rest) => readChars (c :: before) rest
termination_by text.length
decreasing_by exact readUnit_length _read

/-- A string whose opening quote has been passed. -/
def readString (text : List Char) : Except Stop (String × List Char) := readChars [] text

theorem readChars_length {before text rest : List Char} {value : String}
    (read : readChars before text = .ok (value,rest)) : rest.length < text.length := by
  fun_induction readChars before text with
  | case1 => simp at read
  | case2 before text left unitRead =>
    cases read
    exact readUnit_length unitRead
  | case3 before text c left unitRead ih => exact Nat.lt_trans (ih read) (readUnit_length unitRead)

theorem readString_length {text rest : List Char} {value : String}
    (read : readString text = .ok (value,rest)) : rest.length < text.length := readChars_length read

end TreeQuery.Json
