import TreeQuery.Json.Value

/-! Writing JSON values on several lines, two blanks for each level. Strings escape the quote,
the backslash and the control characters, which have a short form or four lower-case
hexadecimal digits; every other character stands for itself. Empty arrays and objects stay on
one line. -/
namespace TreeQuery.Json

def hexDigit (n : Nat) : Char := if n < 10 then Char.ofNat (48 + n) else Char.ofNat (87 + n)

def escapeChar (c : Char) : List Char :=
  if c = '"' then ['\\','"']
  else if c = '\\' then ['\\','\\']
  else if c = '\x08' then ['\\','b']
  else if c = '\x0c' then ['\\','f']
  else if c = '\n' then ['\\','n']
  else if c = '\r' then ['\\','r']
  else if c = '\t' then ['\\','t']
  else if c.toNat < 0x20 then ['\\','u','0','0',hexDigit (c.toNat / 16),hexDigit (c.toNat % 16)]
  else [c]

def quote (text : List Char) : List Char := '"' :: text.flatMap escapeChar ++ ['"']

def lineAt (level : Nat) : List Char := '\n' :: List.replicate (2 * level) ' '

mutual

def Value.pretty (level : Nat) : Value → List Char
  | .null => ['n','u','l','l']
  | .bool true => ['t','r','u','e']
  | .bool false => ['f','a','l','s','e']
  | .number spelling => spelling.toList
  | .string text => quote text.toList
  | .array [] => ['[',']']
  | .array (first :: others) =>
    '[' :: lineAt (level + 1) ++ first.pretty (level + 1) ++ prettyItems (level + 1) others ++
      lineAt level ++ [']']
  | .object [] => ['{','}']
  | .object ((name,value) :: others) =>
    '{' :: lineAt (level + 1) ++ quote name.toList ++ [':',' '] ++ value.pretty (level + 1) ++
      prettyMembers (level + 1) others ++ lineAt level ++ ['}']

def prettyItems (level : Nat) : List Value → List Char
  | [] => []
  | value :: values => ',' :: lineAt level ++ value.pretty level ++ prettyItems level values

def prettyMembers (level : Nat) : List (String × Value) → List Char
  | [] => []
  | (name,value) :: members =>
    ',' :: lineAt level ++ quote name.toList ++ [':',' '] ++ value.pretty level ++
      prettyMembers level members

end

end TreeQuery.Json
