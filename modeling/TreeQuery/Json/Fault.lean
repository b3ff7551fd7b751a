/-! What stops the reading of a JSON text, and where. A place is told by the text that is left
from there, so that reading needs no counters; `Stop.offset` turns it into the number of bytes
of UTF-8 that count as read, and `Position.after` turns that into a line and a column. -/
namespace TreeQuery.Json

inductive Fault where
  | eofValue
  | eofList
  | eofObject
  | eofString
  | expectedValue
  | expectedIdent
  | keyNotString
  | expectedColon
  | expectedCommaOrBracket
  | expectedCommaOrBrace
  | trailingComma
  | trailingCharacters
  | invalidNumber
  | numberOutOfRange
  | invalidEscape
  | unexpectedEndOfHexEscape
  | loneSurrogate
  | controlCharacter
  | recursionLimit
  deriving Repr,DecidableEq

def Fault.message : Fault → String
  | .eofValue => "EOF while parsing a value"
  | .eofList => "EOF while parsing a list"
  | .eofObject => "EOF while parsing an object"
  | .eofString => "EOF while parsing a string"
  | .expectedValue => "expected value"
  | .expectedIdent => "expected ident"
  | .keyNotString => "key must be a string"
  | .expectedColon => "expected `:`"
  | .expectedCommaOrBracket => "expected `,` or `]`"
  | .expectedCommaOrBrace => "expected `,` or `\x7d`"
  | .trailingComma => "trailing comma"
  | .trailingCharacters => "trailing characters"
  | .invalidNumber => "invalid number"
  | .numberOutOfRange => "number out of range"
  | .invalidEscape => "invalid escape"
  | .unexpectedEndOfHexEscape => "unexpected end of hex escape"
  | .loneSurrogate => "lone leading surrogate in hex escape"
  | .controlCharacter => "control character (\\u0000-\\u001F) found while parsing a string"
  | .recursionLimit => "recursion limit exceeded"

def byteLength (text : List Char) : Nat := text.foldr (fun c bytes => c.utf8Size + bytes) 0

/-- A fault, the text left at its place, and how many bytes of that text count as read: one for
a fault that stands at a character, none at the end of the text or behind a finished part. -/
structure Stop where
  fault : Fault
  rest : List Char
  taken : Nat
  deriving Repr,DecidableEq

def Stop.offset (stop : Stop) (text : List Char) : Nat :=
  byteLength text - byteLength stop.rest + stop.taken

structure Position where
  line : Nat
  column : Nat
  deriving Repr,DecidableEq

/-- Move a position over the first `offset` bytes of a text. Only a newline ends a line; the
column is the number of bytes behind it. -/
def Position.advance (line column : Nat) : List Char → Nat → Position
  | [],offset => ⟨line,column + offset⟩
  | c :: rest,offset =>
    if offset < c.utf8Size then ⟨line,column + offset⟩
    else if c = '\n' then Position.advance (line + 1) 0 rest (offset - c.utf8Size)
    else Position.advance line (column + c.utf8Size) rest (offset - c.utf8Size)

/-- The position after the first `offset` bytes of a text; lines count from 1. -/
def Position.after (text : List Char) (offset : Nat) : Position := Position.advance 1 0 text offset

structure SyntaxError where
  fault : Fault
  position : Position
  deriving Repr,DecidableEq

def Stop.toError (stop : Stop) (text : List Char) : SyntaxError :=
  ⟨stop.fault,Position.after text (stop.offset text)⟩

def SyntaxError.message (error : SyntaxError) : String :=
  error.fault.message ++ " at line " ++ toString error.position.line ++ " column " ++
    toString error.position.column

end TreeQuery.Json
