/-! The command line. Words are taken from left to right and the first one that is wrong, or
that asks for the version or the help, ends the reading; what is missing or does not go together
is found at the end. -/
namespace TreeQuery.Command

inductive Format where
  | text
  | json
  deriving Repr,DecidableEq

structure Arguments where
  selector : String
  file : Option String := none
  json : Option String := none
  root : Option String := none
  format : Format := .text
  explain : Bool := false
  strict : Bool := false
  deriving Repr,DecidableEq

inductive UsageError where
  | missingSelector
  | unexpectedWord (word : String)
  | unknownOption (word : String)
  | missingValue (option : String)
  | unexpectedValue (option : String)
  | repeated (option : String)
  | unknownFormat (value : String)
  | emptyFile
  | fileWithJson
  deriving Repr,DecidableEq

inductive Request where
  | query (arguments : Arguments)
  | version
  | help (long : Bool)
  deriving Repr,DecidableEq

structure Partial where
  selector : Option String := none
  file : Option String := none
  json : Option String := none
  root : Option String := none
  format : Option Format := none
  explain : Bool := false
  strict : Bool := false
  deriving Repr,DecidableEq

namespace Partial

def takeWord (given : Partial) (word : String) : Except UsageError Partial :=
  match given.selector,given.file with
  | none,_ => .ok { given with selector := some word }
  | some _,none => if word.isEmpty then .error .emptyFile else .ok { given with file := some word }
  | some _,some _ => .error (.unexpectedWord word)

def takeValue (given : Partial) (option value : String) : Except UsageError Partial :=
  if option = "json" then
    if given.json.isSome then .error (.repeated option) else .ok { given with json := some value }
  else if option = "root" then
    if given.root.isSome then .error (.repeated option) else .ok { given with root := some value }
  else if option = "format" then
    if given.format.isSome then .error (.repeated option)
    else if value = "text" then .ok { given with format := some .text }
    else if value = "json" then .ok { given with format := some .json }
    else .error (.unknownFormat value)
  else .error (.unknownOption option)

def takeFlag (given : Partial) (option : String) : Except UsageError Partial :=
  if option = "explain" then
    if given.explain then .error (.repeated option) else .ok { given with explain := true }
  else if option = "strict" then
    if given.strict then .error (.repeated option) else .ok { given with strict := true }
  else .error (.unknownOption option)

def finish (given : Partial) : Except UsageError Request :=
  match given.selector with
  | none => .error .missingSelector
  | some selector =>
    if given.file.isSome && given.json.isSome then .error .fileWithJson
    else .ok (.query ⟨selector,given.file,given.json,given.root,given.format.getD .text,
      given.explain,given.strict⟩)

end Partial

def hasValue (option : String) : Bool := ["json","root","format"].contains option

def isFlag (option : String) : Bool := ["explain","strict","version","help"].contains option

inductive Word where
  | plain (word : String)
  /-- Two dashes alone: only plain words follow. -/
  | endOfOptions
  | long (name : String) (value : Option String)
  | short (letters : List Char)
  deriving Repr,DecidableEq

/-- The name of a long option and the value behind the first equals sign. -/
def splitValue : List Char → List Char × Option (List Char)
  | [] => ([],none)
  | '=' :: rest => ([],some rest)
  | c :: rest =>
    let (name,value) := splitValue rest
    (c :: name,value)

def Word.of (word : String) : Word :=
  match word.toList with
  | ['-','-'] => .endOfOptions
  | '-' :: '-' :: rest =>
    let (name,value) := splitValue rest
    .long (String.ofList name) (value.map String.ofList)
  | '-' :: c :: rest => .short (c :: rest)
  | _ => .plain word

def readPlain (given : Partial) : List String → Except UsageError Request
  | [] => given.finish
  | word :: words => do readPlain (← given.takeWord word) words

def readWords (given : Partial) : List String → Except UsageError Request
  | [] => given.finish
  | word :: words =>
    match Word.of word with
    | .plain word => do readWords (← given.takeWord word) words
    | .endOfOptions => readPlain given words
    | .short ('V' :: _) => .ok .version
    | .short ('h' :: _) => .ok (.help false)
    | .short _ => .error (.unknownOption word)
    | .long name none =>
      if name = "version" then .ok .version
      else if name = "help" then .ok (.help true)
      else if hasValue name then
        match words with
        | [] => .error (.missingValue name)
        | value :: words =>
          match Word.of value with
          | .plain value => do readWords (← given.takeValue name value) words
          | _ => .error (.missingValue name)
      else do readWords (← given.takeFlag name) words
    | .long name (some value) =>
      if isFlag name then .error (.unexpectedValue name)
      else do readWords (← given.takeValue name value) words

def Request.ofWords (words : List String) : Except UsageError Request := readWords {} words

end TreeQuery.Command
