import TreeQuery.Command.Arguments
import TreeQuery.Outcome

/-! The help. It lists the arguments that are given by their place and the options, and ends with
examples. In the short form an argument takes one line; in the long form what it is for stands below
it, and the values that it can take are explained one by one. An option that the help does not list
is not understood (`readWords_unlisted`). -/
namespace TreeQuery.Command

/-- A value that an option can take, and what it stands for. -/
structure Choice where
  name : String
  meaning : String

/-- What the help says of an argument: what it is for, the value it has where it is not given, and the
values it can take. -/
structure Purpose where
  summary : String
  preset : Option String := none
  choices : List Choice := []

/-- An option as the help lists it. -/
structure ListedOption where
  letter : Option Char := none
  name : String
  /-- How the help calls the value that stands behind the option, if it takes one. -/
  value : Option String := none
  purpose : Purpose

namespace Purpose

def presetNote (purpose : Purpose) : Option String :=
  purpose.preset.map fun value => "[default: " ++ value ++ "]"

def choiceNote (purpose : Purpose) : Option String :=
  if purpose.choices.isEmpty then none
  else some ("[possible values: " ++ ", ".intercalate (purpose.choices.map (·.name)) ++ "]")

def brief (purpose : Purpose) : String :=
  " ".intercalate (purpose.summary :: (purpose.presetNote.toList ++ purpose.choiceNote.toList))

/-- The margin of all that stands below an argument. -/
def margin : String := "          "

def choiceList (purpose : Purpose) : List String :=
  if purpose.choices.isEmpty then []
  else ["\n\n",margin,"Possible values:",
    String.join (purpose.choices.map fun choice =>
      "\n" ++ margin ++ "- " ++ choice.name ++ ": " ++ choice.meaning)]

def full (purpose : Purpose) : String :=
  ("\n" ++ margin ++ "\n" ++ margin).intercalate (purpose.summary :: purpose.presetNote.toList) ++
    String.join purpose.choiceList

end Purpose

def ListedOption.head (option : ListedOption) : String :=
  (match option.letter with
    | some letter => "  -" ++ String.singleton letter ++ ", "
    | none => "      ") ++
  "--" ++ option.name ++
  match option.value with
    | some value => " <" ++ value ++ ">"
    | none => ""

def positionals : List (String × Purpose) :=
  [("  <SELECTOR>",{ summary := "Selector to run" }),
    ("  [FILE]",{ summary := "Path to a JSON document" })]

def formatChoices : List Choice :=
  [⟨"text","One `tag#id.class` label per line"⟩,
    ⟨"json","A JSON array of `\x7b \"node\", \"label\" \x7d` records"⟩]

def options (long : Bool) : List ListedOption :=
  [{ name := "json",value := some "JSON",purpose :=
      { summary := "Use this JSON document instead of reading a file" } },
    { name := "root",value := some "ID",purpose :=
      { summary := "Start from the element with this id instead of the body element" } },
    { name := "format",value := some "FORMAT",purpose :=
      { summary := "How to print matches",preset := some "text",choices := formatChoices } },
    { name := "explain",purpose :=
      { summary := "Print the selector kind and compiled matcher before the matches" } },
    { name := "strict",purpose :=
      { summary := "Fail on a malformed selector instead of matching nothing" } },
    { letter := some 'h',name := "help",purpose :=
      { summary := if long then "Print help (see a summary with '-h')"
          else "Print help (see more with '--help')" } },
    { letter := some 'V',name := "version",purpose := { summary := "Print version" } }]

/-- Items with what they are for: behind them, in a column of its own, or below them. -/
def layOut (long : Bool) (items : List (String × Purpose)) : String :=
  if long then
    "\n\n".intercalate (items.map fun (head,purpose) =>
      head ++ "\n" ++ Purpose.margin ++ purpose.full)
  else
    let width := items.foldl (fun width item => max width item.1.length) 0
    "\n".intercalate (items.map fun (head,purpose) =>
      head ++ "".pushn ' ' (width + 2 - head.length) ++ purpose.brief)

def helpExamples : String := "\n".intercalate
  ["EXAMPLES:",
    "    # All elements with class \"cls\" under <body>",
    "    sprig .cls page.json",
    "",
    "    # Direct children, starting from the element with id \"menu\"",
    "    sprig 'ul > li.active' page.json --root menu",
    "",
    "    # Inline document, JSON output",
    "    sprig --format json 'body span' --json " ++
      "'\x7b\"tag\":\"html\",\"children\":[\x7b\"tag\":\"body\"\x7d]\x7d'",
    "",
    "    # Show how the selector was understood, rejecting malformed selectors",
    "    sprig --explain --strict 'div.cls > span' page.json"]

/-- The text of `-h`, or in its long form of `--help`. -/
def helpText (long : Bool) : String :=
  "\n\n".intercalate
    ["Query JSON document trees with selectors from the command line",
      "Usage: sprig [OPTIONS] <SELECTOR> [FILE]",
      "Arguments:\n" ++ layOut long positionals,
      "Options:\n" ++ layOut long ((options long).map fun option => (option.head,option.purpose)),
      helpExamples] ++ "\n"

/-! What the help lists is what is understood. -/

variable {given : Partial} {word name value : String} {words : List String}

theorem hasValue_iff (long : Bool) :
    hasValue name = true ↔ ∃ option ∈ options long, name = option.name ∧ option.value.isSome := by
  simp [hasValue,options]

theorem isFlag_iff (long : Bool) :
    isFlag name = true ↔ ∃ option ∈ options long, name = option.name ∧ option.value.isNone := by
  simp [isFlag,options,or_comm]

/-- A format is understood if it is one of those that the help explains. -/
theorem takeValue_format (fresh : given.format = none) :
    (∃ next, given.takeValue "format" value = .ok next) ↔
      ∃ choice ∈ formatChoices, value = choice.name := by
  by_cases text : value = "text"
  · simp [Partial.takeValue,fresh,formatChoices,text]
  · by_cases json : value = "json"
    · simp [Partial.takeValue,fresh,formatChoices,json]
    · simp [Partial.takeValue,fresh,formatChoices,text,json]

/-- An option that is not listed is refused, with a value and without. -/
theorem readWords_unlisted (long : Bool) {equals : Option String}
    (unlisted : ∀ option ∈ options long, name ≠ option.name)
    (reads : Word.of word = .long name equals) :
    readWords given (word :: words) = .error (.unknownOption name) := by
  simp only [options,List.forall_mem_cons] at unlisted
  obtain ⟨json,root,format,explain,strict,help,version,_⟩ := unlisted
  cases equals with
  | none =>
    have bare : hasValue name = false := by simp [hasValue,json,root,format]
    simp [readWords,reads,bare,help,version,Partial.takeFlag,explain,strict]
  | some equals =>
    have unflagged : isFlag name = false := by simp [isFlag,explain,strict,help,version]
    simp [readWords,reads,unflagged,Partial.takeValue,json,root,format]

end TreeQuery.Command
