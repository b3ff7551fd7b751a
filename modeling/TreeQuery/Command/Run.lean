import TreeQuery.Command.Help
import TreeQuery.Command.Report
import TreeQuery.Selector.Query

/-! Running a command line. The stages come in a fixed order: load the document, find the
root, compile the selector, explain it, collect the nodes and print them. A stage that fails
ends the run. The explanation is the first thing that is printed, and no stage behind it can
fail: every node that is found has a label, and a record of a number and a string can always
be written as JSON. -/
namespace TreeQuery.Command

abbrev FileReader := String → Except ReadFault String

def loadTree (read : FileReader) (arguments : Arguments) : Except RunError Tree :=
  match arguments.json,arguments.file with
  | some json,_ => (Document.parse json).mapError .source
  | none,some path => (Document.load read path).mapError .source
  | none,none => .error .noDocument

def findRoot (tree : Tree) : Option String → Except RunError NodeId
  | none => .ok tree.defaultRoot
  | some id =>
    match tree.elementById? id with
    | some node => .ok node
    | none => .error (.noElement id)

/-- The matcher of the selector, and the warning it gave; under `--strict` a malformed selector
is an error and no warning is given. -/
def compileSelector (arguments : Arguments) : Except RunError (Selector.Matcher × Option String) :=
  if arguments.strict then
    match Selector.compile? arguments.selector with
    | .ok matcher => .ok (matcher,none)
    | .error error => .error (.selector arguments.selector error)
  else
    let warned := Selector.compile {} arguments.selector
    .ok (warned.value,warned.line)

/-- What a run has written so far. -/
structure Printed where
  stdout : String := ""
  stderr : String := ""
  deriving Repr,DecidableEq

/-- A run writes as it goes and may end with an error; what it has written before stays. -/
abbrev Running := ExceptT RunError (StateM Printed)

def Running.outcome {α : Type} (running : Running α) (printed : Printed) :
    Except RunError α × Printed :=
  (running.run.run printed).run

def print (text : String) : Running Unit :=
  modify fun printed => { printed with stdout := printed.stdout ++ text }

def warn (text : String) : Running Unit :=
  modify fun printed => { printed with stderr := printed.stderr ++ text }

namespace Running

variable {α β : Type} {printed : Printed} {text : String}

@[simp] theorem outcome_lift (stage : Except RunError α) :
    Running.outcome (liftM stage) printed = (stage,printed) := rfl

@[simp] theorem outcome_print :
    (print text).outcome printed = (.ok (),{ printed with stdout := printed.stdout ++ text }) := rfl

@[simp] theorem outcome_warn :
    (warn text).outcome printed = (.ok (),{ printed with stderr := printed.stderr ++ text }) := rfl

@[simp] theorem outcome_pure (value : α) :
    Running.outcome (pure value) printed = (.ok value,printed) := rfl

/-- An error ends the run; else it goes on with what was written. -/
@[simp] theorem outcome_bind (first : Running α) (next : α → Running β) :
    (first >>= next).outcome printed =
      match first.outcome printed with
      | (.ok value,after) => (next value).outcome after
      | (.error error,after) => (.error error,after) := by
  change (match first.outcome printed with
    | (answer,after) => ((ExceptT.bindCont (m := StateM Printed) next answer).run after).run) = _
  rcases first.outcome printed with ⟨error | value,after⟩ <;> rfl

end Running

def printMatches (format : Format) (tree : Tree) (nodes : List NodeId) : Running Unit :=
  match format with
  | .text => forM nodes fun id => print (tree.label id ++ "\n")
  | .json => print (recordText tree nodes)

def attempt (read : FileReader) (arguments : Arguments) : Running Unit := do
  let tree ← loadTree read arguments
  let root ← findRoot tree arguments.root
  let (matcher,warning) ← compileSelector arguments
  warn (warning.getD "")
  if arguments.explain then print (explanation arguments.selector matcher)
  printMatches arguments.format tree (Selector.collect tree matcher root)

/-- An error is reported behind all that was written before it. -/
def runQuery (read : FileReader) (arguments : Arguments) : Report :=
  match (attempt read arguments).outcome {} with
  | (.ok _,printed) => ⟨0,printed.stdout,printed.stderr⟩
  | (.error error,printed) => ⟨1,printed.stdout,printed.stderr ++ error.text⟩

def versionText : String := "sprig 0.1.0\n"

def run (read : FileReader) (words : List String) : Except UsageError Report := do
  match ← Request.ofWords words with
  | .version => return ⟨0,versionText,""⟩
  | .help long => return ⟨0,helpText long,""⟩
  | .query arguments => return runQuery read arguments

end TreeQuery.Command
