import Mathlib.Data.List.Basic
import TreeQuery.Command.Run

/-! The stages of a run. A run either passes all its stages and then writes what it found
(`runQuery_of_passes`), or it ends at the first stage that fails, before anything is printed, with the
report of that failure alone (`runQuery_cases`). A stage knows only the arguments that it reads: what
a failure reports cannot depend on an argument that is read later (`run_stages`). -/
namespace TreeQuery.Command

/-- The report of a run that ends with an error and has written nothing before. -/
def RunError.report (error : RunError) : Report := ⟨1,"",error.text⟩

def labelLines (tree : Tree) (nodes : List NodeId) : String :=
  String.join (nodes.map fun id => tree.label id ++ "\n")

def matchText (format : Format) (tree : Tree) (nodes : List NodeId) : String :=
  match format with
  | .text => labelLines tree nodes
  | .json => recordText tree nodes

/-- All that a run prints if it passes its stages. -/
def output (arguments : Arguments) (tree : Tree) (root : NodeId) (matcher : Selector.Matcher) :
    String :=
  (if arguments.explain then explanation arguments.selector matcher else "") ++
    matchText arguments.format tree (Selector.collect tree matcher root)

/-- The results of all stages before the output. -/
structure Passes (read : FileReader) (arguments : Arguments) (tree : Tree) (root : NodeId)
    (matcher : Selector.Matcher) (warning : Option String) : Prop where
  loaded : loadTree read arguments = .ok tree
  found : findRoot tree arguments.root = .ok root
  compiled : compileSelector arguments = .ok (matcher,warning)

def SameDocument (left right : Arguments) : Prop := left.file = right.file ∧ left.json = right.json

variable {read : FileReader} {arguments other : Arguments} {words : List String} {tree : Tree}
  {root : NodeId} {matcher : Selector.Matcher} {warning : Option String} {error : RunError}

theorem SameDocument.loadTree_eq (same : SameDocument arguments other) :
    loadTree read arguments = loadTree read other := by
  rw [loadTree,loadTree,same.1,same.2]

/-- Each node of the text format is printed by itself; together they make the lines. -/
theorem outcome_printLines (tree : Tree) (nodes : List NodeId) (printed : Printed) :
    Running.outcome (forM nodes fun id => print (tree.label id ++ "\n")) printed =
      (.ok (),{ printed with stdout := printed.stdout ++ labelLines tree nodes }) := by
  induction nodes generalizing printed with
  | nil => simp [labelLines]
  | cons id nodes ih => simp [ih,labelLines,String.append_assoc]

theorem outcome_printMatches (format : Format) (tree : Tree) (nodes : List NodeId)
    (printed : Printed) :
    (printMatches format tree nodes).outcome printed =
      (.ok (),{ printed with stdout := printed.stdout ++ matchText format tree nodes }) := by
  cases format with
  | text => exact outcome_printLines tree nodes printed
  | json => exact Running.outcome_print

/-! Nothing is printed before the selector is compiled: a stage that fails is reported alone. -/

theorem runQuery_of_unloaded (failed : loadTree read arguments = .error error) :
    runQuery read arguments = error.report := by
  simp [runQuery,attempt,failed,RunError.report]

theorem runQuery_of_unrooted (loaded : loadTree read arguments = .ok tree)
    (failed : findRoot tree arguments.root = .error error) :
    runQuery read arguments = error.report := by
  simp [runQuery,attempt,loaded,failed,RunError.report]

theorem runQuery_of_uncompiled (loaded : loadTree read arguments = .ok tree)
    (found : findRoot tree arguments.root = .ok root)
    (failed : compileSelector arguments = .error error) :
    runQuery read arguments = error.report := by
  simp [runQuery,attempt,loaded,found,failed,RunError.report]

theorem runQuery_of_passes (passes : Passes read arguments tree root matcher warning) :
    runQuery read arguments = ⟨0,output arguments tree root matcher,warning.getD ""⟩ := by
  cases explains : arguments.explain <;>
    simp [runQuery,attempt,passes.loaded,passes.found,passes.compiled,outcome_printMatches,output,
      explains]

/-- A run fails at one of its stages or passes all of them. -/
theorem runQuery_cases (read : FileReader) (arguments : Arguments) :
    (∃ error : RunError, runQuery read arguments = error.report) ∨
      ∃ tree root matcher warning, Passes read arguments tree root matcher warning := by
  cases loaded : loadTree read arguments with
  | error error => exact .inl ⟨error,runQuery_of_unloaded loaded⟩
  | ok tree =>
    cases found : findRoot tree arguments.root with
    | error error => exact .inl ⟨error,runQuery_of_unrooted loaded found⟩
    | ok root =>
      cases compiled : compileSelector arguments with
      | error error => exact .inl ⟨error,runQuery_of_uncompiled loaded found compiled⟩
      | ok result => exact .inr ⟨tree,root,result.1,result.2,loaded,found,compiled⟩

theorem compileSelector_error_iff :
    (∃ error, compileSelector arguments = .error error) ↔
      arguments.strict = true ∧ ∃ error, Selector.compile? arguments.selector = .error error := by
  unfold compileSelector
  cases arguments.strict <;> cases Selector.compile? arguments.selector <;> simp

theorem exit_runQuery_iff (loaded : loadTree read arguments = .ok tree)
    (found : findRoot tree arguments.root = .ok root) :
    (runQuery read arguments).exit = 1 ↔
      arguments.strict = true ∧ ∃ error, Selector.compile? arguments.selector = .error error := by
  rw [← compileSelector_error_iff]
  cases compiled : compileSelector arguments with
  | error error => simp [runQuery_of_uncompiled loaded found compiled,RunError.report]
  | ok result => simp [runQuery_of_passes ⟨loaded,found,compiled⟩]

theorem run_of_query (understood : Request.ofWords words = .ok (.query arguments)) :
    run read words = .ok (runQuery read arguments) := by
  simp [run,understood,pure,Except.pure]

theorem stdout_of_exit {report : Report} (ran : run read words = .ok report)
    (failed : report.exit = 1) : report.stdout = "" := by
  obtain ⟨request,understood,answer⟩ := bind_eq_ok_iff.mp ran
  cases request with
  | version | help =>
    cases answer
    contradiction
  | query arguments =>
    cases answer
    rcases runQuery_cases read arguments with ⟨error,stopped⟩ | ⟨tree,root,matcher,warning,passes⟩
    · rw [stopped,RunError.report]
    · rw [runQuery_of_passes passes] at failed
      contradiction

theorem findRoot_of_absent {id : String} (absent : tree.elementById? id = none) :
    findRoot tree (some id) = .error (.noElement id) := by
  rw [findRoot,absent]

/-- Two command lines that name the same document end alike where it cannot be loaded, whatever else
they ask for, and also where both name a root that the document lacks; only the failure is reported.
A run that has a document and a root fails exactly if a malformed selector is forbidden. Nothing is
ever printed by a run that fails. -/
theorem run_stages (read : FileReader) :
    (∀ words report, run read words = .ok report → report.exit = 1 → report.stdout = "") ∧
      (∀ words words' arguments arguments', Request.ofWords words = .ok (.query arguments) →
        Request.ofWords words' = .ok (.query arguments') → SameDocument arguments arguments' →
          (∀ error, loadTree read arguments = .error error →
            run read words = .ok ⟨1,"",error.text⟩ ∧ run read words' = .ok ⟨1,"",error.text⟩) ∧
          ∀ tree id, loadTree read arguments = .ok tree → tree.elementById? id = none →
            arguments.root = some id → arguments'.root = some id →
              run read words = .ok ⟨1,"",(RunError.noElement id).text⟩ ∧
                run read words' = .ok ⟨1,"",(RunError.noElement id).text⟩) ∧
      ∀ words arguments tree root, Request.ofWords words = .ok (.query arguments) →
        loadTree read arguments = .ok tree → findRoot tree arguments.root = .ok root →
          ∃ report, run read words = .ok report ∧ (report.exit = 1 ↔ arguments.strict = true ∧
            ∃ error, Selector.compile? arguments.selector = .error error) := by
  refine ⟨fun words report => stdout_of_exit,?_,?_⟩
  · intro words words' arguments arguments' understood understood' same
    rw [run_of_query understood,run_of_query understood']
    constructor
    · intro error failed
      rw [runQuery_of_unloaded failed,runQuery_of_unloaded (same.loadTree_eq ▸ failed)]
      exact ⟨rfl,rfl⟩
    · intro tree id loaded absent named named'
      have failed := findRoot_of_absent absent
      rw [runQuery_of_unrooted loaded (named ▸ failed),
        runQuery_of_unrooted (same.loadTree_eq ▸ loaded) (named' ▸ failed)]
      exact ⟨rfl,rfl⟩
  · intro words arguments tree root understood loaded found
    exact ⟨_,run_of_query understood,exit_runQuery_iff loaded found⟩

/-- Malformed and well-formed selectors over a missing file and over a document without elements. -/
theorem run_stages_missing :
    let read : FileReader := fun path => if path = "page.json" then .ok "[]" else .error .notFound
    let missing := (RunError.source (.file "missing.json" .notFound)).text
    let absent := (RunError.noElement "r").text
    run read ["a.b.c","missing.json","--strict"] = .ok ⟨1,"",missing⟩ ∧
      run read ["--root=r","p","missing.json","--format","json","--explain"] = .ok ⟨1,"",missing⟩ ∧
      run read ["a.b.c","page.json","--root","r"] = .ok ⟨1,"",absent⟩ ∧
      run read ["--strict","p","--root=r","page.json"] = .ok ⟨1,"",absent⟩ ∧
      ∃ report, run read ["a.b.c","page.json","--strict"] = .ok report ∧ report.exit = 1 ∧
        report.stdout = "" := by
  intro read missing absent
  obtain ⟨silent,alike,strictly⟩ := run_stages read
  have unloaded := (alike ["a.b.c","missing.json","--strict"]
    ["--root=r","p","missing.json","--format","json","--explain"]
    { selector := "a.b.c",file := some "missing.json",strict := true }
    { selector := "p",file := some "missing.json",root := some "r",format := .json,explain := true }
    (by decide +kernel) (by decide +kernel) ⟨rfl,rfl⟩).1 (.source (.file "missing.json" .notFound))
    (by decide +kernel)
  have unrooted := (alike ["a.b.c","page.json","--root","r"] ["--strict","p","--root=r","page.json"]
    { selector := "a.b.c",file := some "page.json",root := some "r" }
    { selector := "p",file := some "page.json",root := some "r",strict := true }
    (by decide +kernel) (by decide +kernel) ⟨rfl,rfl⟩).2 Tree.empty "r" (by decide +kernel)
    (by decide +kernel) rfl rfl
  obtain ⟨report,ran,exits⟩ := strictly ["a.b.c","page.json","--strict"]
    { selector := "a.b.c",file := some "page.json",strict := true } Tree.empty 0 (by decide +kernel)
    (by decide +kernel) (by decide +kernel)
  have failed : report.exit = 1 :=
    exits.mpr ⟨rfl,.multipleClasses "a.b.c",by decide +kernel⟩
  exact ⟨unloaded.1,unloaded.2,unrooted.1,unrooted.2,report,ran,failed,silent _ _ ran failed⟩

end TreeQuery.Command
