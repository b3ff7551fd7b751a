import Mathlib.Data.List.Basic
import TreeQuery.Proofs.Command.Stages

/-! The flag `--strict`. Reading a command line, only the word itself sets the flag or looks at it, so
words that do not name it are understood alike behind it (`readWords_strict`). Of the stages only the
compilation looks at the flag, and only where the selector is malformed. What the flag changes is
therefore the report about a malformed selector and nothing else (`run_strict`). -/
namespace TreeQuery.Command

def Arguments.strictly (arguments : Arguments) : Arguments := { arguments with strict := true }

def Partial.strictly (given : Partial) : Partial := { given with strict := true }

/-- A step of the reading that neither reads nor sets the flag `--strict`. -/
structure Partial.KeepsStrict (take : Partial → Except UsageError Partial)
    (given next : Partial) : Prop where
  strict_eq : next.strict = given.strict
  strictly : take given.strictly = .ok next.strictly

variable {given next : Partial} {words : List String} {arguments : Arguments}
  {word option value : String}

namespace Partial

theorem takeWord_strict (taken : given.takeWord word = .ok next) :
    KeepsStrict (·.takeWord word) given next := by
  obtain ⟨selector,file,json,root,format,explain,strict⟩ := given
  cases selector with
  | none =>
    cases taken
    exact ⟨rfl,rfl⟩
  | some selector =>
    cases file with
    | none =>
      simp only [takeWord] at taken
      split_ifs at taken with empty
      cases taken
      exact ⟨rfl,if_neg empty⟩
    | some file => contradiction

theorem takeValue_strict (taken : given.takeValue option value = .ok next) :
    KeepsStrict (·.takeValue option value) given next := by
  unfold takeValue at taken
  split_ifs at taken
  all_goals
    cases taken
    refine ⟨rfl,?_⟩
    simp_all [takeValue,strictly]

/-- Only `--strict` itself reads or sets the flag. -/
theorem takeFlag_strict (taken : given.takeFlag option = .ok next) :
    option = "strict" ∧ next.strict = true ∨ KeepsStrict (·.takeFlag option) given next := by
  unfold takeFlag at taken
  split_ifs at taken with explains given named
  · cases taken
    refine .inr ⟨rfl,?_⟩
    simp_all [takeFlag,strictly]
  · cases taken
    exact .inl ⟨named,rfl⟩

theorem finish_strict (finished : given.finish = .ok (.query arguments)) :
    arguments.strict = given.strict ∧ given.strictly.finish = .ok (.query arguments.strictly) := by
  obtain ⟨selector,file,json,root,format,explain,strict⟩ := given
  cases selector with
  | none => contradiction
  | some selector =>
    simp only [finish] at finished
    split_ifs at finished with both
    cases finished
    exact ⟨rfl,if_neg both⟩

end Partial

theorem splitValue_none {letters : List Char} (whole : (splitValue letters).2 = none) :
    (splitValue letters).1 = letters := by
  fun_induction splitValue letters with
  | case1 => rfl
  | case2 rest => contradiction
  | case3 c rest _ name value parted ih =>
    rw [parted] at ih
    exact congrArg (c :: ·) (ih whole)

theorem Word.of_long {name : String} (read : Word.of word = .long name none) :
    word = "--" ++ name := by
  unfold Word.of at read
  split at read
  · contradiction
  · rename_i rest _ letters
    obtain ⟨rfl,whole⟩ := Word.long.inj read
    rw [splitValue_none (Option.map_eq_none_iff.mp whole),← String.toList_inj,letters]
    simp
  · contradiction
  · contradiction

theorem readPlain_strict (understood : readPlain given words = .ok (.query arguments)) :
    arguments.strict = given.strict ∧
      readPlain given.strictly words = .ok (.query arguments.strictly) := by
  induction words generalizing given with
  | nil => exact Partial.finish_strict understood
  | cons word words ih =>
    obtain ⟨next,taken,understood⟩ := bind_eq_ok_iff.mp understood
    have kept := Partial.takeWord_strict taken
    have rest := ih understood
    exact ⟨rest.1.trans kept.strict_eq,bind_eq_ok_iff.mpr ⟨_,kept.strictly,rest.2⟩⟩

/-- The words name the flag `--strict`, or they leave it as it was and are also understood where it
was set before them. -/
def NamesOrKeepsStrict (given : Partial) (words : List String) (arguments : Arguments) : Prop :=
  arguments.strict = true ∧ "--strict" ∈ words ∨ arguments.strict = given.strict ∧
    readWords given.strictly words = .ok (.query arguments.strictly)

theorem NamesOrKeepsStrict.after (front : List String)
    {take : Partial → Except UsageError Partial} (rest : NamesOrKeepsStrict next words arguments)
    (kept : Partial.KeepsStrict take given next)
    (step : readWords given.strictly (front ++ words) =
      take given.strictly >>= (readWords · words)) :
    NamesOrKeepsStrict given (front ++ words) arguments := by
  rcases rest with ⟨strict,named⟩ | ⟨same,read⟩
  · exact .inl ⟨strict,List.mem_append_right front named⟩
  · rw [kept.strictly,ok_bind] at step
    exact .inr ⟨same.trans kept.strict_eq,step.trans read⟩

theorem readWords_strict (understood : readWords given words = .ok (.query arguments)) :
    NamesOrKeepsStrict given words arguments := by
  fun_induction readWords given words with
  | case1 given => exact .inr (Partial.finish_strict understood)
  | case2 given word words plain reads ih =>
    obtain ⟨next,taken,rest⟩ := bind_eq_ok_iff.mp understood
    refine (ih next rest).after [word] (Partial.takeWord_strict taken) ?_
    simp only [List.singleton_append,readWords,reads]
  | case3 given word words reads =>
    have rest := readPlain_strict understood
    exact .inr ⟨rest.1,by simp only [readWords,reads,rest.2]⟩
  | case10 given word name reads other other' valued next words value reads' ih =>
    obtain ⟨next,taken,rest⟩ := bind_eq_ok_iff.mp understood
    refine (ih next rest).after [word,_] (Partial.takeValue_strict taken) ?_
    simp only [List.cons_append,List.nil_append,readWords,reads,reads',if_neg other,if_neg other',
      if_pos valued]
  | case12 given word words name reads other other' bare ih =>
    obtain ⟨next,taken,rest⟩ := bind_eq_ok_iff.mp understood
    rcases Partial.takeFlag_strict taken with ⟨rfl,set⟩ | kept
    · refine .inl ⟨?_,Word.of_long reads ▸ List.mem_cons_self⟩
      rcases ih next rest with ⟨strict,_⟩ | ⟨same,_⟩
      · exact strict
      · exact same.trans set
    · refine (ih next rest).after [word] kept ?_
      simp only [List.singleton_append,readWords,reads,if_neg other,if_neg other',if_neg bare]
  | case14 given word words name value reads flag ih =>
    obtain ⟨next,taken,rest⟩ := bind_eq_ok_iff.mp understood
    refine (ih next rest).after [word] (Partial.takeValue_strict taken) ?_
    simp only [List.singleton_append,readWords,reads,if_neg flag]
  -- The other words end the reading without a query.
  | _ => cases understood

theorem strict_of_absent (understood : Request.ofWords words = .ok (.query arguments))
    (absent : "--strict" ∉ words) : arguments.strict = false := by
  rcases readWords_strict understood with ⟨_,named⟩ | ⟨lenient,_⟩
  · exact absurd named absent
  · exact lenient

theorem ofWords_strict_cons :
    Request.ofWords ("--strict" :: words) = readWords (Partial.strictly {}) words := by
  have reads : Word.of "--strict" = .long "strict" none := by decide +kernel
  have bare : hasValue "strict" = false := by decide +kernel
  have set : ({} : Partial).takeFlag "strict" = .ok (Partial.strictly {}) := by decide +kernel
  rw [Request.ofWords,readWords,reads]
  simp only [bare,Bool.false_eq_true,if_false,String.reduceEq,set,ok_bind]

/-- A lenient command line can be made strict by a word in front of it. -/
theorem ofWords_strictly (understood : Request.ofWords words = .ok (.query arguments))
    (lenient : arguments.strict = false) :
    Request.ofWords ("--strict" :: words) = .ok (.query arguments.strictly) := by
  rcases readWords_strict understood with ⟨strict,_⟩ | ⟨_,read⟩
  · exact absurd strict (Bool.not_eq_true _ ▸ lenient)
  · exact ofWords_strict_cons.trans read

namespace RunError

/-- The lines of a text. It has one line more than line breaks. -/
def lines (text : String) : List String := (text.toList.splitOn '\n').map String.ofList

/-- The first line stands where it stood, each further one behind the padding. -/
theorem flatMap_breaks (pad letters : List Char) :
    ∃ first rest, letters.splitOn '\n' = first :: rest ∧
      letters.flatMap (fun c => if c = '\n' then '\n' :: pad else [c]) =
        ['\n'].intercalate (first :: rest.map (pad ++ ·)) := by
  induction letters with
  | nil => exact ⟨[],[],rfl,rfl⟩
  | cons c letters ih =>
    obtain ⟨first,rest,split,padded⟩ := ih
    by_cases ends : c = '\n'
    · refine ⟨[],first :: rest,by simp [List.splitOn_cons_eq_if_modifyHead,ends,split],?_⟩
      rw [List.flatMap_cons,if_pos ends,padded,List.map_cons,List.intercalate_cons_cons]
      cases rest <;> simp [List.intercalate_cons_cons]
    · refine ⟨c :: first,rest,by simp [List.splitOn_cons_eq_if_modifyHead,ends,split],?_⟩
      rw [List.flatMap_cons,if_neg ends,padded,List.intercalate_cons_cons_left,List.singleton_append]

theorem indent_eq_intercalate (text : String) :
    indent text = "\n".intercalate ((lines text).map ("    " ++ ·)) := by
  obtain ⟨first,rest,split,padded⟩ := flatMap_breaks [' ',' ',' ',' '] text.toList
  rw [lines,split,← String.toList_inj,indent,String.toList_append,String.toList_ofList,padded,
    List.map_cons,List.map_cons,String.intercalate_cons_append,String.toList_append,
    String.toList_intercalate]
  simp [Function.comp_def]

end RunError

section Selector

open Selector
open Text (Style)

variable {read : FileReader} {tree : Tree} {root : NodeId} {matcher : Matcher}
  {error : SelectorError}

theorem compileSelector_of_accepted (accepted : compile? arguments.selector = .ok matcher) :
    compileSelector arguments = .ok (matcher,none) := by
  unfold compileSelector
  split
  · rw [accepted]
  · rw [compile_of_ok accepted]

theorem compileSelector_of_lenient (lenient : arguments.strict = false)
    (malformed : compile? arguments.selector = .error error) :
    compileSelector arguments = .ok (.never,some (Warnings.line component error.message)) := by
  rw [compileSelector,if_neg (Bool.not_eq_true _ ▸ lenient),compile_of_error malformed]
  rfl

theorem compileSelector_of_strict (strict : arguments.strict = true)
    (malformed : compile? arguments.selector = .error error) :
    compileSelector arguments = .error (.selector arguments.selector error) := by
  rw [compileSelector,if_pos strict,malformed]

/-- An accepted selector is compiled alike under `--strict`, and no other stage reads the flag. -/
theorem runQuery_strictly (read : FileReader)
    (accepted : compile? arguments.selector = .ok matcher) :
    runQuery read arguments.strictly = runQuery read arguments := by
  have strictly : compileSelector arguments.strictly = .ok (matcher,none) :=
    compileSelector_of_accepted accepted
  rw [runQuery,runQuery,attempt,attempt,strictly,compileSelector_of_accepted accepted]
  rfl

/-- The report about a malformed selector that is taken for one that matches nothing. -/
def downgraded (arguments : Arguments) (error : SelectorError) : Report where
  exit := 0
  stdout :=
    (if arguments.explain then
      Style.bold.paint "kind:" ++ " " ++
        Style.cyan.paint (classify arguments.selector.toList).name ++ "\n" ++
        Style.bold.paint "matcher:" ++ " " ++ Style.red.paint "<never>" ++ "\n"
    else "") ++
      match arguments.format with
      | .text => ""
      | .json => "[]\n"
  stderr := Style.yellow.paint ("[Sprig Select] ⚠ " ++ error.message) ++ "\n"

/-- The report about a malformed selector that is forbidden. The lines of the cause are indented. -/
def rejected (arguments : Arguments) (error : SelectorError) : Report where
  exit := 1
  stdout := ""
  stderr := "Error: cannot compile selector '" ++ arguments.selector ++ "'\n\nCaused by:\n" ++
    "\n".intercalate ((RunError.lines error.message).map ("    " ++ ·)) ++ "\n"

theorem collect_never (tree : Tree) (root : NodeId) : collect tree .never root = [] :=
  List.filter_eq_nil_iff.mpr fun _ _ => Bool.false_ne_true

theorem output_never (arguments : Arguments) (error : SelectorError) (tree : Tree) (root : NodeId) :
    output arguments tree root .never = (downgraded arguments error).stdout := by
  rw [output,collect_never,downgraded]
  cases arguments.format <;> rfl

theorem runQuery_of_lenient (lenient : arguments.strict = false)
    (malformed : compile? arguments.selector = .error error)
    (loaded : loadTree read arguments = .ok tree)
    (found : findRoot tree arguments.root = .ok root) :
    runQuery read arguments = downgraded arguments error := by
  rw [runQuery_of_passes ⟨loaded,found,compileSelector_of_lenient lenient malformed⟩,
    output_never arguments error]
  rfl

theorem runQuery_strictly_of_error (malformed : compile? arguments.selector = .error error)
    (loaded : loadTree read arguments = .ok tree)
    (found : findRoot tree arguments.root = .ok root) :
    runQuery read arguments.strictly = rejected arguments error := by
  have loaded' : loadTree read arguments.strictly = .ok tree := loaded
  have failed : compileSelector arguments.strictly = .error (.selector arguments.selector error) :=
    compileSelector_of_strict rfl malformed
  have front : "Error: cannot compile selector '" = "Error: " ++ "cannot compile selector '" := by
    decide +kernel
  have middle : "'\n\nCaused by:\n" = "'" ++ "\n" ++ "\nCaused by:\n" := by decide +kernel
  have written : (RunError.selector arguments.selector error).text =
      "Error: " ++ ("cannot compile selector '" ++ arguments.selector ++ "'") ++ "\n" ++
        ("\nCaused by:\n" ++ RunError.indent error.message ++ "\n") := rfl
  rw [runQuery_of_uncompiled loaded' found failed,RunError.report,rejected,
    ← RunError.indent_eq_intercalate,written,front,middle]
  simp only [String.append_assoc]

/-- Whatever files there are, a command line does the same under `--strict` if its selector is
accepted. If it is malformed, and there are a document and a root, the lenient run warns and matches
nothing, and the strict one fails. The word can always be put in front of a command line that does not
name it. -/
theorem run_strict (read : FileReader)
    (understood : Request.ofWords words = .ok (.query arguments)) :
    ("--strict" ∉ words → arguments.strict = false) ∧
      (arguments.strict = false →
        Request.ofWords ("--strict" :: words) = .ok (.query arguments.strictly) ∧
          ∀ words', Request.ofWords words' = .ok (.query arguments.strictly) →
            (∀ matcher, compile? arguments.selector = .ok matcher →
              ∃ report, run read words = .ok report ∧ run read words' = .ok report) ∧
            ∀ error tree root, compile? arguments.selector = .error error →
              loadTree read arguments = .ok tree → findRoot tree arguments.root = .ok root →
                run read words = .ok (downgraded arguments error) ∧
                  run read words' = .ok (rejected arguments error)) := by
  refine ⟨strict_of_absent understood,fun lenient => ⟨ofWords_strictly understood lenient,?_⟩⟩
  intro words' understood'
  rw [run_of_query understood,run_of_query understood']
  constructor
  · intro matcher accepted
    exact ⟨_,rfl,congrArg _ (runQuery_strictly read accepted)⟩
  · intro error tree root malformed loaded found
    exact ⟨congrArg _ (runQuery_of_lenient lenient malformed loaded found),
      congrArg _ (runQuery_strictly_of_error malformed loaded found)⟩

/-- A selector of two lines that is malformed, and one that is accepted. -/
theorem run_strict_lines :
    let read : FileReader := fun _ => .error .notFound
    let words := ["a\n.b.c","--json","[]","--explain","--format=json"]
    run read words = .ok ⟨0,
        "\x1b[1mkind:\x1b[0m \x1b[36mtag-and-class\x1b[39m\n" ++
          "\x1b[1mmatcher:\x1b[0m \x1b[31m<never>\x1b[39m\n[]\n",
        "\x1b[33m[Sprig Select] ⚠ 'a\n.b.c' names more than one class; " ++
          "only tag.class is supported\x1b[39m\n"⟩ ∧
      run read ("--strict" :: words) = .ok ⟨1,"",
        "Error: cannot compile selector 'a\n.b.c'\n\nCaused by:\n    'a\n    .b.c' names more " ++
          "than one class; only tag.class is supported\n"⟩ ∧
      ∃ report, run read ["p","--json","[]"] = .ok report ∧
        run read ["p","--json","[]","--strict"] = .ok report := by
  intro read words
  let error : SelectorError := .multipleClasses "a\n.b.c"
  let folded : Arguments :=
    { selector := "a\n.b.c",json := some "[]",format := .json,explain := true }
  have understood : Request.ofWords words = .ok (.query folded) := by decide +kernel
  obtain ⟨absent,strict⟩ := run_strict read understood
  obtain ⟨front,compared⟩ := strict (absent (by decide +kernel))
  have reports := (compared _ front).2 error Tree.empty 0 (by decide +kernel) (by decide +kernel)
    (by decide +kernel)
  have plain : Request.ofWords ["p","--json","[]"] =
      .ok (.query { selector := "p",json := some "[]" }) := by decide +kernel
  obtain ⟨_,compared'⟩ := (run_strict read plain).2 rfl
  refine ⟨?_,?_,(compared' ["p","--json","[]","--strict"] ?_).1 (.tag "P") ?_⟩
  · rw [reports.1]
    decide +kernel
  · rw [reports.2]
    decide +kernel
  · decide +kernel
  · decide +kernel

end Selector
end TreeQuery.Command
