import TreeQuery.Proofs.Command.Stages
import TreeQuery.Proofs.Json.Decimal
import TreeQuery.Proofs.Json.Soundness
import TreeQuery.Proofs.Selector.Collect

/-! The two formats of a run's matches. The format is read by the output alone, so a run that
succeeds in one format succeeds in the other, and finds the same nodes. The text has a line for each
of them. The JSON text can be read in one way only, as an array with a record for each of them in the
same order, whatever characters stand in the labels (`formats_agree`). -/
namespace TreeQuery.Command

/-- The object that reports a node: its id in decimal and its label. -/
def IsRecord (tree : Tree) (id : NodeId) (value : Json.Value) : Prop :=
  ∃ digits, Json.Digits digits ∧ Nat.ofDigitChars 10 digits 0 = id ∧
    value = .object [("node",.number (String.ofList digits)),("label",.string (tree.label id))]

def Records (tree : Tree) (nodes : List NodeId) (value : Json.Value) : Prop :=
  ∃ items, value = .array items ∧ List.Forall₂ (IsRecord tree) nodes items

/-- What a run prints before the matches. -/
def preface (arguments : Arguments) (matcher : Selector.Matcher) : String :=
  if arguments.explain then explanation arguments.selector matcher else ""

variable {read : FileReader} {arguments : Arguments} {tree : Tree} {root id : NodeId}
  {matcher : Selector.Matcher} {warning : Option String} {nodes : List NodeId}

theorem passes_of_exit (succeeds : (runQuery read arguments).exit = 0) :
    ∃ tree root matcher warning, Passes read arguments tree root matcher warning := by
  rcases runQuery_cases read arguments with ⟨error,stopped⟩ | passes
  · rw [stopped] at succeeds
    contradiction
  · exact passes

/-- No stage before the output reads the format. -/
theorem Passes.inFormat (passes : Passes read arguments tree root matcher warning)
    (format : Format) :
    Passes read { arguments with format := format } tree root matcher warning :=
  ⟨passes.loaded,passes.found,passes.compiled⟩

theorem runQuery_text (passes : Passes read arguments tree root matcher warning) :
    runQuery read { arguments with format := .text } = ⟨0,preface arguments matcher ++
      labelLines tree (Selector.collect tree matcher root),warning.getD ""⟩ :=
  runQuery_of_passes (passes.inFormat .text)

theorem runQuery_json (passes : Passes read arguments tree root matcher warning) :
    runQuery read { arguments with format := .json } = ⟨0,preface arguments matcher ++
      recordText tree (Selector.collect tree matcher root),warning.getD ""⟩ :=
  runQuery_of_passes (passes.inFormat .json)

theorem isRecord_record (tree : Tree) (id : NodeId) : IsRecord tree id (record tree id) := by
  refine ⟨Nat.toDigits 10 id,Json.digits_toDigits id,Nat.ofDigitChars_ten_toDigits,?_⟩
  rw [record,Json.Value.nat,← Nat.repr_eq_ofList_toDigits]
  rfl

theorem records_map (tree : Tree) (nodes : List NodeId) :
    Records tree nodes (.array (nodes.map (record tree))) :=
  ⟨_,rfl,List.forall₂_map_right_iff.mpr (List.forall₂_same.mpr fun id _ => isRecord_record tree id)⟩

theorem spellable_record (word : id < UInt64.size) : (record tree id).Spellable :=
  ⟨Json.spellable_nat word,trivial,trivial⟩

theorem recordText_writes (words : ∀ id ∈ nodes, id < UInt64.size) :
    Json.Writes (.array (nodes.map (record tree))) (recordText tree nodes).toList := by
  have spellable : (Json.Value.array (nodes.map (record tree))).Spellable := by
    refine Json.spellableItems_iff.mpr (List.forall_mem_map.mpr fun id member => ?_)
    exact spellable_record (words id member)
  have ending : Json.Blank ['\n'] := by simp [Json.Blank,Json.isBlank]
  simpa [recordText] using Json.Writes.intro Json.blank_nil (spellable.spells 0) ending

theorem nestingOfItems_records (tree : Tree) (nodes : List NodeId) :
    Json.nestingOfItems (nodes.map (record tree)) ≤ 1 := by
  induction nodes with
  | nil => exact Nat.zero_le 1
  | cons id nodes ih => exact Nat.max_le.mpr ⟨Nat.le_refl 1,ih⟩

theorem nesting_records (tree : Tree) (nodes : List NodeId) :
    (Json.Value.array (nodes.map (record tree))).nesting ≤ Json.nestingLimit :=
  Nat.le_trans (Nat.succ_le_succ (nestingOfItems_records tree nodes)) (by decide)

/-- A run that succeeds prints the same matches in both formats: a line for each of them, or a text
that has a single value, the array of their records, and that the reader takes for this value. Ids are
machine words. -/
theorem formats_agree (succeeds : (runQuery read arguments).exit = 0) :
    ∃ tree root matcher warning, Passes read arguments tree root matcher warning ∧
      let nodes := Selector.collect tree matcher root
      runQuery read { arguments with format := .text } = ⟨0,preface arguments matcher ++
          String.join (nodes.map fun id => tree.label id ++ "\n"),warning.getD ""⟩ ∧
        ∃ text, runQuery read { arguments with format := .json } =
            ⟨0,preface arguments matcher ++ text,warning.getD ""⟩ ∧
          (tree.size ≤ UInt64.size → ∃ value, Records tree nodes value ∧
            (∀ other, Json.Writes other text.toList ↔ other = value) ∧
            ∃ after, Json.readFront text.toList = .ok (value,after) ∧
              Json.skipBlank after = []) := by
  obtain ⟨tree,root,matcher,warning,passes⟩ := passes_of_exit succeeds
  refine ⟨tree,root,matcher,warning,passes,runQuery_text passes,_,runQuery_json passes,?_⟩
  intro words
  let nodes := Selector.collect tree matcher root
  have written : Json.Writes (.array (nodes.map (record tree))) (recordText tree nodes).toList :=
    recordText_writes fun id found => Nat.lt_of_lt_of_le (Selector.collect_inside found) words
  have fits := nesting_records tree nodes
  exact ⟨_,records_map tree nodes,fun other => written.unique fits,
    Json.reads_iff_writes.mpr ⟨written,fits⟩⟩

/-- A label with a quote, a backslash, a line break and a control character. -/
theorem formats_agree_escaped :
    let read : FileReader := fun _ => .error .notFound
    let document := "\x7b\"tag\":\"p\",\"attrs\":\x7b\"id\":\"a\\\"b\\\\\\nc\\u0001\"\x7d\x7d"
    let arguments : Arguments := { selector := "p",json := some document }
    let element : Element := ⟨"p",.ofList [("id","a\"b\\\nc\x01")]⟩
    let tree : Tree := ⟨#[⟨.document,none,[1]⟩,⟨.element element,some 0,[]⟩]⟩
    let text := "[\n  \x7b\n    \"node\": 1,\n    \"label\": \"p#a\\\"b\\\\\\nc\\u0001\"\n  \x7d\n]\n"
    (runQuery read arguments).exit = 0 ∧
      (runQuery read { arguments with format := .text }).stdout = "p#a\"b\\\nc\x01\n" ∧
      (runQuery read { arguments with format := .json }).stdout = text ∧
      ∃ value, Records tree [1] value ∧ ∀ other, Json.Writes other text.toList ↔ other = value := by
  intro read document arguments element tree text
  have succeeds : (runQuery read arguments).exit = 0 := by decide +kernel
  have printed : (runQuery read { arguments with format := .json }).stdout = text := by
    decide +kernel
  obtain ⟨tree',root,matcher,warning,passes,_,text',json,reads⟩ := formats_agree succeeds
  have loaded : loadTree read arguments = .ok tree := by decide +kernel
  have found : findRoot tree none = .ok 1 := by decide +kernel
  have compiled : compileSelector arguments = .ok (.tag "P",none) := by decide +kernel
  cases loaded.symm.trans passes.loaded
  cases found.symm.trans passes.found
  cases compiled.symm.trans passes.compiled
  obtain rfl : text' = text := by
    rw [json] at printed
    simpa [preface] using printed
  obtain ⟨value,records,only,_⟩ := reads (by decide)
  have collected : Selector.collect tree (.tag "P") 1 = [1] := by decide +kernel
  exact ⟨succeeds,by decide +kernel,printed,value,collected ▸ records,only⟩

end TreeQuery.Command
