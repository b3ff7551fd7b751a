import TreeQuery.Proofs.Document.Description
import TreeQuery.Proofs.Json.Position

/-! Which fault of a document is reported. The value at the front of a text is read to its end whatever
stands behind it, and it must be a document before anything is said about the text behind it
(`parse_front`). A number is the one value that has no end of its own. -/
namespace TreeQuery
open Json

namespace Json

variable {before text rest : List Char} {value : Value}

theorem Spells.readFront_append (left : Blank before) (spelled : Spells value text)
    (ended : ∀ spelling, value ≠ .number spelling) (fits : value.nesting ≤ nestingLimit)
    (rest : List Char) : readFront (before ++ (text ++ rest)) = .ok (value,rest) := by
  have found : skipBlank (before ++ (text ++ rest)) = text ++ rest := by
    rw [Json.skipBlank_append left,spelled.skipBlank_append]
  apply (spelled.reads found _).reads fits
  exact fun spelling number => absurd number (ended spelling)

/-- The first character that is no blank, where there is one. -/
theorem skipBlank_of_dark (dark : ∃ c ∈ rest, isBlank c = false) :
    ∃ c later, isBlank c = false ∧ skipBlank rest = c :: later := by
  cases found : skipBlank rest with
  | nil =>
    obtain ⟨c,member,dark⟩ := dark
    have blank := List.dropWhile_eq_nil_iff.mp found c member
    simp [dark] at blank
  | cons c later =>
    have head := List.head?_dropWhile_not isBlank rest
    rw [show rest.dropWhile isBlank = c :: later from found] at head
    exact ⟨c,later,by simpa using head,rfl⟩

end Json

namespace Document
open Outline

variable {before spelling rest : List Char} {text : String} {value : Value} {nodes : List Outline}

/-- The text is refused with this message. -/
def Fails (text message : String) : Prop :=
  ∃ error, parse text = .error error ∧ error.message = message

theorem fails_of_outlines {error : DocumentError} (read : outlines text.toList = .error error) :
    Fails text (SourceError.document error).message := by
  refine ⟨.document error,?_,rfl⟩
  rw [parse,read]

theorem message_trailingCharacters (place : Position) :
    (SourceError.document (.malformed ⟨.trailingCharacters,place⟩)).message =
      "invalid document JSON: trailing characters at line " ++ toString place.line ++ " column " ++
        toString place.column := by
  have start : "invalid document JSON: " ++ "trailing characters" ++ " at line " =
      "invalid document JSON: trailing characters at line " := rfl
  change "invalid document JSON: " ++ ("trailing characters" ++ " at line " ++
    toString place.line ++ " column " ++ toString place.column) = _
  rw [← start]
  simp only [String.append_assoc]

theorem outlines_of_undescribed (front : readFront text.toList = .ok (value,rest))
    (undescribed : ¬ ∃ nodes, DescribesDocument value nodes) :
    outlines text.toList = .error .mismatch := by
  simp only [outlines,front,ofDocument?_eq_none undescribed]

theorem outlines_of_blank (front : readFront text.toList = .ok (value,rest))
    (described : DescribesDocument value nodes) (blank : Blank rest) :
    outlines text.toList = .ok nodes := by
  simp only [outlines,front,ofDocument?_eq_some_iff.mpr described,skipBlank_blank blank]

theorem outlines_of_dark (parts : text.toList = before ++ rest)
    (front : readFront text.toList = .ok (value,rest)) (described : DescribesDocument value nodes)
    (dark : ∃ c ∈ rest, isBlank c = false) :
    outlines text.toList = .error (.malformed
      ⟨.trailingCharacters,Position.behind (before ++ rest.takeWhile isBlank)⟩) := by
  obtain ⟨c,later,dark,found⟩ := skipBlank_of_dark dark
  have parted : before ++ rest = (before ++ rest.takeWhile isBlank) ++ c :: later := by
    rw [List.append_assoc,← found]
    exact congrArg _ List.takeWhile_append_dropWhile.symm
  have noNewline : c ≠ '\n' := by
    rintro rfl
    contradiction
  simp only [outlines,front,ofDocument?_eq_some_iff.mpr described,found]
  rw [parts,parted,toError_at noNewline]

/-- A text that starts with a value is refused as no document if the value is none, whatever stands
behind it. If the value is a document, the first character behind it that is no blank is reported
where it stands, and if there is none, the document is loaded as it is without the blanks. -/
theorem parse_front (parts : text.toList = before ++ (spelling ++ rest)) (left : Blank before)
    (spelled : Spells value spelling) (ended : ∀ digits, value ≠ .number digits)
    (fits : value.nesting ≤ nestingLimit) :
    ((¬ ∃ nodes, DescribesDocument value nodes) → Fails text
        "invalid document JSON: data did not match any variant of untagged enum SourceRoot") ∧
      ∀ nodes, DescribesDocument value nodes →
        ((∃ c ∈ rest, isBlank c = false) →
          let place := Position.behind (before ++ (spelling ++ rest.takeWhile isBlank))
          Fails text ("invalid document JSON: trailing characters at line " ++
            toString place.line ++ " column " ++ toString place.column)) ∧
        (Blank rest → ∃ tree, parse text = .ok tree ∧ tree.Holds nodes ∧
          parse (String.ofList spelling) = .ok tree) := by
  have front : readFront text.toList = .ok (value,rest) := by
    rw [parts]
    exact spelled.readFront_append left ended fits rest
  refine ⟨fun undescribed => ?_,fun nodes described => ⟨fun dark => ?_,fun blank => ?_⟩⟩
  · exact fails_of_outlines (outlines_of_undescribed front undescribed)
  · rw [← List.append_assoc] at parts
    have reported := fails_of_outlines (outlines_of_dark parts front described dark)
    rwa [message_trailingCharacters,List.append_assoc] at reported
  · have alone : Writes value (String.ofList spelling).toList := by
      simpa using Writes.intro blank_nil spelled blank_nil
    refine ⟨_,parse_eq_ok_iff.mpr ⟨nodes,outlines_of_blank front described blank,rfl⟩,
      Tree.ofOutlines_holds nodes,parse_of_describes alone fits described⟩

/-- A text node over three lines with a letter of two bytes behind it, two lines further down; and the
same behind an object that is no node. -/
theorem parse_front_lines :
    let behind := " \n\té".toList
    let value : Value := .object [("text",.string "é")]
    let other : Value := .object [("id",.string "é")]
    let text := fun value : Value => String.ofList ('\n' :: (value.pretty 0 ++ behind))
    (∀ digits, value ≠ .number digits) ∧ value.nesting ≤ nestingLimit ∧
      Spells value (value.pretty 0) ∧ DescribesDocument value [.text "é"] ∧
      Fails (text value) "invalid document JSON: trailing characters at line 5 column 2" ∧
      Fails (text other)
        "invalid document JSON: data did not match any variant of untagged enum SourceRoot" := by
  intro behind value other text
  have parts : ∀ value, (text value).toList = ['\n'] ++ (value.pretty 0 ++ behind) := fun value =>
    String.toList_ofList
  have left : Blank ['\n'] := by simp [Blank,isBlank]
  have spellable : ∀ name words, (Value.object [(name,.string words)]).Spellable := fun _ _ =>
    ⟨trivial,trivial⟩
  have ended : ∀ name words digits, Value.object [(name,.string words)] ≠ .number digits := by simp
  have spelled : Spells value (value.pretty 0) := (spellable "text" "é").spells 0
  have spelled' : Spells other (other.pretty 0) := (spellable "id" "é").spells 0
  have described : DescribesDocument value [.text "é"] := ofDocument?_eq_some_iff.mp rfl
  have undescribed : ¬ ∃ nodes, DescribesDocument other nodes := by
    rintro ⟨nodes,described⟩
    cases ofDocument?_eq_some_iff.mpr described
  have fits : value.nesting ≤ nestingLimit := by decide
  have fits' : other.nesting ≤ nestingLimit := by decide
  have place : Position.behind (['\n'] ++ (value.pretty 0 ++ behind.takeWhile isBlank)) = ⟨5,2⟩ := by
    decide
  have trailing := ((parse_front (parts value) left spelled (ended _ _) fits).2 _ described).1
    ⟨'é',by decide,by decide⟩
  have mismatch := (parse_front (parts other) left spelled' (ended _ _) fits').1 undescribed
  rw [place] at trailing
  exact ⟨ended _ _,fits,spelled,described,trailing,mismatch⟩

end Document
end TreeQuery
