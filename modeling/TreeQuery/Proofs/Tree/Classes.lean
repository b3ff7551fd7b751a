import TreeQuery.Proofs.Text.Tokens
import TreeQuery.Tree.Element

/-! The names in a `class` attribute. An element has a class exactly if the name stands in the value
of the attribute with spaces or nothing around it, and the classes are listed as they stand there
(`classes_stand`). Only the space parts names; a tab or a newline belongs to the name around it. -/
namespace TreeQuery.Element
open Text

variable {element : Element} {value : String}

theorem classes_of_given (given : element.attributes.get? "class" = some value) :
    element.classes = (tokens value.toList).map String.ofList := by
  rw [classes,given,Option.getD_some]

theorem hasClass_iff (given : element.attributes.get? "class" = some value) (name : String) :
    element.hasClass name = true ↔ name.toList ∈ tokens value.toList := by
  rw [hasClass,List.contains_iff_mem,classes_of_given given,List.mem_map]
  constructor
  · rintro ⟨token,member,rfl⟩
    simpa using member
  · intro member
    exact ⟨name.toList,member,String.ofList_toList⟩

theorem toList_classes (given : element.attributes.get? "class" = some value) :
    element.classes.map String.toList = tokens value.toList := by
  rw [classes_of_given given,List.map_map]
  simp [Function.comp_def]

theorem classes_eq_iff (given : element.attributes.get? "class" = some value)
    {names : List String} :
    element.classes = names ↔ Joined (names.map String.toList) value.toList := by
  rw [← tokens_eq_iff,← toList_classes given]
  exact (List.map_inj_right fun _ _ => String.toList_inj.mp).symm

/-- A name is a class exactly if it is a piece of the attribute between spaces, and the classes are
these pieces in their order, repetitions kept. So they are the names of which the value is joined,
and joined again by single spaces they are the same classes; a value without spaces is one class,
whatever other white space it has. -/
theorem classes_stand (given : element.attributes.get? "class" = some value) :
    (∀ name, element.hasClass name = true ↔
        ∃ before after, Stands value.toList before name.toList after) ∧
      (∃ places, Places value.toList places ∧
        element.classes = places.map fun place => String.ofList place.2) ∧
      (∀ names : List String,
        element.classes = names ↔ Joined (names.map String.toList) value.toList) ∧
      (∀ other : Element,
        other.attributes.get? "class" = some (" ".intercalate element.classes) →
          other.classes = element.classes) ∧
      (value ≠ "" → ' ' ∉ value.toList → element.classes = [value]) := by
  refine ⟨fun name => ?_,?_,fun names => classes_eq_iff given,fun other rejoined => ?_,?_⟩
  · rw [hasClass_iff given,mem_tokens_iff]
  · obtain ⟨places,placed,listed⟩ := exists_places value.toList
    refine ⟨places,placed,?_⟩
    rw [classes_of_given given,listed,List.map_map]
    rfl
  · have spaced : (" ".intercalate element.classes).toList =
        [' '].intercalate (tokens value.toList) := by
      rw [String.toList_intercalate,toList_classes given]
      rfl
    rw [classes_of_given rejoined,spaced,tokens_intercalate,classes_of_given given]
  · intro filled noSpace
    have nonempty : value.toList ≠ [] := by simpa using filled
    apply (classes_eq_iff given).mpr
    simpa using Joined.last 0 0 nonempty noSpace

/-- A name with a tab in it, a name that another one starts with, and spaces at both ends. -/
theorem classes_stand_tab :
    let value := " a-b  a\tb a "
    let element : Element := ⟨"p",Attributes.empty.insert "class" value⟩
    element.attributes.get? "class" = some value ∧ element.classes = ["a-b","a\tb","a"] ∧
      (∃ before after, Stands value.toList before "a".toList after) ∧
      ¬ ∃ before after, Stands value.toList before "b".toList after := by
  intro value element
  have given : element.attributes.get? "class" = some value := by decide
  have joined : Joined ["a-b".toList,"a\tb".toList,"a".toList] value.toList :=
    tokens_eq_iff.mp (by decide)
  obtain ⟨has,_,listed,_⟩ := classes_stand given
  have classes : element.classes = ["a-b","a\tb","a"] := (listed _).mpr joined
  refine ⟨given,classes,(has "a").mp ?_,fun stands => ?_⟩
  · rw [hasClass,classes]
    decide
  · have found := (has "b").mpr stands
    rw [hasClass,classes] at found
    contradiction

end TreeQuery.Element
