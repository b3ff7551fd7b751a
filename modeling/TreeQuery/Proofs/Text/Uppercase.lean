import Mathlib.Data.List.Basic
import TreeQuery.Text.Uppercase

/-! Upper-casing settles: an upper-cased text stays as it is when it is upper-cased again, and the
marks of selectors are neither made nor lost on the way. Both are read off the table. The images of
a run either lie apart from the code points of every run, or the two interleave, as in blocks in
which small and capital letters take turns; two bounds and one parity tell which. -/
namespace TreeQuery.Text

namespace CaseRun

def lastImage (run : CaseRun) : Nat := run.image + (run.last - run.first)

/-- A bound or a parity keeps the images of `run` out of `source`. -/
def apart (run source : CaseRun) : Bool :=
  Nat.blt run.lastImage source.first || Nat.blt source.last run.image ||
    (source.step == 2 && (run.step == 2 || run.first == run.last) &&
      run.image % 2 != source.first % 2)

theorem covers_iff {run : CaseRun} {code : Nat} :
    run.covers code = true ↔
      run.first ≤ code ∧ code ≤ run.last ∧ (code - run.first) % run.step = 0 := by
  simp [covers,and_assoc]

theorem upper_bounds {run : CaseRun} {code : Nat} (covered : run.covers code = true) :
    run.image ≤ run.upper code ∧ run.upper code ≤ run.lastImage := by
  obtain ⟨low,high,_⟩ := covers_iff.mp covered
  simp only [upper,lastImage]
  omega

theorem not_covers_of_apart {run source : CaseRun} {code : Nat} (apart : run.apart source = true)
    (covered : run.covers code = true) : source.covers (run.upper code) = false := by
  rw [Bool.eq_false_iff]
  intro again
  obtain ⟨imageLow,imageHigh⟩ := upper_bounds covered
  obtain ⟨low,high,onStep⟩ := covers_iff.mp covered
  obtain ⟨sourceLow,sourceHigh,sourceOnStep⟩ := covers_iff.mp again
  simp only [CaseRun.apart,Bool.or_eq_true,Nat.blt_eq,Bool.and_eq_true,beq_iff_eq,bne_iff_ne] at apart
  rcases apart with (before | after) | ⟨⟨sourceStep,even⟩,parity⟩
  · omega
  · omega
  · rw [sourceStep] at sourceOnStep
    simp only [upper] at sourceOnStep sourceLow
    rcases even with step | single
    · rw [step] at onStep
      omega
    · omega

end CaseRun

/-- The code points that have an upper case, an expanded one as a run of its own. -/
def caseSources : List CaseRun := caseRuns ++ caseExpansions.map fun entry => ⟨entry.1,entry.1,2,0⟩

/-- The same for the upper cases, a part of an expansion as the image of 0. -/
def caseTargets : List CaseRun :=
  caseRuns ++ (caseExpansions.flatMap (·.2)).eraseDups.map fun code => ⟨0,0,1,code⟩

theorem caseTargets_apart :
    (caseTargets.all fun target => caseSources.all target.apart) = true := by decide +kernel

theorem caseTargets_bounds : (caseTargets.all fun target => Nat.ble 0x41 target.image &&
    (Nat.blt target.lastImage 0xd800 || Nat.blt 0xdfff target.image &&
      Nat.blt target.lastImage 0x110000)) = true := by decide +kernel

theorem caseSources_bound : (caseSources.all fun source => Nat.ble 0x61 source.first) = true := by
  decide +kernel

theorem caseExpansions_filled : (caseExpansions.all fun entry => !entry.2.isEmpty) = true := by
  decide +kernel

theorem upperChar_of_uncovered {c : Char}
    (uncovered : ∀ source ∈ caseSources, source.covers c.toNat = false) : upperChar c = [c] := by
  have noRun : caseRuns.find? (·.covers c.toNat) = none :=
    List.find?_eq_none.mpr fun run member => by simp [uncovered run (List.mem_append_left _ member)]
  have noExpansion : caseExpansions.lookup c.toNat = none := by
    apply List.lookup_eq_none_iff.mpr
    intro entry member
    have apart := uncovered ⟨entry.1,entry.1,2,0⟩
      (List.mem_append_right _ (List.mem_map_of_mem member))
    rw [bne_iff_ne]
    intro same
    simp [CaseRun.covers,same] at apart
  simp [upperChar,noRun,noExpansion]

/-- A character that does not stay as it is has an entry of the table behind each character of its
upper case. -/
theorem upperChar_cases (c : Char) :
    upperChar c = [c] ∨ 0x61 ≤ c.toNat ∧ upperChar c ≠ [] ∧
      ∀ d ∈ upperChar c, ∃ target ∈ caseTargets, ∃ code,
        target.covers code = true ∧ d = Char.ofNat (target.upper code) := by
  have low {source : CaseRun} (member : source ∈ caseSources) : 0x61 ≤ source.first := by
    simpa using List.all_eq_true.mp caseSources_bound source member
  unfold upperChar
  split
  · rename_i run found
    have member := List.mem_of_find?_eq_some found
    have covered : run.covers c.toNat = true := by
      simpa using List.find?_some found
    have first := low (List.mem_append_left _ member)
    have atLeast := (CaseRun.covers_iff.mp covered).1
    refine .inr ⟨by omega,by simp,?_⟩
    intro d inside
    exact ⟨run,List.mem_append_left _ member,c.toNat,covered,List.mem_singleton.mp inside⟩
  · split
    · rename_i codes found
      obtain ⟨front,back,whole,_⟩ := List.lookup_eq_some_iff.mp found
      have member : (c.toNat,codes) ∈ caseExpansions := by simp [whole]
      have first := low (List.mem_append_right _ (List.mem_map_of_mem member))
      have filled := List.all_eq_true.mp caseExpansions_filled _ member
      refine .inr ⟨first,by simpa using filled,?_⟩
      intro d inside
      obtain ⟨code,listed,rfl⟩ := List.mem_map.mp inside
      have target : ⟨0,0,1,code⟩ ∈ caseTargets := by
        apply List.mem_append_right
        apply List.mem_map_of_mem
        exact List.mem_eraseDups.mpr (List.mem_flatMap.mpr ⟨_,member,listed⟩)
      exact ⟨_,target,0,rfl,by simp [CaseRun.upper]⟩
    · exact .inl rfl

theorem toNat_target {target : CaseRun} {code : Nat} (member : target ∈ caseTargets)
    (covered : target.covers code = true) :
    0x41 ≤ target.upper code ∧ (Char.ofNat (target.upper code)).toNat = target.upper code := by
  obtain ⟨low,high⟩ := CaseRun.upper_bounds covered
  have bounds := List.all_eq_true.mp caseTargets_bounds target member
  simp only [Bool.and_eq_true,Bool.or_eq_true,Nat.ble_eq,Nat.blt_eq] at bounds
  refine ⟨by omega,?_⟩
  have valid : (target.upper code).isValidChar := by
    unfold Nat.isValidChar
    omega
  rw [Char.ofNat,dif_pos valid]
  rfl

theorem upperChar_settles (c : Char) :
    upperChar c = [c] ∨ 0x61 ≤ c.toNat ∧ upperChar c ≠ [] ∧
      ∀ d ∈ upperChar c, 0x41 ≤ d.toNat ∧ upperChar d = [d] := by
  rcases upperChar_cases c with same | ⟨low,filled,parts⟩
  · exact .inl same
  · refine .inr ⟨low,filled,?_⟩
    intro d inside
    obtain ⟨target,member,code,covered,rfl⟩ := parts d inside
    obtain ⟨high,exact'⟩ := toNat_target member covered
    refine ⟨by omega,upperChar_of_uncovered ?_⟩
    intro source listed
    rw [exact']
    have apart := List.all_eq_true.mp (List.all_eq_true.mp caseTargets_apart target member) source listed
    exact CaseRun.not_covers_of_apart apart covered

variable {text : List Char} {mark : Char}

theorem upper_upper (text : List Char) : upper (upper text) = upper text := by
  unfold upper
  rw [List.flatMap_assoc]
  apply List.flatMap_congr
  intro c _
  have parts : ∀ d ∈ upperChar c, upperChar d = [d] := by
    rcases upperChar_settles c with same | ⟨_,_,settled⟩
    · simp [same]
    · exact fun d inside => (settled d inside).2
  calc (upperChar c).flatMap upperChar
    _ = (upperChar c).flatMap fun d => [d] := List.flatMap_congr parts
    _ = upperChar c := List.flatMap_singleton' _

theorem mem_upper (low : mark.toNat < 0x41) : mark ∈ upper text ↔ mark ∈ text := by
  rw [upper,List.mem_flatMap]
  constructor
  · rintro ⟨c,member,inside⟩
    rcases upperChar_settles c with same | ⟨_,_,settled⟩
    · rw [same,List.mem_singleton] at inside
      exact inside ▸ member
    · have high := (settled mark inside).1
      omega
  · intro member
    refine ⟨mark,member,?_⟩
    rcases upperChar_settles mark with same | ⟨high,_⟩
    · simp [same]
    · omega

theorem upper_ne_nil (filled : text ≠ []) : upper text ≠ [] := by
  obtain ⟨c,rest,rfl⟩ := List.exists_cons_of_ne_nil filled
  rcases upperChar_settles c with same | ⟨_,some,_⟩
  · simp [upper,same]
  · simp [upper,some]

theorem head?_upper (low : mark.toNat < 0x41) (head : (upper text).head? = some mark) :
    text.head? = some mark := by
  cases text with
  | nil => simp [upper] at head
  | cons c rest =>
    rw [upper,List.flatMap_cons] at head
    rcases upperChar_settles c with same | ⟨_,filled,settled⟩
    · simpa [same] using head
    · obtain ⟨d,others,parts⟩ := List.exists_cons_of_ne_nil filled
      have first : d = mark := by simpa [parts] using head
      have high := (settled d (by simp [parts])).1
      rw [first] at high
      omega

end TreeQuery.Text
