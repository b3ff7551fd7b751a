/-! Attribute maps: names with their values, kept in the order of the names, so that two maps
with the same look-ups are equal. A later value for a name replaces the earlier one. -/
namespace TreeQuery

def insertEntry (name value : String) : List (String × String) → List (String × String)
  | [] => [(name,value)]
  | (key,old) :: rest =>
    if name < key then (name,value) :: (key,old) :: rest
    else if name = key then (name,value) :: rest
    else (key,old) :: insertEntry name value rest

theorem insertEntry_names (name value : String) (entries : List (String × String))
    (entry : String × String) (member : entry ∈ insertEntry name value entries) :
    entry.1 = name ∨ ∃ old ∈ entries, entry.1 = old.1 := by
  induction entries with
  | nil => simp_all [insertEntry]
  | cons head rest ih =>
    obtain ⟨key,old⟩ := head
    simp only [insertEntry] at member
    split at member
    · rcases List.mem_cons.mp member with rfl | later
      · exact .inl rfl
      · exact .inr ⟨entry,later,rfl⟩
    · split at member
      · rcases List.mem_cons.mp member with rfl | later
        · exact .inl rfl
        · exact .inr ⟨entry,List.mem_cons_of_mem _ later,rfl⟩
      · rcases List.mem_cons.mp member with rfl | later
        · exact .inr ⟨_,List.mem_cons_self,rfl⟩
        · rcases ih later with same | ⟨other,inside,same⟩
          · exact .inl same
          · exact .inr ⟨other,List.mem_cons_of_mem _ inside,same⟩

theorem insertEntry_sorted (name value : String) (entries : List (String × String))
    (sorted : entries.Pairwise fun a b => a.1 < b.1) :
    (insertEntry name value entries).Pairwise fun a b => a.1 < b.1 := by
  induction entries with
  | nil => simp [insertEntry]
  | cons head rest ih =>
    obtain ⟨key,old⟩ := head
    obtain ⟨above,tail⟩ := List.pairwise_cons.mp sorted
    simp only [insertEntry]
    split
    · rename_i below
      refine List.pairwise_cons.mpr ⟨fun entry member => ?_,sorted⟩
      rcases List.mem_cons.mp member with rfl | later
      · exact below
      · exact String.lt_trans below (above entry later)
    · rename_i notBelow
      split
      · rename_i same
        subst same
        exact List.pairwise_cons.mpr ⟨above,tail⟩
      · rename_i different
        refine List.pairwise_cons.mpr ⟨fun entry member => ?_,ih tail⟩
        rcases insertEntry_names name value rest entry member with same | ⟨other,inside,same⟩
        · have atMost : key ≤ name := String.not_lt.mp notBelow
          simp only [same]
          exact Classical.byContradiction fun notAbove =>
            different (String.le_antisymm (String.not_lt.mp notAbove) atMost)
        · simpa [same] using above other inside

structure Attributes where
  entries : List (String × String) := []
  sorted : entries.Pairwise (fun a b => a.1 < b.1) := by exact .nil
  deriving Repr,DecidableEq

namespace Attributes

def empty : Attributes := {}

def insert (attributes : Attributes) (name value : String) : Attributes :=
  ⟨insertEntry name value attributes.entries,
    insertEntry_sorted name value attributes.entries attributes.sorted⟩

def get? (attributes : Attributes) (name : String) : Option String := attributes.entries.lookup name

def toList (attributes : Attributes) : List (String × String) := attributes.entries

/-- The map of a list of pairs; the last value of a repeated name counts. -/
def ofList (pairs : List (String × String)) : Attributes :=
  pairs.foldl (fun attributes pair => attributes.insert pair.1 pair.2) empty

end Attributes
end TreeQuery
