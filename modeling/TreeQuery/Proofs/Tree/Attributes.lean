import Mathlib.Data.List.Sort
import TreeQuery.Tree.Attributes

/-! Look-ups in attribute maps. A map is given by its look-ups (`ext_get?`): in a map made of pairs
the last pair of a name counts, so pairs with different names make the same map in any order. -/
namespace TreeQuery

variable {name key value : String} {pairs entries : List (String × String)}

theorem lookup_cons_if :
    List.lookup key ((name,value) :: entries) =
      if key = name then some value else entries.lookup key := by
  by_cases same : key = name
  · simp [same]
  · simp [List.lookup_cons,beq_eq_false_iff_ne.mpr same,same]

theorem lookup_insertEntry :
    (insertEntry name value entries).lookup key =
      if key = name then some value else entries.lookup key := by
  induction entries with
  | nil => rw [insertEntry,lookup_cons_if]
  | cons head rest ih =>
    obtain ⟨other,old⟩ := head
    simp only [insertEntry]
    split
    · rw [lookup_cons_if]
    · split
      · rename_i here
        rw [lookup_cons_if,lookup_cons_if,here]
        split <;> rfl
      · rename_i apart
        rw [lookup_cons_if,lookup_cons_if,ih]
        by_cases same : key = other
        · rw [if_pos same,if_pos same,if_neg fun here => apart (here.symm.trans same)]
        · rw [if_neg same,if_neg same]

/-- Where no name is repeated, a look-up finds the pair of its name. -/
theorem lookup_eq_some_iff_mem (distinct : pairs.Pairwise fun a b => a.1 ≠ b.1) :
    pairs.lookup name = some value ↔ (name,value) ∈ pairs := by
  induction pairs with
  | nil => simp
  | cons head rest ih =>
    obtain ⟨other,old⟩ := head
    obtain ⟨apart,tail⟩ := List.pairwise_cons.mp distinct
    rw [lookup_cons_if]
    by_cases same : name = other
    · have absent : (name,value) ∉ rest := fun member => apart _ member same.symm
      simp [same ▸ absent,same,eq_comm]
    · simp [same,ih tail]

theorem lookup_of_perm (order : pairs.Perm entries)
    (distinct : entries.Pairwise fun a b => a.1 ≠ b.1) : pairs.lookup name = entries.lookup name := by
  have also := (order.pairwise_iff Ne.symm).mpr distinct
  refine Option.ext fun value => ?_
  rw [lookup_eq_some_iff_mem also,lookup_eq_some_iff_mem distinct,order.mem_iff]

namespace Attributes

variable {attributes left right : Attributes}

theorem distinct (attributes : Attributes) :
    attributes.toList.Pairwise fun a b => a.1 ≠ b.1 :=
  List.Pairwise.imp (fun below => String.ne_of_lt below) attributes.sorted

theorem get?_eq_some_iff : attributes.get? name = some value ↔ (name,value) ∈ attributes.toList :=
  lookup_eq_some_iff_mem attributes.distinct

theorem get?_insert : (attributes.insert name value).get? key =
    if key = name then some value else attributes.get? key := lookup_insertEntry

theorem ext_get? (same : ∀ name, left.get? name = right.get? name) : left = right := by
  have members : ∀ pair, pair ∈ left.toList ↔ pair ∈ right.toList := fun pair => by
    rw [← get?_eq_some_iff,← get?_eq_some_iff,same]
  have irreflexive : Std.Irrefl fun a b : String × String => a.1 < b.1 :=
    ⟨fun pair => String.lt_irrefl pair.1⟩
  have antisymmetric : Std.Antisymm fun a b : String × String => a.1 < b.1 :=
    ⟨fun _ _ below above => absurd above (String.lt_asymm below)⟩
  have entries : left.toList = right.toList := left.sorted.eq_of_mem_iff right.sorted members
  obtain ⟨_,_⟩ := left
  obtain ⟨_,_⟩ := right
  cases entries
  rfl

theorem get?_foldl_insert :
    (pairs.foldl (fun attributes pair => attributes.insert pair.1 pair.2) attributes).get? name =
      (pairs.reverse.lookup name).or (attributes.get? name) := by
  induction pairs generalizing attributes with
  | nil => simp
  | cons pair pairs ih =>
    rw [List.foldl_cons,ih,get?_insert,List.reverse_cons,List.lookup_append,Option.or_assoc,
      lookup_cons_if]
    split <;> simp

theorem get?_ofList : (ofList pairs).get? name = pairs.reverse.lookup name := by
  rw [ofList,get?_foldl_insert,show empty.get? name = none from rfl,Option.or_none]

theorem ofList_eq_iff :
    ofList pairs = attributes ↔ ∀ name, attributes.get? name = pairs.reverse.lookup name := by
  constructor
  · rintro rfl name
    exact get?_ofList
  · intro same
    exact ext_get? fun name => get?_ofList.trans (same name).symm

theorem ofList_of_perm (listed : pairs.Perm attributes.toList) : ofList pairs = attributes :=
  ofList_eq_iff.mpr fun _ =>
    (lookup_of_perm (pairs.reverse_perm.trans listed) attributes.distinct).symm

/-- Pairs with different names make the same map in any order. -/
theorem ofList_eq_ofList (order : pairs.Perm entries)
    (distinct : entries.Pairwise fun a b => a.1 ≠ b.1) : ofList pairs = ofList entries := by
  refine ext_get? fun name => ?_
  rw [get?_ofList,get?_ofList,lookup_of_perm (pairs.reverse_perm.trans order) distinct,
    lookup_of_perm entries.reverse_perm distinct]

end Attributes
end TreeQuery
