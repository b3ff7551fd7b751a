import TreeQuery.Text.Split

/-! Kinds of selector. The tests overlap, so they are made in a fixed order and the first that
holds decides: `#` and `.` in front, a dot anywhere, a combinator, and else a tag. -/
namespace TreeQuery.Selector

inductive Kind where
  | id
  | className
  | tagAndClass
  | directChild
  | descendant
  | tag
  deriving Repr,DecidableEq

namespace Kind

def all : List Kind := [.id,.className,.tagAndClass,.directChild,.descendant,.tag]

def name : Kind → String
  | .id => "id"
  | .className => "class"
  | .tagAndClass => "tag-and-class"
  | .directChild => "direct-child"
  | .descendant => "descendant"
  | .tag => "tag"

/-- The kind of a name; letter case counts. -/
def ofName? (name : String) : Option Kind := all.find? fun kind => kind.name == name

def index (kind : Kind) : Nat := all.idxOf kind

def isCombinator : Kind → Bool
  | .directChild | .descendant => true
  | _ => false

variable {kind other : Kind}

theorem mem_all (kind : Kind) : kind ∈ all := by cases kind <;> decide

theorem all_index (kind : Kind) : all[kind.index]? = some kind := by cases kind <;> rfl

theorem name_inj : kind.name = other.name ↔ kind = other := by
  refine ⟨?_,congrArg name⟩
  cases kind <;> cases other <;> simp [name]

theorem name_of_ofName? {text : String} (read : ofName? text = some kind) : kind.name = text := by
  unfold ofName? at read
  simpa using List.find?_some read

/-- A kind is read from its own name, and from no other text. -/
theorem ofName?_eq_some_iff {text : String} : ofName? text = some kind ↔ kind.name = text := by
  refine ⟨name_of_ofName?,?_⟩
  rintro rfl
  cases found : ofName? kind.name with
  | none =>
    have missed := List.find?_eq_none.mp found kind (mem_all kind)
    exact absurd (beq_self_eq_true kind.name) missed
  | some other => rw [name_inj.mp (name_of_ofName? found)]

example : ofName? "universal" = none := by decide

end Kind

def childMark : List Char := [' ','>',' ']

def descendantMark : List Char := [' ']

/-- The combinator a text contains, if any. A child mark contains a descendant mark, so it is
looked for first. -/
def combinatorKind? (text : List Char) : Option Kind :=
  if Text.occurs childMark text then some .directChild
  else if Text.occurs descendantMark text then some .descendant
  else none

def classify (text : List Char) : Kind :=
  match text with
  | '#' :: _ => .id
  | '.' :: _ => .className
  | _ => if text.contains '.' then .tagAndClass else (combinatorKind? text).getD .tag

/-- The kind a selector is compiled as: a combinator anywhere outweighs the other marks. -/
def compiledKind (text : List Char) : Kind :=
  let kind := classify text
  if kind.isCombinator then kind else (combinatorKind? text).getD kind

end TreeQuery.Selector
