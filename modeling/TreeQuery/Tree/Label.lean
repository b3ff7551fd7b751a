import TreeQuery.Tree.Basic

/-! Labels of nodes: an element reads `tag#id.class.class`, without the parts it lacks; other
nodes and ids outside the tree have a fixed word behind `#`. -/
namespace TreeQuery

/-- An `id` attribute is shown even when it is empty. -/
def Element.label (element : Element) : String :=
  element.tag ++ (element.id?.map ("#" ++ ·)).getD "" ++
    String.join (element.classes.map ("." ++ ·))

def Tree.label (tree : Tree) (id : NodeId) : String :=
  match tree.content? id with
  | some (.element element) => element.label
  | some .document => "#document"
  | some (.text _) => "#text"
  | some (.comment _) => "#comment"
  | none => "#missing(" ++ toString id ++ ")"

end TreeQuery
