import TreeQuery.Tree.Basic

/-! Walks over a tree: the nodes below a root in tree order, parents before children and
earlier children first, and the search for the first element with a given id. -/
namespace TreeQuery.Tree

/-- The nodes at most `bound - 1` levels below a node, itself first, in tree order. -/
def preorderWithin (tree : Tree) : Nat → NodeId → List NodeId
  | 0,_ => []
  | bound + 1,id =>
    if id < tree.size then id :: (tree.children id).flatMap (tree.preorderWithin bound) else []

/-- A node and all its descendants in tree order; empty for an id outside the tree. No branch
has more levels than the tree has nodes. -/
def preorder (tree : Tree) (id : NodeId) : List NodeId := tree.preorderWithin tree.size id

/-- Look for an id through a stack of nodes still to visit, taking at most `bound` of them. -/
def searchWithin (tree : Tree) (name : String) : Nat → List NodeId → Option NodeId
  | 0,_ => none
  | _,[] => none
  | bound + 1,current :: waiting =>
    if (tree.element? current).bind (·.id?) = some name then some current
    else tree.searchWithin name bound (tree.children current ++ waiting)

/-- The first element in tree order below the document whose `id` attribute is `name`. Every
node is taken from the stack at most once. -/
def elementById? (tree : Tree) (name : String) : Option NodeId :=
  tree.searchWithin name tree.size [root]

end TreeQuery.Tree
