import TreeQuery.Tree.Element

/-! Document trees. The nodes stand in an array and a node's id is its position there; every
node has a list of children and at most one parent, and node 0 is the document. Nodes are
never removed. An append that would break this is refused and leaves the tree as it was. -/
namespace TreeQuery

/-- A position in the array of nodes; it may lie outside a given tree. -/
abbrev NodeId := Nat

inductive Content where
  | document
  | element (element : Element)
  | text (text : String)
  | comment (text : String)
  deriving Repr,DecidableEq

structure Node where
  content : Content
  parent : Option NodeId := none
  children : List NodeId := []
  deriving Repr,DecidableEq

structure Tree where
  nodes : Array Node
  deriving Repr,DecidableEq

namespace Tree

def root : NodeId := 0

def empty : Tree := ⟨#[{ content := .document }]⟩

def size (tree : Tree) : Nat := tree.nodes.size

def get? (tree : Tree) (id : NodeId) : Option Node := tree.nodes[id]?

def parent? (tree : Tree) (id : NodeId) : Option NodeId := (tree.get? id).bind (·.parent)

def children (tree : Tree) (id : NodeId) : List NodeId := ((tree.get? id).map (·.children)).getD []

def content? (tree : Tree) (id : NodeId) : Option Content := (tree.get? id).map (·.content)

def element? (tree : Tree) (id : NodeId) : Option Element :=
  match tree.content? id with
  | some (.element element) => some element
  | _ => none

/-- At most the first `bound` ancestors of a node, nearest first. -/
def ancestorsWithin (tree : Tree) : Nat → NodeId → List NodeId
  | 0,_ => []
  | bound + 1,id =>
    match tree.parent? id with
    | none => []
    | some parent => parent :: tree.ancestorsWithin bound parent

/-- The ancestors of a node, nearest first. There are fewer of them than nodes, because no
node is its own ancestor. -/
def ancestors (tree : Tree) (id : NodeId) : List NodeId := tree.ancestorsWithin tree.size id

def isDescendant (tree : Tree) (descendant ancestor : NodeId) : Bool :=
  (tree.ancestors descendant).contains ancestor

/-- Add a detached node; its id is the old size. -/
def alloc (tree : Tree) (content : Content) : Tree := ⟨tree.nodes.push { content }⟩

def modify (tree : Tree) (id : NodeId) (change : Node → Node) : Tree :=
  ⟨tree.nodes.modify id change⟩

/-- Whether `child` may become a child of `parent`: both exist, they differ, and the parent is
not below the child. -/
def accepts (tree : Tree) (parent child : NodeId) : Bool :=
  parent < tree.size && child < tree.size && parent != child && !tree.isDescendant parent child

def unlist (tree : Tree) (child : NodeId) : Tree :=
  match tree.parent? child with
  | none => tree
  | some old => tree.modify old fun node =>
    { node with children := node.children.filter fun id => id != child }

/-- Make a node the last child of `parent`, moving it if it has a parent already. -/
def append (tree : Tree) (parent child : NodeId) : Tree :=
  if tree.accepts parent child then
    ((tree.unlist child).modify parent fun node =>
      { node with children := node.children ++ [child] }).modify child fun node =>
        { node with parent := some parent }
  else tree

/-- Add an element as the last child of `parent`; it stays detached when there is no such
node. -/
def appendElement (tree : Tree) (parent : NodeId) (element : Element) : Tree :=
  (tree.alloc (.element element)).append parent tree.size

end Tree
end TreeQuery
