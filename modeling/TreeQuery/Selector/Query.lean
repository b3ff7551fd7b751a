import TreeQuery.Selector.Compile
import TreeQuery.Tree.Landmarks
import TreeQuery.Tree.Walk

/-! Queries. The answer lists, in tree order, the nodes at or below a root that the matcher of
a selector accepts. The root only restricts the answer: ancestors are looked for above it
too. -/
namespace TreeQuery.Selector

def collect (tree : Tree) (matcher : Matcher) (root : NodeId) : List NodeId :=
  (tree.preorder root).filter (matcher.accepts tree)

/-- Query below a root. A malformed selector finds nothing and warns. -/
def query (warnings : Warnings) (tree : Tree) (selector : String) (root : NodeId) :
    Warned (List NodeId) :=
  (compile warnings selector).map fun matcher => collect tree matcher root

def queryDocument (warnings : Warnings) (tree : Tree) (selector : String) :
    Warned (List NodeId) :=
  query warnings tree selector tree.defaultRoot

end TreeQuery.Selector
