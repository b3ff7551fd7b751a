import TreeQuery.Tree.Basic

/-! The nodes a document is entered by: its first element, the body in it, and the root that
queries take when none is named. -/
namespace TreeQuery.Tree

def documentElement? (tree : Tree) : Option NodeId :=
  (tree.children root).find? fun id => (tree.element? id).isSome

/-- `body` or `frameset`, whatever the case of its ASCII letters. -/
def isBodyTag (tag : String) : Bool :=
  let lower := tag.toList.map Char.toLower
  lower == "body".toList || lower == "frameset".toList

def body? (tree : Tree) : Option NodeId := do
  let top ← tree.documentElement?
  (tree.children top).find? fun id => (tree.element? id).any fun element => isBodyTag element.tag

def defaultRoot (tree : Tree) : NodeId := (tree.body?.or tree.documentElement?).getD root

end TreeQuery.Tree
