import LiveMarkup.World.Basic

/-!
Writing nodes as markup. The content of a node is unfolded to a tree, in which a node that
occurs several times stands in every place, and the tree is written. Every node below the one
that is written remembers the node through whose content it was reached last. A node whose
content holds itself has no tree.
-/

set_option autoImplicit false
set_option relaxedAutoImplicit false

namespace LiveMarkup.World

variable {σ : Type}

/-- The tree of an entry of content, given the trees of nodes. -/
def childTree? (w : World σ) (nodeTree : NodeId → Option Tree) : Child → Option Tree
  | .node id => nodeTree id
  | .state observable => some (.text (w.observable observable).value.display)
  | .text s => some (.text s)
  | .number n => some (.text n.text)

/-- The tree of a node whose content nests less than `depth` deep. -/
def treeWithin? (w : World σ) : Nat → NodeId → Option Tree
  | 0, _ => none
  | depth + 1, id => do
    let node ← w.node? id
    let content ← node.content.mapM (w.childTree? (treeWithin? w depth))
    return .element id node.tag node.attributes.printed content

/-- The tree of a node; none if its content holds itself. -/
def tree? (w : World σ) (id : NodeId) : Option Tree := w.treeWithin? (w.nodes.size + 1) id

/-- Records for each node the parent that comes with it, the last one counting. -/
def recordParents (w : World σ) (links : List (NodeId × NodeId)) : World σ :=
  links.foldl (fun w link ↦ w.modifyNode link.1 fun node ↦ { node with parent? := some link.2 }) w

/-- Unfolds a node and records the parents below it. -/
def traverse (w : World σ) (id : NodeId) : Except Fault (Tree × World σ) :=
  match w.tree? id with
  | some tree => .ok (tree, w.recordParents tree.links)
  | none => .error .endless

/-- The markup of a node. -/
def write (w : World σ) (id : NodeId) : Except Fault (String × World σ) := do
  let (tree, w) ← w.traverse id
  return (tree.markup, w)

/-- The markup of the content of a node. -/
def writeInner (w : World σ) (id : NodeId) : Except Fault (String × World σ) := do
  let (tree, w) ← w.traverse id
  return (tree.innerMarkup, w)

end LiveMarkup.World
