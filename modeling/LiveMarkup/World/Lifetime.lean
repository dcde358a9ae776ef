import LiveMarkup.IdSet
import LiveMarkup.World.Basic

/-!
Lifetimes. A node is alive as long as something refers to it: a held reference, an application
that shows it, or a node that is itself alive and has it in its content or as its wrapper.
Nodes that refer to one another in a circle keep each other alive. A recorder or an application
is alive as long as it is held.
-/

set_option autoImplicit false
set_option relaxedAutoImplicit false

namespace LiveMarkup

/-- The nodes that some node of a table keeps alive. -/
def ownedNodes (nodes : Table Node) : List NodeId := nodes.rows.flatMap fun row ↦ row.2.owned

/-- Drops the nodes that neither a root nor a node of the table keeps alive, and then those
that only dropped nodes kept alive, and so on, for a number of rounds. -/
def survivors (roots : List NodeId) : Nat → Table Node → Table Node
  | 0, nodes => nodes
  | rounds + 1, nodes =>
    let referred := IdSet.ofList (roots ++ ownedNodes nodes)
    let kept := nodes.filter fun id _ ↦ referred.contains id
    if kept.size = nodes.size then nodes else survivors roots rounds kept

namespace World

variable {σ : Type}

/-- The nodes that are kept alive from outside the tree. -/
def roots (w : World σ) : List NodeId :=
  w.held.filterMap Root.node? ++ w.apps.rows.filterMap fun row ↦ row.2.mounted?

/-- Drops the recorders and applications that are not held. -/
def dropUnheld (w : World σ) : World σ :=
  { w with
    recorders := w.recorders.filter fun id _ ↦ w.held.contains (.recorder id)
    apps := w.apps.filter fun id _ ↦ w.held.contains (.app id) }

/-- Drops the nodes that nothing keeps alive. Every round but the last drops a node, so that
one round for each node is enough. -/
def dropUnrooted (w : World σ) : World σ :=
  { w with nodes := survivors w.roots w.nodes.size w.nodes }

/-- Drops everything that nothing keeps alive. -/
def sweep (w : World σ) : World σ := w.dropUnheld.dropUnrooted

/-- Takes a reference. -/
def hold (w : World σ) (root : Root) : World σ := { w with held := root :: w.held }

/-- Takes a reference to each of several nodes. -/
def holdAll (w : World σ) (nodes : List NodeId) : World σ :=
  { w with held := nodes.map .node ++ w.held }

/-- Gives up one reference. -/
def release (w : World σ) (root : Root) : World σ :=
  { w with held := w.held.erase root }.sweep

/-- Gives up one reference to each of several nodes. -/
def releaseAll (w : World σ) (nodes : List NodeId) : World σ :=
  { w with held := nodes.foldl (fun held node ↦ held.erase (.node node)) w.held }.sweep

/-- Adds a recorder, held once. Its number is the next one of the table. -/
def addRecorder (w : World σ) (handler : Handler) : World σ :=
  { w with recorders := w.recorders.push handler }.hold (.recorder w.recorders.next)

/-- Adds an application, held once. Its number is the next one of the table. -/
def addApp (w : World σ) (app : App) : World σ :=
  { w with apps := w.apps.push app }.hold (.app w.apps.next)

end World

end LiveMarkup
