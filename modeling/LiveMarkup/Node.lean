import LiveMarkup.Kind
import LiveMarkup.Markup.Tree

/-!
Nodes: the elements of the component tree. A node refers to other nodes, to observables, to
its registry and to the host that it is mounted on by number.
-/

set_option autoImplicit false
set_option relaxedAutoImplicit false

namespace LiveMarkup

/-- One entry of the content of a node. -/
inductive Child where
  | node (id : NodeId)
  | state (observable : ObservableId)
  | text (s : String)
  | number (n : Number)
  deriving DecidableEq

/-- The node that an entry holds, if it is one. -/
def Child.node? : Child → Option NodeId
  | .node id => some id
  | _ => none

/-- What a mounted node was displayed as. -/
inductive Form where
  /-- As itself. -/
  | itself
  /-- As another node, which it keeps alive. -/
  | wrapper (node : NodeId)
  deriving DecidableEq

/-- Where and as what a node was mounted last. -/
structure Mounting where
  host : HostId
  form : Form
  deriving DecidableEq

/-- An element of the component tree. -/
structure Node where
  tag : String
  kind : Kind
  registry : RegistryId
  attributes : Attributes
  content : List Child
  classes : List String
  style : String
  flags : Flags
  /-- Values that client code keeps with the node. -/
  state : OrderedMap String Value := ∅
  /-- The node through whose content this one was written last; it may be gone. -/
  parent? : Option NodeId := none
  mounting? : Option Mounting := none

namespace Node

/-- The displayed `id` attribute. -/
def id (node : Node) : String := node.attributes.id

/-- Gives the node an id, in the place of the one that it had. -/
def takeId (node : Node) (id : String) : Node :=
  { node with attributes := node.attributes.insert "id" (.text id) }

/-- Adds a class unless the node has it. -/
def addClass (node : Node) (name : String) : Node :=
  if node.classes.contains name then node else { node with classes := node.classes ++ [name] }

/-- Adds entries at the end of the content. -/
def addContent (node : Node) (content : List Child) : Node :=
  { node with content := node.content ++ content }

/-- Merges entries into the state. -/
def mergeState (node : Node) (entries : List (String × Value)) : Node :=
  { node with state := node.state.insertAll entries }

/-- Whether the node was mounted. -/
def isMounted (node : Node) : Bool := node.mounting?.isSome

/-- The node that a mounted node was displayed as, if it is another one. -/
def wrapper? (node : Node) : Option NodeId :=
  match node.mounting? with
  | some ⟨_, .wrapper wrapper⟩ => some wrapper
  | _ => none

/-- The nodes that this one keeps alive: those in its content and its wrapper. -/
def owned (node : Node) : List NodeId :=
  node.content.filterMap Child.node? ++ node.wrapper?.toList

end Node

end LiveMarkup
