/-!
References: the numbers by which parts of a world name one another, and by which the library
names what belongs to the client.
-/

set_option autoImplicit false
set_option relaxedAutoImplicit false

namespace LiveMarkup

/-- Names a node. -/
abbrev NodeId := Nat

/-- Names a recorder: a refresh target that is no node. -/
abbrev RecorderId := Nat

/-- Names an observable. -/
abbrev ObservableId := Nat

/-- Names a registry. -/
abbrev RegistryId := Nat

/-- Names a host. -/
abbrev HostId := Nat

/-- Names an application. -/
abbrev AppId := Nat

/-- Names a listener of one emitter. -/
abbrev ListenerId := Nat

/-- Names a watcher of the current page of one application. -/
abbrev WatcherId := Nat

/-- A callback of the client, which the library stores and hands back. -/
abbrev Handler := Nat

/-- A page renderer of the client, which the library stores and hands back. -/
abbrev Renderer := Nat

/-- Something that an observable refreshes. -/
inductive Target where
  | node (id : NodeId)
  | recorder (id : RecorderId)
  deriving DecidableEq

/-- What a reference from outside the tree keeps alive. -/
inductive Root where
  | node (id : NodeId)
  | recorder (id : RecorderId)
  | app (id : AppId)
  deriving DecidableEq

/-- The node that a root is, if it is one. -/
def Root.node? : Root → Option NodeId
  | .node id => some id
  | _ => none

end LiveMarkup
