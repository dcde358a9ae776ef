import LiveMarkup.World.Mutation

/-!
Click listeners. The load pass attaches the click callback of every live node of a registry to
its element; a click runs the listeners that were attached before it.
-/

set_option autoImplicit false
set_option relaxedAutoImplicit false

namespace LiveMarkup.World

variable {σ : Type} [Journal σ]

/-- Attaches a click listener to an element of a host. A probe that accepts it clicks at
once. -/
def attachClick (client : Client σ) (w : World σ) (host : HostId) (id : String)
    (handler : Handler) : Except Fault (Except LookupError Unit × World σ) := do
  match w.host host with
  | .surface surface =>
    match surface.attachClick id handler with
    | .ok changed => return (.ok (), w.setSurface host changed)
    | .error error => return (.error error, w)
  | .probe probe =>
    let w := w.note (.probeAttach id)
    if probe.accepts id then return (.ok (), ← client.call (.act handler) w)
    else return (.error (.elementNotFound id), w)

/-- Attaches the click callback of a node to its element, if it has both. -/
def attachAction (client : Client σ) (w : World σ) (node : NodeId) (host : HostId) :
    Except Fault (World σ) := do
  match ((w.node? node).bind fun n ↦ n.attributes.get? "onclick").bind AttrValue.callback? with
  | none => return w
  | some handler =>
    let id := w.idOf node
    let (found, w) := w.hasElement host id
    if found then return (← w.attachClick client host id handler).2 else return w

/-- What a component does with a node when its document is ready: a tracked node reports, any
other attaches its listener. -/
def whenReady (client : Client σ) (host : HostId) (w : World σ) (node : NodeId) :
    Except Fault (World σ) :=
  match (w.node? node).map Node.kind with
  | some .tracked =>
    let (found, w) := w.hasElement host (w.idOf node)
    .ok (w.note (.loaded (w.idOf node) found))
  | _ => w.attachAction client node host

/-- The load pass over the nodes of a registry that are alive at its start, in order of
creation; they are kept alive until its end. -/
def load (client : Client σ) (w : World σ) (registry : RegistryId) (host : HostId) :
    Except Fault (World σ) := do
  let nodes := w.liveNodes registry
  return (← nodes.foldlM (whenReady client host) (w.holdAll nodes)).releaseAll nodes

/-- Clicks an element of a surface, and tells how many listeners ran. -/
def click (client : Client σ) (w : World σ) (host : HostId) (id : String) :
    Except Fault (Nat × World σ) := do
  let listeners := (w.host host).surface?.elim [] fun surface ↦ surface.clickListeners id
  return (listeners.length, ← listeners.foldlM (fun w handler ↦ client.call (.act handler) w) w)

end LiveMarkup.World
