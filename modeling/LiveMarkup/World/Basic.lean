import LiveMarkup.Markup.Host
import LiveMarkup.Node
import LiveMarkup.Observable
import LiveMarkup.Page
import LiveMarkup.Registry

/-!
Worlds: everything that exists at one moment. The node table holds exactly the nodes that are
alive; observables, registries and hosts stay for good. The client has a state of its own,
which the library passes along and writes to only by reporting what its components, probes and
page watchers do.
-/

set_option autoImplicit false
set_option relaxedAutoImplicit false

namespace LiveMarkup

/-- What is reported to the client. -/
inductive Note where
  /-- A tracked node was created in a registry that now has this many live nodes. -/
  | created (id : String) (liveNodes : Nat)
  /-- The creation hook of a tracked node ran, the node being mounted or not. -/
  | shown (id : String) (isMounted : Bool)
  /-- The loading hook of a tracked node ran on a host that has its element or not. -/
  | loaded (id : String) (hasElement : Bool)
  /-- The creation hook of a boxed node ran; the tag that the node was displayed with. -/
  | boxed (id : String) (tag? : Option String)
  /-- A probe was given markup to add. -/
  | probeAppend (markup : String)
  /-- A probe was given new markup. -/
  | probeReplace (markup : String)
  /-- A probe was asked for an element. -/
  | probeHas (id : String)
  /-- A probe was given the inner markup of an element. -/
  | probeSetInner (id markup : String)
  /-- A probe was given a click listener for an element. -/
  | probeAttach (id : String)
  /-- A watcher saw the current page. -/
  | page (watcher : String) (name? : Option String)

/-- How a client takes notes. -/
class Journal (σ : Type) where
  note : Note → σ → σ

instance : Journal (List Note) := ⟨fun note notes ↦ notes ++ [note]⟩

/-- Why a run does not finish. -/
inductive Fault where
  /-- Content holds itself, or calls nest beyond the limit. -/
  | endless
  /-- A name is bound to nothing that fits. -/
  | unbound (name : String)

/-- Everything that exists, and the state of the client. -/
structure World (σ : Type) where
  nodes : Table Node := ∅
  /-- The callbacks of the recorders that are alive. -/
  recorders : Table Handler := ∅
  observables : Table Observable := ∅
  registries : Table Registry := ∅
  hosts : Table Host := ∅
  apps : Table App := ∅
  /-- References from outside the tree that keep something alive, with multiplicity. -/
  held : List Root := []
  client : σ

namespace World

variable {σ : Type}

/-- Reports to the client. -/
def note [Journal σ] (w : World σ) (note : Note) : World σ :=
  { w with client := Journal.note note w.client }

/-! ### Looking things up -/

/-- A live node. -/
def node? (w : World σ) (id : NodeId) : Option Node := w.nodes.get? id

/-- The displayed id of a node. -/
def idOf (w : World σ) (id : NodeId) : String := (w.node? id).elim "" Node.id

/-- An observable. -/
def observable (w : World σ) (id : ObservableId) : Observable :=
  (w.observables.get? id).getD default

/-- A registry. -/
def registry (w : World σ) (id : RegistryId) : Registry := (w.registries.get? id).getD default

/-- A host. -/
def host (w : World σ) (id : HostId) : Host := (w.hosts.get? id).getD default

/-- Whether a target is alive. -/
def isAlive (w : World σ) : Target → Bool
  | .node id => w.nodes.contains id
  | .recorder id => w.recorders.contains id

/-- The live nodes of a registry in order of creation. -/
def liveNodes (w : World σ) (registry : RegistryId) : List NodeId :=
  (w.registry registry).entries.filter w.nodes.contains

/-- How many live nodes a registry has: how many of its entries are alive. -/
def population (w : World σ) (registry : RegistryId) : Nat :=
  (w.registry registry).entries.countP w.nodes.contains

theorem population_eq (w : World σ) (registry : RegistryId) :
    w.population registry = (w.liveNodes registry).length :=
  List.countP_eq_length_filter

/-- The first live node of a registry with a displayed id. -/
def find? (w : World σ) (registry : RegistryId) (id : String) : Option NodeId :=
  (w.liveNodes registry).find? fun node ↦ w.idOf node == id

/-- The live targets of an observable, in order and with multiplicity. -/
def liveSubscribers (w : World σ) (observable : ObservableId) : List Target :=
  (w.observable observable).liveSubscribers w.isAlive

/-- How many live targets an observable has. -/
def subscriberCount (w : World σ) (observable : ObservableId) : Nat :=
  (w.liveSubscribers observable).length

/-- The node through whose content a node was written last, if both are alive. -/
def parent? (w : World σ) (id : NodeId) : Option NodeId :=
  ((w.node? id).bind Node.parent?).filter w.nodes.contains

/-- What a mounted node was displayed as. -/
def rendered? (w : World σ) (id : NodeId) : Option NodeId :=
  ((w.node? id).bind Node.mounting?).map fun mounting ↦
    match mounting.form with
    | .itself => id
    | .wrapper node => node

/-! ### Changing one thing -/

/-- Changes a node. -/
def modifyNode (w : World σ) (id : NodeId) (f : Node → Node) : World σ :=
  { w with nodes := w.nodes.modify id f }

/-- Changes an observable. -/
def modifyObservable (w : World σ) (id : ObservableId) (f : Observable → Observable) : World σ :=
  { w with observables := w.observables.modify id f }

/-- Changes a registry. -/
def modifyRegistry (w : World σ) (id : RegistryId) (f : Registry → Registry) : World σ :=
  { w with registries := w.registries.modify id f }

/-- Changes a surface. -/
def setSurface (w : World σ) (id : HostId) (surface : Surface) : World σ :=
  { w with hosts := w.hosts.modify id fun _ ↦ .surface surface }

/-- Changes an application. -/
def modifyApp (w : World σ) (id : AppId) (f : App → App) : World σ :=
  { w with apps := w.apps.modify id f }

/-! ### Adding things -/

/-- Adds an observable. Its number is the next one of the table. -/
def addObservable (w : World σ) (observable : Observable) : World σ :=
  { w with observables := w.observables.push observable }

/-- Adds a registry. Its number is the next one of the table. -/
def addRegistry (w : World σ) (config : Config) : World σ :=
  { w with registries := w.registries.push { config := config } }

/-- Adds a host. Its number is the next one of the table. -/
def addHost (w : World σ) (host : Host) : World σ := { w with hosts := w.hosts.push host }

/-! ### Observables -/

/-- Adds a target to an observable. -/
def subscribe (w : World σ) (observable : ObservableId) (target : Target) : World σ :=
  w.modifyObservable observable (Observable.subscribe w.isAlive target)

/-- Removes a target from an observable. -/
def unsubscribe (w : World σ) (observable : ObservableId) (target : Target) : World σ :=
  w.modifyObservable observable (Observable.unsubscribe target)

/-- Registers a listener for an event of an observable and gives out its id. -/
def listen (w : World σ) (observable : ObservableId) (event : Event) (listener : Handler) :
    ListenerId × World σ :=
  (((w.observable observable).emitter.on event.name listener).1,
    w.modifyObservable observable (Observable.register event listener))

/-- Removes a listener from an event of an observable and tells whether it was registered. -/
def unlisten (w : World σ) (observable : ObservableId) (event : Event) (id : ListenerId) :
    Bool × World σ :=
  (((w.observable observable).emitter.off event.name id).1,
    w.modifyObservable observable (Observable.remove event id))

/-- Registers one listener for the mutations of each of some observables in turn and gives out an id
for each. -/
def listenToAll (w : World σ) (listener : Handler) : List ObservableId → List ListenerId × World σ
  | [] => ([], w)
  | observable :: rest =>
    let (id, w) := w.listen observable .mutate listener
    let (ids, w) := w.listenToAll listener rest
    (id :: ids, w)

end World

end LiveMarkup
