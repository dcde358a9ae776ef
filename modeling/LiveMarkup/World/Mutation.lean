import LiveMarkup.World.Mounting

/-!
Calls to the client, and the protocol of a mutation. A mutation stores the new value, drops
dead entries, refreshes the targets subscribed at that moment in order, and then calls the
listeners: those of the mutation, and after an arithmetic operation those of the operation.
Whatever is called may act on the world, and may mutate the same observable again; a list that
is being gone through is the one read at its start.
-/

set_option autoImplicit false
set_option relaxedAutoImplicit false

namespace LiveMarkup

/-- A call of the client. -/
inductive Call where
  /-- A listener is told a value. -/
  | listen (handler : Handler) (value : Value)
  /-- A callback without a value: a click, or a refresh of a recorder. -/
  | act (handler : Handler)

/-- How the client answers calls, and how its page renderers build content. A node that is
built comes with a reference to it. -/
structure Client (σ : Type) where
  call : Call → World σ → Except Fault (World σ)
  page : Renderer → RegistryId → World σ → Except Fault (Option NodeId × World σ)

namespace World

variable {σ : Type} [Journal σ]

/-- Tells a value to listeners, one after the other. -/
def announce (client : Client σ) (listeners : List Handler) (value : Value) (w : World σ) :
    Except Fault (World σ) :=
  listeners.foldlM (fun w handler ↦ client.call (.listen handler value) w) w

/-- Refreshes a target if it is alive, keeping it alive meanwhile. -/
def notify (client : Client σ) (w : World σ) (target : Target) : Except Fault (World σ) := do
  match target with
  | .node id =>
    if w.nodes.contains id then return (← (w.hold (.node id)).refresh id).release (.node id)
    else return w
  | .recorder id =>
    match w.recorders.get? id with
    | some handler =>
      return (← client.call (.act handler) (w.hold (.recorder id))).release (.recorder id)
    | none => return w

/-- Tells the listeners of an event the value that the observable has now. -/
def emit (client : Client σ) (w : World σ) (observable : ObservableId) (event : Event) :
    Except Fault (World σ) :=
  w.announce client ((w.observable observable).listeners event) (w.observable observable).value

/-- Refreshes the targets of an observable and announces the mutation. -/
def mutated (client : Client σ) (w : World σ) (observable : ObservableId) :
    Except Fault (World σ) := do
  let w := w.modifyObservable observable (Observable.prune w.isAlive)
  let w ← (w.observable observable).subscribers.foldlM (notify client) w
  w.emit client observable .mutate

/-- Stores a value in an observable. -/
def store (w : World σ) (observable : ObservableId) (value : Value) : World σ :=
  w.modifyObservable observable fun o ↦ { o with value := value }

/-- Replaces the value of an observable. -/
def set (client : Client σ) (w : World σ) (observable : ObservableId) (value : Value) :
    Except Fault (World σ) :=
  (w.store observable value).mutated client observable

/-- Applies an operation to an observable that holds a number, and tells whether it does. -/
def operate (client : Client σ) (w : World σ) (observable : ObservableId) (operation : Operation) :
    Except Fault (Bool × World σ) := do
  match (w.observable observable).value.number? with
  | none => return (false, w)
  | some n =>
    let w ← (w.store observable (.number (operation.apply n))).mutated client observable
    return (true, ← w.emit client observable operation.event)

end World

end LiveMarkup
