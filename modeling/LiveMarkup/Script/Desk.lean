import LiveMarkup.Script.Reply
import LiveMarkup.Script.Step
import LiveMarkup.Store
import LiveMarkup.World.Paging

/-!
The client that runs scripts. Its desk binds handles, keeps the callbacks and page visits that
scripts made, and collects the log. A node, recorder or application that is bound to a handle
is held once for it, and what a step works on is held until the step is done; binding the handle to
something else gives the earlier thing up afterwards.
-/

set_option autoImplicit false
set_option relaxedAutoImplicit false

namespace LiveMarkup.Script

/-- What a handle is bound to. -/
inductive Handle where
  | registry (id : RegistryId)
  | host (id : HostId)
  | observable (id : ObservableId)
  | node (id : NodeId)
  | recorder (id : RecorderId)
  /-- A target that the handle does not keep alive. -/
  | subscriber (target : Target)
  | listener (id : ListenerId)
  | app (id : AppId)
  | watcher (app : AppId) (id : WatcherId)
  | store (id : Nat)
  | emitter (id : Nat)

/-- A callback: the steps that it runs on the calls that are left. -/
structure Callback where
  name : String
  steps : List Step
  left : Nat

/-- What a page shows on its visits, one after the other, and how many visits it had. -/
structure Visits where
  contents : List (Option (Spec Step))
  count : Nat := 0

/-- What is shown on the next visit: the content for it, the last one repeating. -/
def Visits.next? (visits : Visits) : Option (Spec Step) :=
  ((visits.contents[visits.count]?).or visits.contents.getLast?).join

/-- The state of the client. -/
structure Desk where
  handles : OrderedMap String Handle := ∅
  callbacks : Table Callback := ∅
  visits : Table Visits := ∅
  stores : Table Store := ∅
  emitters : Table (Emitter Handler) := ∅
  log : Array LogEntry := #[]
  /-- The markup last answered for a handle. -/
  answered : OrderedMap String String := ∅

instance : Journal Desk := ⟨fun note desk ↦ { desk with log := desk.log.push (.note note) }⟩

/-- An action of the client on the world. -/
abbrev Session (α : Type) := StateT (World Desk) (Except Fault) α

namespace Session

/-- Changes the world. -/
def change (f : World Desk → World Desk) : Session Unit := modify f

/-- Changes the world in a way that may not finish. -/
def attempt (f : World Desk → Except Fault (World Desk)) : Session Unit :=
  fun w ↦ (f w).map fun w ↦ ((), w)

/-- Changes the world in a way that may not finish and has a result. -/
def obtain {α : Type} (f : World Desk → Except Fault (α × World Desk)) : Session α := f

/-- Looks at the world. -/
def look {α : Type} (f : World Desk → α) : Session α := do return f (← get)

/-- Changes the desk. -/
def changeDesk (f : Desk → Desk) : Session Unit := modify fun w ↦ { w with client := f w.client }

/-- Adds to the log. -/
def log (entry : LogEntry) : Session Unit :=
  changeDesk fun desk ↦ { desk with log := desk.log.push entry }

/-- Acts while a reference is held. -/
def holding {α : Type} (root : Root) (action : Session α) : Session α := do
  change fun w ↦ w.hold root
  let result ← action
  change fun w ↦ w.release root
  return result

/-! ### Handles -/

/-- Gives up what a handle was bound to. -/
def discard : Handle → Session Unit
  | .node id => change fun w ↦ w.release (.node id)
  | .recorder id => change fun w ↦ w.release (.recorder id)
  | .app id => change fun w ↦ w.release (.app id)
  | .watcher app id => change fun w ↦ w.unwatch app id
  | _ => pure ()

/-- Binds a handle. A reference to a node or recorder passes to it. -/
def bind (name : HandleName) (handle : Handle) : Session Unit := do
  let earlier? ← look fun w ↦ w.client.handles.get? name
  changeDesk fun desk ↦ { desk with handles := desk.handles.insert name handle }
  match earlier? with
  | some earlier => discard earlier
  | none => pure ()

/-- Binds a handle if one is given. -/
def bind? (name? : Option HandleName) (handle : Handle) : Session Unit :=
  match name? with
  | some name => bind name handle
  | none => pure ()

/-- Passes a reference to a node on to a handle, or gives it up. -/
def keep (name? : Option HandleName) (node : NodeId) : Session Unit :=
  match name? with
  | some name => bind name (.node node)
  | none => change fun w ↦ w.release (.node node)

/-- Takes a reference to a node and passes it to a handle, if one is given. -/
def share (name? : Option HandleName) (node : NodeId) : Session Unit :=
  match name? with
  | some name => do
    change fun w ↦ w.hold (.node node)
    bind name (.node node)
  | none => pure ()

/-- Unbinds a handle, and tells whether it was bound. -/
def drop (name : HandleName) : Session Bool := do
  match ← look fun w ↦ w.client.handles.get? name with
  | none => return false
  | some handle =>
    changeDesk fun desk ↦ { desk with handles := desk.handles.erase name }
    discard handle
    return true

/-- What a handle is bound to, if a choice accepts it. -/
def lookUp {α : Type} (name : HandleName) (choose : Handle → Option α) : Session α := do
  match (← look fun w ↦ w.client.handles.get? name).bind choose with
  | some found => return found
  | none => throw (.unbound name)

/-- The registry that a handle is bound to. -/
def registryOf (name : HandleName) : Session RegistryId := lookUp name fun
  | .registry id => some id
  | _ => none

/-- The host that a handle is bound to. -/
def hostOf (name : HandleName) : Session HostId := lookUp name fun
  | .host id => some id
  | _ => none

/-- The surface that a handle is bound to. -/
def surfaceOf (name : HandleName) : Session Surface := do
  let host ← hostOf name
  match ← look fun w ↦ (w.host host).surface? with
  | some surface => return surface
  | none => throw (.unbound name)

/-- The observable that a handle is bound to. -/
def observableOf (name : HandleName) : Session ObservableId := lookUp name fun
  | .observable id => some id
  | _ => none

/-- The node that a handle is bound to. -/
def nodeOf (name : HandleName) : Session NodeId := lookUp name fun
  | .node id => some id
  | _ => none

/-- The listener that a handle is bound to. -/
def listenerOf (name : HandleName) : Session ListenerId := lookUp name fun
  | .listener id => some id
  | _ => none

/-- The refresh target that a handle is bound to or stands for. -/
def targetOf (name : HandleName) : Session Target := lookUp name fun
  | .node id => some (.node id)
  | .recorder id => some (.recorder id)
  | .subscriber target => some target
  | _ => none

/-- The application that a handle is bound to. -/
def appOf (name : HandleName) : Session (AppId × App) := do
  let id ← lookUp name fun
    | .app id => some id
    | _ => none
  match ← look fun w ↦ w.apps.get? id with
  | some app => return (id, app)
  | none => throw (.unbound name)

/-! ### Showing nodes -/

/-- A node as replies show it. -/
def refOf (id : NodeId) : Session NodeRef := look fun w ↦
  match w.node? id with
  | some node => ⟨node.tag, node.id⟩
  | none => ⟨"", ""⟩

/-- A node that may be missing, as replies show it. -/
def refOf? (id? : Option NodeId) : Session (Option NodeRef) :=
  match id? with
  | some id => do return some (← refOf id)
  | none => return none

/-! ### Callbacks -/

/-- Makes a callback. -/
def makeCallback (plan : Plan Step) : Session Handler := do
  let handler ← look fun w ↦ w.client.callbacks.next
  changeDesk fun desk ↦
    { desk with callbacks := desk.callbacks.push ⟨plan.name, plan.steps, plan.times⟩ }
  return handler

/-- Runs the steps of a callback and logs each reply. -/
def runSteps (exec : Step → Session Reply) (name : String) : List Step → Session Unit
  | [] => pure ()
  | step :: rest => do
    log (.answered name (← exec step))
    runSteps exec name rest

/-- Calls a callback, given how a step is executed. -/
def answer (exec : Step → Session Reply) (handler : Handler) (value? : Option Value) :
    Session Unit := do
  match ← look fun w ↦ w.client.callbacks.get? handler with
  | none => pure ()
  | some callback =>
    log (.called callback.name value?)
    if callback.left = 0 then pure ()
    else
      changeDesk fun desk ↦
        { desk with
          callbacks := desk.callbacks.modify handler fun c ↦ { c with left := c.left - 1 } }
      runSteps exec callback.name callback.steps

end Session

end LiveMarkup.Script
