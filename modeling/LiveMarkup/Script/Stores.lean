import LiveMarkup.Script.Desk

/-!
Steps on stores and on emitters, which the client keeps on its own desk.
-/

set_option autoImplicit false
set_option relaxedAutoImplicit false

namespace LiveMarkup.Script

open Session

/-- The storage that a handle is bound to. -/
def storeOf (name : HandleName) : Session (Nat × Store) := do
  let id ← lookUp name fun
    | .store id => some id
    | _ => none
  return (id, (← look fun w ↦ w.client.stores.get? id).getD {})

/-- Puts a storage in the place of another. -/
def putStore (id : Nat) (store : Store) : Session Unit := changeDesk fun desk ↦
  { desk with stores := desk.stores.modify id fun _ ↦ store }

/-- Performs a step on stores. -/
def StoreStep.perform : StoreStep → Session Reply
  | .make name => do
    let id ← look fun w ↦ w.client.stores.next
    changeDesk fun desk ↦ { desk with stores := desk.stores.push {} }
    bind name (.store id)
    return .done
  | .get store key default => do
    let (_, store) ← storeOf store
    return .store (.value? (some (store.get key default))) store.keys
  | .set store key value => do
    let (id, store) ← storeOf store
    let (earlier?, store) := store.set key value
    putStore id store
    return .store (.value? earlier?) store.keys
  | .has store key => do
    let (_, store) ← storeOf store
    return .store (.present (store.has key)) store.keys
  | .unset store key => do
    let (id, store) ← storeOf store
    let (removed?, store) := store.unset key
    putStore id store
    return .store (.value? removed?) store.keys
  | .keys store => do
    let (_, store) ← storeOf store
    return .store (.value? none) store.keys
  | .equal a b => return .flag ((← storeOf a).2.equal (← storeOf b).2)

/-- The emitter that a handle is bound to. -/
def emitterOf (name : HandleName) : Session (Nat × Emitter Handler) := do
  let id ← lookUp name fun
    | .emitter id => some id
    | _ => none
  return (id, (← look fun w ↦ w.client.emitters.get? id).getD {})

/-- Puts an emitter in the place of another. -/
def putEmitter (id : Nat) (emitter : Emitter Handler) : Session Unit := changeDesk fun desk ↦
  { desk with emitters := desk.emitters.modify id fun _ ↦ emitter }

/-- Performs a step on emitters. -/
def EmitterStep.perform (client : Client Desk) : EmitterStep Step → Session Reply
  | .make name => do
    let id ← look fun w ↦ w.client.emitters.next
    changeDesk fun desk ↦ { desk with emitters := desk.emitters.push {} }
    bind name (.emitter id)
    return .done
  | .on emitter event name? plan => do
    let handler ← makeCallback plan
    let (id, emitter) ← emitterOf emitter
    let (listener, emitter) := emitter.on event handler
    putEmitter id emitter
    bind? name? (.listener listener)
    return .count (emitter.count event)
  | .off emitter event listener => do
    let (id, emitter) ← emitterOf emitter
    let listener ← listenerOf listener
    let (removed, emitter) := emitter.off event listener
    putEmitter id emitter
    return .removed removed (emitter.count event)
  | .emit name event value => do
    let (id, emitter) ← emitterOf name
    let listeners := emitter.listeners event
    attempt fun w ↦ w.announce client listeners value
    let after ← look fun w ↦ (w.client.emitters.get? id).getD {}
    return .counts listeners.length (after.count event)

end LiveMarkup.Script
