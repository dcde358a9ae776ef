import LiveMarkup.Script.Build

/-!
Steps on observables, their targets and listeners.
-/

set_option autoImplicit false
set_option relaxedAutoImplicit false

namespace LiveMarkup.Script

open Session

/-- The value of an observable. -/
def valueOf (observable : ObservableId) : Session Value :=
  look fun w ↦ (w.observable observable).value

/-- How many live targets an observable has. -/
def subscribersOf (observable : ObservableId) : Session Nat := look fun w ↦
  w.subscriberCount observable

/-- Performs a step on observables. -/
def ObservableStep.perform (client : Client Desk) : ObservableStep Step → Session Reply
  | .make name value targets => do
    let targets ← targets.mapM targetOf
    let id ← look fun w ↦ w.observables.next
    change fun w ↦ w.addObservable { value := value, subscribers := targets }
    let count ← subscribersOf id
    bind name (.observable id)
    return .observedCount value count
  | .clone observable name => do
    bind name (.observable (← observableOf observable))
    return .done
  | .get observable => return .read (← valueOf (← observableOf observable))
  | .set observable value => do
    let observable ← observableOf observable
    attempt fun w ↦ w.set client observable value
    return .observed (← valueOf observable)
  | .operate observable operation => do
    let observable ← observableOf observable
    let applied ← obtain fun w ↦ w.operate client observable operation
    return .applied applied (← valueOf observable)
  | .derived observable => do
    let value ← valueOf (← observableOf observable)
    return .derived value.length value.toInt value.toFloat
  | .subscribe observable target => do
    let observable ← observableOf observable
    let target ← targetOf target
    change fun w ↦ w.subscribe observable target
    return .count (← subscribersOf observable)
  | .unsubscribe observable target => do
    let observable ← observableOf observable
    let target ← targetOf target
    let removed ← look fun w ↦ (w.observable observable).isSubscribed target
    change fun w ↦ w.unsubscribe observable target
    return .removed removed (← subscribersOf observable)
  | .subscribers observable => return .count (← subscribersOf (← observableOf observable))
  | .on observable event name? plan => do
    let observable ← observableOf observable
    match Event.ofName event with
    | .error error => return .failed error
    | .ok event =>
      let handler ← makeCallback plan
      let listener ← modifyGet fun w ↦ w.listen observable event handler
      bind? name? (.listener listener)
      return .ok
  | .off observable event listener => do
    let observable ← observableOf observable
    let listener ← listenerOf listener
    match Event.ofName event with
    | .error error => return .failed error
    | .ok event =>
      return .flag (← modifyGet fun w ↦ w.unlisten observable event listener)
  | .effect observables names plan => do
    let observables ← observables.mapM observableOf
    let handler ← makeCallback plan
    let listeners ← modifyGet fun w ↦ w.listenToAll handler observables
    (names.zip listeners).forM fun (name, listener) ↦ bind name (.listener listener)
    return .count listeners.length
  | .recorder name plan => do
    let handler ← makeCallback plan
    let id ← look fun w ↦ w.recorders.next
    change fun w ↦ w.addRecorder handler
    bind name (.recorder id)
    return .done
  | .subscriber name target => do
    bind name (.subscriber (← targetOf target))
    return .done
  | .alive target => do
    let target ← targetOf target
    look fun w ↦ .flag (w.isAlive target)
  | .sameTarget a b => return .flag ((← targetOf a) == (← targetOf b))
  | .sameListener a b => return .flag ((← listenerOf a) == (← listenerOf b))

end LiveMarkup.Script
