import LiveMarkup.Attribute
import LiveMarkup.Emitter
import LiveMarkup.Event
import LiveMarkup.Number.Arithmetic

/-!
Observables: a value, the targets that are refreshed whenever it changes, and the listeners of
its events. Subscribing does not keep a target alive; an entry whose target is gone stays until
the list is pruned.
-/

set_option autoImplicit false
set_option relaxedAutoImplicit false

namespace LiveMarkup

/-- A value with change notification. -/
structure Observable where
  value : Value
  subscribers : List Target := []
  emitter : Emitter Handler := {}

namespace Observable

instance : Inhabited Observable := ⟨{ value := default }⟩

/-- Drops the entries whose target is gone. -/
def prune (alive : Target → Bool) (observable : Observable) : Observable :=
  { observable with subscribers := observable.subscribers.filter alive }

/-- Adds a target at the end, after pruning. -/
def subscribe (alive : Target → Bool) (target : Target) (observable : Observable) : Observable :=
  { observable with subscribers := observable.subscribers.filter alive ++ [target] }

/-- Whether some entry addresses the target. -/
def isSubscribed (target : Target) (observable : Observable) : Bool :=
  observable.subscribers.contains target

/-- Removes every entry that addresses the target. -/
def unsubscribe (target : Target) (observable : Observable) : Observable :=
  { observable with subscribers := observable.subscribers.filter (· != target) }

/-- The entries whose target is alive. -/
def liveSubscribers (alive : Target → Bool) (observable : Observable) : List Target :=
  observable.subscribers.filter alive

/-- The listeners of an event, in order of registration. -/
def listeners (observable : Observable) (event : Event) : List Handler :=
  observable.emitter.listeners event.name

/-- Registers a listener for an event. -/
def register (event : Event) (listener : Handler) (observable : Observable) : Observable :=
  { observable with emitter := observable.emitter.register event.name listener }

/-- Removes a listener from an event. -/
def remove (event : Event) (id : ListenerId) (observable : Observable) : Observable :=
  { observable with emitter := observable.emitter.remove event.name id }

end Observable

/-- The arithmetic operations on an observable. -/
inductive Operation where
  | increment
  | decrement
  | add (amount : Number)
  | subtract (amount : Number)
  | multiply (amount : Number)
  | divide (amount : Number)

namespace Operation

/-- The event that follows an operation. -/
def event : Operation → Event
  | .increment => .increment
  | .decrement => .decrement
  | .add _ => .add
  | .subtract _ => .subtract
  | .multiply _ => .multiply
  | .divide _ => .divide

/-- The result of an operation. -/
def apply (n : Number) : Operation → Number
  | .increment => n.add 1
  | .decrement => n.subtract 1
  | .add amount => n.add amount
  | .subtract amount => n.subtract amount
  | .multiply amount => n.multiply amount
  | .divide amount => n.divide amount

end Operation

end LiveMarkup
