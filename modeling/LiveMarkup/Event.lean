import LiveMarkup.LookupError

/-!
The events of an observable: one for every mutation, and one for each arithmetic operation.
-/

set_option autoImplicit false
set_option relaxedAutoImplicit false

namespace LiveMarkup

/-- An event that an observable emits after a mutation. -/
inductive Event where
  | mutate
  | increment
  | decrement
  | add
  | subtract
  | multiply
  | divide
  deriving DecidableEq

namespace Event

/-- The events in order. -/
def all : List Event := [mutate, increment, decrement, add, subtract, multiply, divide]

/-- The name of an event. -/
def name : Event → String
  | mutate => "mutate"
  | increment => "increment"
  | decrement => "decrement"
  | add => "add"
  | subtract => "subtract"
  | multiply => "multiply"
  | divide => "divide"

/-- The place of an event in `all`. -/
def index : Event → Nat
  | mutate => 0
  | increment => 1
  | decrement => 2
  | add => 3
  | subtract => 4
  | multiply => 5
  | divide => 6

/-- The event with a name. -/
def ofName (name : String) : Except LookupError Event :=
  match all.find? fun event ↦ event.name == name with
  | some event => .ok event
  | none => .error (.unknownEvent name)

theorem ofName_name (event : Event) : ofName event.name = .ok event := by
  cases event <;> rfl

end Event

end LiveMarkup
