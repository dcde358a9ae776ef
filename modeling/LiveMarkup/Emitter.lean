import LiveMarkup.OrderedMap
import LiveMarkup.Reference

/-!
Emitters: listeners kept by the name of the event that they wait for. A listener is known by
an id that the emitter gives out once, whatever the event.
-/

set_option autoImplicit false
set_option relaxedAutoImplicit false

namespace LiveMarkup

/-- Listeners by event name, in order of registration, and the next listener id. -/
structure Emitter (α : Type) where
  lists : OrderedMap String (List (ListenerId × α)) := ∅
  nextId : ListenerId := 0

namespace Emitter

variable {α : Type}

instance : Inhabited (Emitter α) := ⟨{}⟩

/-- The registrations of an event, in order. -/
def registrations (emitter : Emitter α) (event : String) : List (ListenerId × α) :=
  (emitter.lists.get? event).getD []

/-- The listeners of an event, in order of registration. -/
def listeners (emitter : Emitter α) (event : String) : List α :=
  (emitter.registrations event).map Prod.snd

/-- How many listeners an event has. -/
def count (emitter : Emitter α) (event : String) : Nat := (emitter.registrations event).length

/-- Registers a listener. Its id is the `nextId` of the emitter before the registration. -/
def register (emitter : Emitter α) (event : String) (listener : α) : Emitter α where
  lists := emitter.lists.insert event (emitter.registrations event ++ [(emitter.nextId, listener)])
  nextId := emitter.nextId + 1

/-- Whether a listener is registered under an event. -/
def isRegistered (emitter : Emitter α) (event : String) (id : ListenerId) : Bool :=
  (emitter.registrations event).any fun registration ↦ registration.1 == id

/-- Removes a listener from one event. An event that ever had a listener stays listed. -/
def remove (emitter : Emitter α) (event : String) (id : ListenerId) : Emitter α :=
  match emitter.lists.get? event with
  | some list =>
    { emitter with
      lists := emitter.lists.insert event (list.filter fun registration ↦ registration.1 != id) }
  | none => emitter

/-- Registers a listener and gives out its id. -/
def on (emitter : Emitter α) (event : String) (listener : α) : ListenerId × Emitter α :=
  (emitter.nextId, emitter.register event listener)

/-- Removes a listener from one event and tells whether that made the list of the event shorter. -/
def off (emitter : Emitter α) (event : String) (id : ListenerId) : Bool × Emitter α :=
  let removed := emitter.remove event id
  (removed.count event != emitter.count event, removed)

/-! ### What the operations do to the registrations of an event -/

/-- A registration comes last for its event and touches no other. -/
theorem registrations_register (emitter : Emitter α) (event event' : String) (listener : α) :
    (emitter.register event listener).registrations event' =
      if event = event' then emitter.registrations event ++ [(emitter.nextId, listener)]
      else emitter.registrations event' := by
  rw [registrations, register, OrderedMap.get?_insert]
  by_cases h : event = event'
  · rw [if_pos h, if_pos h, Option.getD_some]
  · rw [if_neg h, if_neg h, registrations]

/-- A removal takes out one id for its event and touches no other. -/
theorem registrations_remove (emitter : Emitter α) (event event' : String) (id : ListenerId) :
    (emitter.remove event id).registrations event' =
      if event = event' then
        (emitter.registrations event).filter fun registration ↦ registration.1 != id
      else emitter.registrations event' := by
  rw [remove]
  cases hlist : emitter.lists.get? event with
  | none =>
    by_cases h : event = event'
    · subst h
      simp [registrations, hlist]
    · rw [if_neg h]
  | some list =>
    rw [registrations, OrderedMap.get?_insert]
    by_cases h : event = event'
    · subst h
      simp [registrations, hlist]
    · rw [if_neg h, if_neg h, registrations]

end Emitter

end LiveMarkup
