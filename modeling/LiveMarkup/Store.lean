import LiveMarkup.OrderedMap
import LiveMarkup.Value

/-!
Ordered storage of state values under string keys.
-/

set_option autoImplicit false
set_option relaxedAutoImplicit false

namespace LiveMarkup

/-- Values by key, in the order in which the keys were set. -/
structure Store where
  entries : OrderedMap String Value := ∅

namespace Store

instance : Inhabited Store := ⟨{}⟩

/-- The value of a key, or the default. -/
def get (store : Store) (key : String) (default : Value) : Value :=
  (store.entries.get? key).getD default

/-- Whether a key is set. -/
def has (store : Store) (key : String) : Bool := store.entries.contains key

/-- Sets a key, and gives the value that it had. -/
def set (store : Store) (key : String) (value : Value) : Option Value × Store :=
  (store.entries.get? key, ⟨store.entries.insert key value⟩)

/-- Unsets a key, and gives the value that it had. -/
def unset (store : Store) (key : String) : Option Value × Store :=
  (store.entries.get? key, ⟨store.entries.erase key⟩)

/-- The keys in order. -/
def keys (store : Store) : List String := store.entries.keys

/-- How many keys are set. -/
def size (store : Store) : Nat := store.entries.size

/-- Whether no key is set. -/
def isEmpty (store : Store) : Bool := store.entries.isEmpty

/-- Whether both hold the same keys with equal values, in any order. -/
def equal (a b : Store) : Bool :=
  a.size == b.size && a.entries.toList.all fun (key, value) ↦
    (b.entries.get? key).any fun other ↦ value.equal other

end Store

end LiveMarkup
