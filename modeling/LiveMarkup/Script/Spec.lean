import LiveMarkup.Kind
import LiveMarkup.Value

/-!
What a script says about elements: which to build, out of what, and which callbacks to give
them. Things that exist are named by handles. The steps that callbacks run are left open here.
-/

set_option autoImplicit false
set_option relaxedAutoImplicit false

namespace LiveMarkup.Script

/-- A callback to be created: it reports each of its calls, and on the first so many of them it
runs steps. -/
structure Plan (α : Type) where
  name : String
  steps : List α
  times : Nat

/-- An attribute value to be created. -/
inductive Setting (α : Type) where
  | value (v : Value)
  | callback (plan : Plan α)

mutual

/-- An element to be built. -/
inductive Spec (α : Type) where
  /-- What the element is, its attributes and content, the observables that it is subscribed to
  when it is finished, and the handle that it is bound to. -/
  | mk (shape : Shape α) (attributes : List (String × Setting α)) (content : List (Entry α))
    (subscriptions : List String) (name? : Option String)

/-- What an element to be built is. -/
inductive Shape (α : Type) where
  | tag (name : String)
  | component (kind : Kind)
  /-- What a function builds that receives the content and not the attributes. -/
  | function (inner : Spec α)

/-- An entry of content to be built. -/
inductive Entry (α : Type) where
  | text (s : String)
  | number (n : Number)
  | node (handle : String)
  | observable (handle : String)
  | element (spec : Spec α)
  /-- The content that the enclosing function received. -/
  | slot

end

end LiveMarkup.Script
