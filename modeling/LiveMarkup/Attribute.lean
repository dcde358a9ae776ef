import LiveMarkup.OrderedMap
import LiveMarkup.Reference
import LiveMarkup.Value

/-!
Attributes of an element, in the order in which they were declared.
-/

set_option autoImplicit false
set_option relaxedAutoImplicit false

namespace LiveMarkup

/-- The value of an attribute. A callback is kept for attaching listeners and is never
printed. -/
inductive AttrValue where
  | text (s : String)
  | number (n : Number)
  | flag (b : Bool)
  | callback (handler : Handler)
  deriving DecidableEq

namespace AttrValue

/-- The value as it is printed; a callback displays as nothing. -/
def display : AttrValue → String
  | .text s => s
  | .number n => n.text
  | .flag b => if b then "true" else "false"
  | .callback _ => ""

/-- The callback, if the value is one. -/
def callback? : AttrValue → Option Handler
  | .callback handler => some handler
  | _ => none

/-- Whether the value is a callback. -/
def isCallback (v : AttrValue) : Bool := v.callback?.isSome

end AttrValue

/-- Attributes in declaration order. -/
abbrev Attributes := OrderedMap String AttrValue

namespace Attributes

/-- The displayed `id`, empty without one. -/
def id (attributes : Attributes) : String :=
  (attributes.get? "id").elim "" AttrValue.display

/-- What markup shows of the attributes: all but the callbacks, displayed. -/
def printed (attributes : Attributes) : List (String × String) :=
  attributes.toList.filterMap fun (key, value) ↦
    if value.isCallback then none else some (key, value.display)

end Attributes

end LiveMarkup
