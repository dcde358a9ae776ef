import LiveMarkup.Attribute
import LiveMarkup.LookupError
import LiveMarkup.Markup.Located

/-!
Surfaces: documents that show markup. A surface holds its markup as text and finds elements by
scanning it, so that whatever text is put into it is shown as it is.
-/

set_option autoImplicit false
set_option relaxedAutoImplicit false

namespace LiveMarkup

/-- A document: its markup, and the click listeners by element id in order of attachment. -/
structure Surface where
  markup : String := ""
  listeners : OrderedMap String (List Handler) := ∅

namespace Surface

instance : Inhabited Surface := ⟨{}⟩

/-- The element with an id, cut out of the markup. -/
def find? (surface : Surface) (id : String) : Option Located :=
  locate? id.toList (Token.scan surface.markup.toList)

/-- Whether there is an element with this id. -/
def hasElement (surface : Surface) (id : String) : Bool := (surface.find? id).isSome

/-- The markup of the element with an id, its tags included. -/
def outerMarkup? (surface : Surface) (id : String) : Option String :=
  (surface.find? id).map fun element ↦ String.ofList element.outerText

/-- The markup inside the element with an id. -/
def innerMarkup? (surface : Surface) (id : String) : Option String :=
  (surface.find? id).map fun element ↦ String.ofList element.innerText

/-- Adds markup at the end. -/
def append (surface : Surface) (markup : String) : Surface :=
  { surface with markup := surface.markup ++ markup }

/-- Replaces all markup. -/
def replace (surface : Surface) (markup : String) : Surface := { surface with markup := markup }

/-- Replaces the markup inside the element with an id. -/
def setInner (surface : Surface) (id : String) (markup : String) : Except LookupError Surface :=
  match surface.find? id with
  | some element =>
    .ok { surface with markup := String.ofList (element.withInner markup.toList) }
  | none => .error (.elementNotFound id)

/-- The click listeners of an id. -/
def clickListeners (surface : Surface) (id : String) : List Handler :=
  (surface.listeners.get? id).getD []

/-- Attaches a click listener to the element with an id. -/
def attachClick (surface : Surface) (id : String) (handler : Handler) :
    Except LookupError Surface :=
  if surface.hasElement id then
    .ok { surface with
      listeners := surface.listeners.insert id (surface.clickListeners id ++ [handler]) }
  else .error (.elementNotFound id)

end Surface

end LiveMarkup
