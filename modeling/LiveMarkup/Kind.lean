import LiveMarkup.Style.Resolve

/-!
The kinds of elements. A plain element is markup and nothing more; the other kinds are
components, whose tag is their name and which may bring a style of their own, be rendered as
something else, or act when they are created, mounted or loaded.
-/

set_option autoImplicit false
set_option relaxedAutoImplicit false

namespace LiveMarkup

/-- What an element is. -/
inductive Kind where
  /-- An element with a given tag. -/
  | plain
  /-- A container, rendered as a `div` with classes and style. -/
  | layout
  /-- A container that always has the flex class. -/
  | flexLayout
  /-- A paragraph. -/
  | text
  /-- An element with a style computed from its attributes. -/
  | badge
  /-- A heading that greets the name in its state. -/
  | greeting
  /-- An element that reports its creation, mounting and loading. -/
  | tracked
  /-- An element that is taken for a container but renders as itself, and that receives a class
  and a child when it is created. -/
  | panel
  /-- An element that is rendered like a container without being taken for one, and that
  reports what it was rendered as. -/
  | boxed
  deriving DecidableEq

namespace Kind

/-- The components. -/
def components : List Kind :=
  [layout, flexLayout, text, badge, greeting, tracked, panel, boxed]

/-- The name of a kind; the tag of a component. -/
def name : Kind → String
  | plain => "Plain"
  | layout => "Layout"
  | flexLayout => "FlexLayout"
  | text => "Text"
  | badge => "Badge"
  | greeting => "Greeting"
  | tracked => "Tracked"
  | panel => "Panel"
  | boxed => "Boxed"

/-- The component with a name. -/
def ofName? (name : String) : Option Kind := components.find? fun kind ↦ kind.name == name

/-- Whether an element of this kind contributes its rendered form to a container around it. -/
def isLayout : Kind → Bool
  | layout | flexLayout | text | panel => true
  | _ => false

/-- The style that a component declares for the attributes of one of its elements. -/
def style (attributes : Attributes) : Kind → StyleMap
  | badge => .ofList
    [("foreground", "gold"), ("padding-left", "9px"), ("grow", toString attributes.size),
      ("x-id", attributes.id)]
  | _ => ∅

end Kind

end LiveMarkup
