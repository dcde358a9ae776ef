import LiveMarkup.Reference
import LiveMarkup.OrderedMap
import LiveMarkup.Table
import LiveMarkup.Value

/-!
Applications: named pages, the page shown last, and those who watch which page that is.
-/

set_option autoImplicit false
set_option relaxedAutoImplicit false

namespace LiveMarkup

/-- Free-form configuration of a page. -/
structure PageOptions where
  title? : Option String := none
  extra : OrderedMap String Value := ∅

/-- A page: what builds its content, and its configuration. -/
structure Page where
  renderer : Renderer
  options : PageOptions

/-- The text shown for a page that renders nothing. -/
def Page.placeholder (name : String) : String :=
  "Page '" ++ name ++ "' is has nothing to render"

/-- The name of the current page as its watchers see it, and the labels of the watchers. -/
structure PageSignal where
  value? : Option String := none
  watchers : Table String := ∅

/-- Pages bound to one host and one registry. -/
structure App where
  host : HostId
  registry : RegistryId
  pages : OrderedMap String Page := ∅
  /-- The name of the page rendered last. -/
  current? : Option String := none
  signal : PageSignal := {}
  /-- The content of the page rendered last, which the application keeps alive. -/
  mounted? : Option NodeId := none

/-- Adds a page, or replaces the one of the same name in its place. -/
def App.addPage (app : App) (name : String) (page : Page) : App :=
  { app with pages := app.pages.insert name page }

end LiveMarkup
