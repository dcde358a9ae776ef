import LiveMarkup.Reference
import LiveMarkup.Style.StyleSheet

/-!
Registries: the context in which nodes are created. A registry gives out ids, lists its nodes
in order of creation without keeping them alive, and holds the style sheet.
-/

set_option autoImplicit false
set_option relaxedAutoImplicit false

namespace LiveMarkup

/-- The names that a registry works with. -/
structure Config where
  /-- What generated ids start with. -/
  idStem : String := "v-"
  /-- The class that every node has first. -/
  baseClass : String := "void-layout"
  /-- The tag of the placeholder for a page that renders nothing. -/
  fallbackTag : String := "pre"

/-- The context in which nodes are created. -/
structure Registry where
  config : Config := {}
  /-- The nodes listed, in order of creation; some may be gone. -/
  entries : List NodeId := []
  /-- How many nodes were ever created. -/
  created : Nat := 0
  /-- How many ids were generated. -/
  generated : Nat := 0
  sheet : StyleSheet := {}

namespace Registry

instance : Inhabited Registry := ⟨{}⟩

/-- The id that is generated next. -/
def nextId (registry : Registry) : String :=
  registry.config.idStem ++ toString registry.generated

/-- Counts a generated id. -/
def countId (registry : Registry) : Registry :=
  { registry with generated := registry.generated + 1 }

/-- Lists a new node, dropping entries that are gone. -/
def register (alive : NodeId → Bool) (node : NodeId) (registry : Registry) : Registry :=
  { registry with
    entries := registry.entries.filter alive ++ [node]
    created := registry.created + 1 }

/-- Adds a rule to the style sheet. -/
def addRule (id : String) (style : StyleMap) (registry : Registry) : Registry :=
  { registry with sheet := registry.sheet.addRule id style }

end Registry

end LiveMarkup
