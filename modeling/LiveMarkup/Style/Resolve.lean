import LiveMarkup.Style.Flags

/-!
How attributes become presentation: flags give classes after the base class, aliased
attributes give declarations in the order of the alias table, and the style of the component,
merged with the compound modifiers, gives the declarations after them. No declaration is
dropped for a later one of the same property; the later one takes effect.
-/

set_option autoImplicit false
set_option relaxedAutoImplicit false

namespace LiveMarkup

/-- Style declarations of a component: property and value, in order of declaration. -/
abbrev StyleMap := OrderedMap String String

/-- One style declaration. -/
structure Declaration where
  property : String
  value : String
  deriving DecidableEq

namespace Declaration

/-- A declaration in its printed form, closed by a semicolon. -/
def print (declaration : Declaration) : String :=
  declaration.property ++ ":" ++ declaration.value ++ ";"

/-- Declarations in their printed form. -/
def printAll : List Declaration → String
  | [] => ""
  | declaration :: rest => declaration.print ++ printAll rest

end Declaration

namespace StyleMap

/-- The entries as declarations, properties as they stand. -/
def declarations (style : StyleMap) : List Declaration :=
  style.toList.map fun (property, value) ↦ ⟨property, value⟩

end StyleMap

/-- An attribute that stands for a style property. -/
structure Alias where
  key : String
  property : String

/-- The aliases in the order in which their declarations are written. -/
def Alias.table : List Alias :=
  [⟨"grow", "flex-grow"⟩, ⟨"background", "background"⟩, ⟨"foreground", "color"⟩,
    ⟨"color", "color"⟩, ⟨"padding", "padding"⟩, ⟨"margin", "margin"⟩]

/-- The property that a key stands for; a key without an alias stands for itself. -/
def propertyOf (key : String) : String :=
  ((Alias.table.find? fun entry ↦ entry.key == key).map Alias.property).getD key

/-- A compound modifier: its accepted attribute keys, the first of which to be present counts,
and the two properties that it sets. -/
structure Modifier where
  synonyms : List String
  first : String
  second : String

/-- The compound modifiers in the order in which they are merged. -/
def Modifier.table : List Modifier :=
  [⟨["paddingHorizontal", "paddingHor", "paddingH"], "padding-left", "padding-right"⟩,
    ⟨["paddingVertical", "paddingVert", "paddingV"], "padding-top", "padding-bottom"⟩,
    ⟨["marginHorizontal", "marginHor", "marginH"], "margin-left", "margin-right"⟩,
    ⟨["marginVertical", "marginVert", "marginV"], "margin-top", "margin-bottom"⟩]

namespace Modifier

/-- The displayed value of the first synonym that is present. -/
def value? (attributes : Attributes) (modifier : Modifier) : Option String :=
  modifier.synonyms.findSome? fun key ↦ (attributes.get? key).map AttrValue.display

/-- Sets both properties of a modifier that is present. -/
def expand (attributes : Attributes) (style : StyleMap) (modifier : Modifier) : StyleMap :=
  match modifier.value? attributes with
  | some value => (style.insert modifier.first value).insert modifier.second value
  | none => style

/-- Merges all modifiers that are present into a style. -/
def expandAll (attributes : Attributes) (style : StyleMap) : StyleMap :=
  table.foldl (expand attributes) style

end Modifier

/-- The declarations of the aliased attributes that are present. -/
def aliasDeclarations (attributes : Attributes) : List Declaration :=
  Alias.table.filterMap fun entry ↦
    (attributes.get? entry.key).map fun value ↦ ⟨entry.property, value.display⟩

/-- The declarations of an element: its aliased attributes, then the style of its component
with the modifiers merged in, each key through the alias table. -/
def declarationsOf (attributes : Attributes) (style : StyleMap) : List Declaration :=
  aliasDeclarations attributes ++
    (Modifier.expandAll attributes style).toList.map fun (key, value) ↦ ⟨propertyOf key, value⟩

/-- Presentation resolved from attributes. -/
structure Presentation where
  flags : Flags
  classes : List String
  style : String

/-- Resolves attributes, the base class and the style of the component. -/
def resolve (attributes : Attributes) (baseClass : String) (style : StyleMap) : Presentation where
  flags := Flags.ofAttributes attributes
  classes := baseClass :: (Flags.ofAttributes attributes).classes
  style := Declaration.printAll (declarationsOf attributes style)

end LiveMarkup
