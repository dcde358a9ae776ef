import LiveMarkup.Proofs.Style.Merging
import Mathlib.Data.List.Basic

/-!
What resolution reads and in what order it declares. Attributes that show the same to every
alias and every modifier, and that hold the same flags, are resolved alike, in whatever order
and among whatever others they stand; classes follow the table of the flags, and declarations
the table of the aliases and then the merged style, in which each side of a modifier that is
present is declared once (`resolve_congr_and_order`).
-/

set_option autoImplicit false
set_option relaxedAutoImplicit false

namespace LiveMarkup

/-- What an attribute displays, if it is present. -/
def Attributes.display? (attributes : Attributes) (key : String) : Option String :=
  (attributes.get? key).map AttrValue.display

/-- Attributes that agree on all that resolution reads. -/
structure Attributes.SameBindings (attributes other : Attributes) : Prop where
  aliases : ∀ entry ∈ Alias.table, attributes.display? entry.key = other.display? entry.key
  synonyms : ∀ modifier ∈ Modifier.table, ∀ key ∈ modifier.synonyms,
    attributes.display? key = other.display? key
  flags : ∀ flag ∈ Flag.all, attributes.contains flag.key = other.contains flag.key

theorem Flag.mem_all (flag : Flag) : flag ∈ all := by
  cases flag <;> decide

theorem Flags.classes_ofAttributes (attributes : Attributes) :
    (ofAttributes attributes).classes =
      (Flag.all.filter fun flag ↦ attributes.contains flag.key).map Flag.className := by
  rw [classes, funext (has_ofAttributes attributes)]

theorem Modifier.value?_eq_findSome? (attributes : Attributes) (modifier : Modifier) :
    modifier.value? attributes = (modifier.synonyms.map attributes.display?).findSome? id := by
  rw [List.findSome?_map]
  rfl

theorem aliasDeclarations_eq (attributes : Attributes) :
    aliasDeclarations attributes = Alias.table.filterMap fun entry ↦
      (attributes.display? entry.key).map fun value ↦ ⟨entry.property, value⟩ := by
  simp only [aliasDeclarations, Attributes.display?, Option.map_map, Function.comp_def]

theorem declarationsOf_eq (attributes : Attributes) (style : StyleMap) :
    declarationsOf attributes style =
      aliasDeclarations attributes ++
        (Modifier.merged attributes style).map fun (key, value) ↦ ⟨propertyOf key, value⟩ := by
  rw [declarationsOf, Modifier.toList_expandAll]

namespace Attributes.SameBindings

variable {attributes other : Attributes}

theorem ofAttributes_eq (h : attributes.SameBindings other) :
    Flags.ofAttributes attributes = Flags.ofAttributes other :=
  congrArg Flags.collect (funext fun flag ↦ h.flags flag flag.mem_all)

theorem aliasDeclarations_congr (h : attributes.SameBindings other) :
    aliasDeclarations attributes = aliasDeclarations other := by
  rw [aliasDeclarations_eq, aliasDeclarations_eq]
  refine List.filterMap_congr fun entry hentry ↦ ?_
  rw [h.aliases entry hentry]

theorem allLonghands_congr (h : attributes.SameBindings other) :
    Modifier.allLonghands attributes = Modifier.allLonghands other := by
  refine List.flatMap_congr fun modifier hmodifier ↦ ?_
  have hvalue : modifier.value? attributes = modifier.value? other := by
    rw [Modifier.value?_eq_findSome?, Modifier.value?_eq_findSome?,
      List.map_congr_left (h.synonyms modifier hmodifier)]
  rw [Modifier.longhands, Modifier.longhands, hvalue]

theorem resolve_eq (h : attributes.SameBindings other) (baseClass : String) (style : StyleMap) :
    resolve attributes baseClass style = resolve other baseClass style := by
  have hdeclarations : declarationsOf attributes style = declarationsOf other style := by
    rw [declarationsOf_eq, declarationsOf_eq, h.aliasDeclarations_congr, Modifier.merged,
      Modifier.merged, h.allLonghands_congr]
  rw [resolve, resolve, h.ofAttributes_eq, hdeclarations]

end Attributes.SameBindings

/-- The declarations of a side of a modifier that is present: one, with its value. -/
theorem filter_declarationsOf_side {attributes : Attributes} {modifier : Modifier}
    (hmodifier : modifier ∈ Modifier.table) {value : String}
    (hvalue : modifier.Takes attributes value) {side : String} (hside : side ∈ modifier.sides)
    (style : StyleMap) :
    (declarationsOf attributes style).filter (fun d ↦ d.property = side) = [⟨side, value⟩] := by
  have htable : ∀ modifier ∈ Modifier.table, ∀ side ∈ modifier.sides, ∀ entry ∈ Alias.table,
      entry.property ≠ side := by decide +kernel
  have halias : (aliasDeclarations attributes).filter (fun d ↦ d.property = side) = [] := by
    rw [List.filter_eq_nil_iff]
    intro declaration hmem hproperty
    obtain ⟨entry, hentry, hshown⟩ := List.mem_filterMap.mp hmem
    obtain ⟨shown, -, rfl⟩ := Option.map_eq_some_iff.mp hshown
    exact htable modifier hmodifier side hside entry hentry (of_decide_eq_true hproperty)
  have hkey : ∀ e ∈ (Modifier.expandAll attributes style).toList,
      ((fun d : Declaration ↦ decide (d.property = side)) ∘
        fun e : String × String ↦ ⟨propertyOf e.1, e.2⟩) e = decide (e.1 = side) := by
    intro e _
    exact decide_eq_decide.mpr (propertyOf_eq_side_iff hmodifier hside e.1)
  rw [declarationsOf, List.filter_append, halias, List.nil_append, List.filter_map,
    List.filter_congr hkey]
  have hfiltered := OrderedMap.filter_key (Modifier.expandAll attributes style).distinct (k := side)
  have hlookup := Modifier.get?_expandAll hmodifier hvalue hside style
  rw [OrderedMap.get?] at hlookup
  rw [hlookup] at hfiltered
  rw [OrderedMap.toList, hfiltered]
  simp [(propertyOf_eq_side_iff hmodifier hside side).mpr rfl]

/-- Resolution depends on what its keys show and on nothing else of the attributes. Classes are
the base class and those of the flags that are present, in the order of their table. The style
declares the aliases that are present, in the order of their table, and then the merged style of
the component, and it declares each side of a modifier that is present once, with the value of
the first synonym that is present. -/
theorem resolve_congr_and_order {attributes other : Attributes}
    (h : attributes.SameBindings other) (baseClass : String) (style : StyleMap) :
    resolve attributes baseClass style = resolve other baseClass style ∧
    (∀ flag, (resolve attributes baseClass style).flags.has flag = attributes.contains flag.key) ∧
    (resolve attributes baseClass style).classes =
      baseClass ::
        (Flag.all.filter fun flag ↦ attributes.contains flag.key).map Flag.className ∧
    ∃ declarations : List Declaration,
      (resolve attributes baseClass style).style = Declaration.printAll declarations ∧
      declarations =
        (Alias.table.filterMap fun entry ↦
          (attributes.display? entry.key).map fun value ↦ ⟨entry.property, value⟩) ++
        ((Modifier.merged attributes style).map fun (key, value) ↦ ⟨propertyOf key, value⟩) ∧
      ∀ modifier ∈ Modifier.table, ∀ value, modifier.Takes attributes value →
        ∀ side ∈ modifier.sides,
          declarations.filter (fun d ↦ d.property = side) = [⟨side, value⟩] := by
  refine ⟨h.resolve_eq baseClass style, Flags.has_ofAttributes attributes,
    congrArg (baseClass :: ·) (Flags.classes_ofAttributes attributes),
    declarationsOf attributes style, rfl, ?_, ?_⟩
  · rw [declarationsOf_eq, aliasDeclarations_eq]
  · intro modifier hmodifier value hvalue side hside
    exact filter_declarationsOf_side hmodifier hvalue hside style

/-- Two maps in different orders, with different other attributes, values of different kinds
that are displayed alike, and a flag that is false in one and empty in the other. -/
theorem resolve_congr_and_order_shuffled :
    let attributes : Attributes := .ofList
      [("paddingH", .text "2px"), ("title", .text "a"), ("flex", .flag false), ("grow", .number 1),
        ("paddingHor", .text "true")]
    let other : Attributes := .ofList
      [("paddingHor", .flag true), ("grow", .text "1"), ("paddingH", .text "2px"),
        ("flex", .text "")]
    let style : StyleMap := .ofList
      [("padding-right", "9px"), ("foreground", "gold"), ("padding", "3px")]
    attributes.SameBindings other ∧
      resolve attributes "base" style = resolve other "base" style ∧
      (resolve attributes "base" style).classes = ["base", "void-flex"] ∧
      (resolve attributes "base" style).style =
        "flex-grow:1;padding-right:true;color:gold;padding:3px;padding-left:true;" := by
  intro attributes other style
  have hsame : attributes.SameBindings other :=
    ⟨by decide +kernel, by decide +kernel, by decide +kernel⟩
  obtain ⟨hresolve, -, hclasses, _, hstyle, rfl, -⟩ := resolve_congr_and_order hsame "base" style
  exact ⟨hsame, hresolve, hclasses.trans (by decide +kernel), hstyle.trans (by decide +kernel)⟩

end LiveMarkup
