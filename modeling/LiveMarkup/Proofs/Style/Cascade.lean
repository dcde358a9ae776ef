import LiveMarkup.Proofs.Style.Merging

/-!
Which declaration of a side takes effect. Of the declarations of a side and those of the
shorthand that sets it along with the other sides, the last one counts (`effectiveValue?`). A
modifier that is present wins on both of its sides, except on one that the style of the
component declares before the shorthand: the side keeps its place, and the shorthand after it
takes effect (`effectiveValue?_side`).
-/

set_option autoImplicit false
set_option relaxedAutoImplicit false

namespace LiveMarkup

/-- The property that sets a side along with the others; any other property is its own. -/
def shorthandOf : String → String
  | "padding-left" | "padding-right" | "padding-top" | "padding-bottom" => "padding"
  | "margin-left" | "margin-right" | "margin-top" | "margin-bottom" => "margin"
  | property => property

/-- The value of the last declaration that sets a property, itself or by its shorthand. -/
def effectiveValue? (declarations : List Declaration) (property : String) : Option String :=
  ((declarations.filter fun d ↦
    d.property = property ∨ d.property = shorthandOf property).getLast?).map Declaration.value

namespace OrderedMap

variable {κ α : Type} [DecidableEq κ]

/-- A key that does not occur is none to filter by. -/
theorem filter_keys_of_notMem {l : List (κ × α)} {k : κ} (hk : k ∉ l.map Prod.fst) (k' : κ) :
    l.filter (fun e ↦ e.1 = k ∨ e.1 = k') = l.filter fun e ↦ e.1 = k' := by
  refine List.filter_congr fun e he ↦ decide_eq_decide.mpr (or_iff_right ?_)
  exact fun heq ↦ hk (List.mem_map.mpr ⟨e, he, heq⟩)

/-- Of the entries of two keys, the last: the second one, if it stands after the first. -/
theorem getLast?_filter_keys {l : List (κ × α)} (hl : (l.map Prod.fst).Nodup) {k k' : κ}
    (hne : k ≠ k') {a : α} (ha : lookup? k l = some a) :
    ((l.filter fun e ↦ e.1 = k ∨ e.1 = k').getLast?).map Prod.snd =
      if [k, k'].Sublist (l.map Prod.fst) then lookup? k' l else some a := by
  induction l with
  | nil => cases ha
  | cons e rest ih =>
    obtain ⟨hfresh, hrest⟩ := List.nodup_cons.mp hl
    by_cases hk : e.1 = k
    · subst hk
      obtain rfl : e.2 = a := by simpa [lookup?] using ha
      -- only the other key is left to occur in the rest
      have hsublist : [e.1, k'].Sublist (e.1 :: rest.map Prod.fst) ↔ (lookup? k' rest).isSome := by
        rw [List.cons_sublist_cons, List.singleton_sublist, lookup?_isSome_iff]
      rw [List.filter_cons_of_pos (by simp), filter_keys_of_notMem hfresh, filter_key hrest,
        lookup?, if_neg hne]
      simp only [List.map_cons, hsublist]
      cases lookup? k' rest <;> simp
    · have hnext : lookup? k rest = some a := by rwa [lookup?, if_neg hk] at ha
      have hsublist : [k, k'].Sublist (e.1 :: rest.map Prod.fst) ↔
          [k, k'].Sublist (rest.map Prod.fst) := by
        rw [List.sublist_cons_iff, or_iff_left]
        rintro ⟨r, heq, -⟩
        exact hk (List.cons.inj heq).1.symm
      simp only [List.map_cons, hsublist]
      by_cases hk' : e.1 = k'
      · subst hk'
        have hnot : ¬ [k, e.1].Sublist (rest.map Prod.fst) := fun hsub ↦
          hfresh (hsub.subset (by simp))
        simp only [or_comm (a := _ = k)]
        rw [List.filter_cons_of_pos (by simp), filter_keys_of_notMem hfresh, filter_key hrest,
          hnext, if_neg hnot]
        simp
      · rw [List.filter_cons_of_neg (by simp [hk, hk']), ih hrest hnext, lookup?, if_neg hk']

end OrderedMap

/-- A shorthand is none of the sides that modifiers set. -/
theorem shorthandOf_notMem_sides {modifier : Modifier} (hmodifier : modifier ∈ Modifier.table)
    {side : String} (hside : side ∈ modifier.sides) :
    ∀ other ∈ Modifier.table, shorthandOf side ∉ other.sides := by
  have htable : ∀ modifier ∈ Modifier.table, ∀ side ∈ modifier.sides,
      ∀ other ∈ Modifier.table, shorthandOf side ∉ other.sides := by decide +kernel
  exact htable modifier hmodifier side hside

/-- No other key is resolved to a shorthand. -/
theorem propertyOf_eq_shorthandOf_iff {modifier : Modifier} (hmodifier : modifier ∈ Modifier.table)
    {side : String} (hside : side ∈ modifier.sides) (key : String) :
    propertyOf key = shorthandOf side ↔ key = shorthandOf side := by
  have htable : ∀ modifier ∈ Modifier.table, ∀ side ∈ modifier.sides, ∀ entry ∈ Alias.table,
      (entry.property = shorthandOf side ↔ entry.key = shorthandOf side) := by decide +kernel
  exact propertyOf_eq_iff (htable modifier hmodifier side hside) key

namespace Modifier

theorem lookup?_allLonghands_eq_none {property : String}
    (h : ∀ modifier ∈ table, property ∉ modifier.sides) (attributes : Attributes) :
    OrderedMap.lookup? property (allLonghands attributes) = none := by
  rw [OrderedMap.lookup?_eq_none_iff, List.mem_map]
  rintro ⟨⟨side, value⟩, hmem, rfl⟩
  obtain ⟨modifier, hmodifier, -, hside⟩ := mem_allLonghands_iff.mp hmem
  exact h modifier hmodifier hside

/-- Merging modifiers puts no side in front of a property that is not one. -/
theorem sublist_keys_expandAll_iff {property : String}
    (h : ∀ modifier ∈ table, property ∉ modifier.sides) (attributes : Attributes)
    (style : StyleMap) (side : String) :
    [side, property].Sublist (expandAll attributes style).keys ↔
      [side, property].Sublist style.keys := by
  have hkeys : (expandAll attributes style).keys = style.keys ++
      ((allLonghands attributes).filter fun e ↦ !style.contains e.1).map Prod.fst := by
    change (expandAll attributes style).toList.map Prod.fst = _
    rw [toList_expandAll, merged, List.map_append, List.map_map]
    rfl
  have hnew : property ∉
      ((allLonghands attributes).filter fun e ↦ !style.contains e.1).map Prod.fst := by
    intro hmem
    exact OrderedMap.lookup?_eq_none_iff.mp (lookup?_allLonghands_eq_none h attributes)
      ((List.filter_sublist.map _).subset hmem)
  rw [hkeys]
  refine ⟨fun hsub ↦ ?_, fun hsub ↦ hsub.trans (List.sublist_append_left _ _)⟩
  obtain ⟨old, new, hsplit, hold, hadded⟩ := List.sublist_append_iff.mp hsub
  -- the property is the last of the two, so that nothing of them is new
  rcases List.eq_nil_or_concat new with rfl | ⟨init, last, rfl⟩
  · rwa [hsplit, List.append_nil]
  · have hlast : property = last := by simpa using congrArg List.getLast? hsplit
    exact absurd (hadded.subset (by simp [hlast])) hnew

end Modifier

/-- The declarations of the aliases do not count for a side that the style declares. -/
theorem effectiveValue?_declarationsOf {attributes : Attributes} {style : StyleMap}
    {modifier : Modifier} (hmodifier : modifier ∈ Modifier.table) {side : String}
    (hside : side ∈ modifier.sides)
    (hdeclared : (Modifier.expandAll attributes style).contains side = true) :
    effectiveValue? (declarationsOf attributes style) side =
      (((Modifier.expandAll attributes style).toList.filter fun e ↦
        e.1 = side ∨ e.1 = shorthandOf side).getLast?).map Prod.snd := by
  have hkey : ∀ e ∈ (Modifier.expandAll attributes style).toList,
      ((fun d : Declaration ↦ decide (d.property = side ∨ d.property = shorthandOf side)) ∘
        fun e : String × String ↦ ⟨propertyOf e.1, e.2⟩) e =
      decide (e.1 = side ∨ e.1 = shorthandOf side) := by
    intro e _
    exact decide_eq_decide.mpr (or_congr (propertyOf_eq_side_iff hmodifier hside e.1)
      (propertyOf_eq_shorthandOf_iff hmodifier hside e.1))
  obtain ⟨e, he, hname⟩ := List.mem_map.mp ((OrderedMap.contains_iff _ _).mp hdeclared)
  have hkept : e ∈ (Modifier.expandAll attributes style).toList.filter fun e ↦
      e.1 = side ∨ e.1 = shorthandOf side := List.mem_filter.mpr ⟨he, by simp [hname]⟩
  rw [effectiveValue?, declarationsOf, List.filter_append, List.filter_map, List.filter_congr hkey,
    List.getLast?_append, List.getLast?_map]
  rw [List.getLast?_eq_some_getLast (List.ne_nil_of_mem hkept)]
  rfl

/-- A modifier that is present decides the value of both of its sides, unless the style of the
component declares the shorthand after the side; then the shorthand decides. -/
theorem effectiveValue?_side (attributes : Attributes) (baseClass : String) (style : StyleMap)
    {modifier : Modifier} (hmodifier : modifier ∈ Modifier.table) {value : String}
    (hvalue : modifier.Takes attributes value) :
    (resolve attributes baseClass style).style =
        Declaration.printAll (declarationsOf attributes style) ∧
      ∀ side ∈ modifier.sides, effectiveValue? (declarationsOf attributes style) side =
        if [side, shorthandOf side].Sublist style.keys then style.get? (shorthandOf side)
        else some value := by
  refine ⟨rfl, fun side hside ↦ ?_⟩
  have hother := shorthandOf_notMem_sides hmodifier hside
  have hne : side ≠ shorthandOf side := fun heq ↦ hother modifier hmodifier (heq ▸ hside)
  have hlookup := Modifier.get?_expandAll hmodifier hvalue hside style
  have hshorthand : (Modifier.expandAll attributes style).get? (shorthandOf side) =
      style.get? (shorthandOf side) := by
    rw [Modifier.expandAll_eq,
      OrderedMap.get?_insertAll _ (Modifier.nodup_allLonghands attributes),
      Modifier.lookup?_allLonghands_eq_none hother, Option.none_or]
  have hlast := OrderedMap.getLast?_filter_keys
    (Modifier.expandAll attributes style).distinct hne hlookup
  rw [effectiveValue?_declarationsOf hmodifier hside (by rw [OrderedMap.contains, hlookup]; rfl),
    OrderedMap.toList, hlast]
  simp only [← hshorthand, ← Modifier.sublist_keys_expandAll_iff hother attributes style]
  rfl

/-- The second synonym of a modifier is present and the first is not; the style of the component
declares one of the two sides, and the shorthand after it. The shorthand takes effect on that
side, and the modifier on the other. -/
theorem effectiveValue?_side_uneven :
    let attributes : Attributes := .ofList [("paddingH", .text "2px"), ("paddingHor", .text "1px")]
    let style : StyleMap := .ofList [("padding-left", "9px"), ("padding", "3px")]
    let modifier : Modifier :=
      ⟨["paddingHorizontal", "paddingHor", "paddingH"], "padding-left", "padding-right"⟩
    modifier ∈ Modifier.table ∧ modifier.Takes attributes "1px" ∧
      (resolve attributes "base" style).style =
        "padding-left:1px;padding:3px;padding-right:1px;" ∧
      effectiveValue? (declarationsOf attributes style) "padding-left" = some "3px" ∧
      effectiveValue? (declarationsOf attributes style) "padding-right" = some "1px" := by
  intro attributes style modifier
  have hmodifier : modifier ∈ Modifier.table := List.mem_cons_self
  have hvalue : modifier.Takes attributes "1px" :=
    ⟨["paddingHorizontal"], "paddingHor", ["paddingH"], .text "1px", rfl, by decide +kernel,
      by decide +kernel, rfl⟩
  obtain ⟨hstyle, heffective⟩ := effectiveValue?_side attributes "base" style hmodifier hvalue
  have hleft := heffective "padding-left" (by decide +kernel)
  have hright := heffective "padding-right" (by decide +kernel)
  exact ⟨hmodifier, hvalue, hstyle.trans (by decide +kernel), hleft.trans (by decide +kernel),
    hright.trans (by decide +kernel)⟩

/-- A modifier that is present does not win on both of its sides over every style. -/
theorem not_forall_effectiveValue?_eq :
    ¬ ∀ (attributes : Attributes) (style : StyleMap), ∀ modifier ∈ Modifier.table,
      ∀ value, modifier.Takes attributes value → ∀ side ∈ modifier.sides,
        effectiveValue? (declarationsOf attributes style) side = some value := by
  intro h
  have hleft := h (.ofList [("paddingHorizontal", .text "1px")])
    (.ofList [("padding-left", "9px"), ("padding", "3px")])
    ⟨["paddingHorizontal", "paddingHor", "paddingH"], "padding-left", "padding-right"⟩
    List.mem_cons_self "1px"
    ⟨[], "paddingHorizontal", ["paddingHor", "paddingH"], .text "1px", rfl, by decide,
      by decide +kernel, rfl⟩
    "padding-left" List.mem_cons_self
  exact absurd hleft (by decide +kernel)

end LiveMarkup
