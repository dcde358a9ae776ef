import LiveMarkup.Proofs.Content.Attributes

/-!
Merging entries into an ordered map, and the modifiers that are present into the style of a
component. Entries with distinct keys overwrite what is there in place, and those that are new
follow in their own order (`OrderedMap.toList_insertAll`). What the modifiers insert are the
sides that they set (`Modifier.expandAll_eq`); no side is set twice, so that in the merged style
each one has the value of its modifier (`Modifier.get?_expandAll`).
-/

set_option autoImplicit false
set_option relaxedAutoImplicit false

namespace LiveMarkup

/-! ### Inserting many entries -/

namespace OrderedMap

variable {κ α : Type} [DecidableEq κ]

theorem contains_insert (m : OrderedMap κ α) (k k' : κ) (a : α) :
    (m.insert k a).contains k' = (decide (k = k') || m.contains k') := by
  rw [contains, get?_insert]
  by_cases hk : k = k' <;> simp [hk, contains]

theorem lookup?_eq_none_iff {k : κ} {l : List (κ × α)} :
    lookup? k l = none ↔ k ∉ l.map Prod.fst := by
  rw [← lookup?_isSome_iff, Option.not_isSome_iff_eq_none]

/-- A key that is present is overwritten where it stands. -/
theorem toList_insert_of_mem {m : OrderedMap κ α} {k : κ} {a : α} (h : m.contains k = true) :
    (m.insert k a).toList = m.toList.map fun e ↦ if e.1 = k then (k, a) else e := by
  have hput (l : List (κ × α)) (hl : (l.map Prod.fst).Nodup) (hk : k ∈ l.map Prod.fst) :
      put k a l = l.map fun e ↦ if e.1 = k then (k, a) else e := by
    induction l with
    | nil => cases hk
    | cons e rest ih =>
      obtain ⟨hfresh, hrest⟩ := List.nodup_cons.mp hl
      rw [put, List.map_cons]
      split
      · rename_i he
        -- the key occurs nowhere else, so that the rest is as it was
        have hsame : ∀ other ∈ rest, (if other.1 = k then (k, a) else other) = other := by
          intro other hother
          have hne : other.1 ≠ k := fun heq ↦
            hfresh (List.mem_map.mpr ⟨other, hother, heq.trans he.symm⟩)
          rw [if_neg hne]
        rw [List.map_congr_left hsame, List.map_id']
      · rename_i he
        have hk' : k ∈ rest.map Prod.fst :=
          (List.mem_cons.mp hk).resolve_left fun heq ↦ he heq.symm
        rw [ih hrest hk']
  exact hput m.entries m.distinct ((m.contains_iff k).mp h)

/-- Entries with distinct keys, merged into a map: those whose key is present take its place,
and the others follow in their order. -/
theorem toList_insertAll (m : OrderedMap κ α) {l : List (κ × α)} (hl : (l.map Prod.fst).Nodup) :
    (m.insertAll l).toList =
      m.toList.map (fun e ↦ (e.1, (lookup? e.1 l).getD e.2)) ++
        l.filter fun e ↦ !m.contains e.1 := by
  induction l generalizing m with
  | nil => simp [insertAll, lookup?]
  | cons e l ih =>
    obtain ⟨hfresh, hrest⟩ := List.nodup_cons.mp hl
    have hlookup : lookup? e.1 l = none := lookup?_eq_none_iff.mpr hfresh
    have hnew : l.filter (fun x ↦ !(m.insert e.1 e.2).contains x.1) =
        l.filter fun x ↦ !m.contains x.1 := by
      refine List.filter_congr fun x hx ↦ ?_
      have hne : e.1 ≠ x.1 := fun heq ↦ hfresh (List.mem_map.mpr ⟨x, hx, heq.symm⟩)
      rw [contains_insert, decide_eq_false hne, Bool.false_or]
    change ((m.insert e.1 e.2).insertAll l).toList = _
    rw [ih _ hrest, hnew]
    cases hcontains : m.contains e.1 with
    | true =>
      rw [toList_insert_of_mem hcontains, List.map_map,
        List.filter_cons_of_neg (by simp [hcontains])]
      congr 1
      refine List.map_congr_left fun x _ ↦ ?_
      by_cases hx : x.1 = e.1
      · simp [lookup?, hx, hlookup]
      · simp [lookup?, hx, Ne.symm hx]
    | false =>
      rw [toList_insert_of_contains hcontains, List.map_append,
        List.filter_cons_of_pos (by simp [hcontains]), List.append_assoc]
      congr 1
      · refine List.map_congr_left fun x hx ↦ ?_
        have hne : e.1 ≠ x.1 := by
          intro heq
          have hmem : x.1 ∈ m.keys := List.mem_map.mpr ⟨x, hx, rfl⟩
          rw [← heq, ← contains_iff, hcontains] at hmem
          cases hmem
        rw [lookup?, if_neg hne]
      · simp [hlookup]

/-- Of a key that is merged in, the value that is merged in counts. -/
theorem get?_insertAll (m : OrderedMap κ α) {l : List (κ × α)} (hl : (l.map Prod.fst).Nodup)
    (k : κ) : (m.insertAll l).get? k = (lookup? k l).or (m.get? k) := by
  induction l generalizing m with
  | nil => simp [insertAll, lookup?]
  | cons e l ih =>
    obtain ⟨hfresh, hrest⟩ := List.nodup_cons.mp hl
    change ((m.insert e.1 e.2).insertAll l).get? k = _
    rw [ih _ hrest, get?_insert, lookup?]
    by_cases hk : e.1 = k
    · subst hk
      simp [lookup?_eq_none_iff.mpr hfresh]
    · simp [hk]

/-- The entries with a key: the one that is looked up. -/
theorem filter_key {l : List (κ × α)} (hl : (l.map Prod.fst).Nodup) {k : κ} :
    l.filter (fun e ↦ e.1 = k) = (lookup? k l).toList.map fun a ↦ (k, a) := by
  induction l with
  | nil => simp [lookup?]
  | cons e rest ih =>
    obtain ⟨hfresh, hrest⟩ := List.nodup_cons.mp hl
    rw [lookup?]
    by_cases hk : e.1 = k
    · subst hk
      have hnone : lookup? e.1 rest = none := lookup?_eq_none_iff.mpr hfresh
      rw [List.filter_cons_of_pos (by simp), ih hrest, hnone, if_pos rfl]
      rfl
    · rw [List.filter_cons_of_neg (by simpa using hk), ih hrest, if_neg hk]

end OrderedMap

/-! ### Modifiers -/

namespace Modifier

/-- The properties that a modifier sets. -/
def sides (modifier : Modifier) : List String := [modifier.first, modifier.second]

/-- The displayed value of the first synonym that is present. -/
def Takes (attributes : Attributes) (modifier : Modifier) (value : String) : Prop :=
  ∃ before key after shown, modifier.synonyms = before ++ key :: after ∧
    (∀ earlier ∈ before, attributes.contains earlier = false) ∧
    attributes.get? key = some shown ∧ shown.display = value

/-- What a modifier inserts into a style: both sides with its value, if it is present. -/
def longhands (attributes : Attributes) (modifier : Modifier) : List (String × String) :=
  (modifier.value? attributes).elim [] fun value ↦ modifier.sides.map fun side ↦ (side, value)

/-- What all modifiers insert into a style, in the order of their table. -/
def allLonghands (attributes : Attributes) : List (String × String) :=
  table.flatMap (longhands attributes)

/-- The entries of a style with the modifiers merged: an entry that a modifier sets takes its
value in its place, and the sides that are not yet in the style follow. -/
def merged (attributes : Attributes) (style : StyleMap) : List (String × String) :=
  style.toList.map (fun (property, value) ↦
      (property, (OrderedMap.lookup? property (allLonghands attributes)).getD value)) ++
    (allLonghands attributes).filter fun (property, _) ↦ !style.contains property

theorem value?_eq_some_iff {attributes : Attributes} {modifier : Modifier} {value : String} :
    modifier.value? attributes = some value ↔ modifier.Takes attributes value := by
  rw [value?, List.findSome?_eq_some_iff]
  constructor
  · rintro ⟨before, key, after, hsynonyms, hshown, hbefore⟩
    obtain ⟨shown, hget, hdisplay⟩ := Option.map_eq_some_iff.mp hshown
    refine ⟨before, key, after, shown, hsynonyms, fun earlier hearlier ↦ ?_, hget, hdisplay⟩
    rw [OrderedMap.contains, Option.map_eq_none_iff.mp (hbefore earlier hearlier)]
    rfl
  · rintro ⟨before, key, after, shown, hsynonyms, hbefore, hget, hdisplay⟩
    refine ⟨before, key, after, hsynonyms, by rw [hget, ← hdisplay]; rfl, fun earlier hearlier ↦ ?_⟩
    rw [Option.map_eq_none_iff, ← Option.not_isSome_iff_eq_none]
    exact ne_true_of_eq_false (hbefore earlier hearlier)

theorem mem_allLonghands_iff {attributes : Attributes} {side value : String} :
    (side, value) ∈ allLonghands attributes ↔
      ∃ modifier ∈ table, modifier.value? attributes = some value ∧ side ∈ modifier.sides := by
  have hmem (modifier : Modifier) : (side, value) ∈ modifier.longhands attributes ↔
      modifier.value? attributes = some value ∧ side ∈ modifier.sides := by
    cases hvalue : modifier.value? attributes with
    | none => simp [longhands, hvalue]
    | some taken =>
      rw [longhands, hvalue, Option.elim_some, List.mem_map, Option.some_inj]
      constructor
      · rintro ⟨other, hother, heq⟩
        obtain ⟨rfl, rfl⟩ := Prod.mk.inj heq
        exact ⟨rfl, hother⟩
      · rintro ⟨rfl, hside⟩
        exact ⟨side, hside, rfl⟩
  simp only [allLonghands, List.mem_flatMap, hmem]

/-- No side is set by two modifiers. -/
theorem nodup_allLonghands (attributes : Attributes) :
    ((allLonghands attributes).map Prod.fst).Nodup := by
  have hsides : (table.flatMap sides).Nodup := by decide +kernel
  refine hsides.sublist ?_
  unfold allLonghands
  generalize table = modifiers
  induction modifiers with
  | nil => exact List.Sublist.slnil
  | cons modifier modifiers ih =>
    rw [List.flatMap_cons, List.flatMap_cons, List.map_append]
    refine List.Sublist.append ?_ ih
    cases hvalue : modifier.value? attributes <;> simp [longhands, hvalue, Function.comp_def]

theorem expand_eq (attributes : Attributes) (style : StyleMap) (modifier : Modifier) :
    expand attributes style modifier = style.insertAll (modifier.longhands attributes) := by
  unfold expand longhands
  cases modifier.value? attributes <;> rfl

/-- Merging the modifiers inserts the sides that they set. -/
theorem expandAll_eq (attributes : Attributes) (style : StyleMap) :
    expandAll attributes style = style.insertAll (allLonghands attributes) := by
  rw [expandAll, OrderedMap.insertAll, allLonghands, List.foldl_flatMap]
  congr 1
  funext style modifier
  exact expand_eq attributes style modifier

theorem toList_expandAll (attributes : Attributes) (style : StyleMap) :
    (expandAll attributes style).toList = merged attributes style := by
  rw [expandAll_eq, OrderedMap.toList_insertAll _ (nodup_allLonghands attributes)]
  rfl

theorem lookup?_allLonghands {attributes : Attributes} {modifier : Modifier}
    (hmodifier : modifier ∈ table) {value : String} (hvalue : modifier.Takes attributes value)
    {side : String} (hside : side ∈ modifier.sides) :
    OrderedMap.lookup? side (allLonghands attributes) = some value :=
  (OrderedMap.lookup?_eq_some_iff (nodup_allLonghands attributes)).mpr
    (mem_allLonghands_iff.mpr ⟨modifier, hmodifier, value?_eq_some_iff.mpr hvalue, hside⟩)

/-- In the merged style a side has the value of its modifier. -/
theorem get?_expandAll {attributes : Attributes} {modifier : Modifier}
    (hmodifier : modifier ∈ table) {value : String} (hvalue : modifier.Takes attributes value)
    {side : String} (hside : side ∈ modifier.sides) (style : StyleMap) :
    (expandAll attributes style).get? side = some value := by
  rw [expandAll_eq, OrderedMap.get?_insertAll _ (nodup_allLonghands attributes),
    lookup?_allLonghands hmodifier hvalue hside, Option.some_or]

end Modifier

/-! ### Aliases -/

/-- A property that only stands for itself in the table of aliases is what no other key is
resolved to. -/
theorem propertyOf_eq_iff {property : String}
    (h : ∀ entry ∈ Alias.table, entry.property = property ↔ entry.key = property) (key : String) :
    propertyOf key = property ↔ key = property := by
  rw [propertyOf]
  cases hfound : Alias.table.find? fun entry ↦ entry.key == key with
  | none => rfl
  | some entry =>
    have hkey : entry.key = key := by simpa using List.find?_some hfound
    rw [← hkey]
    exact h entry (List.mem_of_find?_eq_some hfound)

/-- No alias stands for a side, and no side is an alias. -/
theorem propertyOf_eq_side_iff {modifier : Modifier} (hmodifier : modifier ∈ Modifier.table)
    {side : String} (hside : side ∈ modifier.sides) (key : String) :
    propertyOf key = side ↔ key = side := by
  have htable : ∀ modifier ∈ Modifier.table, ∀ side ∈ modifier.sides, ∀ entry ∈ Alias.table,
      (entry.property = side ↔ entry.key = side) := by decide +kernel
  exact propertyOf_eq_iff (htable modifier hmodifier side hside) key

end LiveMarkup
