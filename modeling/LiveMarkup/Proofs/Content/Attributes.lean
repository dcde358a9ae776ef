import LiveMarkup.Proofs.Markup.Printing
import LiveMarkup.World.Rendering

/-!
What attributes print and what they are resolved to. A printed pair is a key with the display of
its value (`Attributes.mem_printed_iff`). Attributes without quotes are resolved to a style
without quotes (`resolve_style_noQuote`), so that containers print safe attributes
(`safeAttribute_layoutAttributes`).
-/

set_option autoImplicit false
set_option relaxedAutoImplicit false

namespace LiveMarkup

/-! ### Entries of ordered maps -/

namespace OrderedMap

variable {κ α : Type} [DecidableEq κ]

theorem lookup?_eq_some_iff {l : List (κ × α)} (h : (l.map Prod.fst).Nodup) {k : κ} {a : α} :
    lookup? k l = some a ↔ (k, a) ∈ l := by
  induction l with
  | nil => simp [lookup?]
  | cons e rest ih =>
    obtain ⟨hfresh, hrest⟩ := List.nodup_cons.mp h
    rw [lookup?]
    split
    · rename_i hk
      subst hk
      have hnone : (e.1, a) ∉ rest := fun hmem ↦ hfresh (List.mem_map.mpr ⟨_, hmem, rfl⟩)
      rw [List.mem_cons, or_iff_left hnone, Option.some_inj, Prod.ext_iff, eq_comm]
      exact (and_iff_right rfl).symm
    · rename_i hk
      rw [ih hrest, List.mem_cons, or_iff_right fun heq ↦ hk (congrArg Prod.fst heq).symm]

theorem mem_toList_iff (m : OrderedMap κ α) {k : κ} {a : α} :
    (k, a) ∈ m.toList ↔ m.get? k = some a :=
  (lookup?_eq_some_iff m.distinct).symm

/-- Giving a key the value that it has changes nothing. -/
theorem insert_eq_self {m : OrderedMap κ α} {k : κ} {a : α} (h : m.get? k = some a) :
    m.insert k a = m := by
  have hput (l : List (κ × α)) (h : lookup? k l = some a) : put k a l = l := by
    induction l with
    | nil => cases h
    | cons e rest ih =>
      rw [lookup?] at h
      rw [put]
      split
      · rename_i hk
        rw [if_pos hk] at h
        rw [← hk, ← Option.some.inj h]
      · rename_i hk
        rw [if_neg hk] at h
        rw [ih h]
  cases m
  simp only [insert, mk.injEq]
  exact hput _ h

/-- A new key comes last. -/
theorem toList_insert_of_contains {m : OrderedMap κ α} {k : κ} {a : α}
    (h : m.contains k = false) : (m.insert k a).toList = m.toList ++ [(k, a)] := by
  have hput (l : List (κ × α)) (hl : k ∉ l.map Prod.fst) : put k a l = l ++ [(k, a)] := by
    induction l with
    | nil => rfl
    | cons first rest ih =>
      rw [List.map_cons, List.mem_cons, not_or] at hl
      rw [put, if_neg (Ne.symm hl.1), ih hl.2, List.cons_append]
  refine hput m.toList fun hmem ↦ ?_
  rw [(m.contains_iff k).mpr hmem] at h
  cases h

end OrderedMap

/-! ### Printed attributes -/

namespace Attributes

theorem mem_printed_iff (attributes : Attributes) {key s : String} :
    (key, s) ∈ attributes.printed ↔
      ∃ value, attributes.get? key = some value ∧ value.isCallback = false ∧ value.display = s := by
  rw [printed, List.mem_filterMap]
  constructor
  · rintro ⟨⟨key', value⟩, hentry, hshown⟩
    cases hcallback : value.isCallback with
    | true => simp [hcallback] at hshown
    | false =>
      obtain ⟨rfl, rfl⟩ : key' = key ∧ value.display = s := by simpa [hcallback] using hshown
      exact ⟨value, (OrderedMap.mem_toList_iff _).mp hentry, hcallback, rfl⟩
  · rintro ⟨value, hvalue, hcallback, rfl⟩
    exact ⟨(key, value), (OrderedMap.mem_toList_iff _).mpr hvalue, by simp [hcallback]⟩

theorem id_eq_of_text {attributes : Attributes} {s : String}
    (h : attributes.get? "id" = some (.text s)) : attributes.id = s := by
  rw [id, h]
  rfl

/-- An id that is a text is the id that is printed. -/
theorem mem_printed_id_iff {attributes : Attributes} {s : String}
    (h : attributes.get? "id" = some (.text s)) {printed : String} :
    ("id", printed) ∈ attributes.printed ↔ printed = s := by
  rw [mem_printed_iff, h]
  constructor
  · rintro ⟨value, hvalue, -, rfl⟩
    rw [← Option.some.inj hvalue]
    rfl
  · rintro rfl
    exact ⟨_, rfl, rfl, rfl⟩

end Attributes

/-! ### Styles -/

/-- A text without double quotes. -/
def NoQuote (s : String) : Prop := ∀ c ∈ s.toList, c ≠ '"'

theorem noQuote_iff (s : String) : NoQuote s ↔ (s.toList.all fun c ↦ c != '"') = true := by
  simp [NoQuote]

instance (s : String) : Decidable (NoQuote s) := decidable_of_iff _ (noQuote_iff s).symm

theorem NoQuote.append {s t : String} (hs : NoQuote s) (ht : NoQuote t) : NoQuote (s ++ t) := by
  intro c hc
  rw [String.toList_append] at hc
  exact (List.mem_append.mp hc).elim (hs c) (ht c)

/-- The values of attributes, displayed, have no quotes. -/
def Attributes.NoQuotes (attributes : Attributes) : Prop :=
  ∀ key value, attributes.get? key = some value → NoQuote value.display

theorem Attributes.noQuotes_of_printed {attributes : Attributes}
    (h : ∀ pair ∈ attributes.printed, NoQuote pair.2) : attributes.NoQuotes := by
  intro key value hvalue
  cases hcallback : value.isCallback with
  | true =>
    cases value <;> simp_all [AttrValue.isCallback, AttrValue.callback?]
    exact (by decide +kernel : NoQuote "")
  | false => exact h _ (attributes.mem_printed_iff.mpr ⟨value, hvalue, hcallback, rfl⟩)

theorem Declaration.printAll_noQuote {declarations : List Declaration}
    (h : ∀ d ∈ declarations, NoQuote d.property ∧ NoQuote d.value) :
    NoQuote (printAll declarations) := by
  induction declarations with
  | nil => exact (by decide +kernel : NoQuote "")
  | cons d declarations ih =>
    obtain ⟨hproperty, hvalue⟩ := h d (by simp)
    have hcolon : NoQuote ":" := by decide +kernel
    have hsemicolon : NoQuote ";" := by decide +kernel
    exact (((hproperty.append hcolon).append hvalue).append hsemicolon).append
      (ih fun other hother ↦ h other (List.mem_cons_of_mem d hother))

/-- Entries without quotes, keys and values. -/
def StyleMap.NoQuotes (style : StyleMap) : Prop :=
  ∀ key value, style.get? key = some value → NoQuote key ∧ NoQuote value

theorem StyleMap.NoQuotes.insert {style : StyleMap} (h : style.NoQuotes) {key value : String}
    (hkey : NoQuote key) (hvalue : NoQuote value) :
    NoQuotes (OrderedMap.insert style key value) := by
  intro key' value' hget
  rw [OrderedMap.get?_insert] at hget
  split at hget
  · rename_i heq
    rw [← heq, ← Option.some.inj hget]
    exact ⟨hkey, hvalue⟩
  · exact h key' value' hget

theorem Modifier.expandAll_noQuotes {attributes : Attributes} (h : attributes.NoQuotes)
    {style : StyleMap} (hstyle : style.NoQuotes) : (expandAll attributes style).NoQuotes := by
  have hkeys : ∀ modifier ∈ table, NoQuote modifier.first ∧ NoQuote modifier.second := by
    decide +kernel
  unfold expandAll
  generalize table = modifiers at hkeys
  induction modifiers generalizing style with
  | nil => exact hstyle
  | cons modifier modifiers ih =>
    obtain ⟨hfirst, hsecond⟩ := hkeys modifier (by simp)
    rw [List.foldl_cons]
    refine ih ?_ fun other hother ↦ hkeys other (List.mem_cons_of_mem modifier hother)
    rw [expand]
    split
    · rename_i value hvalue
      obtain ⟨key, _, hfound⟩ := List.exists_of_findSome?_eq_some hvalue
      obtain ⟨shown, hshown, rfl⟩ := Option.map_eq_some_iff.mp hfound
      exact (hstyle.insert hfirst (h key shown hshown)).insert hsecond (h key shown hshown)
    · exact hstyle

theorem propertyOf_noQuote {key : String} (h : NoQuote key) : NoQuote (propertyOf key) := by
  have hproperties : ∀ entry ∈ Alias.table, NoQuote entry.property := by decide +kernel
  rw [propertyOf]
  cases hfound : Alias.table.find? fun entry ↦ entry.key == key with
  | none => exact h
  | some entry => exact hproperties entry (List.mem_of_find?_eq_some hfound)

/-- Attributes without quotes are resolved to a style without quotes. -/
theorem resolve_style_noQuote {attributes : Attributes} (h : attributes.NoQuotes)
    (baseClass : String) {style : StyleMap} (hstyle : style.NoQuotes) :
    NoQuote (resolve attributes baseClass style).style := by
  refine Declaration.printAll_noQuote fun declaration hmem ↦ ?_
  rcases List.mem_append.mp hmem with hmem | hmem
  · have hproperties : ∀ entry ∈ Alias.table, NoQuote entry.property := by decide +kernel
    obtain ⟨entry, hentry, hshown⟩ := List.mem_filterMap.mp hmem
    obtain ⟨value, hvalue, rfl⟩ := Option.map_eq_some_iff.mp hshown
    exact ⟨hproperties entry hentry, h entry.key value hvalue⟩
  · obtain ⟨⟨key, value⟩, hentry, rfl⟩ := List.mem_map.mp hmem
    obtain ⟨hkey, hvalue⟩ := Modifier.expandAll_noQuotes h hstyle key value
      ((OrderedMap.mem_toList_iff _).mp hentry)
    exact ⟨propertyOf_noQuote hkey, hvalue⟩

/-! ### The attributes of containers -/

theorem noQuote_intercalate {names : List String} (h : ∀ name ∈ names, NoQuote name) :
    NoQuote (" ".intercalate names) := by
  have hblank : NoQuote " " := by decide +kernel
  induction names with
  | nil => exact (by decide +kernel : NoQuote "")
  | cons name names ih =>
    have hrest := ih fun other hother ↦ h other (List.mem_cons_of_mem name hother)
    cases names with
    | nil =>
      rw [String.intercalate_singleton]
      exact h name (by simp)
    | cons next names =>
      rw [String.intercalate_cons_cons]
      exact ((h name (by simp)).append hblank).append hrest

/-- Attributes that print safely still do with an id that has no quote. -/
theorem safeAttribute_insert_id {attributes : Attributes}
    (h : ∀ pair ∈ attributes.printed, SafeAttribute pair) {id : String} (hid : NoQuote id) :
    ∀ pair ∈ Attributes.printed (OrderedMap.insert attributes "id" (.text id)),
      SafeAttribute pair := by
  have hkey : SafeAttribute ("id", "") := by decide +kernel
  rintro ⟨key, s⟩ hpair
  obtain ⟨value, hvalue, hcallback, rfl⟩ := (Attributes.mem_printed_iff _).mp hpair
  rw [OrderedMap.get?_insert] at hvalue
  split at hvalue
  · rename_i heq
    subst heq
    obtain rfl := Option.some.inj hvalue
    exact ⟨hkey.key, hid⟩
  · exact h _ ((Attributes.mem_printed_iff _).mpr ⟨value, hvalue, hcallback, rfl⟩)

/-- A container prints its classes and its style safely. -/
theorem safeAttribute_layoutAttributes {node : Node}
    (hclasses : ∀ name ∈ node.classes, NoQuote name)
    (hstyle : NoQuote node.style) :
    ∀ pair ∈ (World.layoutAttributes node).printed, SafeAttribute pair := by
  have hclassKey : SafeAttribute ("class", "") := by decide +kernel
  have hstyleKey : SafeAttribute ("style", "") := by decide +kernel
  have hclassed : ∀ pair ∈ [("class", " ".intercalate node.classes)], SafeAttribute pair := by
    intro pair hpair
    rw [List.mem_singleton.mp hpair]
    exact ⟨hclassKey.key, noQuote_intercalate hclasses⟩
  unfold World.layoutAttributes
  dsimp only
  split
  · exact hclassed
  · intro pair hpair
    have hpair : pair ∈ [("class", " ".intercalate node.classes)] ++ [("style", node.style)] :=
      hpair
    rcases List.mem_append.mp hpair with hpair | hpair
    · exact hclassed pair hpair
    · rw [List.mem_singleton.mp hpair]
      exact ⟨hstyleKey.key, hstyle⟩

end LiveMarkup
