import LiveMarkup.Proofs.Content.Safety
import LiveMarkup.Proofs.Style.Resolution

/-!
The style of a node. It is resolved from the attributes and the kind when the node is created
(`Node.IsResolved`), and resolution reads no id, so that a node that takes another id still has the
style that its attributes resolve to (`Node.IsResolved.takeId`). Only a badge shows its own id in
its style. The style of a container prints no quotes if its attributes do not
(`Node.IsStyled.noQuote_style`).
-/

set_option autoImplicit false
set_option relaxedAutoImplicit false

namespace LiveMarkup

theorem OrderedMap.size_insert_of_contains {κ α : Type} [DecidableEq κ] {m : OrderedMap κ α} {k : κ}
    (h : m.contains k = true) (a : α) : (m.insert k a).size = m.size := by
  have hkey : k ∈ m.keys := (lookup?_isSome_iff k m.entries).mp h
  rw [← length_keys, ← length_keys, keys_insert, if_pos hkey]

/-- Resolution reads no id. -/
theorem Attributes.sameBindings_insert_id (attributes : Attributes) (value : AttrValue) :
    SameBindings (OrderedMap.insert attributes "id" value) attributes := by
  have hget {key : String} (hkey : key ≠ "id") :
      (OrderedMap.insert attributes "id" value).get? key = attributes.get? key := by
    rw [OrderedMap.get?_insert, if_neg hkey.symm]
  have haliases : ∀ entry ∈ Alias.table, entry.key ≠ "id" := by decide +kernel
  have hsynonyms : ∀ modifier ∈ Modifier.table, ∀ key ∈ modifier.synonyms, key ≠ "id" := by
    decide +kernel
  have hflags : ∀ flag ∈ Flag.all, flag.key ≠ "id" := by decide +kernel
  refine ⟨fun entry hentry ↦ ?_, fun modifier hmodifier key hkey ↦ ?_, fun flag hflag ↦ ?_⟩
  · rw [display?, display?, hget (haliases entry hentry)]
  · rw [display?, display?, hget (hsynonyms modifier hmodifier key hkey)]
  · rw [OrderedMap.contains, OrderedMap.contains, hget (hflags flag hflag)]

namespace Node

/-- A node with an id, and with the style that its attributes and its kind resolve to. -/
structure IsResolved (node : Node) : Prop where
  hasId : node.attributes.contains "id" = true
  style : ∃ baseClass, node.style =
    (resolve node.attributes baseClass (node.kind.style node.attributes)).style

/-- Nodes that were resolved from the same to the same. -/
structure ResolvedAlike (node node' : Node) : Prop where
  kind : node'.kind = node.kind
  attributes : node'.attributes = node.attributes
  style : node'.style = node.style

theorem ResolvedAlike.addClass (node : Node) (name : String) :
    node.ResolvedAlike (node.addClass name) := by
  unfold Node.addClass
  split <;> exact ⟨rfl, rfl, rfl⟩

namespace IsResolved

variable {node node' : Node}

theorem congr (h : node.IsResolved) (halike : node.ResolvedAlike node') : node'.IsResolved := by
  refine ⟨?_, ?_⟩
  · rw [halike.attributes]
    exact h.hasId
  · rw [halike.attributes, halike.kind, halike.style]
    exact h.style

/-- A plain node may take any id. A node of another kind may be a badge, which shows its id in its
style, so that it keeps its own. -/
theorem takeId (h : node.IsResolved) {id : String} (hid : node.kind = .plain ∨ node.id = id) :
    (node.takeId id).IsResolved := by
  have hkind : node.kind.style (node.attributes.insert "id" (.text id)) =
      node.kind.style node.attributes := by
    rcases hid with hplain | rfl
    · rw [hplain]
      rfl
    · cases node.kind with
      | badge =>
        have hshown : Attributes.id (node.attributes.insert "id" (.text node.id)) = node.id := by
          rw [Attributes.id, OrderedMap.get?_insert, if_pos rfl]
          rfl
        rw [Kind.style, Kind.style, hshown, OrderedMap.size_insert_of_contains h.hasId]
        rfl
      | _ => rfl
  obtain ⟨baseClass, hstyle⟩ := h.style
  refine ⟨?_, baseClass, ?_⟩
  · show OrderedMap.contains (node.attributes.insert "id" (.text id)) "id" = true
    rw [OrderedMap.contains, OrderedMap.get?_insert, if_pos rfl]
    rfl
  · show node.style = (resolve (node.attributes.insert "id" (.text id)) baseClass
      (node.kind.style (node.attributes.insert "id" (.text id)))).style
    rw [hstyle, hkind, (Attributes.sameBindings_insert_id node.attributes (.text id)).resolve_eq]

end IsResolved

/-- A node without quotes in the names of its classes, and with the style that its attributes were
resolved to. -/
structure IsStyled (node : Node) : Prop where
  classes : ∀ name ∈ node.classes, NoQuote name
  style : ∃ baseClass, node.style =
    (resolve node.attributes baseClass (node.kind.style node.attributes)).style

theorem IsStyled.noQuote_style {node : Node} (h : node.IsStyled)
    (hsafe : node.Safe) (hkind : node.kind = .layout ∨ node.kind = .flexLayout) :
    NoQuote node.style := by
  obtain ⟨baseClass, hstyle⟩ := h.style
  have hkindStyle : node.kind.style node.attributes = ∅ := by
    rcases hkind with hkind | hkind <;> rw [hkind] <;> rfl
  rw [hstyle, hkindStyle]
  refine resolve_style_noQuote (Attributes.noQuotes_of_printed fun pair hpair ↦ ?_) baseClass ?_
  · exact (hsafe.attributes pair hpair).value
  · intro key value hget
    cases hget

end Node

end LiveMarkup
