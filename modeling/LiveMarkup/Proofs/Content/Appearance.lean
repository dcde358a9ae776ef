import LiveMarkup.Proofs.Content.Attributes
import LiveMarkup.Proofs.Content.Outline
import Mathlib.Data.List.Forall2

/-!
How nodes look. A paragraph looks like a `p` around its content, and a container like a `div` in
which every entry looks as it does by itself; all other nodes look as they are (`Looks`). The
elements around them may have any id, and another id changes nothing (`Looks.rename`).
-/

set_option autoImplicit false
set_option relaxedAutoImplicit false

namespace LiveMarkup

/-! ### Attributes besides the id -/

theorem OrderedMap.filter_put {κ α : Type} [DecidableEq κ] (k : κ) (a : α) (l : List (κ × α)) :
    (put k a l).filter (fun entry ↦ entry.1 ≠ k) = l.filter fun entry ↦ entry.1 ≠ k := by
  induction l with
  | nil => simp [put]
  | cons entry rest ih =>
    by_cases hkey : entry.1 = k
    · simp [put, hkey]
    · simp only [put, hkey, if_false, List.filter_cons, ih]

namespace Attributes

/-- The printed attributes besides the id. -/
def besidesId (printed : List (String × String)) : List (String × String) :=
  printed.filter fun pair ↦ pair.1 ≠ "id"

/-- The other attributes are printed whether or not the id is. -/
theorem besidesId_printed (attributes : Attributes) :
    besidesId attributes.printed =
      (attributes.toList.filter fun entry ↦ entry.1 ≠ "id").filterMap fun entry ↦
        if entry.2.isCallback then none else some (entry.1, entry.2.display) := by
  rw [besidesId, printed, List.filter_filterMap, List.filterMap_filter]
  refine List.filterMap_congr fun entry _ ↦ ?_
  obtain ⟨key, value⟩ := entry
  by_cases hkey : key = "id"
  · cases value.isCallback <;> simp [hkey]
  · cases hcallback : value.isCallback <;> simp [hkey, hcallback]

theorem besidesId_printed_insert_id (attributes : Attributes) (value : AttrValue) :
    besidesId (printed (OrderedMap.insert attributes "id" value)) =
      besidesId attributes.printed := by
  rw [besidesId_printed, besidesId_printed]
  exact congrArg _ (OrderedMap.filter_put "id" value attributes.toList)

theorem besidesId_printed_of_contains {attributes : Attributes}
    (h : attributes.contains "id" = false) : besidesId attributes.printed = attributes.printed := by
  refine List.filter_eq_self.mpr fun pair hpair ↦ decide_eq_true fun hkey ↦ ?_
  obtain ⟨value, hvalue, _⟩ := (mem_printed_iff attributes).mp (hkey ▸ hpair : ("id", pair.2) ∈ _)
  rw [OrderedMap.contains, hvalue] at h
  cases h

end Attributes

/-! ### Looks -/

/-- A node that is displayed as a new element around its content. -/
def Outline.IsWrapped : Outline → Prop
  | .node _ self _ => self.kind = .layout ∨ self.kind = .flexLayout ∨ self.kind = .text
  | .leaf _ => False

/-- How a node looks, given what observables display. -/
inductive Looks (display : ObservableId → String) : Outline → Tree → Prop where
  /-- Most nodes, and all texts, look as they are. -/
  | same {outline : Outline} (h : ¬outline.IsWrapped) : Looks display outline (outline.tree display)
  /-- A paragraph stands around the content as it is. -/
  | paragraph {id form : NodeId} {self : Node} {content : List Outline}
      {attributes : List (String × String)} (hkind : self.kind = .text)
      (hattributes : Attributes.besidesId attributes = []) :
      Looks display (.node id self content)
        (.element form "p" attributes (Outline.trees display content))
  /-- A container shows its classes and its style, and stands around what its content looks like. -/
  | container {id form : NodeId} {self : Node} {content : List Outline}
      {attributes : List (String × String)} {trees : List Tree}
      (hkind : self.kind = .layout ∨ self.kind = .flexLayout)
      (hattributes : Attributes.besidesId attributes = (World.layoutAttributes self).printed)
      (hcontent : List.Forall₂ (Looks display) content trees) :
      Looks display (.node id self content) (.element form "div" attributes trees)

/-- A new element may have any id. -/
theorem Looks.rename {display : ObservableId → String} {outline : Outline} {form : NodeId}
    {tag : String} {attributes attributes' : List (String × String)} {content : List Tree}
    (h : Looks display outline (.element form tag attributes content))
    (hwrapped : outline.IsWrapped)
    (hattributes : Attributes.besidesId attributes' = Attributes.besidesId attributes) :
    Looks display outline (.element form tag attributes' content) := by
  generalize htree : Tree.element form tag attributes content = tree at h
  cases h with
  | same hnot => exact absurd hwrapped hnot
  | paragraph hkind hnone =>
    obtain ⟨rfl, rfl, rfl, rfl⟩ := Tree.element.inj htree
    exact .paragraph hkind (hattributes.trans hnone)
  | container hkind hprinted hcontent =>
    obtain ⟨rfl, rfl, rfl, rfl⟩ := Tree.element.inj htree
    exact .container hkind (hattributes.trans hprinted) hcontent

end LiveMarkup
