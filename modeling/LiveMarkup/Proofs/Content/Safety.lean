import LiveMarkup.Proofs.Content.Unfolding
import LiveMarkup.Proofs.Number.Text

/-!
Markup-safe nodes. A node is markup-safe if no node holds itself from it down, and all nodes
there show tags, attributes, texts and values that cannot be misread (`World.MarkupSafe`). Such
a node unfolds, and its tree is safe (`World.MarkupSafe.exists_unfolds`); it stays safe whatever
safe values the observables take (`World.Unfolds.safe_tree`).
-/

set_option autoImplicit false
set_option relaxedAutoImplicit false

namespace LiveMarkup

/-- A node whose tag, attributes and texts cannot be misread. -/
structure Node.Safe (node : Node) : Prop where
  tag : SafeTag node.tag.toList
  attributes : ∀ pair ∈ node.attributes.printed, SafeAttribute pair
  texts : ∀ s, .text s ∈ node.content → SafeText s.toList

theorem Node.safe_bare_iff {node : Node} : node.bare.Safe ↔ node.Safe :=
  ⟨fun h ↦ ⟨h.tag, h.attributes, h.texts⟩, fun h ↦ ⟨h.tag, h.attributes, h.texts⟩⟩

/-- A node prints no id with a blank in it. -/
def Node.SafeIds (node : Node) : Prop :=
  ∀ pair ∈ node.attributes.printed, pair.1 = "id" → ∀ c ∈ pair.2.toList, isBlank c = false

theorem Node.safeIds_iff (node : Node) :
    node.SafeIds ↔ (node.attributes.printed.all fun pair ↦
      pair.1 != "id" || pair.2.toList.all fun c ↦ !isBlank c) = true := by
  rw [SafeIds, List.all_eq_true]
  refine forall₂_congr fun pair _ ↦ ?_
  by_cases hid : pair.1 = "id" <;> simp [hid]

instance (node : Node) : Decidable node.SafeIds := decidable_of_iff _ node.safeIds_iff.symm

/-- An id that a safe node prints can be searched for. -/
theorem Node.Safe.safeId {node : Node} (h : node.Safe) (hids : node.SafeIds) {id : String}
    (hid : ("id", id) ∈ node.attributes.printed) : SafeId id.toList :=
  fun c hc ↦ ⟨hids _ hid rfl c hc, (h.attributes _ hid).value c hc⟩

/-- All nodes of an outline are safe. -/
def Outline.Safe (outline : Outline) : Prop :=
  ∀ id self content, .node id self content ∈ outline.parts → self.Safe

theorem Outline.Safe.of_mem_content {id : NodeId} {self : Node} {content : List Outline}
    (h : (Outline.node id self content).Safe) {part : Outline} (hpart : part ∈ content) :
    part.Safe :=
  fun id' self' content' hin ↦
    h id' self' content' (mem_parts_iff.mpr (.inr (mem_inside_iff.mpr ⟨part, hpart, hin⟩)))

theorem Outline.Holds.of_mem_content {id : NodeId} {self : Node} {content : List Outline}
    {part : Outline} (hpart : part ∈ content) {observable : ObservableId}
    (h : part.Holds observable) : (Outline.node id self content).Holds observable := by
  obtain ⟨id', self', content', hin, hstate⟩ := h
  exact ⟨id', self', content',
    mem_parts_iff.mpr (.inr (mem_inside_iff.mpr ⟨part, hpart, hin⟩)), hstate⟩

namespace World

variable {σ : Type} {w w' : World σ}

/-- Safe nodes with safe values make a safe tree. -/
theorem Unfolds.safe_tree {root : NodeId} {outline : Outline} (h : w.Unfolds root outline)
    (hsafe : outline.Safe) {display : ObservableId → String}
    (hdisplay : ∀ observable, outline.Holds observable → SafeText (display observable).toList) :
    (outline.tree display).Safe := by
  obtain ⟨depth, hdepth⟩ := h
  induction depth generalizing root outline with
  | zero => cases hdepth
  | succ depth ih =>
    obtain ⟨node, content, hnode, hcontent, rfl⟩ := outlineWithin?_succ_iff.mp hdepth
    have hself : node.Safe :=
      Node.safe_bare_iff.mp (hsafe root node.bare content List.mem_cons_self)
    refine .element hself.tag hself.attributes fun tree htree ↦ ?_
    rw [Outline.trees_eq_map] at htree
    obtain ⟨part, hpart, rfl⟩ := List.mem_map.mp htree
    obtain ⟨child, hchild, houtline⟩ := exists_mem_of_forall₂ hcontent.flip hpart
    cases child with
    | node id =>
      exact ih (hsafe.of_mem_content hpart) (fun observable hholds ↦
        hdisplay observable (hholds.of_mem_content hpart)) houtline
    | state observable =>
      obtain rfl := Option.some.inj houtline
      exact .text (hdisplay observable ⟨root, node.bare, content, List.mem_cons_self, hchild⟩)
    | text s =>
      obtain rfl := Option.some.inj houtline
      exact .text (hself.texts s hchild)
    | number n =>
      obtain rfl := Option.some.inj houtline
      exact .text n.safeText_text

/-- The tree of what a node unfolds to depends on the observables that it holds only. -/
theorem Unfolds.tree_congr {root : NodeId} {outline : Outline} (h : w.Unfolds root outline)
    {display display' : ObservableId → String}
    (hsame : ∀ observable, outline.Holds observable → display' observable = display observable) :
    outline.tree display' = outline.tree display := by
  obtain ⟨depth, hdepth⟩ := h
  induction depth generalizing root outline with
  | zero => cases hdepth
  | succ depth ih =>
    obtain ⟨node, content, hnode, hcontent, rfl⟩ := outlineWithin?_succ_iff.mp hdepth
    rw [Outline.tree, Outline.tree, Outline.trees_eq_map, Outline.trees_eq_map]
    refine congrArg _ (List.map_congr_left fun part hpart ↦ ?_)
    obtain ⟨child, hchild, houtline⟩ := exists_mem_of_forall₂ hcontent.flip hpart
    cases child with
    | node id =>
      exact ih (fun observable hholds ↦ hsame observable (hholds.of_mem_content hpart)) houtline
    | state observable =>
      obtain rfl := Option.some.inj houtline
      have hshown := hsame observable ⟨root, node.bare, content, List.mem_cons_self, hchild⟩
      exact congrArg Tree.text hshown
    | text s =>
      obtain rfl := Option.some.inj houtline
      rfl
    | number n =>
      obtain rfl := Option.some.inj houtline
      rfl

/-- A live node that is safe and displays safe values. -/
def SafeAt (w : World σ) (id : NodeId) : Prop :=
  ∃ node, w.node? id = some node ∧ node.Safe ∧ node.SafeIds ∧
    ∀ observable, .state observable ∈ node.content → SafeText (w.displayOf observable).toList

/-- From a node down, no node holds itself, and all are safe. -/
structure MarkupSafe (w : World σ) (root : NodeId) : Prop where
  acyclic : w.Acyclic root
  safe : ∀ id, w.Reaches root id → w.SafeAt id

namespace MarkupSafe

variable {root : NodeId}

theorem live (h : w.MarkupSafe root) : w.Live root := by
  intro id hid
  obtain ⟨node, hnode, _⟩ := h.safe id hid
  exact ⟨node, hnode⟩

theorem safeAt_of_mem {outline : Outline} (h : w.MarkupSafe root)
    (houtline : w.Unfolds root outline) {id : NodeId} {self : Node} {content : List Outline}
    (hpart : .node id self content ∈ outline.parts) :
    self.Safe ∧ ∀ observable, .state observable ∈ self.content →
      SafeText (w.displayOf observable).toList := by
  obtain ⟨below, hbelow, hunfolds⟩ := houtline.exists_reaches _ hpart
  obtain ⟨node, content', hnode, _, heq⟩ := unfolds_iff.mp hunfolds
  obtain ⟨same, hsame, hsafe, _, hstates⟩ := h.safe below hbelow
  obtain rfl : same = node := Option.some.inj (hsame.symm.trans hnode)
  obtain ⟨-, rfl, -⟩ := Outline.node.inj heq
  exact ⟨Node.safe_bare_iff.mpr hsafe, hstates⟩

/-- A safe node unfolds to safe nodes with safe values. -/
theorem exists_unfolds (h : w.MarkupSafe root) :
    ∃ outline, w.Unfolds root outline ∧ outline.Safe ∧
      ∀ observable, outline.Holds observable → SafeText (w.displayOf observable).toList := by
  obtain ⟨outline, hdepth⟩ := World.exists_unfolds h.acyclic h.live
  have houtline : w.Unfolds root outline := ⟨_, hdepth⟩
  refine ⟨outline, houtline, fun id self content hpart ↦ (h.safeAt_of_mem houtline hpart).1, ?_⟩
  rintro observable ⟨id, self, content, hpart, hstate⟩
  exact (h.safeAt_of_mem houtline hpart).2 observable hstate

end MarkupSafe

end World

end LiveMarkup
