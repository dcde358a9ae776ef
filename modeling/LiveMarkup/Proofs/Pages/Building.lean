import LiveMarkup.Proofs.World.Settling

/-!
Pages that are built alike. The shape of an outline says which kinds of nodes stand where in it
(`Outline.shape`): it determines how many nodes there are and how many are created when they are
rendered, and it stays the same when the nodes are touched up
(`World.Unfolds.exists_of_content`). A renderer builds a fresh tree if what is new is the tree, and
what there was is as before (`World.Builds`).
-/

set_option autoImplicit false
set_option relaxedAutoImplicit false

namespace LiveMarkup

/-- A node of which nothing but the kind is known. -/
def Kind.blank (kind : Kind) : Node :=
  { tag := "", kind, registry := 0, attributes := ∅, content := [], classes := [], style := ""
    flags := .ofNat 0 }

namespace Outline

mutual

/-- Which kinds of nodes stand where; of other entries, only where they stand. -/
def shape : Outline → Outline
  | .node _ self content => .node 0 self.kind.blank (shapes content)
  | .leaf _ => .leaf (.text "")

/-- The shapes of several outlines. -/
def shapes : List Outline → List Outline
  | [] => []
  | outline :: rest => outline.shape :: shapes rest

end

theorem inner_node (id : NodeId) (self : Node) (content : List Outline) :
    (node id self content).inner = content.flatMap ids := by
  show (partsAll content).filterMap root? = _
  induction content with
  | nil => rfl
  | cons outline content ih =>
    rw [partsAll, List.filterMap_append, ih, List.flatMap_cons]
    rfl

mutual

theorem length_ids_shape : (outline : Outline) → outline.shape.ids.length = outline.ids.length
  | .node id self content => by
    rw [shape, ids_node, ids_node, inner_node, inner_node, List.length_cons, List.length_cons,
      length_ids_shapes content]
  | .leaf _ => rfl

theorem length_ids_shapes : (outlines : List Outline) →
    ((shapes outlines).flatMap ids).length = (outlines.flatMap ids).length
  | [] => rfl
  | outline :: rest => by
    rw [shapes, List.flatMap_cons, List.flatMap_cons, List.length_append, List.length_append,
      length_ids_shape outline, length_ids_shapes rest]

end

theorem isLayout_shape (outline : Outline) : outline.shape.isLayout = outline.isLayout := by
  cases outline <;> rfl

mutual

theorem forms_shape : (outline : Outline) → outline.shape.forms = outline.forms
  | .node _ self content => by
    rw [shape, forms, forms, formsAll_shapes content]
    rfl
  | .leaf _ => rfl

theorem formsAll_shapes : (outlines : List Outline) → formsAll (shapes outlines) = formsAll outlines
  | [] => rfl
  | outline :: rest => by
    rw [shapes, formsAll, formsAll, forms_shape outline, formsAll_shapes rest, isLayout_shape]

end

end Outline

namespace World

variable {σ : Type} {w w' : World σ}

theorem exists_childUnfolds {depth : Nat} {content : List Child} {parts : List Outline}
    (h : List.Forall₂
      (fun child part ↦ childOutline? (w.outlineWithin? depth) child = some part) content parts)
    (hnodes : ∀ id, ∀ part ∈ parts, w.outlineWithin? depth id = some part →
      ∃ part', w'.Unfolds id part' ∧ part'.ids = part.ids ∧ part'.shape = part.shape) :
    ∃ parts', List.Forall₂ w'.ChildUnfolds content parts' ∧
      parts'.flatMap Outline.ids = parts.flatMap Outline.ids ∧
      Outline.shapes parts' = Outline.shapes parts := by
  induction h with
  | nil => exact ⟨[], .nil, rfl, rfl⟩
  | @cons child part content parts hchild _ ih =>
    obtain ⟨part', hpart', hids, hshape⟩ : ∃ part', w'.ChildUnfolds child part' ∧
        part'.ids = part.ids ∧ part'.shape = part.shape := by
      cases child with
      | node id => exact hnodes id part List.mem_cons_self hchild
      | state | text | number => exact ⟨part, (Option.some.inj hchild).symm, rfl, rfl⟩
    obtain ⟨parts', hparts', hidsAll, hshapes⟩ :=
      ih fun id part hpart ↦ hnodes id part (List.mem_cons_of_mem _ hpart)
    refine ⟨part' :: parts', .cons hpart' hparts', ?_, ?_⟩
    · rw [List.flatMap_cons, List.flatMap_cons, hids, hidsAll]
    · rw [Outline.shapes, Outline.shapes, hshape, hshapes]

theorem Unfolds.ids_eq {root : NodeId} {outline : Outline} (h : w.Unfolds root outline) :
    outline.ids = root :: outline.inner := by
  obtain ⟨node, content, _, _, rfl⟩ := unfolds_iff.mp h
  exact Outline.ids_node root node.bare content

/-- A node unfolds to an outline of the same nodes and the same shape where all of them have the
same kind and content. -/
theorem Unfolds.exists_of_content {root : NodeId} {outline : Outline} (h : w.Unfolds root outline)
    (w' : World σ) (hsame : ∀ n ∈ outline.ids, ∀ node, w.node? n = some node →
      ∃ node', w'.node? n = some node' ∧ node'.kind = node.kind ∧ node'.content = node.content) :
    ∃ outline', w'.Unfolds root outline' ∧ outline'.ids = outline.ids ∧
      outline'.shape = outline.shape := by
  obtain ⟨depth, hdepth⟩ := h
  induction depth generalizing root outline with
  | zero => cases hdepth
  | succ depth ih =>
    obtain ⟨node, content, hnode, hcontent, rfl⟩ := outlineWithin?_succ_iff.mp hdepth
    obtain ⟨node', hnode', hkind, hentries⟩ :=
      hsame root (by rw [Outline.ids_node]; exact List.mem_cons_self) node hnode
    have hinner (part : Outline) (hpart : part ∈ content) (n : NodeId) (hn : n ∈ part.ids) :
        n ∈ (Outline.node root node.bare content).ids :=
      Outline.inner_subset_ids (Outline.mem_inner_iff.mpr ⟨part, hpart, hn⟩)
    obtain ⟨parts, hunfolds, hids, hshapes⟩ := exists_childUnfolds hcontent
      fun id part hpart hid ↦ ih (fun n hn ↦ hsame n (hinner part hpart n hn)) hid
    refine ⟨.node root node'.bare parts,
      unfolds_iff.mpr ⟨node', parts, hnode', hentries ▸ hunfolds, rfl⟩, ?_, ?_⟩
    · rw [Outline.ids_node, Outline.ids_node, Outline.inner_node, Outline.inner_node, hids]
    · rw [Outline.shape, Outline.shape, hshapes]
      exact congrArg (fun kind ↦ Outline.node 0 (Kind.blank kind) _) hkind

/-- A fresh tree was built: the nodes of the outline are new, and their root is held; nothing else
is new, and whatever there was and is held is as it was. -/
structure Builds (w : World σ) (registry : RegistryId) (root : NodeId) (outline : Outline)
    (w' : World σ) : Prop where
  ages : w.Ages w'
  old : ∀ n : Nat, n < w.nodes.next → w'.node? n = w.node? n
  unfolds : w'.Unfolds root outline
  nodup : outline.ids.Nodup
  ids : ∀ n, n ∈ outline.ids ↔ w.Fresh w' n ∧ ∃ node, w'.node? n = some node
  nodes : ∀ n ∈ outline.ids, ∀ node, w'.node? n = some node →
    node.registry = registry ∧ node.mounting? = none
  held : w'.held.Perm (.node root :: w.held)
  apps : ∀ app, .app app ∈ w.held → w'.apps.get? app = w.apps.get? app
  recorders : ∀ recorder, .recorder recorder ∈ w.held →
    w'.recorders.get? recorder = w.recorders.get? recorder
  hosts : w'.hosts = w.hosts
  contains : ∀ registry, w'.registries.contains registry = w.registries.contains registry
  listing : w.Listing → w'.Listing

namespace Builds

variable {registry : RegistryId} {root : NodeId} {outline : Outline}

/-- Whatever becomes of observables, the tree is built. -/
theorem modifyObservable (h : w.Builds registry root outline w') (o : ObservableId)
    (f : Observable → Observable) : w.Builds registry root outline (w'.modifyObservable o f) :=
  { h with
    ages := h.ages.trans (.of_eq rfl rfl)
    unfolds := h.unfolds.of_nodes fun _ _ ↦ rfl
    listing := fun hlisting ↦ (h.listing hlisting).of_nodes rfl (fun _ hr ↦ hr) fun _ ↦ rfl }

end Builds

theorem added_eq (w : World σ) (node : Node) (named : Bool) :
    ∃ registries, w.added node named =
      { w with nodes := w.nodes.push node, held := .node w.nodes.next :: w.held,
               registries := registries } := by
  cases named <;> exact ⟨_, rfl⟩

/-- A node without nodes in it is a tree by itself, if its component does nothing on its
creation. -/
theorem exists_builds_create [Journal σ] (w : World σ) {registry : RegistryId}
    (hregistry : w.registries.contains registry = true) (kind : Kind)
    (hkind : kind ∉ [.flexLayout, .panel, .tracked]) (tag : String) (attributes : Attributes)
    (content : List Child) (hcontent : ∀ child ∈ content, child.node? = none) :
    ∃ node built, node.kind = kind ∧
      node.attributes.get? "onclick" = attributes.get? "onclick" ∧
      node.id = (if attributes.contains "id" then attributes.id else (w.registry registry).nextId) ∧
      w.create registry kind tag attributes content = (w.nodes.next, built) ∧
      built.node? w.nodes.next = some node ∧ built.observables = w.observables ∧
      w.Builds registry w.nodes.next (.node w.nodes.next node.bare (content.map .leaf)) built := by
  have hages := Ages.conduct.reporting.create w registry kind tag attributes content
  obtain ⟨node, rfl, rfl, hmounting, rfl, honclick, hid, -, hcreate⟩ :=
    w.exists_create registry kind tag attributes content
  let named := attributes.contains "id"
  let added := w.added node named
  have hnode : added.node? w.nodes.next = some node := by rw [node?_added, if_pos rfl]
  have hafter : added.afterCreation w.nodes.next = added := by
    rw [afterCreation, hnode]
    dsimp only
    split <;> simp_all
  have hunfolds :
      added.Unfolds w.nodes.next (.node w.nodes.next node.bare (node.content.map .leaf)) := by
    refine unfolds_iff.mpr ⟨node, _, hnode, ?_, rfl⟩
    rw [List.forall₂_map_right_iff, List.forall₂_same]
    intro child hchild
    have hleaf := hcontent child hchild
    cases child with
    | node => cases hleaf
    | state | text | number => rfl
  have hids : (Outline.node w.nodes.next node.bare (node.content.map .leaf)).ids =
      [w.nodes.next] := by
    rw [Outline.ids_node, Outline.inner_node, List.flatMap_map]
    exact congrArg _ (List.flatMap_eq_nil_iff.mpr fun _ _ ↦ rfl)
  rw [hafter] at hcreate
  rw [hcreate] at hages
  obtain ⟨registries, hadded⟩ : ∃ registries, added = _ := w.added_eq node named
  refine ⟨node, added, rfl, honclick, hid, hcreate, hnode, by rw [hadded], ?_⟩
  exact
    { ages := hages
      old := fun n hn ↦ by rw [node?_added, if_neg (Nat.ne_of_lt hn)]
      unfolds := hunfolds
      nodup := by
        rw [hids]
        exact List.nodup_singleton _
      ids := fun n ↦ by
        rw [hids, List.mem_singleton]
        constructor
        · rintro rfl
          exact ⟨⟨Nat.le_refl _, Nat.lt_succ_self _⟩, node, hnode⟩
        · rintro ⟨⟨hlow, hhigh⟩, -⟩
          exact Nat.le_antisymm (Nat.le_of_lt_succ hhigh) hlow
      nodes := fun n hn found hfound ↦ by
        rw [hids, List.mem_singleton] at hn
        subst hn
        obtain rfl := Option.some.inj (hnode.symm.trans hfound)
        exact ⟨rfl, hmounting⟩
      held := by rw [hadded]
      apps := fun app _ ↦ by rw [hadded]
      recorders := fun recorder _ ↦ by rw [hadded]
      hosts := by rw [hadded]
      contains := fun registry ↦ contains_added ..
      listing := fun hlisting ↦ Ledger.listing_added hlisting hregistry }
end World

end LiveMarkup
