import LiveMarkup.Proofs.World.Aging
import LiveMarkup.Proofs.World.Forms
import LiveMarkup.Proofs.World.Sweeping

/-!
Worlds that grow by forms. How many forms a node has is told by its outline (`Outline.forms`). A
form is plain, was never mounted, and has in its content nodes from below the rendered one and forms
with smaller numbers only (`World.IsForm`). Where nothing but forms is new, all nodes that support
one another are exactly as they were (`World.Grows`): forms are created (`World.Grows.added`) and
given up (`World.Grows.releaseAll`), as long as they stand in the content of a node that stays.
-/

set_option autoImplicit false
set_option relaxedAutoImplicit false

namespace LiveMarkup

/-! ### The nodes and the forms of an outline -/

namespace Outline

/-- The node that an outline starts with, if it starts with one. -/
def root? : Outline → Option NodeId
  | .node id _ _ => some id
  | .leaf _ => none

/-- The nodes of an outline, each as often as it stands there. -/
def ids (outline : Outline) : List NodeId := outline.parts.filterMap root?

/-- The nodes properly below the root of an outline. -/
def inner (outline : Outline) : List NodeId := outline.inside.filterMap root?

/-- Whether the outline is replaced by its form in a container. -/
def isLayout : Outline → Bool
  | .node _ self _ => self.kind.isLayout
  | .leaf _ => false

mutual

/-- How many nodes are created when a node with this outline is rendered. -/
def forms : Outline → Nat
  | .node _ self content =>
    match self.kind with
    | .layout | .flexLayout | .boxed => formsAll content + 1
    | .text | .greeting => 1
    | .plain | .badge | .tracked | .panel => 0
  | .leaf _ => 0

/-- How many nodes are created for the content of a container. -/
def formsAll : List Outline → Nat
  | [] => 0
  | outline :: rest => (if outline.isLayout then outline.forms else 0) + formsAll rest

end

theorem mem_ids_iff {outline : Outline} {n : NodeId} :
    n ∈ outline.ids ↔ ∃ self content, .node n self content ∈ outline.parts := by
  rw [ids, List.mem_filterMap]
  constructor
  · rintro ⟨part, hpart, hroot⟩
    cases part with
    | leaf => cases hroot
    | node id self content =>
      obtain rfl := Option.some.inj hroot
      exact ⟨self, content, hpart⟩
  · rintro ⟨self, content, hpart⟩
    exact ⟨_, hpart, rfl⟩

theorem ids_node (id : NodeId) (self : Node) (content : List Outline) :
    (node id self content).ids = id :: (node id self content).inner := rfl

theorem mem_inner_iff {id n : NodeId} {self : Node} {content : List Outline} :
    n ∈ (node id self content).inner ↔ ∃ part ∈ content, n ∈ part.ids := by
  rw [inner, List.mem_filterMap]
  constructor
  · rintro ⟨below, hbelow, hroot⟩
    obtain ⟨part, hpart, hin⟩ := mem_inside_iff.mp hbelow
    exact ⟨part, hpart, List.mem_filterMap.mpr ⟨below, hin, hroot⟩⟩
  · rintro ⟨part, hpart, hn⟩
    obtain ⟨below, hin, hroot⟩ := List.mem_filterMap.mp hn
    exact ⟨below, mem_inside_iff.mpr ⟨part, hpart, hin⟩, hroot⟩

theorem inner_subset_ids {outline : Outline} {n : NodeId} (h : n ∈ outline.inner) :
    n ∈ outline.ids := by
  obtain ⟨part, hpart, hroot⟩ := List.mem_filterMap.mp h
  exact List.mem_filterMap.mpr ⟨part, outline.inside_subset_parts hpart, hroot⟩

end Outline

namespace World

variable {σ : Type} {w w' w'' : World σ} {skip kept below : NodeId → Prop}
  {registries : RegistryId → Prop}

/-! ### Outlines where nodes are the same -/

theorem outlineWithin?_of_nodes {depth : Nat} {root : NodeId} {outline : Outline}
    (h : w.outlineWithin? depth root = some outline)
    (hsame : ∀ n ∈ outline.ids, w'.node? n = w.node? n) :
    w'.outlineWithin? depth root = some outline := by
  refine outlineWithin?_congr h fun id self content hpart ↦ ?_
  rw [hsame id (Outline.mem_ids_iff.mpr ⟨self, content, hpart⟩)]
  exact Unfolds.bare_of_mem ⟨depth, h⟩ hpart

theorem Unfolds.of_nodes {root : NodeId} {outline : Outline} (h : w.Unfolds root outline)
    (hsame : ∀ n ∈ outline.ids, w'.node? n = w.node? n) : w'.Unfolds root outline := by
  obtain ⟨depth, h⟩ := h
  exact ⟨depth, outlineWithin?_of_nodes h hsame⟩

theorem ChildUnfolds.of_nodes {child : Child} {part : Outline} (h : w.ChildUnfolds child part)
    (hsame : ∀ n ∈ part.ids, w'.node? n = w.node? n) : w'.ChildUnfolds child part := by
  cases child with
  | node id => exact Unfolds.of_nodes h hsame
  | state => exact h
  | text => exact h
  | number => exact h

/-- A node that stands in an entry is among the nodes of the outline of the entry. -/
theorem ChildUnfolds.mem_ids {id : NodeId} {part : Outline} (h : w.ChildUnfolds (.node id) part) :
    id ∈ part.ids := by
  obtain ⟨node, content, _, _, rfl⟩ := unfolds_iff.mp h
  rw [Outline.ids_node]
  exact List.mem_cons_self

theorem Unfolds.mem_ids {root : NodeId} {outline : Outline} (h : w.Unfolds root outline) :
    root ∈ outline.ids :=
  ChildUnfolds.mem_ids (show w.ChildUnfolds (.node root) outline from h)

/-- The nodes of an outline are those from its root down. -/
theorem Unfolds.mem_ids_iff {root n : NodeId} {outline : Outline} (h : w.Unfolds root outline) :
    n ∈ outline.ids ↔ w.Reaches root n := by
  constructor
  · intro hn
    obtain ⟨self, content, hpart⟩ := Outline.mem_ids_iff.mp hn
    obtain ⟨below, hbelow, hunfolds⟩ := h.exists_reaches _ hpart
    obtain ⟨_, _, _, _, heq⟩ := unfolds_iff.mp hunfolds
    obtain ⟨rfl, -, -⟩ := Outline.node.inj heq
    exact hbelow
  · intro hn
    obtain ⟨part, hpart, hunfolds⟩ := h.of_reaches hn
    obtain ⟨node, content, _, _, rfl⟩ := unfolds_iff.mp hunfolds
    exact Outline.mem_ids_iff.mpr ⟨_, _, hpart⟩

/-- Each node of an outline but its root stands in the content of another one. -/
theorem Unfolds.exists_contains {root n : NodeId} {outline : Outline} (h : w.Unfolds root outline)
    (hn : n ∈ outline.ids) : n = root ∨ ∃ parent ∈ outline.ids, w.Contains parent n := by
  rcases Relation.ReflTransGen.cases_tail (h.mem_ids_iff.mp hn) with heq | ⟨parent, hparent, hstep⟩
  · exact .inl heq
  · exact .inr ⟨parent, h.mem_ids_iff.mpr hparent, hstep⟩

/-- The nodes of an outline support one another if its root is a root. -/
theorem Unfolds.supports {root : NodeId} {outline : Outline} (h : w.Unfolds root outline)
    (hroot : w.Rooted root) (skip : NodeId → Prop) : w.Supports skip (· ∈ outline.ids) := by
  intro n hn
  refine ⟨h.live n (h.mem_ids_iff.mp hn), ?_⟩
  rcases h.exists_contains hn with rfl | ⟨parent, hparent, owner, howner, hmem⟩
  · exact .inl hroot
  · exact .inr ⟨parent, hparent, owner, howner, .inl hmem⟩

/-! ### Worlds that grow -/

/-- A number that was handed out on the way from one world to another. -/
def Fresh (w w' : World σ) (id : Nat) : Prop := w.nodes.next ≤ id ∧ id < w'.nodes.next

/-- What is new in the end was new in the meantime or is new since. -/
theorem fresh_trans_iff (h : w.Ages w') (h' : w'.Ages w'') {id : NodeId} :
    w.Fresh w'' id ↔ w.Fresh w' id ∨ w'.Fresh w'' id := by
  have hfirst := h.nodes.next
  have hlast := h'.nodes.next
  constructor
  · rintro ⟨hlow, hhigh⟩
    rcases Nat.lt_or_ge id w'.nodes.next with hearlier | hlater
    · exact .inl ⟨hlow, hearlier⟩
    · exact .inr ⟨hlater, hhigh⟩
  · rintro (⟨hlow, hhigh⟩ | ⟨hlow, hhigh⟩)
    · exact ⟨hlow, Nat.lt_of_lt_of_le hhigh hlast⟩
    · exact ⟨Nat.le_trans hfirst hlow, hhigh⟩

theorem fresh_added_iff {node : Node} {named : Bool} {id : NodeId} :
    w.Fresh (w.added node named) id ↔ id = w.nodes.next := by
  constructor
  · rintro ⟨hlow, hhigh⟩
    exact Nat.le_antisymm (Nat.le_of_lt_succ hhigh) hlow
  · rintro rfl
    exact ⟨Nat.le_refl _, Nat.lt_succ_self _⟩

/-- Nodes that support one another are left as they are when a node is added. -/
theorem Supports.node?_added (h : w.Supports skip kept) {id : NodeId} (hid : kept id) (node : Node)
    (named : Bool) : (w.added node named).node? id = w.node? id := by
  obtain ⟨⟨found, hfound⟩, -⟩ := h id hid
  rw [World.node?_added, if_neg (Nat.ne_of_lt (lt_next_of_node? hfound))]

/-- A node that was created by rendering: plain, never mounted, without a click callback, and around
nodes from below the rendered one and forms that were created before it. -/
structure IsForm (below : NodeId → Prop) (registries : RegistryId → Prop) (first id : Nat)
    (form : Node) : Prop where
  kind : form.kind = .plain
  registry : registries form.registry
  unmounted : form.mounting? = none
  content : ∀ child : Nat, .node child ∈ form.content → below child ∨ first ≤ child ∧ child < id
  onclick : form.attributes.get? "onclick" = none

theorem IsForm.mono {below' : NodeId → Prop} {first first' id : Nat} {form : Node}
    (h : IsForm below registries first id form) (hbelow : ∀ n, below n → below' n)
    (hfirst : first' ≤ first) : IsForm below' registries first' id form :=
  { h with
    content := fun child hchild ↦
      (h.content child hchild).imp (hbelow child) fun hnew ↦ ⟨Nat.le_trans hfirst hnew.1, hnew.2⟩ }

/-- A world in which forms are new, and which is otherwise as it was as far as some nodes and what
is held are concerned. -/
structure Grows (skip kept below : NodeId → Prop) (registries : RegistryId → Prop)
    (w w' : World σ) :
    Prop where
  ages : w.Ages w'
  nodes : ∀ id, kept id → w'.node? id = w.node? id
  past : ∀ (id : Nat) node, id < w.nodes.next → w'.node? id = some node → w.node? id = some node
  fresh : ∀ id, w.Fresh w' id →
    ∃ form, w'.node? id = some form ∧ IsForm below registries w.nodes.next id form
  supports : w'.Supports skip fun id ↦ kept id ∨ w.Fresh w' id
  held : ∀ root ∈ w.held, root ∈ w'.held
  apps : ∀ app, .app app ∈ w.held → w'.apps.get? app = w.apps.get? app
  recorders : ∀ recorder, .recorder recorder ∈ w.held →
    w'.recorders.get? recorder = w.recorders.get? recorder
  hosts : w'.hosts = w.hosts
  observables : w'.observables = w.observables
  client : w'.client = w.client
  contains : ∀ registry, w'.registries.contains registry = w.registries.contains registry
  listing : (∀ registry, registries registry → w.registries.contains registry = true) →
    w.Listing → w'.Listing

namespace Grows

theorem refl (h : w.Supports skip kept) : Grows skip kept below registries w w where
  ages := .refl w
  nodes := fun _ _ ↦ rfl
  past := fun _ _ _ hnode ↦ hnode
  fresh := fun _ hfresh ↦ absurd hfresh.2 (Nat.not_lt.mpr hfresh.1)
  supports := fun id hid ↦ by
    rcases hid with hid | hfresh
    · obtain ⟨hlive, hsupport⟩ := h id hid
      exact ⟨hlive, hsupport.imp_right fun ⟨parent, hparent, howns⟩ ↦ ⟨parent, .inl hparent, howns⟩⟩
    · exact absurd hfresh.2 (Nat.not_lt.mpr hfresh.1)
  held := fun _ ↦ id
  apps := fun _ _ ↦ rfl
  recorders := fun _ _ ↦ rfl
  hosts := rfl
  observables := rfl
  client := rfl
  contains := fun _ ↦ rfl
  listing := fun _ ↦ id

theorem mono {below' : NodeId → Prop} (h : Grows skip kept below registries w w')
    (hbelow : ∀ n, below n → below' n) : Grows skip kept below' registries w w' :=
  { h with
    fresh := fun id hid ↦ by
      obtain ⟨form, hform, hisForm⟩ := h.fresh id hid
      exact ⟨form, hform, hisForm.mono hbelow (Nat.le_refl _)⟩ }

/-- What was kept and what was new in the meantime is kept in the end. -/
theorem trans (h : Grows skip kept below registries w w')
    (h' : Grows skip (fun id ↦ kept id ∨ w.Fresh w' id) below registries w' w'') :
    Grows skip kept below registries w w'' where
  ages := h.ages.trans h'.ages
  nodes := fun id hid ↦ (h'.nodes id (.inl hid)).trans (h.nodes id hid)
  past := fun id node hid hnode ↦
    h.past id node hid (h'.past id node (Nat.lt_of_lt_of_le hid h.ages.nodes.next) hnode)
  fresh := fun id hid ↦ by
    by_cases hearlier : id < w'.nodes.next
    · rw [h'.nodes id (.inr ⟨hid.1, hearlier⟩)]
      exact h.fresh id ⟨hid.1, hearlier⟩
    · obtain ⟨form, hform, hisForm⟩ := h'.fresh id ⟨Nat.le_of_not_lt hearlier, hid.2⟩
      exact ⟨form, hform, hisForm.mono (fun _ hbelow ↦ hbelow) h.ages.nodes.next⟩
  supports := by
    have hsupports := h'.supports
    simp only [or_assoc, ← fresh_trans_iff h.ages h'.ages] at hsupports
    exact hsupports
  held := fun root hroot ↦ h'.held root (h.held root hroot)
  apps := fun app happ ↦ (h'.apps app (h.held _ happ)).trans (h.apps app happ)
  recorders := fun recorder hrecorder ↦
    (h'.recorders recorder (h.held _ hrecorder)).trans (h.recorders recorder hrecorder)
  hosts := h'.hosts.trans h.hosts
  observables := h'.observables.trans h.observables
  client := h'.client.trans h.client
  contains := fun registry ↦ (h'.contains registry).trans (h.contains registry)
  listing := fun hregistries hlisting ↦
    h'.listing
      (fun registry hregistry ↦ (h.contains registry).trans (hregistries registry hregistry))
      (h.listing hregistries hlisting)

/-- A reference to a node may be taken. -/
theorem hold (h : w.Supports skip kept) (id : NodeId) :
    Grows skip kept below registries w (w.hold (.node id)) :=
  { Grows.refl h with
    ages := .of_eq rfl rfl
    supports := by
      have hrefl : Grows skip kept below registries w w := .refl h
      exact hrefl.supports.congr (fun _ _ ↦ rfl) fun _ _ hroot ↦
        hroot.mono (fun _ hheld ↦ List.mem_cons_of_mem _ hheld) fun _ _ ↦ rfl
    held := fun root hroot ↦ List.mem_cons_of_mem _ hroot
    listing := fun _ hlisting ↦ hlisting.of_nodes rfl (fun _ hr ↦ hr) fun _ ↦ rfl }

/-- A form is created. -/
theorem added (h : Grows skip kept below registries w w') {form : Node}
    (hform : IsForm below registries w.nodes.next w'.nodes.next form) :
    Grows skip kept below registries w (w'.added form false) := by
  have hages : w'.Ages (w'.added form false) :=
    ⟨w'.nodes.ages_push form, .refl w'.recorders⟩
  have hfresh (id : NodeId) : w.Fresh (w'.added form false) id ↔
      w.Fresh w' id ∨ id = w'.nodes.next := by
    rw [fresh_trans_iff h.ages hages, fresh_added_iff]
  have hnew : (w'.added form false).node? w'.nodes.next = some form := by
    rw [node?_added, if_pos rfl]
  have hkept {id : NodeId} (hid : kept id ∨ w.Fresh w' id) :
      (w'.added form false).node? id = w'.node? id := h.supports.node?_added hid form false
  refine
    { ages := h.ages.trans hages
      nodes := fun id hid ↦ (hkept (.inl hid)).trans (h.nodes id hid)
      past := fun id node hid hnode ↦ ?_
      fresh := fun id hid ↦ ?_
      supports := ?_
      held := fun root hroot ↦ List.mem_cons_of_mem _ (h.held root hroot)
      apps := h.apps
      recorders := h.recorders
      hosts := h.hosts
      observables := h.observables
      client := h.client
      contains := fun registry ↦ (contains_added w' form false registry).trans (h.contains registry)
      listing := fun hregistries hlisting ↦
        Ledger.listing_added (h.listing hregistries hlisting) ?_ }
  · rw [node?_added, if_neg (Nat.ne_of_lt (Nat.lt_of_lt_of_le hid h.ages.nodes.next))] at hnode
    exact h.past id node hid hnode
  · rcases (hfresh id).mp hid with hearlier | rfl
    · rw [hkept (.inr hearlier)]
      exact h.fresh id hearlier
    · exact ⟨form, hnew, hform⟩
  · have hearlierSupports : (w'.added form false).Supports skip fun id ↦ kept id ∨ w.Fresh w' id :=
      h.supports.congr (fun _ hid ↦ hkept hid) fun _ _ hroot ↦
        hroot.mono (fun _ hheld ↦ List.mem_cons_of_mem _ hheld) fun _ _ ↦ rfl
    simp only [hfresh, ← or_assoc]
    rintro id (hearlier | rfl)
    · obtain ⟨hlive, hsupport⟩ := hearlierSupports id hearlier
      refine ⟨hlive, hsupport.imp_right ?_⟩
      rintro ⟨parent, hparent, howns⟩
      exact ⟨parent, .inl hparent, howns⟩
    · exact ⟨⟨form, hnew⟩, .inl (.inl List.mem_cons_self)⟩
  · exact (h.contains form.registry).trans (hregistries _ hform.registry)

section Release

variable {owner : NodeId} {node : Node} {forms : List NodeId}
  (h : Grows skip kept below registries w w')
  (hheld : w'.held.Perm (.node owner :: (forms.map .node ++ w.held)))
  (hid : kept owner ∨ w.Fresh w' owner) (hnode : w'.node? owner = some node)
  (hforms : ∀ form ∈ forms, .node form ∈ node.content)

include h hheld hid hnode hforms

/-- When the references to forms are given up, a node that is held has them in its content. -/
theorem supports_dropped :
    World.Supports
      { w' with held := forms.foldl (fun held node ↦ held.erase (.node node)) w'.held } skip
      fun id ↦ kept id ∨ w.Fresh w' id := by
  have hleft := foldl_erase_perm (hheld.trans List.perm_middle.symm)
  intro id hid'
  obtain ⟨hlive, hroot | howned⟩ := h.supports id hid'
  · refine ⟨hlive, ?_⟩
    rcases hroot with hnodeHeld | ⟨app, shown, happ, hshown⟩
    · have hmem := hheld.mem_iff.mp hnodeHeld
      rw [List.mem_cons, List.mem_append] at hmem
      rcases hmem with hself | hform | hearlier
      · exact .inl (.inl (hleft.mem_iff.mpr (hself ▸ List.mem_cons_self)))
      · have howned : .node id ∈ node.content := hforms id (by simpa using hform)
        exact .inr ⟨owner, hid, node, hnode, .inl howned⟩
      · exact .inl (.inl (hleft.mem_iff.mpr (List.mem_cons_of_mem _ hearlier)))
    · have hmem := hheld.mem_iff.mp happ
      refine .inl (.inr ⟨app, shown, hleft.mem_iff.mpr (List.mem_cons_of_mem _ ?_), hshown⟩)
      simpa using hmem
  · exact ⟨hlive, .inr howned⟩

theorem node?_releaseAll {n : NodeId} (hn : kept n ∨ w.Fresh w' n) :
    (w'.releaseAll forms).node? n = w'.node? n :=
  (supports_dropped h hheld hid hnode hforms).node?_sweep hn

/-- The references to forms are given up. -/
theorem releaseAll : Grows skip kept below registries w (w'.releaseAll forms) := by
  have hsupports := supports_dropped h hheld hid hnode hforms
  have hleft : (w'.releaseAll forms).held.Perm (.node owner :: w.held) :=
    foldl_erase_perm (hheld.trans List.perm_middle.symm)
  have hstill (root : Root) (hroot : root ∈ w.held) : root ∈ (w'.releaseAll forms).held :=
    hleft.mem_iff.mpr (List.mem_cons_of_mem _ hroot)
  have hnext : (w'.releaseAll forms).nodes.next = w'.nodes.next := next_sweep _
  have hfresh (id : NodeId) : w.Fresh (w'.releaseAll forms) id ↔ w.Fresh w' id := by
    unfold Fresh
    rw [hnext]
  have hnodes {id : NodeId} (hid' : kept id ∨ w.Fresh w' id) :=
    node?_releaseAll h hheld hid hnode hforms hid'
  refine
    { h with
      ages := h.ages.trans (Ages.conduct.routine.releaseAll w' forms)
      nodes := fun id hid' ↦ (hnodes (.inl hid')).trans (h.nodes id hid')
      past := fun id found hid' hfound ↦ h.past id found hid' (get?_of_survivors hfound)
      fresh := fun id hid' ↦ ?_
      supports := ?_
      held := hstill
      apps := fun app happ ↦ by
        rw [← h.apps app happ]
        exact apps_sweep (hstill _ happ)
      recorders := fun recorder hrecorder ↦ by
        rw [← h.recorders recorder hrecorder]
        exact recorders_sweep (hstill _ hrecorder)
      listing := fun hregistries hlisting ↦ ?_ }
  · have hearlier := (hfresh id).mp hid'
    rw [hnodes (.inr hearlier)]
    exact h.fresh id hearlier
  · simp only [hfresh]
    exact hsupports.sweep
  · refine (h.listing hregistries hlisting).of_registries hnext (fun n found hfound ↦ ?_)
      (fun _ hr ↦ hr) fun _ ↦ rfl
    exact ⟨found, get?_of_survivors hfound, rfl⟩

end Release

end Grows

end World

end LiveMarkup
