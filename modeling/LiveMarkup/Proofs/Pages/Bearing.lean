import LiveMarkup.Proofs.Pages.Building
import LiveMarkup.World.Paging

/-!
Worlds that show a page. Beside what there was before pages were shown, exactly the tree of the page
and the forms that its root was displayed as last are alive (`World.Bears`). Such a world stays one
of them while references are taken and given up (`World.Bears.hold`, `World.Bears.release`), and
becomes another one when the root or another tree in its place is displayed
(`World.Unveils.bears_sweep`).
-/

set_option autoImplicit false
set_option relaxedAutoImplicit false

namespace LiveMarkup

/-- A page as it is shown: the application then, the root of the content, the nodes below it and its
shape, the form that it is displayed as, and the first number of the forms. -/
structure Exhibit where
  app : App
  root : NodeId
  inner : List NodeId
  shape : Outline
  form : Nat
  first : Nat

/-- The nodes of the content. -/
def Exhibit.ids (page : Exhibit) : List NodeId := page.root :: page.inner

namespace World

variable {σ : Type} {base w w' w'' v : World σ} {id : AppId} {page : Exhibit}
  {extra extra' : List Root}

/-- What there was before pages were shown is still there, and so is the content of a page. -/
structure Stocks (base : World σ) (id : AppId) (page : Exhibit) (w : World σ) : Prop where
  listing : w.Listing
  contains : ∀ registry, w.registries.contains registry = base.registries.contains registry
  held : ∀ root ∈ base.held, root ∈ w.held
  apps : ∀ other, .app other ∈ base.held → other ≠ id → w.apps.get? other = base.apps.get? other
  recorders : ∀ recorder, .recorder recorder ∈ base.held →
    w.recorders.get? recorder = base.recorders.get? recorder
  before : ∀ n node, base.node? n = some node → ∃ node', w.node? n = some node' ∧
    node.Matches node' ∧ node'.mounting? = node.mounting?
  unfolds : ∃ outline, w.Unfolds page.root outline ∧ outline.ids = page.ids ∧
    outline.shape = page.shape
  nodup : page.ids.Nodup
  ids : ∀ n : Nat, n ∈ page.ids → base.nodes.next ≤ n
  nodes : ∀ n ∈ page.ids, ∀ node, w.node? n = some node →
    node.registry = page.app.registry ∧ (n ≠ page.root → node.mounting? = none)

/-- A page is shown: its content and its forms are alive, and otherwise only what there was before.
Some references are held besides. -/
structure Bears (base : World σ) (id : AppId) (page : Exhibit) (extra : List Root)
    (w : World σ) : Prop extends Stocks base id page w where
  app : w.apps.get? id = some page.app
  content : page.app.mounted? = some page.root
  surface : ∃ surface, w.hosts.get? page.app.host = some (.surface surface)
  heldPerm : w.held.Perm (extra ++ base.held)
  lt_first : ∀ n : Nat, n ∈ page.ids → n < page.first
  next : w.nodes.next = page.first + page.shape.forms
  forms : ∀ n : Nat, page.first ≤ n → n < w.nodes.next → ∃ form, w.node? n = some form ∧
    IsForm (· ∈ page.inner) (· = page.app.registry) page.first n form
  owned : ∀ n : Nat, page.first ≤ n → n < w.nodes.next → n = page.form ∨
    ∃ parent : Nat, page.first ≤ parent ∧ parent < w.nodes.next ∧ w.Contains parent n
  mounted : w.MountedAs page.root page.app.host page.form
  place : page.form = page.root ∨ page.first ≤ page.form ∧ page.form < w.nodes.next
  only : ∀ (n : Nat) node, w.node? n = some node →
    (∃ old, base.node? n = some old) ∨ n ∈ page.ids ∨ page.first ≤ n

/-! ### What does not matter -/

section Same

variable (h : Bears base id page extra w) (hnext : w'.nodes.next = w.nodes.next)
  (hid : .app id ∈ base.held)
  (happs : ∀ app, .app app ∈ base.held → w'.apps.get? app = w.apps.get? app)
  (hrecorders : ∀ recorder, .recorder recorder ∈ base.held →
    w'.recorders.get? recorder = w.recorders.get? recorder)
  (hsurfaces : w.KeepsSurfaces w') (hheld : w'.held.Perm (extra' ++ base.held))

include h hnext hid happs hrecorders hsurfaces hheld

/-- A page is shown in every world in which the same nodes are alive and mounted as before. -/
theorem Bears.of_matches
    (hnodes : ∀ n node, w.node? n = some node → ∃ node', w'.node? n = some node' ∧
      node.Matches node' ∧ node'.mounting? = node.mounting?)
    (hpast : ∀ n node', w'.node? n = some node' → ∃ node, w.node? n = some node)
    (hcontains : ∀ registry, w'.registries.contains registry = w.registries.contains registry)
    (hlisting : w'.Listing) : Bears base id page extra' w' where
  listing := hlisting
  contains := fun registry ↦ (hcontains registry).trans (h.contains registry)
  held := fun root hroot ↦ hheld.mem_iff.mpr (List.mem_append_right _ hroot)
  apps := fun other hother hne ↦ (happs other hother).trans (h.apps other hother hne)
  recorders := fun recorder hrecorder ↦
    (hrecorders recorder hrecorder).trans (h.recorders recorder hrecorder)
  before := fun n node hnode ↦ by
    obtain ⟨middle, hmiddle, hfirst, hmounting⟩ := h.before n node hnode
    obtain ⟨node', hnode', hlast, hmounting'⟩ := hnodes n middle hmiddle
    exact ⟨node', hnode', hfirst.trans hlast, hmounting'.trans hmounting⟩
  unfolds := by
    obtain ⟨outline, hunfolds, hids, hshape⟩ := h.unfolds
    obtain ⟨outline', hunfolds', hids', hshape'⟩ := hunfolds.exists_of_content w'
      fun n _ node hnode ↦ by
        obtain ⟨node', hnode', hmatches, -⟩ := hnodes n node hnode
        exact ⟨node', hnode', hmatches.kind, hmatches.content⟩
    exact ⟨outline', hunfolds', hids'.trans hids, hshape'.trans hshape⟩
  nodup := h.nodup
  ids := h.ids
  nodes := fun n hn node' hnode' ↦ by
    obtain ⟨node, hnode⟩ := hpast n node' hnode'
    obtain ⟨same, hsame, hmatches, hmounting⟩ := hnodes n node hnode
    obtain rfl : node' = same := Option.some.inj (hnode'.symm.trans hsame)
    rw [hmatches.registry, hmounting]
    exact h.nodes n hn node hnode
  app := (happs id hid).trans h.app
  content := h.content
  surface := by
    obtain ⟨surface, hsurface⟩ := h.surface
    exact hsurfaces _ surface hsurface
  heldPerm := hheld
  lt_first := h.lt_first
  next := hnext.trans h.next
  forms := fun n hlow hhigh ↦ by
    obtain ⟨form, hform, hisForm⟩ := h.forms n hlow (hnext ▸ hhigh)
    obtain ⟨form', hform', hmatches, hmounting⟩ := hnodes n form hform
    exact ⟨form', hform', hmatches.isForm hmounting hisForm⟩
  owned := fun n hlow hhigh ↦ by
    refine (h.owned n hlow (hnext ▸ hhigh)).imp_right ?_
    rintro ⟨parent, hparentLow, hparentHigh, owner, howner, hmem⟩
    obtain ⟨owner', howner', hmatches, -⟩ := hnodes parent owner howner
    exact ⟨parent, hparentLow, hnext.symm ▸ hparentHigh, owner', howner', hmatches.content ▸ hmem⟩
  mounted := by
    obtain ⟨node, hnode, hmounting⟩ := h.mounted
    obtain ⟨node', hnode', -, hmounting'⟩ := hnodes page.root node hnode
    exact ⟨node', hnode', hmounting'.trans hmounting⟩
  place := by
    rw [hnext]
    exact h.place
  only := fun n node' hnode' ↦ by
    obtain ⟨node, hnode⟩ := hpast n node' hnode'
    exact h.only n node hnode

/-- A page is shown in every world with the same nodes and registries. -/
theorem Bears.congr (hnode? : ∀ n, w'.node? n = w.node? n)
    (hregistries : w'.registries = w.registries) :
    Bears base id page extra' w' := by
  refine h.of_matches hnext hid happs hrecorders hsurfaces hheld
    (fun n node hnode ↦ ⟨node, (hnode? n).trans hnode, .refl node, rfl⟩)
    (fun n node' hnode' ↦ ⟨node', (hnode? n).symm.trans hnode'⟩)
    (fun registry ↦ by rw [hregistries]) ?_
  exact h.listing.of_registries hnext
    (fun n node hnode ↦ ⟨node, (hnode? n).symm.trans hnode, rfl⟩) (fun r hr ↦ by rwa [hregistries])
    fun r ↦ by rw [World.registry, World.registry, hregistries]

end Same

/-! ### What there was before -/

/-- A sound world in which an application is held and shows nothing yet. -/
structure Vacant (base : World σ) (id : AppId) : Prop where
  sound : base.Sound
  held : .app id ∈ base.held
  unshown : ∀ app, base.apps.get? id = some app → app.mounted? = none

/-- A world without nodes is sound, and an application shows nothing there. -/
theorem Vacant.of_empty (hnodes : w.nodes = ∅) (hentries : ∀ r, (w.registry r).entries = [])
    (hheld : ∀ n, .node n ∉ w.held) (hid : .app id ∈ w.held)
    (hunshown : ∀ other app, w.apps.get? other = some app → app.mounted? = none) : w.Vacant id where
  sound :=
    have hnone (n : NodeId) (node : Node) : w.node? n ≠ some node := by
      rw [node?, hnodes]
      intro hnode
      cases hnode
    { listing :=
        { exists_registry := fun n node hnode ↦ absurd hnode (hnone n node)
          listed := fun n node hnode ↦ absurd hnode (hnone n node)
          increasing := fun r ↦ by
            rw [hentries]
            exact .nil
          bounded := fun r n hn ↦ by
            rw [hentries] at hn
            cases hn
          registry := fun _ n _ node hnode ↦ absurd hnode (hnone n node) }
      live := fun n ↦ by
        constructor
        · rintro ((hheldNode | ⟨other, app, -, happ, hmounted⟩) | ⟨parent, owner, howner, -⟩)
          · exact absurd hheldNode (hheld n)
          · rw [hunshown other app happ] at hmounted
            cases hmounted
          · exact absurd howner (hnone parent owner)
        · rintro ⟨node, hnode⟩
          exact absurd hnode (hnone n node) }
  held := hid
  unshown := hunshown id

/-- What there was before, or a node of a page. -/
def Lasting (base : World σ) (page : Exhibit) (n : NodeId) : Prop :=
  (∃ old, base.node? n = some old) ∨ n ∈ page.ids

theorem node?_of_not_lasting {n : NodeId} (h : ¬base.Lasting page n) : base.node? n = none :=
  Option.eq_none_iff_forall_ne_some.mpr fun old hold ↦ h (.inl ⟨old, hold⟩)

namespace Vacant

variable (h : base.Vacant id)
  (happs : ∀ other, .app other ∈ base.held → other ≠ id → w.apps.get? other = base.apps.get? other)

include h happs

/-- What was a root before is a root as long as the same is held and the other applications are the
same. -/
theorem rooted (hheld : ∀ root ∈ base.held, root ∈ w.held) {n : NodeId} (hn : base.Rooted n) :
    w.Rooted n := by
  rcases hn with hnode | ⟨other, shown, hother, hshown, hmounted⟩
  · exact .inl (hheld _ hnode)
  · have hne : other ≠ id := by
      rintro rfl
      rw [h.unshown shown hshown] at hmounted
      cases hmounted
    exact .inr ⟨other, shown, hheld _ hother, (happs other hother hne).trans hshown, hmounted⟩

/-- What is a root was there before, or is the content that the application shows and may be
held. -/
theorem lasting_of_rooted (happ : w.apps.get? id = some page.app)
    (hcontent : page.app.mounted? = some page.root) (hheld : w.held.Perm (extra ++ base.held))
    (hextra : ∀ held ∈ extra, held = .node page.root) {n : NodeId} (hn : w.Rooted n) :
    base.Lasting page n := by
  have hbefore (hn : base.Rooted n) : base.Lasting page n := .inl ((h.sound.live n).mp (.inl hn))
  rcases hn with hnode | ⟨other, shown, hother, hshown, hmounted⟩
  · rcases List.mem_append.mp (hheld.mem_iff.mp hnode) with hmem | hmem
    · obtain rfl := Root.node.inj (hextra _ hmem)
      exact .inr List.mem_cons_self
    · exact hbefore (.inl hmem)
  · rcases List.mem_append.mp (hheld.mem_iff.mp hother) with hmem | hmem
    · cases hextra _ hmem
    · by_cases hne : other = id
      · subst hne
        obtain rfl := Option.some.inj (happ.symm.trans hshown)
        obtain rfl := Option.some.inj (hcontent.symm.trans hmounted)
        exact .inr List.mem_cons_self
      · have hshown' := (happs other hmem hne).symm.trans hshown
        exact hbefore (.inr ⟨other, shown, hmem, hshown', hmounted⟩)

end Vacant

namespace Stocks

variable (h : Stocks base id page w) (hvacant : base.Vacant id)

include h

theorem ne_root {n : NodeId} {old : Node} (hold : base.node? n = some old) : n ≠ page.root := by
  rintro rfl
  exact absurd (lt_next_of_node? hold) (Nat.not_lt.mpr (h.ids _ List.mem_cons_self))

theorem mem_ids_iff {n : NodeId} : n ∈ page.ids ↔ w.Reaches page.root n := by
  obtain ⟨outline, hunfolds, hids, -⟩ := h.unfolds
  rw [← hids]
  exact hunfolds.mem_ids_iff

theorem live {n : NodeId} (hn : base.Lasting page n) : ∃ node, w.node? n = some node := by
  rcases hn with ⟨old, hold⟩ | hn
  · obtain ⟨node, hnode, -⟩ := h.before n old hold
    exact ⟨node, hnode⟩
  · obtain ⟨outline, hunfolds, -⟩ := h.unfolds
    exact hunfolds.live n (h.mem_ids_iff.mp hn)

/-- All nodes of the content are in the registry of the application. -/
theorem registry_of_mem {outline : Outline} (hunfolds : w.Unfolds page.root outline)
    (hids : outline.ids = page.ids) {n : NodeId} {self : Node} {content : List Outline}
    (hpart : .node n self content ∈ outline.parts) : self.registry = page.app.registry := by
  obtain ⟨node, hnode, rfl⟩ := Option.map_eq_some_iff.mp (hunfolds.bare_of_mem hpart)
  exact (h.nodes n (hids ▸ Outline.mem_ids_iff.mpr ⟨_, _, hpart⟩) node hnode).1

/-- What was owned before still is. -/
theorem owns_of_before {parent n : NodeId} (howns : base.Owns (fun _ ↦ False) parent n) :
    w.Owns (· = page.root) parent n := by
  obtain ⟨owner, howner, howned⟩ := howns
  obtain ⟨owner', howner', hmatches, hmounting⟩ := h.before parent owner howner
  refine ⟨owner', howner', ?_⟩
  rw [Node.wrapper?, hmounting, hmatches.content]
  exact howned.imp_right (And.imp_left fun _ ↦ h.ne_root howner)

include hvacant in
/-- What lasts owns what lasts, but for the wrapper of the root. -/
theorem lasting_of_owns {parent n : NodeId} (hparent : base.Lasting page parent)
    (howns : w.Owns (· = page.root) parent n) : base.Lasting page n := by
  obtain ⟨owner, howner, howned⟩ := howns
  rcases hparent with ⟨old, hold⟩ | hparent
  · obtain ⟨owner', howner', hmatches, hmounting⟩ := h.before parent old hold
    obtain rfl : owner = owner' := Option.some.inj (howner.symm.trans howner')
    rw [Node.wrapper?, hmounting, hmatches.content] at howned
    refine .inl ((hvacant.sound.live n).mp (.inr ⟨parent, old, hold, ?_⟩))
    exact howned.imp_right (And.imp_left fun _ ↦ not_false)
  · rcases howned with hcontent | ⟨hne, hwrapper⟩
    · exact .inr (h.mem_ids_iff.mpr ((h.mem_ids_iff.mp hparent).tail ⟨owner, howner, hcontent⟩))
    · rw [Node.wrapper?, (h.nodes parent hparent owner howner).2 hne] at hwrapper
      cases hwrapper

include hvacant in
/-- What lasts is a root or owned by what lasts, wherever the root of the content is a root and
whatever was a root before. -/
theorem supported (hbefore : ∀ n, base.Rooted n → v.Rooted n) (hroot : v.Rooted page.root)
    (n : NodeId) (hn : base.Lasting page n) :
    v.Rooted n ∨ ∃ parent, base.Lasting page parent ∧ w.Owns (· = page.root) parent n := by
  rcases hn with hlive | hn
  · refine ((hvacant.sound.live n).mpr hlive).imp (hbefore n) ?_
    rintro ⟨parent, owner, howner, howned⟩
    exact ⟨parent, .inl ⟨owner, howner⟩, h.owns_of_before ⟨owner, howner, howned⟩⟩
  · obtain ⟨outline, hunfolds, hids, -⟩ := h.unfolds
    rcases hunfolds.exists_contains (hids ▸ hn) with rfl | ⟨parent, hparent, owner, howner, hmem⟩
    · exact .inl hroot
    · exact .inr ⟨parent, .inr (hids ▸ hparent), owner, howner, .inl hmem⟩

include hvacant in
theorem supports (hroot : w.Rooted page.root) : w.Supports (· = page.root) (base.Lasting page) :=
  fun n hn ↦ ⟨h.live hn,
    h.supported hvacant (fun _ ↦ hvacant.rooted h.apps h.held) hroot n hn⟩

end Stocks

/-! ### Taking and giving up references -/

namespace Bears

variable (h : Bears base id page extra w) (hvacant : base.Vacant id)

include h hvacant

theorem rooted : w.Rooted page.root :=
  .inr ⟨id, page.app, h.held _ hvacant.held, h.app, h.content⟩

omit hvacant in
/-- What the root keeps alive besides its content is a form. -/
theorem wrapper_of_root {owner : Node} (howner : w.node? page.root = some owner) {n : Nat}
    (hwrapper : owner.wrapper? = some n) : page.first ≤ n ∧ n < w.nodes.next := by
  obtain ⟨same, hsame, hmounting⟩ := h.mounted
  obtain rfl : owner = same := Option.some.inj (howner.symm.trans hsame)
  rw [Node.wrapper?, hmounting] at hwrapper
  by_cases hitself : page.form = page.root
  · rw [if_pos hitself] at hwrapper
    cases hwrapper
  · rw [if_neg hitself] at hwrapper
    obtain rfl := Option.some.inj hwrapper
    exact h.place.resolve_left hitself

/-- All nodes support one another. -/
theorem supports_all : w.Supports (fun _ ↦ False) fun n ↦ ∃ node, w.node? n = some node := by
  rintro n ⟨node, hnode⟩
  refine ⟨⟨node, hnode⟩, ?_⟩
  have hlasting (hn : base.Lasting page n) : w.Rooted n ∨ ∃ parent,
      (∃ node, w.node? parent = some node) ∧ w.Owns (fun _ ↦ False) parent n := by
    obtain ⟨-, hsupport⟩ := h.supports hvacant (h.rooted hvacant) n hn
    refine hsupport.imp_right ?_
    rintro ⟨parent, -, owner, howner, howned⟩
    exact ⟨parent, ⟨owner, howner⟩, owner, howner,
      howned.imp_right (And.imp_left fun _ ↦ not_false)⟩
  rcases h.only n node hnode with hold | hn | hform
  · exact hlasting (.inl hold)
  · exact hlasting (.inr hn)
  · rcases h.owned n hform (lt_next_of_node? hnode) with rfl | ⟨parent, -, -, owner, howner, hmem⟩
    · by_cases hself : page.form = page.root
      · exact .inl (hself ▸ h.rooted hvacant)
      · obtain ⟨owner, howner, hmounting⟩ := h.mounted
        refine .inr ⟨page.root, ⟨owner, howner⟩, owner, howner, .inr ⟨not_false, ?_⟩⟩
        rw [Node.wrapper?, hmounting, if_neg hself]
    · exact .inr ⟨parent, ⟨owner, howner⟩, owner, howner, .inl hmem⟩

/-- A sweep drops nothing. -/
theorem node?_sweep (n : NodeId) : w.sweep.node? n = w.node? n := by
  cases hnode : w.node? n with
  | some node => exact ((h.supports_all hvacant).node?_sweep ⟨node, hnode⟩).trans hnode
  | none =>
    cases hleft : w.sweep.node? n with
    | none => rfl
    | some node => exact absurd (node?_of_sweep hleft) (by simp [hnode])

theorem sweep : Bears base id page extra w.sweep :=
  h.congr (next_sweep w) hvacant.held (fun _ happ ↦ apps_sweep (h.held _ happ))
    (fun _ hrecorder ↦ recorders_sweep (h.held _ hrecorder))
    (fun _ surface hsurface ↦ ⟨surface, hsurface⟩) h.heldPerm (h.node?_sweep hvacant) rfl

theorem hold (root : Root) : Bears base id page (root :: extra) (w.hold root) :=
  h.congr rfl hvacant.held (fun _ _ ↦ rfl) (fun _ _ ↦ rfl)
    (fun _ surface hsurface ↦ ⟨surface, hsurface⟩) (h.heldPerm.cons root) (fun _ ↦ rfl) rfl

end Bears

theorem Bears.release {root : Root} (h : Bears base id page (root :: extra) w)
    (hvacant : base.Vacant id) : Bears base id page extra (w.release root) := by
  have hdropped : Bears base id page extra { w with held := w.held.erase root } :=
    h.congr rfl hvacant.held (fun _ _ ↦ rfl) (fun _ _ ↦ rfl)
      (fun _ surface hsurface ↦ ⟨surface, hsurface⟩) (erase_perm h.heldPerm) (fun _ ↦ rfl) rfl
  exact hdropped.sweep hvacant

/-! ### Who owns what -/

/-- Besides what there was before, nodes of the content own what stands in them, the root owns the
form that it is displayed as, and forms own nodes of the content and earlier forms. -/
theorem Bears.owns_cases (h : Bears base id page extra w) {parent n : Nat}
    (howns : w.Owns (fun _ ↦ False) parent n) :
    (∃ old, base.node? parent = some old) ∨
      (parent ∈ page.ids ∧ n ∈ page.ids ∧ w.Contains parent n) ∨
      (parent = page.root ∧ page.first ≤ n ∧ n < w.nodes.next) ∨
      (page.first ≤ parent ∧ parent < w.nodes.next ∧
        (n ∈ page.inner ∨ page.first ≤ n ∧ n < parent)) := by
  obtain ⟨owner, howner, howned⟩ := howns
  have hlt := lt_next_of_node? howner
  rcases h.only parent owner howner with hold | hids | hlater
  · exact .inl hold
  · rcases howned with hcontent | ⟨-, hwrapper⟩
    · have hcontains : w.Contains parent n := ⟨owner, howner, hcontent⟩
      have hin := h.mem_ids_iff.mpr ((h.mem_ids_iff.mp hids).tail hcontains)
      exact .inr (.inl ⟨hids, hin, hcontains⟩)
    · by_cases hself : parent = page.root
      · subst hself
        exact .inr (.inr (.inl ⟨rfl, h.wrapper_of_root howner hwrapper⟩))
      · rw [Node.wrapper?, (h.nodes parent hids owner howner).2 hself] at hwrapper
        cases hwrapper
  · obtain ⟨form, hnode, hisForm⟩ := h.forms parent hlater hlt
    obtain rfl : owner = form := Option.some.inj (howner.symm.trans hnode)
    rcases howned with hcontent | ⟨-, hwrapper⟩
    · exact .inr (.inr (.inr ⟨hlater, hlt, hisForm.content n hcontent⟩))
    · rw [Node.wrapper?, hisForm.unmounted] at hwrapper
      cases hwrapper

/-- Nothing is alive that nothing refers to, and nothing is referred to that is not alive. -/
theorem Bears.sound (h : Bears base id page [] w) (hvacant : base.Vacant id) : w.Sound where
  listing := h.listing
  live := fun n ↦ by
    have hform {n : Nat} (hlow : page.first ≤ n) (hhigh : n < w.nodes.next) :
        ∃ node, w.node? n = some node := by
      obtain ⟨form, hform, -⟩ := h.forms n hlow hhigh
      exact ⟨form, hform⟩
    constructor
    · rintro (hrooted | ⟨parent, howns⟩)
      · exact h.live (hvacant.lasting_of_rooted h.apps h.app h.content h.heldPerm
          (fun _ hheld ↦ absurd hheld List.not_mem_nil) hrooted)
      · rcases h.owns_cases howns with ⟨old, hold⟩ | ⟨-, hn, -⟩ | ⟨-, hlow, hhigh⟩ |
          ⟨-, hhigh, hinner | ⟨hlow, hlt⟩⟩
        · obtain ⟨owner, howner, howned⟩ := howns
          exact h.live (h.lasting_of_owns hvacant (.inl ⟨old, hold⟩)
            ⟨owner, howner, howned.imp_right (And.imp_left fun _ ↦ h.ne_root hold)⟩)
        · exact h.live (.inr hn)
        · exact hform hlow hhigh
        · exact h.live (.inr (List.mem_cons_of_mem _ hinner))
        · exact hform hlow (Nat.lt_trans hlt hhigh)
    · intro hlive
      obtain ⟨-, hsupport⟩ := h.supports_all hvacant n hlive
      refine hsupport.imp_right ?_
      rintro ⟨parent, -, howns⟩
      exact ⟨parent, howns⟩

/-! ### Displaying the content -/

/-- The content of a page was displayed, which made `w` to `w'`, and the application shows it; `v`
is the same world, in which references were given up but nothing was dropped yet. -/
structure Unveils (base : World σ) (id : AppId) (page : Exhibit) (extra : List Root)
    (outline : Outline) (w w' v : World σ) : Prop extends Stocks base id page w where
  content_unfolds : w.Unfolds page.root outline
  outline_ids : outline.ids = page.ids
  outline_shape : outline.shape = page.shape
  reveals : Reveals (base.Lasting page) (· = page.app.registry) outline page.root page.app.host
    page.form w w'
  first : page.first = w.nodes.next
  nodes_eq : v.nodes = w'.nodes
  registries_eq : v.registries = w'.registries
  recorders_eq : v.recorders = w'.recorders
  app : v.apps.get? id = some page.app
  apps_eq : ∀ other, .app other ∈ base.held → other ≠ id → v.apps.get? other = w'.apps.get? other
  content : page.app.mounted? = some page.root
  heldPerm : v.held.Perm (extra ++ base.held)
  extra : ∀ held ∈ extra, held = .node page.root
  surface : ∃ surface, v.hosts.get? page.app.host = some (.surface surface)

namespace Unveils

variable {outline : Outline} (h : Unveils base id page extra outline w w' v)
  (hvacant : base.Vacant id)

include h

theorem held_of_base {held : Root} (hmem : held ∈ base.held) : held ∈ v.held :=
  h.heldPerm.mem_iff.mpr (List.mem_append_right _ hmem)

theorem apps_of_base (other : AppId) (hother : .app other ∈ base.held) (hne : other ≠ id) :
    v.apps.get? other = base.apps.get? other :=
  ((h.apps_eq other hother hne).trans (h.reveals.apps other (h.held _ hother))).trans
    (h.apps other hother hne)

theorem lasting {n : NodeId} (hn : n ∈ outline.ids) : base.Lasting page n :=
  .inr (h.outline_ids ▸ hn)

theorem inner_eq : outline.inner = page.inner :=
  (List.cons_inj_right page.root).mp (h.content_unfolds.ids_eq.symm.trans h.outline_ids)

theorem next_sweep_eq : v.sweep.nodes.next = w'.nodes.next := by rw [next_sweep, h.nodes_eq]

theorem fresh {n : Nat} (hlow : page.first ≤ n) (hhigh : n < v.sweep.nodes.next) : w.Fresh w' n :=
  ⟨h.first ▸ hlow, h.next_sweep_eq ▸ hhigh⟩

theorem listing_sweep : v.sweep.Listing := by
  obtain ⟨node, hnode⟩ := h.live (.inr List.mem_cons_self : base.Lasting page page.root)
  have hregistry := (h.nodes page.root List.mem_cons_self node hnode).1
  have hlisting := h.reveals.listing
    (fun _ heq ↦ heq ▸ hregistry ▸ h.listing.exists_registry page.root node hnode) h.listing
  refine hlisting.of_registries h.next_sweep_eq (fun n node hnode ↦ ⟨node, ?_, rfl⟩)
    (fun r hr ↦ ?_) fun r ↦ ?_
  · rw [← node?_of_sweep hnode]
    exact congrArg (fun nodes ↦ nodes.get? n) h.nodes_eq.symm
  · exact (congrArg (fun registries ↦ registries.contains r) h.registries_eq).trans hr
  · exact congrArg (fun registries ↦ ((registries.get? r).getD default).entries) h.registries_eq

include hvacant

/-- What there was before, the content and its new forms are left by a sweep. -/
theorem node?_sweep {n : NodeId} (hn : base.Lasting page n ∨ w.Fresh w' n) :
    v.sweep.node? n = w'.node? n := by
  have hroot : v.Rooted page.root :=
    .inr ⟨id, page.app, h.held_of_base hvacant.held, h.app, h.content⟩
  refine h.reveals.node?_sweep h.content_unfolds (fun n ↦ h.lasting) h.nodes_eq hroot ?_ hn
  exact h.supported hvacant
    (fun _ ↦ hvacant.rooted h.apps_of_base fun _ ↦ h.held_of_base) hroot

/-- Nodes that last are still there with their content, mounted as before but for the root. -/
theorem exists_matches {n : NodeId} {node : Node} (hn : base.Lasting page n)
    (hnode : w.node? n = some node) : ∃ node', v.sweep.node? n = some node' ∧
      node.Matches node' ∧ (n ≠ page.root → node'.mounting? = node.mounting?) := by
  obtain ⟨node', hnode', hmatches, hmounting⟩ := h.reveals.nodes n node hn hnode
  exact ⟨node', (h.node?_sweep hvacant (.inl hn)).trans hnode', hmatches, hmounting⟩

/-- Whatever else there was is gone, if it has ranks from owner to owned. -/
theorem lasting_of_node? {rank : NodeId → Nat}
    (hrank : ∀ parent n, ¬base.Lasting page parent → w.Owns (fun _ ↦ False) parent n →
      rank n < rank parent) {n : Nat} {node : Node} (hnode : v.sweep.node? n = some node) :
    base.Lasting page n ∨ w.Fresh w' n := by
  by_contra hnot
  have hgone := h.reveals.node?_sweep_eq_none h.content_unfolds (fun n ↦ h.lasting) (fun _ ↦ h.live)
    h.nodes_eq (fun n hn ↦ .inl (hvacant.lasting_of_rooted h.apps_of_base h.app h.content h.heldPerm
      h.extra hn)) (fun _ _ ↦ h.lasting_of_owns hvacant) hrank hnot
  rw [hgone] at hnode
  cases hnode

theorem stocks_sweep : Stocks base id page v.sweep where
  listing := h.listing_sweep
  contains := fun registry ↦ by
    show v.registries.contains registry = _
    rw [h.registries_eq, h.reveals.contains, h.contains]
  held := fun _ ↦ h.held_of_base
  apps := fun other hother hne ↦
    (apps_sweep (h.held_of_base hother)).trans (h.apps_of_base other hother hne)
  recorders := fun recorder hrecorder ↦ by
    rw [recorders_sweep (h.held_of_base hrecorder), h.recorders_eq,
      h.reveals.recorders recorder (h.held _ hrecorder), h.recorders recorder hrecorder]
  before := fun n node hnode ↦ by
    obtain ⟨middle, hmiddle, hfirst, hmounting⟩ := h.before n node hnode
    obtain ⟨node', hnode', hlast, hmounting'⟩ :=
      h.exists_matches hvacant (.inl ⟨node, hnode⟩) hmiddle
    exact ⟨node', hnode', hfirst.trans hlast, (hmounting' (h.ne_root hnode)).trans hmounting⟩
  unfolds := by
    obtain ⟨outline', hunfolds, hids, hshape⟩ := h.content_unfolds.exists_of_content v.sweep
      fun n hn node hnode ↦ by
        obtain ⟨node', hnode', hmatches, -⟩ := h.exists_matches hvacant (h.lasting hn) hnode
        exact ⟨node', hnode', hmatches.kind, hmatches.content⟩
    exact ⟨outline', hunfolds, hids.trans h.outline_ids, hshape.trans h.outline_shape⟩
  nodup := h.nodup
  ids := h.ids
  nodes := fun n hn node' hnode' ↦ by
    obtain ⟨node, hnode⟩ := h.live (.inr hn)
    obtain ⟨same, hsame, hmatches, hmounting⟩ := h.exists_matches hvacant (.inr hn) hnode
    obtain rfl : node' = same := Option.some.inj (hnode'.symm.trans hsame)
    obtain ⟨hregistry, hunmounted⟩ := h.nodes n hn node hnode
    exact ⟨hmatches.registry.trans hregistry, fun hne ↦ (hmounting hne).trans (hunmounted hne)⟩

/-- A sweep leaves a world that shows the page. -/
theorem bears_sweep (rank : NodeId → Nat)
    (hrank : ∀ parent n, ¬base.Lasting page parent → w.Owns (fun _ ↦ False) parent n →
      rank n < rank parent) : Bears base id page extra v.sweep :=
  { h.stocks_sweep hvacant with
    app := (apps_sweep (h.held_of_base hvacant.held)).trans h.app
    content := h.content
    surface := h.surface
    heldPerm := h.heldPerm
    lt_first := fun n hn ↦ by
      obtain ⟨node, hnode⟩ := h.live (.inr hn)
      rw [h.first]
      exact lt_next_of_node? hnode
    next := by
      rw [h.next_sweep_eq, h.reveals.next, h.first, ← h.outline_shape, Outline.forms_shape]
    forms := fun n hlow hhigh ↦ by
      obtain ⟨form, hform, hisForm⟩ := h.reveals.fresh n (h.fresh hlow hhigh)
      rw [h.inner_eq, ← h.first] at hisForm
      exact ⟨form, (h.node?_sweep hvacant (.inr (h.fresh hlow hhigh))).trans hform, hisForm⟩
    owned := fun n hlow hhigh ↦ by
      refine (h.reveals.owned n (h.fresh hlow hhigh)).imp_right ?_
      rintro ⟨parent, hparent, owner, howner, hmem⟩
      exact ⟨parent, h.first ▸ hparent.1, h.next_sweep_eq ▸ hparent.2, owner,
        (h.node?_sweep hvacant (.inr hparent)).trans howner, hmem⟩
    mounted := by
      obtain ⟨node, hnode, hmounting⟩ := h.reveals.mounted
      exact ⟨node, (h.node?_sweep hvacant (.inl (.inr List.mem_cons_self))).trans hnode, hmounting⟩
    place := h.reveals.eq_or_fresh.imp_right fun hnew ↦
      ⟨h.first ▸ hnew.1, h.next_sweep_eq ▸ hnew.2⟩
    only := fun n node hnode ↦ by
      rcases h.lasting_of_node? hvacant hrank hnode with (hbefore | hn) | hnew
      · exact .inl hbefore
      · exact .inr (.inl hn)
      · exact .inr (.inr (h.first ▸ hnew.1)) }

end Unveils

/-- Beside what there was before, owners have higher ranks than what they own: inner nodes stand
below the forms, forms below younger ones, and all below the root. -/
theorem Bears.exists_rank (h : Bears base id page extra w) :
    ∃ rank : NodeId → Nat, ∀ parent n, base.node? parent = none →
      w.Owns (fun _ ↦ False) parent n → rank n < rank parent := by
  obtain ⟨outline, hunfolds, houtline, -⟩ := h.unfolds
  obtain ⟨height, hheight, hhighest⟩ := hunfolds.exists_height
  rw [houtline] at hheight hhighest
  let top := height page.root
  let rank (n : Nat) : Nat :=
    if n = page.root then top + w.nodes.next + 1
    else if page.first ≤ n then top + n + 1 else height n
  have hinner {n : Nat} (hn : n ∈ page.ids) (hne : n ≠ page.root) : rank n = height n := by
    have hlt := h.lt_first n hn
    simp only [rank, if_neg hne, if_neg (Nat.not_le.mpr hlt)]
  have hrootLt : page.root < page.first := h.lt_first page.root List.mem_cons_self
  have hform {n : Nat} (hn : page.first ≤ n) : rank n = top + n + 1 := by
    have hne : n ≠ page.root := fun heq ↦ absurd (heq ▸ hn) (Nat.not_le.mpr hrootLt)
    simp only [rank, if_neg hne, if_pos hn]
  have hroot : rank page.root = top + w.nodes.next + 1 := if_pos rfl
  refine ⟨rank, fun parent n hparent howns ↦ ?_⟩
  rcases h.owns_cases howns with ⟨old, hold⟩ | ⟨hids, hn, hcontains⟩ | ⟨rfl, hlow, hhigh⟩ |
    ⟨hlater, -, hbelow | ⟨hlow, hlt⟩⟩
  · rw [hold] at hparent
    cases hparent
  · have hlower := hheight parent hids n hcontains
    have hbelowTop := hhighest parent hids
    have hne : n ≠ page.root := by
      rintro rfl
      exact absurd hbelowTop (Nat.not_le.mpr hlower)
    rw [hinner hn hne]
    by_cases hself : parent = page.root
    · rw [hself, hroot]
      omega
    · rwa [hinner hids hself]
  · rw [hform hlow, hroot]
    omega
  · have hn : n ∈ page.ids := List.mem_cons_of_mem _ hbelow
    have hne : n ≠ page.root := by
      rintro rfl
      exact (List.nodup_cons.mp h.nodup).1 hbelow
    have hbelowTop := hhighest n hn
    rw [hinner hn hne, hform hlater]
    omega
  · rw [hform hlow, hform hlater]
    omega

end World

end LiveMarkup
