import LiveMarkup.Proofs.Calls.Enrolment
import LiveMarkup.Proofs.Pages.Bearing

/-!
What keeps a page up. A refresh of the root of a page, as after a mutation, gives it new forms and
drops the old ones (`World.Bears.exists_refresh_root`); the refresh of what was there before and is
displayed as itself creates nothing (`World.Bears.exists_refresh_itself`). So the page is still
shown when the targets of an observable were refreshed that are its root or idle
(`World.Bears.exists_notifyAll`).
-/

set_option autoImplicit false
set_option relaxedAutoImplicit false

namespace LiveMarkup

theorem Outline.forms_eq_zero {id : NodeId} {self : Node} {content : List Outline}
    (h : self.kind.rendersAsItself = true) : (node id self content).forms = 0 := by
  rw [forms]
  cases hkind : self.kind <;> simp_all [Kind.rendersAsItself]

namespace World

variable {σ : Type} [Journal σ] {base w w' : World σ} {id : AppId} {page : Exhibit}
  {extra : List Root} {client : Client σ}

/-! ### Refreshing the root -/

/-- A refresh of the root renews the forms of the page. -/
theorem Bears.exists_refresh_root (h : Bears base id page extra w) (hvacant : base.Vacant id)
    (hextra : ∀ held ∈ extra, held = .node page.root) (hheld : .node page.root ∈ w.held) :
    ∃ form first w', w.refresh page.root = .ok w' ∧
      Bears base id { page with form := form, first := first } extra w' ∧
      w'.observables = w.observables := by
  obtain ⟨outline, hunfolds, hids, hshape⟩ := h.unfolds
  obtain ⟨node, hnode, hmounting⟩ := h.mounted
  obtain ⟨form, shown, hrefresh, hreveals, hsurfaces⟩ :=
    exists_refresh_reveals (· = page.app.registry) hheld hunfolds
      (h.supports hvacant (h.rooted hvacant)) (fun n hn ↦ .inr (hids ▸ hn))
      (fun _ _ _ ↦ h.registry_of_mem hunfolds hids) hnode hmounting
  obtain ⟨rank, hrank⟩ := h.exists_rank
  let dropped : World σ := { shown with held := shown.held.erase (.node form) }
  have hunveils : Unveils base id { page with form := form, first := w.nodes.next } extra outline w
      shown dropped := by
    obtain ⟨surface, hsurface⟩ := h.surface
    exact
      { h.toStocks with
        content_unfolds := hunfolds
        outline_ids := hids
        outline_shape := hshape
        reveals := hreveals
        first := rfl
        nodes_eq := rfl
        registries_eq := rfl
        recorders_eq := rfl
        app := (hreveals.apps id (h.held _ hvacant.held)).trans h.app
        apps_eq := fun _ _ _ ↦ rfl
        content := h.content
        heldPerm := (erase_perm hreveals.held).trans h.heldPerm
        extra := hextra
        surface := hsurfaces _ surface hsurface }
  exact ⟨form, w.nodes.next, dropped.sweep, hrefresh,
    hunveils.bears_sweep hvacant rank fun parent n hparent ↦
      hrank parent n (node?_of_not_lasting hparent),
    hreveals.observables⟩

/-! ### Refreshing what is displayed as itself -/

/-- A refresh of a node that was there before and is displayed as itself changes nothing. -/
theorem Bears.exists_refresh_itself (h : Bears base id page extra w) (hvacant : base.Vacant id)
    {n : NodeId} {node : Node} (hnode : base.node? n = some node) {host : HostId}
    (hmounting : node.mounting? = some ⟨host, .itself⟩) (hkind : node.kind.rendersAsItself = true)
    {outline : Outline} (hunfolds : base.Unfolds n outline) (hheld : .node n ∈ w.held) :
    ∃ w', w.refresh n = .ok w' ∧ Bears base id page extra w' ∧ w'.observables = w.observables := by
  obtain ⟨now, hnow, hmatches, hmountingNow⟩ := h.before n node hnode
  obtain ⟨outline', hunfolds', -, -⟩ := hunfolds.exists_of_content w fun m _ node hnode ↦ by
    obtain ⟨node', hnode', hmatches, -⟩ := h.before m node hnode
    exact ⟨node', hnode', hmatches.kind, hmatches.content⟩
  have hforms : outline'.forms = 0 := by
    obtain ⟨same, parts, hsame, -, rfl⟩ := unfolds_iff.mp hunfolds'
    obtain rfl := Option.some.inj (hnow.symm.trans hsame)
    refine Outline.forms_eq_zero ?_
    show now.kind.rendersAsItself = true
    rw [hmatches.kind, hkind]
  have hwrapper : now.wrapper? = none := by
    rw [Node.wrapper?, hmountingNow, hmounting]
  have hsupports : w.Supports (· = n) fun m ↦ ∃ node, w.node? m = some node := by
    intro m hm
    obtain ⟨hlive, hsupport⟩ := h.supports_all hvacant m hm
    refine ⟨hlive, hsupport.imp_right ?_⟩
    rintro ⟨parent, hparent, owner, howner, howned⟩
    refine ⟨parent, hparent, owner, howner, ?_⟩
    rcases howned with hcontent | ⟨-, hwraps⟩
    · exact .inl hcontent
    · refine .inr ⟨?_, hwraps⟩
      rintro rfl
      obtain rfl := Option.some.inj (hnow.symm.trans howner)
      rw [hwrapper] at hwraps
      cases hwraps
  have hlive (m : NodeId) (hm : m ∈ outline'.ids) : ∃ node, w.node? m = some node :=
    hunfolds'.live m (hunfolds'.mem_ids_iff.mp hm)
  obtain ⟨form, shown, hrefresh, hreveals, hsurfaces⟩ :=
    exists_refresh_reveals (fun r ↦ w.registries.contains r = true) hheld hunfolds'
      hsupports hlive (fun m self content hpart ↦ by
        obtain ⟨node, hnode, rfl⟩ := Option.map_eq_some_iff.mp (hunfolds'.bare_of_mem hpart)
        exact h.listing.exists_registry m node hnode) hnow (hmountingNow.trans hmounting)
  have hplace := hreveals.place
  rw [if_pos hforms] at hplace
  subst hplace
  have hnext : shown.nodes.next = w.nodes.next := by rw [hreveals.next, hforms, Nat.add_zero]
  let dropped : World σ := { shown with held := shown.held.erase (.node form) }
  have hdropped : Bears base id page extra dropped := by
    refine h.of_matches hnext hvacant.held (fun app happ ↦ hreveals.apps app (h.held _ happ))
      (fun recorder hrecorder ↦ hreveals.recorders recorder (h.held _ hrecorder)) hsurfaces
      ((erase_perm hreveals.held).trans h.heldPerm) (fun m before hbefore ↦ ?_)
      (fun m after hafter ↦ ?_) hreveals.contains ?_
    · obtain ⟨after, hafter, hmatches, hsame⟩ := hreveals.nodes m before ⟨before, hbefore⟩ hbefore
      refine ⟨after, hafter, hmatches, ?_⟩
      by_cases hself : m = form
      · subst hself
        obtain ⟨mounted, hmounted, hitself⟩ := hreveals.mounted
        obtain rfl := Option.some.inj (hafter.symm.trans hmounted)
        obtain rfl := Option.some.inj (hnow.symm.trans hbefore)
        rw [hitself, if_pos rfl, hmountingNow, hmounting]
      · exact hsame hself
    · have hlt := lt_next_of_node? hafter
      obtain ⟨before, hbefore, -⟩ := hreveals.past m after (hnext ▸ hlt) hafter
      exact ⟨before, hbefore⟩
    · exact (hreveals.listing (fun _ hcontains ↦ hcontains) h.listing).of_nodes rfl (fun _ hr ↦ hr)
        fun _ ↦ rfl
  exact ⟨dropped.sweep, hrefresh, hdropped.sweep hvacant, hreveals.observables⟩

/-! ### Calls that do nothing -/

omit [Journal σ] in
/-- Nothing is different but the client and what hosts show. -/
structure Undisturbed (w w' : World σ) : Prop where
  surfaces : w.KeepsSurfaces w'
  eq : w' = { w with hosts := w'.hosts, client := w'.client }

omit [Journal σ] in
theorem Undisturbed.refl (w : World σ) : w.Undisturbed w :=
  ⟨fun _ surface hsurface ↦ ⟨surface, hsurface⟩, rfl⟩

omit [Journal σ] in
theorem Undisturbed.trans {w'' : World σ} (h : w.Undisturbed w') (h' : w'.Undisturbed w'') :
    w.Undisturbed w'' := by
  refine ⟨fun host surface hsurface ↦ ?_, by rw [h'.eq, h.eq]⟩
  obtain ⟨changed, hchanged⟩ := h.surfaces host surface hsurface
  exact h'.surfaces host changed hchanged

omit [Journal σ] in
/-- The page is shown where nothing else is different. -/
theorem Bears.undisturbed (h : Bears base id page extra w) (hvacant : base.Vacant id)
    (hsame : w.Undisturbed w') : Bears base id page extra w' := by
  have hsurfaces := hsame.surfaces
  rw [hsame.eq] at hsurfaces ⊢
  exact h.congr rfl hvacant.held (fun _ _ ↦ rfl) (fun _ _ ↦ rfl) hsurfaces h.heldPerm
    (fun _ ↦ rfl) rfl

omit [Journal σ] in
theorem Undisturbed.observables (h : w.Undisturbed w') : w'.observables = w.observables := by
  rw [h.eq]

omit [Journal σ] in
/-- A call that is answered, and does nothing but to hosts and to the client. -/
def Quiet (client : Client σ) (call : Call) : Prop :=
  ∀ w, ∃ w', client.call call w = .ok w' ∧ w.Undisturbed w'

/-! ### Telling targets -/

/-- A live target whose refresh creates nothing and changes no observable: a node that is not
mounted or is displayed as itself, or a recorder that calls back quietly. -/
inductive Idle (client : Client σ) (base : World σ) : Target → Prop where
  | unmounted {n : NodeId} {node : Node} (hnode : base.node? n = some node)
      (hmounting : node.mounting? = none) : Idle client base (.node n)
  | itself {n : NodeId} {node : Node} {host : HostId} {outline : Outline}
      (hnode : base.node? n = some node) (hmounting : node.mounting? = some ⟨host, .itself⟩)
      (hkind : node.kind.rendersAsItself = true) (hunfolds : base.Unfolds n outline) :
      Idle client base (.node n)
  | recorder {recorder : RecorderId} {handler : Handler}
      (hheld : .recorder recorder ∈ base.held)
      (hrecorder : base.recorders.get? recorder = some handler)
      (hquiet : Quiet client (.act handler)) : Idle client base (.recorder recorder)

/-- The page is shown as it was, but for its forms, and observables are as they were. -/
def Refreshed (base : World σ) (id : AppId) (page : Exhibit) (extra : List Root) (w w' : World σ) :
    Prop :=
  ∃ form first, Bears base id { page with form := form, first := first } extra w' ∧
    w'.observables = w.observables

omit [Journal σ] in
theorem Bears.isAlive_root (h : Bears base id page extra w) :
    w.isAlive (.node page.root) = true := by
  obtain ⟨node, hnode, -⟩ := h.mounted
  exact (w.nodes.isSome_get? page.root).symm.trans (Option.isSome_of_eq_some hnode)

omit [Journal σ] in
theorem Idle.isAlive {target : Target} (hidle : Idle client base target)
    (h : Bears base id page extra w) : w.isAlive target = true := by
  have hlive {n : NodeId} {node : Node} (hnode : base.node? n = some node) :
      w.isAlive (.node n) = true := by
    obtain ⟨now, hnow, -⟩ := h.before n node hnode
    exact (w.nodes.isSome_get? n).symm.trans (Option.isSome_of_eq_some hnow)
  cases hidle with
  | unmounted hnode => exact hlive hnode
  | itself hnode => exact hlive hnode
  | @recorder recorder handler hheld hrecorder =>
    exact (w.recorders.isSome_get? recorder).symm.trans
      (Option.isSome_of_eq_some ((h.recorders recorder hheld).trans hrecorder))

/-- A target that is the root of the page or idle is refreshed, and the page is still shown. -/
theorem Bears.exists_notify (h : Bears base id page [] w) (hvacant : base.Vacant id)
    {target : Target} (htarget : target = .node page.root ∨ Idle client base target) :
    ∃ w', w.notify client target = .ok w' ∧ Refreshed base id page [] w w' := by
  have hlive {n : NodeId} {node : Node} (hnode : w.node? n = some node) :
      w.nodes.contains n = true :=
    (w.nodes.isSome_get? n).symm.trans (Option.isSome_of_eq_some hnode)
  rcases htarget with rfl | hidle
  · obtain ⟨form, first, refreshed, hrefresh, hbears, hobservables⟩ :=
      (h.hold hvacant (.node page.root)).exists_refresh_root hvacant
        (fun _ ↦ List.mem_singleton.mp) List.mem_cons_self
    obtain ⟨node, hnode, -⟩ := h.mounted
    refine ⟨refreshed.release (.node page.root), ?_, form, first, hbears.release hvacant,
      hobservables⟩
    rw [notify, if_pos (hlive hnode), hrefresh]
    rfl
  · cases hidle with
    | @unmounted n node hnode hmounting =>
      obtain ⟨now, hnow, -, hsame⟩ := h.before n node hnode
      refine ⟨(w.hold (.node n)).release (.node n), ?_, page.form, page.first,
        (h.hold hvacant (.node n)).release hvacant, rfl⟩
      have hunmounted : ((w.hold (.node n)).node? n).bind Node.mounting? = none :=
        (congrArg (Option.bind · Node.mounting?) hnow).trans (hsame.trans hmounting)
      rw [notify, if_pos (hlive hnow), refresh_of_unmounted hunmounted]
      rfl
    | @itself n node host outline hnode hmounting hkind hunfolds =>
      obtain ⟨now, hnow, -⟩ := h.before n node hnode
      obtain ⟨refreshed, hrefresh, hbears, hobservables⟩ :=
        (h.hold hvacant (.node n)).exists_refresh_itself hvacant hnode hmounting hkind hunfolds
          List.mem_cons_self
      refine ⟨refreshed.release (.node n), ?_, page.form, page.first, hbears.release hvacant,
        hobservables⟩
      rw [notify, if_pos (hlive hnow), hrefresh]
      rfl
    | @recorder recorder handler hheld hrecorder hquiet =>
      obtain ⟨called, hcall, hsame⟩ := hquiet (w.hold (.recorder recorder))
      refine ⟨called.release (.recorder recorder), ?_, page.form, page.first,
        ((h.hold hvacant _).undisturbed hvacant hsame).release hvacant, hsame.observables⟩
      rw [notify, h.recorders recorder hheld, hrecorder]
      show (client.call (.act handler) (w.hold (.recorder recorder)) >>= _) = _
      rw [hcall]
      rfl

/-- All of several such targets are refreshed. -/
theorem Bears.exists_notifyAll (h : Bears base id page [] w) (hvacant : base.Vacant id)
    {targets : List Target}
    (htargets : ∀ target ∈ targets, target = .node page.root ∨ Idle client base target) :
    ∃ w', targets.foldlM (notify client) w = .ok w' ∧ Refreshed base id page [] w w' := by
  induction targets generalizing w page with
  | nil => exact ⟨w, rfl, page.form, page.first, h, rfl⟩
  | cons target targets ih =>
    obtain ⟨between, hnotify, form, first, hbears, hobservables⟩ :=
      h.exists_notify hvacant (htargets target List.mem_cons_self)
    obtain ⟨last, hrest, form', first', hlast, hobservables'⟩ :=
      ih hbears fun other hother ↦ htargets other (List.mem_cons_of_mem _ hother)
    refine ⟨last, ?_, form', first', hlast, hobservables'.trans hobservables⟩
    rw [List.foldlM_cons, hnotify]
    exact hrest

omit [Journal σ] in
/-- Quiet listeners are told a value. -/
theorem exists_announce {listeners : List Handler} {value : Value}
    (hquiet : ∀ handler ∈ listeners, Quiet client (.listen handler value)) (w : World σ) :
    ∃ w', w.announce client listeners value = .ok w' ∧ w.Undisturbed w' := by
  unfold announce
  induction listeners generalizing w with
  | nil => exact ⟨w, rfl, .refl w⟩
  | cons handler listeners ih =>
    obtain ⟨called, hcall, hfirst⟩ := hquiet handler List.mem_cons_self w
    obtain ⟨last, hrest, hlast⟩ :=
      ih (fun other hother ↦ hquiet other (List.mem_cons_of_mem _ hother)) called
    refine ⟨last, ?_, hfirst.trans hlast⟩
    rw [List.foldlM_cons, hcall]
    exact hrest

end World

end LiveMarkup
