import LiveMarkup.Proofs.Pages.Bearing
import LiveMarkup.Proofs.Pages.Delivery

/-!
One page in place of another. Where there is room for a page (`World.Clears`), as before the first
one and also while one is shown, a tree that a renderer builds becomes the page that is shown, and
all that was shown before is gone (`World.Clears.exists_show`): by a rendering on what the surface
shows (`World.Clears.exists_renderPage`), by a refresh on an empty surface
(`World.Clears.exists_refreshPage`).
-/

set_option autoImplicit false
set_option relaxedAutoImplicit false

namespace LiveMarkup.World

variable {σ : Type} {base w built : World σ} {id : AppId} {app : App} {page : Exhibit}
  {extra : List Root} {root : NodeId} {outline : Outline} {surface : Surface}

/-! ### Room for a page -/

/-- What there was before pages were shown is there. Of the rest, owners have higher ranks than what
they own, so that it goes when its root does. -/
structure Clears (base : World σ) (id : AppId) (app : App) (w : World σ) : Prop where
  sound : w.Sound
  contains : ∀ registry, w.registries.contains registry = base.registries.contains registry
  heldPerm : w.held.Perm base.held
  apps : ∀ other, .app other ∈ base.held → other ≠ id → w.apps.get? other = base.apps.get? other
  recorders : ∀ recorder, .recorder recorder ∈ base.held →
    w.recorders.get? recorder = base.recorders.get? recorder
  before : ∀ n node, base.node? n = some node → ∃ node', w.node? n = some node' ∧
    node.Matches node' ∧ node'.mounting? = node.mounting?
  app : w.apps.get? id = some app
  next : base.nodes.next ≤ w.nodes.next
  ranks : ∃ rank : NodeId → Nat, ∀ parent n, base.node? parent = none →
    w.Owns (fun _ ↦ False) parent n → rank n < rank parent

theorem Vacant.clears (h : base.Vacant id) (happ : base.apps.get? id = some app) :
    Clears base id app base where
  sound := h.sound
  contains := fun _ ↦ rfl
  heldPerm := .refl _
  apps := fun _ _ _ ↦ rfl
  recorders := fun _ _ ↦ rfl
  before := fun _ node hnode ↦ ⟨node, hnode, .refl node, rfl⟩
  app := happ
  next := Nat.le_refl _
  ranks := by
    refine ⟨fun _ ↦ 0, fun parent n hparent howns ↦ ?_⟩
    obtain ⟨owner, howner, -⟩ := howns
    rw [hparent] at howner
    cases howner

theorem Bears.clears (h : Bears base id page [] w) (hvacant : base.Vacant id) :
    Clears base id page.app w :=
  { h.toStocks with
    sound := h.sound hvacant
    heldPerm := h.heldPerm
    app := h.app
    next := by
      have hroot := h.ids page.root List.mem_cons_self
      have hfirst := h.lt_first page.root List.mem_cons_self
      rw [h.next]
      omega
    ranks := h.exists_rank }

/-- A tree that was built where there is room can be shown as a page. -/
theorem Clears.stocks (h : Clears base id app w)
    (hbuilds : w.Builds app.registry root outline built)
    (hosts : Table Host) (shown : App) (hregistry : shown.registry = app.registry)
    (form first : Nat) :
    Stocks base id ⟨shown, root, outline.inner, outline.shape, form, first⟩
      { built with hosts := hosts } where
  listing := (hbuilds.listing h.sound.listing).of_nodes rfl (fun _ hr ↦ hr) fun _ ↦ rfl
  contains := fun registry ↦ (hbuilds.contains registry).trans (h.contains registry)
  held := fun held hheld ↦
    hbuilds.held.mem_iff.mpr (List.mem_cons_of_mem _ (h.heldPerm.mem_iff.mpr hheld))
  apps := fun other hother hne ↦ by
    show built.apps.get? other = _
    rw [hbuilds.apps other (h.heldPerm.mem_iff.mpr hother), h.apps other hother hne]
  recorders := fun recorder hrecorder ↦ by
    show built.recorders.get? recorder = _
    rw [hbuilds.recorders recorder (h.heldPerm.mem_iff.mpr hrecorder),
      h.recorders recorder hrecorder]
  before := fun n node hnode ↦ by
    obtain ⟨node', hnode', hmatches, hmounting⟩ := h.before n node hnode
    exact ⟨node', (hbuilds.old n (lt_next_of_node? hnode')).trans hnode', hmatches, hmounting⟩
  unfolds := ⟨outline, hbuilds.unfolds.changeHosts hosts built.client, hbuilds.unfolds.ids_eq, rfl⟩
  nodup := by
    show (root :: outline.inner).Nodup
    rw [← hbuilds.unfolds.ids_eq]
    exact hbuilds.nodup
  ids := fun n hn ↦ by
    have hfresh := ((hbuilds.ids n).mp (hbuilds.unfolds.ids_eq ▸ hn)).1
    exact Nat.le_trans h.next hfresh.1
  nodes := fun n hn node hnode ↦ by
    obtain ⟨hsame, hunmounted⟩ := hbuilds.nodes n (hbuilds.unfolds.ids_eq ▸ hn) node hnode
    exact ⟨hsame.trans hregistry.symm, fun _ ↦ hunmounted⟩

/-- Where a tree was built, too, what does not last has ranks. -/
theorem Clears.exists_rank (h : Clears base id app w)
    (hbuilds : w.Builds app.registry root outline built) :
    ∃ rank : NodeId → Nat, ∀ (parent : Nat) n, base.node? parent = none → parent ∉ outline.ids →
      built.Owns (fun _ ↦ False) parent n → rank n < rank parent := by
  obtain ⟨rank, hrank⟩ := h.ranks
  refine ⟨rank, fun parent n hparent hnew howns ↦ hrank parent n hparent ?_⟩
  obtain ⟨owner, howner, howned⟩ := howns
  have hold : parent < w.nodes.next := by
    by_contra hlater
    exact hnew ((hbuilds.ids parent).mpr
      ⟨⟨Nat.le_of_not_lt hlater, lt_next_of_node? howner⟩, owner, howner⟩)
  exact ⟨owner, (hbuilds.old parent hold).symm.trans howner, howned⟩

/-! ### Showing a page -/

/-- A tree that was built is shown as a page, and the surface ends with its markup. -/
structure Shown (base : World σ) (id : AppId) (app : App) (root : NodeId) (outline : Outline)
    (surface : Surface) (built w : World σ) : Prop where
  bears : ∃ form first, built.nodes.next ≤ first ∧
    Bears base id ⟨app, root, outline.inner, outline.shape, form, first⟩ [] w
  ages : built.Ages w
  observables : w.observables = built.observables
  nodes : ∀ n ∈ outline.ids, ∀ node, built.node? n = some node →
    ∃ node', w.node? n = some node' ∧ node.Matches node'
  surface : ∃ text, w.hosts.get? app.host = some (.surface (surface.append text))

/-- A tree that was built and displayed becomes the content of the application, which keeps it from
then on. -/
theorem Clears.unveils (h : Clears base id app w) (hvacant : base.Vacant id)
    (hbuilds : w.Builds app.registry root outline built) {hosts : Table Host} {form : Nat}
    {mounted : World σ}
    (hreveals : Reveals
      (base.Lasting ⟨{ app with mounted? := some root }, root, outline.inner, outline.shape, form,
        built.nodes.next⟩)
      (· = app.registry) outline root app.host form { built with hosts := hosts } mounted)
    (hsurface : ∃ surface, mounted.hosts.get? app.host = some (.surface surface)) :
    Unveils base id
      ⟨{ app with mounted? := some root }, root, outline.inner, outline.shape, form,
        built.nodes.next⟩
      [] outline { built with hosts := hosts } mounted
      { mounted.modifyApp id fun app ↦ { app with mounted? := some root } with
        held := (mounted.held.erase (.node form)).erase (.node root) } := by
  have hunfolds : World.Unfolds { built with hosts := hosts } root outline :=
    hbuilds.unfolds.changeHosts hosts built.client
  refine
    { h.stocks hbuilds hosts { app with mounted? := some root } rfl form built.nodes.next with
      content_unfolds := hunfolds
      outline_ids := hunfolds.ids_eq
      outline_shape := rfl
      reveals := hreveals
      first := rfl
      nodes_eq := rfl
      registries_eq := rfl
      recorders_eq := rfl
      app := ?_
      apps_eq := fun other _ hne ↦ ?_
      content := rfl
      heldPerm := ?_
      extra := fun _ hheld ↦ absurd hheld List.not_mem_nil
      surface := hsurface }
  · have hheld : .app id ∈ w.held := h.heldPerm.mem_iff.mpr hvacant.held
    have hstill : .app id ∈ built.held := hbuilds.held.mem_iff.mpr (List.mem_cons_of_mem _ hheld)
    show (mounted.apps.modify id _).get? id = _
    rw [Table.get?_modify, if_pos rfl, hreveals.apps id hstill]
    show (built.apps.get? id).map _ = _
    rw [hbuilds.apps id hheld, h.app]
    rfl
  · show (mounted.apps.modify id _).get? other = _
    rw [Table.get?_modify, if_neg hne.symm]
  · have hform := erase_perm hreveals.held
    exact (erase_perm (hform.trans hbuilds.held)).trans h.heldPerm

variable [Journal σ] {client : Client σ}

/-- A tree that was built where there is room is shown as a page. -/
theorem Clears.exists_show (h : Clears base id app w) (hvacant : base.Vacant id)
    (hbuilds : w.Builds app.registry root outline built) {hosts : Table Host}
    (hhost : hosts.get? app.host = some (.surface surface)) :
    ∃ w', showContent { built with hosts := hosts } id app.host root = .ok w' ∧
      Shown base id { app with mounted? := some root } root outline surface built w' := by
  let start : World σ := { built with hosts := hosts }
  let page (form : Nat) : Exhibit :=
    ⟨{ app with mounted? := some root }, root, outline.inner, outline.shape, form,
      start.nodes.next⟩
  have hstocks (form : Nat) : Stocks base id (page form) start :=
    h.stocks hbuilds hosts { app with mounted? := some root } rfl form start.nodes.next
  have hunfolds : start.Unfolds root outline := hbuilds.unfolds.changeHosts hosts built.client
  have hids (form : Nat) : outline.ids = (page form).ids := hunfolds.ids_eq
  have hroot : .node root ∈ start.held := hbuilds.held.mem_iff.mpr List.mem_cons_self
  obtain ⟨form, rendered, mounted, hmount, hreveals, -, -, hhosts⟩ :=
    exists_mount_reveals (· = app.registry) hroot hunfolds
      ((hstocks 0).supports hvacant (.inl hroot)) (fun n hn ↦ .inr (hids 0 ▸ hn))
      (fun _ _ _ ↦ (hstocks 0).registry_of_mem hunfolds (hids 0)) hhost
  have hsurface : mounted.hosts.get? app.host =
      some (.surface (surface.append (rendered.tree start.displayOf).markup)) := by
    rw [hhosts, Table.get?_modify, if_pos rfl, hhost]
    rfl
  -- the form plays no part in what lasts
  have hlasting : Reveals (base.Lasting (page form)) (· = app.registry) outline root app.host form
      start mounted := hreveals
  have hunveils := h.unveils hvacant hbuilds hlasting ⟨_, hsurface⟩
  let dropped : World σ :=
    { mounted.modifyApp id fun app ↦ { app with mounted? := some root } with
      held := (mounted.held.erase (.node form)).erase (.node root) }
  obtain ⟨rank, hrank⟩ := h.exists_rank hbuilds
  have hranks (parent n : NodeId) (hparent : ¬base.Lasting (page form) parent)
      (howns : start.Owns (fun _ ↦ False) parent n) : rank n < rank parent :=
    hrank parent n (node?_of_not_lasting hparent) (fun hmem ↦ hparent (.inr (hids form ▸ hmem)))
      howns
  refine ⟨dropped.sweep, ?_, ⟨form, _, Nat.le_refl _, hunveils.bears_sweep hvacant rank hranks⟩, ?_,
    hreveals.observables, fun n hn node hnode ↦ ?_, _, hsurface⟩
  · show showContent start id app.host root = _
    rw [showContent, hmount]
    rfl
  · have hbuilt : built.Ages start := .of_eq rfl rfl
    have hdropped : mounted.Ages dropped := .of_eq rfl rfl
    exact ((hbuilt.trans hreveals.ages).trans hdropped).trans (.sweep dropped)
  · obtain ⟨node', hnode', hmatches, -⟩ :=
      hunveils.exists_matches hvacant (.inr (hids form ▸ hn)) hnode
    exact ⟨node', hnode', hmatches⟩

/-! ### Rendering and refreshing -/

omit [Journal σ] in
/-- The same page is shown when something else is changed about the application. -/
theorem Bears.modifyApp (h : Bears base id page extra w) {f : App → App}
    (hhost : (f page.app).host = page.app.host)
    (hregistry : (f page.app).registry = page.app.registry)
    (hmounted : (f page.app).mounted? = page.app.mounted?) (client : σ) :
    Bears base id { page with app := f page.app } extra
      { w.modifyApp id f with client := client } :=
  { h with
    listing := h.listing.of_nodes rfl (fun _ hr ↦ hr) fun _ ↦ rfl
    apps := fun other hother hne ↦ by
      show (w.apps.modify id f).get? other = _
      rw [Table.get?_modify, if_neg hne.symm, h.apps other hother hne]
    unfolds := by
      obtain ⟨outline, hunfolds, hids, hshape⟩ := h.unfolds
      exact ⟨outline, hunfolds.of_nodes fun _ _ ↦ rfl, hids, hshape⟩
    nodes := fun n hn node hnode ↦ by
      obtain ⟨hsame, hunmounted⟩ := h.nodes n hn node hnode
      exact ⟨hsame.trans hregistry.symm, hunmounted⟩
    app := by
      show (w.apps.modify id f).get? id = _
      rw [Table.get?_modify, if_pos rfl, h.app, Option.map_some]
    content := hmounted.trans h.content
    surface := by
      show ∃ surface, w.hosts.get? (f page.app).host = _
      rw [hhost]
      exact h.surface
    forms := fun n hlow hhigh ↦ by
      obtain ⟨form, hform, hisForm⟩ := h.forms n hlow hhigh
      exact ⟨form, hform, { hisForm with registry := hisForm.registry.trans hregistry.symm }⟩
    mounted := by
      show w.MountedAs page.root (f page.app).host page.form
      rw [hhost]
      exact h.mounted }

/-- The page is shown when it becomes the current one. -/
theorem Shown.exists_setCurrent (h : Shown base id app root outline surface built w)
    (name : String) :
    ∃ signal, Shown base id { app with current? := some name, signal := signal } root outline
      surface built (w.setCurrent id name) := by
  obtain ⟨form, first, hfirst, hbears⟩ := h.bears
  obtain ⟨client, hcurrent⟩ := setCurrent_eq hbears.app name
  rw [hcurrent]
  let rename (app : App) : App :=
    { app with current? := some name, signal := { app.signal with value? := some name } }
  have hrenamed := hbears.modifyApp (f := rename) rfl rfl rfl client
  exact ⟨(rename app).signal, ⟨form, first, hfirst, hrenamed⟩, h.ages.trans (.of_eq rfl rfl),
    h.observables, h.nodes, h.surface⟩

/-- A page whose renderer builds a tree is rendered on what the surface shows. -/
theorem Clears.exists_renderPage (h : Clears base id app w) (hvacant : base.Vacant id)
    {name : String} {page : Page} (hpage : app.pages.get? name = some page)
    (hcall : client.page page.renderer app.registry w = .ok (some root, built))
    (hbuilds : w.Builds app.registry root outline built)
    (hhost : w.hosts.get? app.host = some (.surface surface)) :
    ∃ signal w', w.renderPage client id name = .ok (true, w') ∧
      Shown base id { app with mounted? := some root, current? := some name, signal := signal } root
        outline surface built w' := by
  have hbuilt : built.hosts.get? app.host = some (.surface surface) := hbuilds.hosts ▸ hhost
  obtain ⟨w', hshow, hshown⟩ := h.exists_show hvacant hbuilds hbuilt
  obtain ⟨signal, hcurrent⟩ := hshown.exists_setCurrent name
  refine ⟨signal, w'.setCurrent id name, ?_, hcurrent⟩
  have hcontent : w.pageContent client app name page = .ok (root, built) := by
    rw [pageContent, hcall]
    rfl
  rw [renderPage, h.app]
  dsimp only
  rw [hpage]
  dsimp only
  rw [hcontent]
  show (built.showContent id app.host root >>= _) = _
  rw [hshow]
  rfl

/-- The current page is refreshed on an empty surface. -/
theorem Clears.exists_refreshPage (h : Clears base id app w) (hvacant : base.Vacant id)
    {name : String} {page : Page} (hcurrent : app.current? = some name)
    (hpage : app.pages.get? name = some page)
    (hcall : client.page page.renderer app.registry w = .ok (some root, built))
    (hbuilds : w.Builds app.registry root outline built)
    (hhost : w.hosts.get? app.host = some (.surface surface)) :
    ∃ w', w.refreshPage client id = .ok (true, w') ∧
      Shown base id { app with mounted? := some root } root outline (surface.replace "") built
        w' := by
  have hbuilt : built.hosts.get? app.host = some (.surface surface) := hbuilds.hosts ▸ hhost
  obtain ⟨w', hshow, hshown⟩ :=
    h.exists_show hvacant hbuilds (hosts_setSurface hbuilt (surface.replace ""))
  refine ⟨w', ?_, hshown⟩
  have hcontent : w.pageContent client app name page = .ok (root, built) := by
    rw [pageContent, hcall]
    rfl
  have hreplace : built.replace app.host "" = built.setSurface app.host (surface.replace "") := by
    rw [replace, host_eq hbuilt]
  rw [refreshPage, h.app]
  dsimp only
  rw [hcurrent, Option.bind_some, hpage]
  dsimp only [Option.map_some]
  rw [hcontent]
  show ((built.replace app.host "").showContent id app.host root >>= _) = _
  rw [hreplace]
  exact congrArg (· >>= _) hshow

end LiveMarkup.World
