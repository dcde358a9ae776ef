import LiveMarkup.Proofs.World.Revealing
import LiveMarkup.World.Paging

/-!
What page renderers deliver, and what becomes of it. A renderer builds content that unfolds, or
nothing, and keeps off the host and the application that it is called for (`World.Delivers`). The
content of the page is what it builds, or else a placeholder (`World.BuildsContent`), so that there
is content to show (`World.exists_buildsContent`), and it is shown: the surface ends with its
markup, and the application keeps it alive (`World.exists_showContent`).
-/

set_option autoImplicit false
set_option relaxedAutoImplicit false

namespace LiveMarkup.World

variable {σ : Type} {w w' : World σ}

/-! ### Renderers -/

/-- A world after the content of a page was built, if it was: it is held, no node in it holds itself
and all are alive; the host and the application are as they were. -/
structure Delivered (w w' : World σ) (id : AppId) (host : HostId) (content? : Option NodeId) :
    Prop where
  host : w'.hosts.get? host = w.hosts.get? host
  app : w'.apps.get? id = w.apps.get? id
  held : .app id ∈ w'.held
  content : ∀ content, content? = some content →
    .node content ∈ w'.held ∧ w'.Acyclic content ∧ w'.Live content

/-- The renderer of a page builds content, or nothing. -/
def Delivers (client : Client σ) (w : World σ) (id : AppId) (app : App) (page : Page) : Prop :=
  ∃ content? w', client.page page.renderer app.registry w = .ok (content?, w') ∧
    w.Delivered w' id app.host content?

variable [Journal σ]

omit [Journal σ] in
theorem Delivered.refl {id : AppId} (hid : .app id ∈ w.held) (host : HostId) :
    w.Delivered w id host none :=
  ⟨rfl, rfl, hid, fun _ hcontent ↦ by cases hcontent⟩

omit [Journal σ] in
/-- Where nothing was built, a plain node around a text may be. -/
theorem Delivered.added {id : AppId} {host : HostId} (h : w.Delivered w' id host none)
    (registry : RegistryId) (tag s : String) :
    w.Delivered (w'.added (w'.freshPlain registry tag ∅ [.text s]) false) id host
      (some w'.nodes.next) := by
  let node := w'.freshPlain registry tag ∅ [.text s]
  have hnode : (w'.added node false).node? w'.nodes.next = some node := by
    rw [node?_added, if_pos rfl]
  have hunfolds : (w'.added node false).Unfolds w'.nodes.next
      (.node w'.nodes.next node.bare [.leaf (.text s)]) :=
    unfolds_iff.mpr ⟨node, _, hnode, .cons rfl .nil, rfl⟩
  refine
    { host := h.host
      app := h.app
      held := List.mem_cons_of_mem _ h.held
      content := fun content hcontent ↦ ?_ }
  obtain rfl := Option.some.inj hcontent
  exact ⟨List.mem_cons_self, hunfolds.acyclic, hunfolds.live⟩

/-- The content of a page is built: it is what the renderer of the page answers, or, if that is
nothing, a new plain node with the tag for placeholders around a text that names the page. -/
inductive BuildsContent (w : World σ) (client : Client σ) (app : App) (name : String)
    (page : Page) : NodeId → World σ → Prop
  | answer {content : NodeId} {w' : World σ}
    (hcall : client.page page.renderer app.registry w = .ok (some content, w')) :
    BuildsContent w client app name page content w'
  | placeholder {w' : World σ}
    (hcall : client.page page.renderer app.registry w = .ok (none, w')) :
    BuildsContent w client app name page w'.nodes.next
      (w'.added (w'.freshPlain app.registry (w'.registry app.registry).config.fallbackTag ∅
        [.text (Page.placeholder name)]) false)

omit [Journal σ] in
/-- There is content for a page. -/
theorem exists_buildsContent {client : Client σ} {id : AppId} {app : App} {page : Page}
    (h : w.Delivers client id app page) (name : String) :
    ∃ content w', w.BuildsContent client app name page content w' ∧
      w.Delivered w' id app.host (some content) := by
  obtain ⟨content?, built, hcall, hdelivered⟩ := h
  cases content? with
  | some content => exact ⟨content, built, .answer hcall, hdelivered⟩
  | none => exact ⟨_, _, .placeholder hcall, hdelivered.added ..⟩

theorem BuildsContent.pageContent {client : Client σ} {app : App} {name : String} {page : Page}
    {content : NodeId} (h : w.BuildsContent client app name page content w') :
    w.pageContent client app name page = .ok (content, w') := by
  cases h with
  | answer hcall =>
    rw [World.pageContent, hcall]
    rfl
  | @placeholder answered hcall =>
    rw [World.pageContent, hcall]
    exact congrArg Except.ok (answered.createPlain_eq _ _ rfl _)

/-! ### Showing -/

omit [Journal σ] in
/-- The markup of what a mounted node was displayed as. -/
def Prints (w : World σ) (id : NodeId) (text : String) : Prop :=
  ∃ form written, w.rendered? id = some form ∧ w.write form = .ok (text, written)

omit [Journal σ] in
/-- What a mounted node was displayed as depends on nodes and observables only. -/
theorem Prints.congr {id : NodeId} {text : String} (h : w.Prints id text)
    (hnodes : w'.nodes = w.nodes) (hobservables : w'.observables = w.observables) :
    w'.Prints id text := by
  obtain ⟨form, written, hform, hwrite⟩ := h
  have hnode? (n : NodeId) : w'.node? n = w.node? n := congrArg (fun nodes ↦ nodes.get? n) hnodes
  obtain ⟨⟨tree, traversed⟩, htraverse, hwrite⟩ := bind_eq_ok.mp hwrite
  obtain ⟨rfl, -⟩ := Prod.mk.inj (Except.ok.inj hwrite)
  rw [traverse] at htraverse
  split at htraverse
  · rename_i found hfound
    obtain ⟨rfl, -⟩ := Prod.mk.inj (Except.ok.inj htraverse)
    obtain ⟨outline, hunfolds, rfl⟩ := tree?_eq_some_iff.mp hfound
    have hunfolds' : w'.Unfolds form outline := hunfolds.of_nodes fun n _ ↦ hnode? n
    refine ⟨form, _, ?_, by rw [write_eq_ok hunfolds', displayOf_congr hobservables]⟩
    rw [World.rendered?, hnode?]
    exact hform
  · cases htraverse

/-- Content is shown from a world on, in which its host shows some markup: it is mounted there, and
in the end it is displayed as the form that this gave, and the markup of the form follows what the
host showed. -/
structure ShowsContent (w : World σ) (host : HostId) (before : String) (content : NodeId)
    (w' : World σ) : Prop where
  start : ∃ surface, w.hosts.get? host = some (.surface surface) ∧ surface.markup = before
  displayed : ∃ form mounted, w.mount content host = .ok (form, mounted) ∧
    w'.rendered? content = some form
  markup : ∃ surface text, w'.hosts.get? host = some (.surface surface) ∧
    w'.Prints content text ∧ surface.markup = before ++ text

/-- What is shown does not depend on applications and the client. -/
theorem ShowsContent.congr {w'' : World σ} {host : HostId} {before : String} {content : NodeId}
    (h : w.ShowsContent host before content w') (hnodes : w''.nodes = w'.nodes)
    (hobservables : w''.observables = w'.observables) (hhosts : w''.hosts = w'.hosts) :
    w.ShowsContent host before content w'' where
  start := h.start
  displayed := by
    obtain ⟨form, mounted, hmount, hform⟩ := h.displayed
    refine ⟨form, mounted, hmount, ?_⟩
    rw [World.rendered?, World.node?, hnodes]
    exact hform
  markup := by
    obtain ⟨surface, text, hsurface, hprints, hmarkup⟩ := h.markup
    exact ⟨surface, text, hhosts ▸ hsurface, hprints.congr hnodes hobservables, hmarkup⟩

/-- Held content that unfolds is shown on a surface, and the application has it as what it shows. -/
theorem exists_showContent {id : AppId} {app : App} (happ : w.apps.get? id = some app)
    (hid : .app id ∈ w.held) {content : NodeId} (hheld : .node content ∈ w.held)
    (hacyclic : w.Acyclic content) (hlive : w.Live content) {host : HostId} {surface : Surface}
    (hhost : w.hosts.get? host = some (.surface surface)) :
    ∃ w', w.showContent id host content = .ok w' ∧ .app id ∈ w'.held ∧
      w'.apps.get? id = some { app with mounted? := some content } ∧
      w.ShowsContent host surface.markup content w' := by
  obtain ⟨outline, hdepth⟩ := exists_unfolds hacyclic hlive
  have hunfolds : w.Unfolds content outline := ⟨_, hdepth⟩
  have hsupports := hunfolds.supports (.inl hheld) (· = content)
  obtain ⟨form, shown, mounted, hmount, hreveals, hshown, hshownIds, hhosts⟩ :=
    exists_mount_reveals (fun _ ↦ True) hheld hunfolds hsupports (fun _ hn ↦ hn)
      (fun _ _ _ _ ↦ trivial) hhost
  let named := mounted.modifyApp id fun app ↦ { app with mounted? := some content }
  let dropped : World σ :=
    { named with held := (mounted.held.erase (.node form)).erase (.node content) }
  have hstill : .app id ∈ dropped.held := by
    have hleft : (mounted.held.erase (.node form)).Perm w.held := erase_perm hreveals.held
    exact (List.mem_erase_of_ne (by simp)).mpr (hleft.mem_iff.mpr hid)
  have hnamed : dropped.apps.get? id = some { app with mounted? := some content } := by
    show (mounted.apps.modify id _).get? id = _
    rw [Table.get?_modify, if_pos rfl, hreveals.apps id hid, happ, Option.map_some]
  have hsupported := hreveals.supports_forms dropped hunfolds (fun _ hn ↦ hn) rfl
    (.inr ⟨id, _, hstill, hnamed, rfl⟩)
  have hkept {n : NodeId} (hn : n ∈ outline.ids ∨ w.Fresh mounted n) :
      dropped.sweep.node? n = mounted.node? n :=
    hsupported.node?_sweep hn
  obtain ⟨node, hnode, hmounting⟩ := hreveals.mounted
  have hform : dropped.sweep.rendered? content = some form := by
    have hmounted : dropped.sweep.MountedAs content host form :=
      ⟨node, (hkept (.inl hunfolds.mem_ids)).trans hnode, hmounting⟩
    exact hmounted.rendered?
  have hprinted : dropped.sweep.Unfolds form shown :=
    hshown.of_nodes fun n hn ↦ hkept (hshownIds n hn)
  have hdisplay : dropped.sweep.displayOf = w.displayOf := displayOf_congr hreveals.observables
  have hprints : dropped.sweep.Prints content (shown.tree w.displayOf).markup :=
    ⟨form, _, hform, by rw [write_eq_ok hprinted, hdisplay]⟩
  refine ⟨dropped.sweep, ?_, hstill, ?_, ⟨surface, hhost, rfl⟩, ⟨form, mounted, hmount, hform⟩,
    surface.append (shown.tree w.displayOf).markup, _, ?_, hprints, rfl⟩
  · rw [showContent, hmount]
    rfl
  · rw [apps_sweep hstill, hnamed]
  · show mounted.hosts.get? host = _
    rw [hhosts, Table.get?_modify, if_pos rfl, hhost, Option.map_some]

/-! ### Becoming the current page -/

theorem setCurrent_eq {id : AppId} {app : App} (happ : w.apps.get? id = some app) (name : String) :
    ∃ client, w.setCurrent id name =
      { w.modifyApp id (fun app ↦
          { app with
            current? := some name, signal := { app.signal with value? := some name } }) with
        client := client } := by
  have hnotes (rows : List (Nat × String)) (w : World σ) :
      ∃ client, rows.foldl (fun w row ↦ w.note (.page row.2 (some name))) w =
        { w with client := client } := by
    induction rows generalizing w with
    | nil => exact ⟨w.client, rfl⟩
    | cons row rows ih => exact ih _
  rw [setCurrent, happ]
  dsimp only
  split
  · exact ⟨_, rfl⟩
  · exact hnotes _ _

end LiveMarkup.World
