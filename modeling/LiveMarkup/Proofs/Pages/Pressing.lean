import LiveMarkup.Proofs.Pages.Loading

/-!
Clicks on pages that are built again. A page is rendered, refreshed any number of times and loaded
each time; its nodes have distinct ids, which are the same ones every time (`Staged`). A refresh
replaces the markup and leaves the listeners, which are kept by id. So a click on an element runs
the callback that its node has in the page that is shown, after those that its nodes had in the
pages before (`Staged.click_session`); that it runs no other fails at the first refresh
(`Bell.exists_click_replaced`).
-/

set_option autoImplicit false
set_option relaxedAutoImplicit false

namespace LiveMarkup

theorem flatMap_eq_of_unique {α β : Type} {list : List α} {f : α → List β} {a : α}
    (hnodup : list.Nodup) (ha : a ∈ list) (hunique : ∀ b ∈ list, b ≠ a → f b = []) :
    list.flatMap f = f a := by
  obtain ⟨before, after, rfl⟩ := List.append_of_mem ha
  obtain ⟨-, hafter, hdisjoint⟩ := List.nodup_append'.mp hnodup
  have hbefore : before.flatMap f = [] := by
    refine List.flatMap_eq_nil_iff.mpr fun b hb ↦ hunique b (List.mem_append_left _ hb) ?_
    rintro rfl
    exact hdisjoint hb List.mem_cons_self
  have hlater : after.flatMap f = [] := by
    refine List.flatMap_eq_nil_iff.mpr fun b hb ↦
      hunique b (List.mem_append_right _ (List.mem_cons_of_mem _ hb)) ?_
    rintro rfl
    exact (List.nodup_cons.mp hafter).1 hb
  rw [List.flatMap_append, List.flatMap_cons, hbefore, hlater, List.nil_append, List.append_nil]

namespace World

variable {σ : Type} {base w w' : World σ} {id : AppId} {page : Exhibit} {host : HostId}
  {surface : Surface} {label : String}

/-! ### What an application shows -/

/-- The nodes of the content that an application shows. -/
def pageNodes (w : World σ) (id : AppId) : List NodeId :=
  (((w.apps.get? id).bind App.mounted?).bind (w.outlineWithin? (w.nodes.size + 1))).elim []
    Outline.ids

/-- The click callback of the node with an id in the content that an application shows. -/
def pageHandler? (w : World σ) (id : AppId) (label : String) : Option Handler :=
  ((w.pageNodes id).find? fun n ↦ w.idOf n == label).bind w.clickHandler?

/-- Whether a surface displays an element with an id. -/
def displays (w : World σ) (host : HostId) (label : String) : Bool :=
  (w.host host).surface?.any fun surface ↦ surface.hasElement label

/-- The click callback that the content of an application has for an element, if it is displayed. -/
def offered (w : World σ) (id : AppId) (host : HostId) (label : String) : List Handler :=
  if w.displays host label then (w.pageHandler? id label).toList else []

/-- The listeners that a click on an element runs. -/
def clickListeners (w : World σ) (host : HostId) (label : String) : List Handler :=
  (w.host host).surface?.elim [] fun surface ↦ surface.clickListeners label

theorem displays_eq (h : w.hosts.get? host = some (.surface surface)) (label : String) :
    w.displays host label = surface.hasElement label := by
  rw [displays, host_eq h]
  rfl

theorem clickListeners_eq (h : w.hosts.get? host = some (.surface surface)) (label : String) :
    w.clickListeners host label = surface.clickListeners label := by
  rw [clickListeners, host_eq h]
  rfl

theorem Bears.pageNodes_eq (h : Bears base id page [] w) : w.pageNodes id = page.ids := by
  obtain ⟨outline, hunfolds, hids, -⟩ := h.unfolds
  rw [pageNodes, h.app, Option.bind_some, h.content, Option.bind_some, hunfolds.outlineWithin?]
  exact hids

/-- Where the nodes of a page have distinct ids, one of them has the id, and its callback is that of
the page. -/
theorem Bears.exists_labelled (h : Bears base id page [] w) {labels : List String}
    (hlabels : (page.ids.map w.idOf).Perm labels) (hnodup : labels.Nodup)
    (hlabel : label ∈ labels) :
    ∃ m ∈ page.ids, w.idOf m = label ∧ w.pageHandler? id label = w.clickHandler? m ∧
      ∀ n ∈ page.ids, w.idOf n = label → n = m := by
  obtain ⟨m, hm, hid⟩ := List.mem_map.mp (hlabels.mem_iff.mpr hlabel)
  have hunique (n : NodeId) (hn : n ∈ page.ids) (hsame : w.idOf n = label) : n = m :=
    List.inj_on_of_nodup_map (hlabels.nodup_iff.mpr hnodup) hn hm (hsame.trans hid.symm)
  refine ⟨m, hm, hid, ?_, hunique⟩
  rw [pageHandler?, h.pageNodes_eq]
  cases hfind : page.ids.find? fun n ↦ w.idOf n == label with
  | none => exact absurd (beq_iff_eq.mpr hid) (List.find?_eq_none.mp hfind m hm)
  | some n =>
    have hsame : w.idOf n = label := by simpa using List.find?_some hfind
    rw [hunique n (List.mem_of_find?_eq_some hfind) hsame, Option.bind_some]

/-- Of the live nodes of a registry, only those of the page have callbacks for its ids, if none of
those did that were there before. -/
theorem Bears.clickHandlers_eq (h : Bears base id page [] w) {labels : List String}
    (hlabels : (page.ids.map w.idOf).Perm labels) (hnodup : labels.Nodup) (hlabel : label ∈ labels)
    (hothers : ∀ n node, base.node? n = some node → node.registry = page.app.registry →
      node.id ∈ labels → node.clickHandler? = none) :
    w.clickHandlers (w.liveNodes page.app.registry) label = (w.pageHandler? id label).toList := by
  obtain ⟨m, hm, hid, hhandler, hunique⟩ := h.exists_labelled hlabels hnodup hlabel
  obtain ⟨shown, hshown⟩ := h.live (.inr hm)
  have hlive : m ∈ w.liveNodes page.app.registry :=
    h.listing.mem_liveNodes_iff.mpr ⟨shown, hshown, (h.nodes m hm shown hshown).1⟩
  rw [clickHandlers, flatMap_eq_of_unique (h.listing.nodup_liveNodes _) hlive fun n hn hne ↦ ?_,
    if_pos hid, hhandler]
  by_cases hsame : w.idOf n = label
  · rw [if_pos hsame]
    obtain ⟨node, hnode, hregistry⟩ := h.listing.mem_liveNodes_iff.mp hn
    have hnone : node.clickHandler? = none := by
      rcases h.only n node hnode with ⟨old, hold⟩ | hids | hform
      · obtain ⟨same, hsameNode, hmatches, -⟩ := h.before n old hold
        obtain rfl := Option.some.inj (hnode.symm.trans hsameNode)
        have hidOld : old.id ∈ labels := by
          rw [← hmatches.id, ← idOf_eq hnode, hsame]
          exact hlabel
        rw [hmatches.clickHandler?]
        exact hothers n old hold (hmatches.registry.symm.trans hregistry) hidOld
      · exact absurd (hunique n hids hsame) hne
      · obtain ⟨form, hformNode, hisForm⟩ := h.forms n hform (lt_next_of_node? hnode)
        obtain rfl := Option.some.inj (hnode.symm.trans hformNode)
        rw [Node.clickHandler?, hisForm.onclick]
        exact ite_self _
    rw [clickHandler?, hnode, Option.bind_some, hnone]
    rfl
  · rw [if_neg hsame]

variable [Journal σ]

/-- Loads the page that an application shows. -/
def loadPage (client : Client σ) (w : World σ) (id : AppId) : Except Fault (World σ) :=
  match w.apps.get? id with
  | some app => w.load client app.registry app.host
  | none => .ok w

/-- A page is rendered, loaded or not, and then refreshed and loaded a number of times. -/
def session (client : Client σ) (id : AppId) (name : String) (loaded : Bool) (w : World σ) :
    Nat → Except Fault (World σ)
  | 0 => do
    let (_, w) ← w.renderPage client id name
    if loaded then w.loadPage client id else return w
  | n + 1 => do
    let w ← session client id name loaded w n
    let (_, w) ← w.refreshPage client id
    w.loadPage client id

end World

/-! ### Pages whose nodes have ids -/

/-- A world in which an application has an empty surface and a page, and shows nothing yet. The
renderer of the page builds a fresh tree whenever it is called, of nodes with distinct ids, which
are always the same; nodes that are there already have no click callbacks for them. -/
structure Staged {σ : Type} [Journal σ] (client : Client σ) (base : World σ) (id : AppId)
    (app : App) (name : String) (labels : List String) : Prop where
  vacant : base.Vacant id
  shown : base.apps.get? id = some app
  surface : base.hosts.get? app.host = some (.surface {})
  registry : base.registries.contains app.registry = true
  nodup : labels.Nodup
  builds : ∃ page, app.pages.get? name = some page ∧
    ∀ w : World σ, w.Sound → w.registries.contains app.registry = true →
      ∃ root outline built, client.page page.renderer app.registry w = .ok (some root, built) ∧
        w.Builds app.registry root outline built ∧ (outline.ids.map built.idOf).Perm labels
  others : ∀ n node, base.node? n = some node → node.registry = app.registry → node.id ∈ labels →
    node.clickHandler? = none

namespace Staged

variable {σ : Type} [Journal σ] {client : Client σ} {base w w' built : World σ} {id : AppId}
  {app : App} {name : String} {labels : List String} {surface : Surface} {root : NodeId}
  {outline : Outline}

/-- The page is shown, and its nodes have the ids. -/
def Shows (base : World σ) (id : AppId) (app : App) (name : String) (labels : List String)
    (w : World σ) : Prop :=
  ∃ page : Exhibit, (∃ signal, page.app = { app with
      mounted? := some page.root, current? := some name, signal := signal }) ∧
    World.Bears base id page [] w ∧ (page.ids.map w.idOf).Perm labels

omit [Journal σ] in
/-- A tree that was built is shown, and no listener is new. -/
theorem shows_of_shown {signal : PageSignal}
    (hbuilds : w.Builds app.registry root outline built)
    (hlabels : (outline.ids.map built.idOf).Perm labels)
    (hshown : World.Shown base id
      { app with mounted? := some root, current? := some name, signal := signal } root outline
      surface built w') :
    Shows base id app name labels w' ∧
      ∀ label, w'.clickListeners app.host label = surface.clickListeners label := by
  obtain ⟨form, first, -, hbears⟩ := hshown.bears
  have hids : outline.ids.map built.idOf = outline.ids.map w'.idOf := by
    refine List.map_congr_left fun n hn ↦ ?_
    obtain ⟨node, hnode⟩ := ((hbuilds.ids n).mp hn).2
    obtain ⟨node', hnode', hmatches⟩ := hshown.nodes n hn node hnode
    rw [World.idOf_eq hnode, World.idOf_eq hnode', hmatches.id]
  obtain ⟨text, hhost⟩ := hshown.surface
  refine ⟨⟨_, ⟨signal, rfl⟩, hbears, ?_⟩,
    fun label ↦ World.clickListeners_eq hhost label⟩
  rw [hids, hbuilds.unfolds.ids_eq] at hlabels
  exact hlabels

theorem exists_renderPage (h : Staged client base id app name labels) :
    ∃ w, base.renderPage client id name = .ok (true, w) ∧ Shows base id app name labels w ∧
      ∀ label, w.clickListeners app.host label = [] := by
  obtain ⟨page, hpage, hrenderer⟩ := h.builds
  obtain ⟨root, outline, built, hcall, hbuilds, hlabels⟩ := hrenderer base h.vacant.sound h.registry
  obtain ⟨signal, w, hrender, hshown⟩ :=
    (h.vacant.clears h.shown).exists_renderPage h.vacant hpage hcall hbuilds h.surface
  exact ⟨w, hrender, shows_of_shown hbuilds hlabels hshown⟩

/-- A refresh changes no listeners. -/
theorem exists_refreshPage (h : Staged client base id app name labels)
    (hshows : Shows base id app name labels w) :
    ∃ w', w.refreshPage client id = .ok (true, w') ∧ Shows base id app name labels w' ∧
      ∀ label, w'.clickListeners app.host label = w.clickListeners app.host label := by
  obtain ⟨page, hpage, hrenderer⟩ := h.builds
  obtain ⟨shown, ⟨signal, happ⟩, hbears, -⟩ := hshows
  obtain ⟨root, outline, built, hcall, hbuilds, hlabels⟩ :=
    hrenderer w (hbears.sound h.vacant) ((hbears.contains _).trans h.registry)
  have hclears := hbears.clears h.vacant
  obtain ⟨surface, hsurface⟩ := hbears.surface
  rw [happ] at hclears hsurface
  obtain ⟨w', hrefresh, hshown⟩ :=
    hclears.exists_refreshPage h.vacant rfl hpage hcall hbuilds hsurface
  obtain ⟨hnow, hlisteners⟩ := shows_of_shown hbuilds hlabels hshown
  refine ⟨w', hrefresh, hnow, fun label ↦ ?_⟩
  rw [hlisteners, World.clickListeners_eq hsurface]
  rfl

/-- A load adds the callback that the page has for an element, if it is displayed. -/
theorem exists_loadPage (h : Staged client base id app name labels)
    (hshows : Shows base id app name labels w) :
    ∃ w', w.loadPage client id = .ok w' ∧ Shows base id app name labels w' ∧
      ∀ label ∈ labels, w'.clickListeners app.host label =
        w.clickListeners app.host label ++ w'.offered id app.host label := by
  obtain ⟨page, ⟨signal, happ⟩, hbears, hlabels⟩ := hshows
  obtain ⟨surface, hsurface⟩ := hbears.surface
  obtain ⟨w', hload, hnow, hnode?, changed, hchanged, hmarkup, hlisteners⟩ :=
    hbears.exists_load client h.vacant hsurface page.app.registry
  have hids : page.ids.map w'.idOf = page.ids.map w.idOf :=
    List.map_congr_left fun n _ ↦ by rw [World.idOf, hnode?, ← World.idOf]
  have hhandler (label : String) : w'.pageHandler? id label = w.pageHandler? id label := by
    have hidOf : w'.idOf = w.idOf := by
      funext n
      rw [World.idOf, hnode?, ← World.idOf]
    have hclick : w'.clickHandler? = w.clickHandler? := by
      funext n
      rw [World.clickHandler?, hnode?, ← World.clickHandler?]
    rw [World.pageHandler?, World.pageHandler?, hnow.pageNodes_eq, hbears.pageNodes_eq, hidOf,
      hclick]
  have hhost : page.app.host = app.host := by rw [happ]
  refine ⟨w', ?_, ⟨page, ⟨signal, happ⟩, hnow, hids ▸ hlabels⟩, fun label hlabel ↦ ?_⟩
  · rw [World.loadPage, hbears.app]
    exact hload
  · rw [hhost] at hchanged hsurface
    rw [World.clickListeners_eq hchanged, World.clickListeners_eq hsurface, hlisteners,
      World.offered, World.displays_eq hchanged, Surface.hasElement_congr hmarkup, hhandler,
      hbears.clickHandlers_eq hlabels h.nodup hlabel fun n node hnode hregistry ↦
        h.others n node hnode (hregistry.trans (by rw [happ]))]

/-- The rendering, and the load after it if there is one. -/
theorem exists_session_zero (h : Staged client base id app name labels) (loaded : Bool) :
    ∃ w, base.session client id name loaded 0 = .ok w ∧ Shows base id app name labels w ∧
      ∀ label ∈ labels, w.clickListeners app.host label =
        if loaded then w.offered id app.host label else [] := by
  obtain ⟨rendered, hrender, hshows, hnone⟩ := h.exists_renderPage
  rw [World.session, hrender]
  cases loaded with
  | false => exact ⟨rendered, rfl, hshows, fun label _ ↦ hnone label⟩
  | true =>
    obtain ⟨w, hload, hnow, hlisteners⟩ := h.exists_loadPage hshows
    refine ⟨w, hload, hnow, fun label hlabel ↦ ?_⟩
    rw [hlisteners label hlabel, hnone, List.nil_append, if_pos rfl]

/-- One more refresh and the load after it. -/
theorem exists_session_succ (h : Staged client base id app name labels) {loaded : Bool} {n : Nat}
    (hrun : base.session client id name loaded n = .ok w)
    (hshows : Shows base id app name labels w) :
    ∃ w', base.session client id name loaded (n + 1) = .ok w' ∧ Shows base id app name labels w' ∧
      ∀ label ∈ labels, w'.clickListeners app.host label =
        w.clickListeners app.host label ++ w'.offered id app.host label := by
  obtain ⟨refreshed, hrefresh, hrefreshed, hsame⟩ := h.exists_refreshPage hshows
  obtain ⟨w', hload, hnow, hlisteners⟩ := h.exists_loadPage hrefreshed
  refine ⟨w', ?_, hnow, fun label hlabel ↦ ?_⟩
  · rw [World.session, hrun]
    show (w.refreshPage client id >>= _) = _
    rw [hrefresh]
    exact hload
  · rw [hlisteners label hlabel, hsame]

/-- However often the page is refreshed and loaded after its rendering: one node of the content that
is shown has the id of an element; a click on the element runs the callbacks that such nodes had at
the loads so far, where the element was displayed, in the order of the loads and each once. The
callback of the content that is shown is the last of them. -/
theorem click_session (h : Staged client base id app name labels) (loaded : Bool) :
    ∃ shown : Nat → World σ, (∀ n, base.session client id name loaded n = .ok (shown n)) ∧
      ∀ n, ∀ label ∈ labels,
        let listeners := (if loaded then (shown 0).offered id app.host label else []) ++
          (List.range n).flatMap fun k ↦ (shown (k + 1)).offered id app.host label
        (∃! m, m ∈ (shown n).pageNodes id ∧ (shown n).idOf m = label) ∧
          (shown n).clickListeners app.host label = listeners ∧
          (shown n).click client app.host label = do
            return (listeners.length,
              ← listeners.foldlM (fun w handler ↦ client.call (.act handler) w) (shown n)) := by
  have hsession (n : Nat) : ∃ w, base.session client id name loaded n = .ok w ∧
      Shows base id app name labels w := by
    induction n with
    | zero =>
      obtain ⟨w, hrun, hshows, -⟩ := h.exists_session_zero loaded
      exact ⟨w, hrun, hshows⟩
    | succ n ih =>
      obtain ⟨w, hrun, hshows⟩ := ih
      obtain ⟨w', hrun', hshows', -⟩ := h.exists_session_succ hrun hshows
      exact ⟨w', hrun', hshows'⟩
  choose shown hrun hshows using hsession
  refine ⟨shown, hrun, fun n label hlabel ↦ ?_⟩
  have hlisteners : (shown n).clickListeners app.host label =
      (if loaded then (shown 0).offered id app.host label else []) ++
        (List.range n).flatMap fun k ↦ (shown (k + 1)).offered id app.host label := by
    induction n with
    | zero =>
      obtain ⟨w, hzero, -, hlisteners⟩ := h.exists_session_zero loaded
      obtain rfl := Except.ok.inj ((hrun 0).symm.trans hzero)
      rw [hlisteners label hlabel, List.range_zero, List.flatMap_nil, List.append_nil]
    | succ n ih =>
      obtain ⟨w, hsucc, -, hlisteners⟩ := h.exists_session_succ (hrun n) (hshows n)
      obtain rfl := Except.ok.inj ((hrun (n + 1)).symm.trans hsucc)
      rw [hlisteners label hlabel, ih, List.range_succ, List.flatMap_append, List.flatMap_singleton,
        List.append_assoc]
  refine ⟨?_, hlisteners, ?_⟩
  · obtain ⟨page, -, hbears, hlabels⟩ := hshows n
    obtain ⟨m, hm, hid, -, hunique⟩ := hbears.exists_labelled hlabels h.nodup hlabel
    rw [← hbears.pageNodes_eq] at hm hunique
    exact ⟨m, ⟨hm, hid⟩, fun other hother ↦ hunique other hother.1 hother.2⟩
  · rw [← hlisteners]
    rfl

end Staged

namespace Bell

/-- A client whose page is a button with a new callback every time. -/
def ringer : Client (List Note) where
  call _ w := .ok w
  page _ registry w :=
    let (root, w) := w.createPlain registry "button"
      (.ofList [("id", .text "go"), ("onclick", .callback w.nodes.next)]) [.text "Go"]
    .ok (some root, w)

/-- An application with the page on an empty surface. -/
def door : App := App.addPage { host := 0, registry := 0 } "door" ⟨0, {}⟩

def start : World (List Note) :=
  ((({ client := [] } : World (List Note)).addHost (.surface {})).addRegistry {}).addApp door

theorem staged_start : Staged ringer start 0 door "door" ["go"] where
  vacant := by
    refine .of_empty rfl (fun r ↦ ?_) (fun n ↦ ?_) List.mem_cons_self fun other app happ ↦ ?_
    · cases r <;> rfl
    · show Root.node n ∉ [.app 0]
      simp
    · cases other with
      | zero => rw [← Option.some.inj happ]; rfl
      | succ other => cases happ
  shown := rfl
  surface := rfl
  registry := by decide
  nodup := by decide
  builds := by
    refine ⟨⟨0, {}⟩, rfl, fun w _ hregistry ↦ ?_⟩
    obtain ⟨node, built, -, -, hid, hcreate, hnode, -, hbuilds⟩ :=
      w.exists_builds_create hregistry .plain (by decide) "button"
        (.ofList [("id", .text "go"), ("onclick", .callback w.nodes.next)]) [.text "Go"] (by decide)
    refine ⟨w.nodes.next, _, built, ?_, hbuilds, ?_⟩
    · simp only [ringer, World.createPlain, hcreate]
    · show [built.idOf w.nodes.next].Perm _
      rw [World.idOf_eq hnode, hid]
      rfl
  others := fun n node hnode ↦ by cases hnode

/-- A click on the button runs more than the callback of the page that is shown, which is the third:
also that of the second, and that of the first if it was loaded. -/
theorem exists_click_replaced :
    Staged ringer start 0 door "door" ["go"] ∧ ∀ loaded, ∃ w,
      start.session ringer 0 "door" loaded 2 = .ok w ∧ w.displays 0 "go" = true ∧
        w.pageHandler? 0 "go" = some 2 ∧
        w.clickListeners 0 "go" = (if loaded then [0, 1, 2] else [1, 2]) ∧
        (w.click ringer 0 "go").toOption.map Prod.fst = some (if loaded then 3 else 2) := by
  refine ⟨staged_start, fun loaded ↦ ?_⟩
  have hresult : (start.session ringer 0 "door" loaded 2).toOption.map (fun w ↦
      (w.displays 0 "go", w.pageHandler? 0 "go", w.clickListeners 0 "go",
        (w.click ringer 0 "go").toOption.map Prod.fst)) =
      some (true, some 2, if loaded then [0, 1, 2] else [1, 2],
        some (if loaded then 3 else 2)) := by
    cases loaded <;> decide +kernel
  cases hrun : start.session ringer 0 "door" loaded 2 with
  | error fault =>
    rw [hrun] at hresult
    cases hresult
  | ok w =>
    rw [hrun] at hresult
    obtain ⟨hdisplays, hrest⟩ := Prod.mk.inj (Option.some.inj hresult)
    obtain ⟨hhandler, hrest⟩ := Prod.mk.inj hrest
    obtain ⟨hlisteners, hclick⟩ := Prod.mk.inj hrest
    exact ⟨w, rfl, hdisplays, hhandler, hlisteners, hclick⟩

/-- What a click runs when the page was loaded three times. -/
theorem click_session_door :
    Staged ringer start 0 door "door" ["go"] ∧ ∃ shown : Nat → World (List Note),
      (∀ n, start.session ringer 0 "door" true n = .ok (shown n)) ∧
        (shown 2).clickListeners 0 "go" = (shown 0).offered 0 0 "go" ++
          ((shown 1).offered 0 0 "go" ++ (shown 2).offered 0 0 "go") := by
  obtain ⟨shown, hrun, hclick⟩ := Staged.click_session staged_start true
  obtain ⟨-, hlisteners, -⟩ := hclick 2 "go" List.mem_cons_self
  refine ⟨staged_start, shown, hrun, hlisteners.trans ?_⟩
  simp [List.range_succ, door, App.addPage]

end Bell

end LiveMarkup
