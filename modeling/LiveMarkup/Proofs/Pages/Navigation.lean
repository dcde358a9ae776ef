import LiveMarkup.Proofs.Pages.Delivery

/-!
Navigation. An application is asked to register pages, to render them and to refresh the current one
(`Visit`), in any order. What it does each time depends only on what it did before (`World.Turn`):
on the pages registered last under their names (`pageNamed?`), and on the name rendered last
(`nameRendered?`). After every such tour the application agrees with its history (`App.Follows`).
-/

set_option autoImplicit false
set_option relaxedAutoImplicit false

namespace LiveMarkup

/-- What an application is asked to do. -/
inductive Visit where
  | register (name : String) (page : Page)
  | render (name : String)
  | refresh

/-! ### Histories -/

/-- Visits, each with the content that it showed if it showed some. -/
abbrev Log := List (Visit × Option NodeId)

/-- The page registered last under a name. -/
def pageNamed? (log : Log) (name : String) : Option Page :=
  log.reverse.findSome? fun
    | (.register other page, _) => if other = name then some page else none
    | _ => none

/-- The name of the last page that was rendered with success. -/
def nameRendered? (log : Log) : Option String :=
  log.reverse.findSome? fun
    | (.render name, some _) => some name
    | _ => none

/-- The content shown last. -/
def contentShown? (log : Log) : Option NodeId := log.reverse.findSome? Prod.snd

/-- An application that agrees with its history since it was `start`. -/
structure App.Follows (app start : App) (log : Log) : Prop where
  host : app.host = start.host
  registry : app.registry = start.registry
  pages : ∀ name, app.pages.get? name = pageNamed? log name
  current : app.current? = nameRendered? log
  signal : app.signal.value? = nameRendered? log
  mounted : app.mounted? = contentShown? log
  together : app.mounted?.isSome = app.current?.isSome
  registered : ∀ name, app.current? = some name → ∃ page, app.pages.get? name = some page

/-- An application without pages that has shown nothing. -/
structure App.Unused (app : App) : Prop where
  pages : ∀ name, app.pages.get? name = none
  current : app.current? = none
  signal : app.signal.value? = none
  mounted : app.mounted? = none

namespace App.Follows

variable {app start : App} {log : Log} {name : String} {content : NodeId}

theorem nil (h : app.Unused) : app.Follows app [] where
  host := rfl
  registry := rfl
  pages := h.pages
  current := h.current
  signal := h.signal
  mounted := h.mounted
  together := by rw [h.mounted, h.current]; rfl
  registered := fun name hname ↦ by simp [h.current] at hname

/-- A page is registered. -/
theorem register (h : app.Follows start log) (name : String) (page : Page) :
    (app.addPage name page).Follows start (log ++ [(.register name page, none)]) where
  host := h.host
  registry := h.registry
  pages := fun other ↦ by
    show (app.pages.insert name page).get? other = _
    rw [OrderedMap.get?_insert, h.pages other]
    by_cases hname : name = other <;> simp [pageNamed?, hname]
  current := by simpa [nameRendered?, addPage] using h.current
  signal := by simpa [nameRendered?, addPage] using h.signal
  mounted := by simpa [contentShown?, addPage] using h.mounted
  together := h.together
  registered := fun other hother ↦ by
    obtain ⟨found, hfound⟩ := h.registered other hother
    by_cases hname : name = other
    · exact ⟨page, by rw [addPage, OrderedMap.get?_insert, if_pos hname]⟩
    · exact ⟨found, by rw [addPage, OrderedMap.get?_insert, if_neg hname, hfound]⟩

/-- There is no page to render or to refresh. -/
theorem miss (h : app.Follows start log) {visit : Visit}
    (hvisit : ∀ name page, visit ≠ .register name page) :
    app.Follows start (log ++ [(visit, none)]) where
  host := h.host
  registry := h.registry
  pages := fun other ↦ by
    rw [h.pages other]
    cases visit with
    | register name page => exact absurd rfl (hvisit name page)
    | render | refresh => simp [pageNamed?]
  current := by
    rw [h.current]
    cases visit <;> simp [nameRendered?]
  signal := by
    rw [h.signal]
    cases visit <;> simp [nameRendered?]
  mounted := by simpa [contentShown?] using h.mounted
  together := h.together
  registered := h.registered

/-- A page is rendered. -/
theorem render (h : app.Follows start log) {page : Page} (hpage : app.pages.get? name = some page)
    (content : NodeId) :
    App.Follows { app with
      mounted? := some content
      current? := some name
      signal := { app.signal with value? := some name } } start
      (log ++ [(.render name, some content)]) where
  host := h.host
  registry := h.registry
  pages := fun other ↦ by simpa [pageNamed?] using h.pages other
  current := by simp [nameRendered?]
  signal := by simp [nameRendered?]
  mounted := by simp [contentShown?]
  together := rfl
  registered := fun other hother ↦ ⟨page, Option.some.inj hother ▸ hpage⟩

/-- The current page is refreshed. -/
theorem refresh (h : app.Follows start log) (hcurrent : app.current? = some name)
    (content : NodeId) :
    App.Follows { app with mounted? := some content } start
      (log ++ [(.refresh, some content)]) where
  host := h.host
  registry := h.registry
  pages := fun other ↦ by simpa [pageNamed?] using h.pages other
  current := by simpa [nameRendered?] using h.current
  signal := by simpa [nameRendered?] using h.signal
  mounted := by simp [contentShown?]
  together := by simp [hcurrent]
  registered := h.registered

end App.Follows

namespace World

variable {σ : Type} [Journal σ] {client : Client σ} {w w' : World σ} {id : AppId} {app start : App}
  {log : Log}

/-! ### Visits -/

/-- Makes a visit, and tells whether content was shown. -/
def visit (client : Client σ) (w : World σ) (id : AppId) : Visit → Except Fault (Bool × World σ)
  | .register name page => .ok (false, w.modifyApp id (App.addPage · name page))
  | .render name => w.renderPage client id name
  | .refresh => w.refreshPage client id

/-- The page that a visit is going to show. -/
def pageVisited? (app : App) : Visit → Option Page
  | .register _ _ => none
  | .render name => app.pages.get? name
  | .refresh => app.current?.bind app.pages.get?

/-- Along a sequence of visits, each renderer that is called delivers. -/
def Obeys (client : Client σ) (id : AppId) : World σ → List Visit → Prop
  | _, [] => True
  | w, visit :: visits =>
    (∀ app page, w.apps.get? id = some app → .app id ∈ w.held →
      pageVisited? app visit = some page → w.Delivers client id app page) ∧
    ∀ shown w', w.visit client id visit = .ok (shown, w') → Obeys client id w' visits

/-- What a visit does after a history. -/
inductive Turn (client : Client σ) (id : AppId) (start : App) (log : Log) (w : World σ) :
    Visit → Option NodeId → World σ → Prop
  /-- A page is registered. -/
  | register (name : String) (page : Page) :
    Turn client id start log w (.register name page) none
      (w.modifyApp id (App.addPage · name page))
  /-- There is no page with the name, and nothing changes. -/
  | miss {name : String} (hname : pageNamed? log name = none) :
    Turn client id start log w (.render name) none w
  /-- The content of the page registered last under the name is built, and is shown after what the
  host showed before. -/
  | render {name : String} {page : Page} {content : NodeId} {surface : Surface}
    {built w' : World σ} (hpage : pageNamed? log name = some page)
    (hbuilds : w.BuildsContent client start name page content built)
    (hsurface : w.hosts.get? start.host = some (.surface surface))
    (hshows : built.ShowsContent start.host surface.markup content w') :
    Turn client id start log w (.render name) (some content) w'
  /-- Nothing was rendered yet, and nothing changes. -/
  | idle (hnone : nameRendered? log = none) : Turn client id start log w .refresh none w
  /-- The content of the page registered last under the name rendered last is built, and is shown
  on the emptied host. -/
  | refresh {name : String} {page : Page} {content : NodeId} {built w' : World σ}
    (hname : nameRendered? log = some name) (hpage : pageNamed? log name = some page)
    (hbuilds : w.BuildsContent client start name page content built)
    (hshows : (built.replace start.host "").ShowsContent start.host "" content w') :
    Turn client id start log w .refresh (some content) w'

/-- A sequence of visits, with the worlds before and after it. -/
inductive Tour (client : Client σ) (id : AppId) (start : App) : World σ → Log → World σ → Prop
  | nil (w : World σ) : Tour client id start w [] w
  | snoc {w w' w'' : World σ} {log : Log} {visit : Visit} {shown? : Option NodeId}
    (htour : Tour client id start w log w')
    (hrun : w'.visit client id visit = .ok (shown?.isSome, w''))
    (hturn : Turn client id start log w' visit shown? w'') :
    Tour client id start w (log ++ [(visit, shown?)]) w''

/-- An application that is alive, agrees with its history and is bound to a surface. -/
structure OnTour (w : World σ) (id : AppId) (start : App) (log : Log) : Prop where
  app : ∃ app, w.apps.get? id = some app ∧ app.Follows start log
  held : .app id ∈ w.held
  surface : ∃ surface, w.hosts.get? start.host = some (.surface surface)

theorem pageContent_congr (hregistry : app.registry = start.registry) (name : String)
    (page : Page) :
    w.pageContent client app name page = w.pageContent client start name page := by
  rw [pageContent, pageContent, hregistry]

omit [Journal σ] in
/-- Registering a page. -/
theorem OnTour.register (h : w.OnTour id start log) (name : String) (page : Page) :
    OnTour (w.modifyApp id (App.addPage · name page)) id start
      (log ++ [(.register name page, none)]) where
  app := by
    obtain ⟨app, happ, hfollows⟩ := h.app
    refine ⟨app.addPage name page, ?_, hfollows.register name page⟩
    rw [modifyApp, Table.get?_modify, if_pos rfl, happ, Option.map_some]
  held := h.held
  surface := h.surface

/-- Rendering a page that is registered. -/
theorem OnTour.exists_render (h : w.OnTour id start log) {name : String} {page : Page}
    (hpage : pageNamed? log name = some page) (hdelivers : w.Delivers client id start page) :
    ∃ content w', w.renderPage client id name = .ok (true, w') ∧
      Turn client id start log w (.render name) (some content) w' ∧
      w'.OnTour id start (log ++ [(.render name, some content)]) := by
  obtain ⟨app, happ, hfollows⟩ := h.app
  obtain ⟨surface, hsurface⟩ := h.surface
  have hfound : app.pages.get? name = some page := (hfollows.pages name).trans hpage
  obtain ⟨content, built, hbuilds, hdelivered⟩ := exists_buildsContent hdelivers name
  obtain ⟨hheld, hacyclic, hlive⟩ := hdelivered.content content rfl
  obtain ⟨shown, hshow, hheldShown, happShown, hshows⟩ :=
    exists_showContent (hdelivered.app.trans happ) hdelivered.held hheld hacyclic hlive
      (hdelivered.host.trans hsurface)
  obtain ⟨last, _, hlast, -, -⟩ := hshows.markup
  obtain ⟨client', hcurrent⟩ := setCurrent_eq happShown name
  refine ⟨content, shown.setCurrent id name, ?_, ?_, ?_⟩
  · rw [renderPage, happ]
    dsimp only
    rw [hfound]
    dsimp only
    rw [pageContent_congr hfollows.registry, hbuilds.pageContent, hfollows.host]
    show (built.showContent id start.host content >>= _) = _
    rw [hshow]
    rfl
  · rw [hcurrent]
    exact .render hpage hbuilds hsurface (hshows.congr rfl rfl rfl)
  · rw [hcurrent]
    refine ⟨⟨_, ?_, hfollows.render hfound content⟩, hheldShown, last, hlast⟩
    show (shown.apps.modify id _).get? id = _
    rw [Table.get?_modify, if_pos rfl, happShown, Option.map_some]

/-- Refreshing the page rendered last. -/
theorem OnTour.exists_refresh (h : w.OnTour id start log) {name : String} {page : Page}
    (hname : nameRendered? log = some name) (hpage : pageNamed? log name = some page)
    (hdelivers : w.Delivers client id start page) :
    ∃ content w', w.refreshPage client id = .ok (true, w') ∧
      Turn client id start log w .refresh (some content) w' ∧
      w'.OnTour id start (log ++ [(.refresh, some content)]) := by
  obtain ⟨app, happ, hfollows⟩ := h.app
  obtain ⟨surface, hsurface⟩ := h.surface
  have hcurrent : app.current? = some name := hfollows.current.trans hname
  have hfound : app.pages.get? name = some page := (hfollows.pages name).trans hpage
  obtain ⟨content, built, hbuilds, hdelivered⟩ := exists_buildsContent hdelivers name
  obtain ⟨hheld, hacyclic, hlive⟩ := hdelivered.content content rfl
  have hsurfaceBuilt := hdelivered.host.trans hsurface
  have hreplace : built.replace start.host "" =
      built.setSurface start.host (surface.replace "") := by
    rw [replace, host_eq hsurfaceBuilt]
  obtain ⟨shown, hshow, hheldShown, happShown, hshows⟩ :=
    exists_showContent (w := built.setSurface start.host (surface.replace ""))
      (hdelivered.app.trans happ) hdelivered.held hheld hacyclic hlive
      (hosts_setSurface hsurfaceBuilt _)
  rw [← hreplace] at hshow hshows
  obtain ⟨last, _, hlast, -, -⟩ := hshows.markup
  refine ⟨content, shown, ?_, .refresh hname hpage hbuilds hshows,
    ⟨_, happShown, hfollows.refresh hcurrent content⟩, hheldShown, last, hlast⟩
  · rw [refreshPage, happ]
    dsimp only
    rw [hcurrent, Option.bind_some, hfound, Option.map_some]
    dsimp only
    rw [pageContent_congr hfollows.registry, hbuilds.pageContent, hfollows.host]
    show ((built.replace start.host "").showContent id start.host content >>= _) = _
    rw [hshow]
    rfl

/-- A visit succeeds and does what it should after the history, with which the application agrees
again. -/
theorem OnTour.exists_visit (h : w.OnTour id start log) (visit : Visit)
    (hdelivers : ∀ app page, w.apps.get? id = some app → .app id ∈ w.held →
      pageVisited? app visit = some page → w.Delivers client id app page) :
    ∃ shown? w', w.visit client id visit = .ok (shown?.isSome, w') ∧
      Turn client id start log w visit shown? w' ∧
        w'.OnTour id start (log ++ [(visit, shown?)]) := by
  obtain ⟨app, happ, hfollows⟩ := h.app
  have hdelivered (page : Page) (hpage : pageVisited? app visit = some page) :
      w.Delivers client id start page := by
    obtain ⟨content?, w', hcall, hresult⟩ := hdelivers app page happ h.held hpage
    rw [hfollows.host] at hresult
    rw [hfollows.registry] at hcall
    exact ⟨content?, w', hcall, hresult⟩
  cases visit with
  | register name page => exact ⟨none, _, rfl, .register name page, h.register name page⟩
  | render name =>
    cases hpage : pageNamed? log name with
    | none =>
      refine ⟨none, w, ?_, .miss hpage, ⟨app, happ, hfollows.miss (by simp)⟩, h.held, h.surface⟩
      rw [visit, renderPage, happ]
      dsimp only
      rw [hfollows.pages name, hpage]
      rfl
    | some page =>
      obtain ⟨content, w', hrun, hturn, honTour⟩ :=
        h.exists_render hpage (hdelivered page ((hfollows.pages name).trans hpage))
      exact ⟨some content, w', hrun, hturn, honTour⟩
  | refresh =>
    cases hname : nameRendered? log with
    | none =>
      refine ⟨none, w, ?_, .idle hname, ⟨app, happ, hfollows.miss (by simp)⟩, h.held, h.surface⟩
      rw [visit, refreshPage, happ]
      dsimp only
      rw [hfollows.current, hname]
      rfl
    | some name =>
      have hcurrent := hfollows.current.trans hname
      obtain ⟨page, hfound⟩ := hfollows.registered name hcurrent
      obtain ⟨content, w', hrun, hturn, honTour⟩ :=
        h.exists_refresh hname ((hfollows.pages name).symm.trans hfound)
          (hdelivered page (by rw [pageVisited?, hcurrent, Option.bind_some, hfound]))
      exact ⟨some content, w', hrun, hturn, honTour⟩

/-- A tour can be continued with any visits. -/
theorem OnTour.exists_more {before : World σ} (h : w.OnTour id start log)
    (htour : Tour client id start before log w) (visits : List Visit)
    (hobeys : Obeys client id w visits) :
    ∃ more w', more.map Prod.fst = visits ∧ Tour client id start before (log ++ more) w' ∧
      w'.OnTour id start (log ++ more) := by
  induction visits generalizing w log with
  | nil => exact ⟨[], w, rfl, by rwa [List.append_nil], by rwa [List.append_nil]⟩
  | cons visit visits ih =>
    obtain ⟨shown?, next, hrun, hturn, honTour⟩ := h.exists_visit visit hobeys.1
    obtain ⟨more, w', hmore, htour', hlast⟩ :=
      ih honTour (htour.snoc hrun hturn) (hobeys.2 _ next hrun)
    refine ⟨(visit, shown?) :: more, w', by rw [List.map_cons, hmore], ?_, ?_⟩
    · rwa [List.append_assoc] at htour'
    · rwa [List.append_assoc] at hlast

/-- Any visits to an application succeed, and each does what it should after those before; in the
end the application agrees with its history: its current page, its signal and what it shows are
those of the last visits that showed something, and the current page is registered. -/
theorem exists_tour (happ : w.apps.get? id = some start) (hunused : start.Unused)
    (hheld : .app id ∈ w.held) {surface : Surface}
    (hsurface : w.hosts.get? start.host = some (.surface surface)) (visits : List Visit)
    (hobeys : Obeys client id w visits) :
    ∃ log w' app, log.map Prod.fst = visits ∧ Tour client id start w log w' ∧
      w'.apps.get? id = some app ∧ app.Follows start log := by
  have hstart : w.OnTour id start [] := ⟨⟨start, happ, .nil hunused⟩, hheld, surface, hsurface⟩
  obtain ⟨log, w', hlog, htour, honTour⟩ := hstart.exists_more (.nil w) visits hobeys
  obtain ⟨app, happ', hfollows⟩ := honTour.app
  exact ⟨log, w', app, hlog, htour, happ', hfollows⟩

namespace Lobby

/-- A client whose pages show a paragraph or nothing. -/
def usher : Client (List Note) where
  call _ w := .ok w
  page renderer registry w :=
    if renderer = 0 then
      let (content, w) := w.createPlain registry "p" ∅ [.text "Hello"]
      .ok (some content, w)
    else .ok (none, w)

theorem delivers_usher {w : World (List Note)} (hid : .app id ∈ w.held) (app : App) (page : Page) :
    w.Delivers usher id app page := by
  have hnothing := Delivered.refl hid app.host
  by_cases hrenderer : page.renderer = 0
  · have hbuilt := hnothing.added app.registry "p" "Hello"
    rw [← (Prod.mk.inj (w.createPlain_eq app.registry "p" rfl [.text "Hello"])).2] at hbuilt
    exact ⟨_, _, if_pos hrenderer, hbuilt⟩
  · exact ⟨none, w, if_neg hrenderer, hnothing⟩

theorem obeys_usher (visits : List Visit) (w : World (List Note)) : Obeys usher id w visits := by
  induction visits generalizing w with
  | nil => trivial
  | cons visit visits ih =>
    exact ⟨fun app page _ hid _ ↦ delivers_usher hid app page, fun _ w' _ ↦ ih w'⟩

/-- A surface and an application on it. -/
def lobby : World (List Note) :=
  (({ client := [] } : World (List Note)).addHost (.surface { markup := "<hr>" })).addRegistry {}
    |>.addApp { host := 0, registry := 0 }

/-- Visits before and after there is a page, which is replaced. -/
def visits : List Visit :=
  [.render "home", .refresh, .register "home" ⟨0, {}⟩, .render "home", .refresh,
    .register "home" ⟨1, {}⟩, .refresh]

end Lobby

open Lobby in
theorem exists_tour_lobby :
    Obeys usher 0 lobby visits ∧
      ∃ log w' app, log.map Prod.fst = visits ∧
        Tour usher 0 { host := 0, registry := 0 } lobby log w' ∧
        w'.apps.get? 0 = some app ∧ app.Follows { host := 0, registry := 0 } log :=
  ⟨obeys_usher visits lobby,
    exists_tour rfl ⟨fun _ ↦ rfl, rfl, rfl, rfl⟩ List.mem_cons_self rfl visits
      (obeys_usher visits lobby)⟩

end World

end LiveMarkup
