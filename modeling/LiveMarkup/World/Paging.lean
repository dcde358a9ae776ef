import LiveMarkup.World.Mutation

/-!
Showing pages. Rendering a page mounts its content after what the host shows; refreshing the
current page builds it again and mounts it on an emptied host. Only then is the content shown
before given up. Watchers are told when the current page changes to one of another name.
-/

set_option autoImplicit false
set_option relaxedAutoImplicit false

namespace LiveMarkup.World

variable {σ : Type} [Journal σ]

/-- Builds the content of a page, or the placeholder, and takes a reference to it. -/
def pageContent (client : Client σ) (w : World σ) (app : App) (name : String) (page : Page) :
    Except Fault (NodeId × World σ) := do
  let (content?, w) ← client.page page.renderer app.registry w
  match content? with
  | some content => return (content, w)
  | none =>
    return w.createPlain app.registry (w.registry app.registry).config.fallbackTag ∅
      [.text (Page.placeholder name)]

/-- Mounts new content and makes it what the application shows. The reference to the content
passes to the application. -/
def showContent (w : World σ) (id : AppId) (host : HostId) (content : NodeId) :
    Except Fault (World σ) := do
  let (rendered, w) ← w.mount content host
  let w := w.modifyApp id fun app ↦ { app with mounted? := some content }
  return w.releaseAll [rendered, content]

/-- Makes a page the current one, and tells the watchers if that changes its name. -/
def setCurrent (w : World σ) (id : AppId) (name : String) : World σ :=
  match w.apps.get? id with
  | none => w
  | some app =>
    let w := w.modifyApp id fun app ↦
      { app with current? := some name, signal := { app.signal with value? := some name } }
    if app.signal.value? = some name then w
    else app.signal.watchers.rows.foldl (fun w row ↦ w.note (.page row.2 (some name))) w

/-- Renders the page of an application with a name, and tells whether there is one. -/
def renderPage (client : Client σ) (w : World σ) (id : AppId) (name : String) :
    Except Fault (Bool × World σ) := do
  match w.apps.get? id with
  | none => return (false, w)
  | some app =>
    match app.pages.get? name with
    | none => return (false, w)
    | some page =>
      let (content, w) ← w.pageContent client app name page
      let w ← w.showContent id app.host content
      return (true, w.setCurrent id name)

/-- Renders the current page again on an emptied host, and tells whether there is one. -/
def refreshPage (client : Client σ) (w : World σ) (id : AppId) : Except Fault (Bool × World σ) := do
  match w.apps.get? id with
  | none => return (false, w)
  | some app =>
    match app.current?.bind fun name ↦ (app.pages.get? name).map fun page ↦ (name, page) with
    | none => return (false, w)
    | some (name, page) =>
      let (content, w) ← w.pageContent client app name page
      return (true, ← (w.replace app.host "").showContent id app.host content)

/-- Adds a watcher of the current page, which is told it at once. Its number is the next one of
the table of watchers. -/
def watch (w : World σ) (id : AppId) (label : String) : World σ :=
  match w.apps.get? id with
  | none => w
  | some app =>
    (w.modifyApp id fun app ↦
      { app with signal := { app.signal with watchers := app.signal.watchers.push label } }).note
      (.page label app.signal.value?)

/-- Removes a watcher. -/
def unwatch (w : World σ) (id : AppId) (watcher : WatcherId) : World σ :=
  w.modifyApp id fun app ↦
    { app with signal := { app.signal with watchers := app.signal.watchers.erase watcher } }

end LiveMarkup.World
