import LiveMarkup.Script.Build
import LiveMarkup.World.Clicking
import LiveMarkup.World.Paging

/-!
Steps on applications.
-/

set_option autoImplicit false
set_option relaxedAutoImplicit false

namespace LiveMarkup.Script

open Session

/-- The registry that a handle is bound to, or a new one. -/
def registryOrNew (name? : Option HandleName) : Session RegistryId := do
  match name? with
  | some name => registryOf name
  | none =>
    let id ← look fun w ↦ w.registries.next
    change fun w ↦ w.addRegistry {}
    return id

/-- Acts on the application that a handle is bound to, holding it until the end. -/
def withApp {α : Type} (name : HandleName) (action : AppId → App → Session α) : Session α := do
  let (id, app) ← appOf name
  holding (.app id) (action id app)

/-- Builds the content of the next visit to a page and answers what it is. -/
def answerPage (client : Client Desk) (app : App) (page : Page) : Session Reply := do
  match ← obtain fun w ↦ client.page page.renderer app.registry w with
  | none => return .pageRender none
  | some content =>
    let ref ← refOf content
    let markup ← obtain fun w ↦ w.write content
    change fun w ↦ w.release (.node content)
    return .pageRender (some (ref, markup))

/-- Performs a step on applications. -/
def AppStep.perform (client : Client Desk) : AppStep Step → Session Reply
  | .make name host registryHandle? registryName? => do
    let host ← hostOf host
    let registry ← registryOrNew registryHandle?
    let id ← look fun w ↦ w.apps.next
    change fun w ↦ w.addApp { host := host, registry := registry }
    bind name (.app id)
    bind? registryName? (.registry registry)
    return .done
  | .addPage app name visits options => do
    let (id, _) ← appOf app
    let renderer ← look fun w ↦ w.client.visits.next
    changeDesk fun desk ↦ { desk with visits := desk.visits.push { contents := visits } }
    change fun w ↦ w.modifyApp id (App.addPage · name ⟨renderer, options⟩)
    return .texts (← appOf app).2.pages.keys
  | .pageInfo app name => return .pageInfo (((← appOf app).2.pages.get? name).map Page.options)
  | .pageRender app name => withApp app fun _ app ↦
    match app.pages.get? name with
    | none => return .pageRender none
    | some page => answerPage client app page
  | .render app name => withApp app fun id _ ↦ do
    return .flag (← obtain fun w ↦ w.renderPage client id name)
  | .refresh app => withApp app fun id _ ↦ do
    return .flag (← obtain fun w ↦ w.refreshPage client id)
  | .load app => withApp app fun _ app ↦ do
    attempt fun w ↦ w.load client app.registry app.host
    return .done
  | .append app markup => do
    let (_, app) ← appOf app
    change fun w ↦ w.append app.host markup
    return .done
  | .state app => do
    let (_, app) ← appOf app
    return .appState app.current? app.signal.value? (← refOf? app.mounted?) app.pages.keys
  | .watch app name => do
    let (id, app) ← appOf app
    change fun w ↦ w.watch id name
    bind name (.watcher id app.signal.watchers.next)
    return .done

end LiveMarkup.Script
