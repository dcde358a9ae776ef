import LiveMarkup.Script.Build
import LiveMarkup.World.Clicking

/-!
Steps on registries and on hosts.
-/

set_option autoImplicit false
set_option relaxedAutoImplicit false

namespace LiveMarkup.Script

open Session

/-- The style sheet of a registry as a reply. -/
def sheetOf (registry : RegistryId) : Session Reply := look fun w ↦
  .sheet (w.registry registry).sheet.length (w.registry registry).sheet.text

/-- Performs a step on a registry. -/
def RegistryStep.perform (client : Client Desk) : RegistryStep → Session Reply
  | .make name config => do
    let id ← look fun w ↦ w.registries.next
    change fun w ↦ w.addRegistry config
    bind name (.registry id)
    return .config config
  | .clone registry name => do
    bind name (.registry (← registryOf registry))
    return .done
  | .nextId registry => do
    let registry ← registryOf registry
    let id ← look fun w ↦ (w.registry registry).nextId
    change fun w ↦ w.modifyRegistry registry Registry.countId
    return .text id
  | .nodes registry => do
    let registry ← registryOf registry
    return .refs (← (← look fun w ↦ w.liveNodes registry).mapM refOf)
  | .counts registry => do
    let registry ← registryOf registry
    look fun w ↦ .counts (w.population registry) (w.registry registry).created
  | .find registry id name? => do
    let registry ← registryOf registry
    match ← look fun w ↦ w.find? registry id with
    | some node =>
      share name? node
      return .ref? (some (← refOf node))
    | none => return .ref? none
  | .load registry host => do
    let registry ← registryOf registry
    let host ← hostOf host
    attempt fun w ↦ w.load client registry host
    return .done
  | .addStyle registry node style => do
    let registry ← registryOf registry
    let node ← nodeOf node
    change fun w ↦ w.modifyRegistry registry (Registry.addRule (w.idOf node) style)
    sheetOf registry
  | .sheet registry => do sheetOf (← registryOf registry)

/-- The reply to a change that a host may refuse. -/
def Reply.ofResult : Except LookupError Unit → Reply
  | .ok () => .ok
  | .error error => .failed error

/-- Performs a step on a host. -/
def HostStep.perform (client : Client Desk) : HostStep Step → Session Reply
  | .surface name text => do
    let id ← look fun w ↦ w.hosts.next
    change fun w ↦ w.addHost (.surface { markup := text })
    bind name (.host id)
    return .done
  | .probe name elements fails => do
    let id ← look fun w ↦ w.hosts.next
    change fun w ↦ w.addHost (.probe ⟨elements, fails⟩)
    bind name (.host id)
    return .done
  | .markup host => return .text (← surfaceOf host).markup
  | .element host id => do
    let surface ← surfaceOf host
    return .element (surface.hasElement id) (surface.outerMarkup? id) (surface.innerMarkup? id)
  | .append host text => do
    let host ← hostOf host
    change fun w ↦ w.append host text
    return .done
  | .replace host text => do
    let host ← hostOf host
    change fun w ↦ w.replace host text
    return .done
  | .setInner host id text => do
    let host ← hostOf host
    return .ofResult (← modifyGet fun w ↦ w.setInner host id text)
  | .attachClick host id plan => do
    let host ← hostOf host
    let handler ← makeCallback plan
    return .ofResult (← obtain fun w ↦ w.attachClick client host id handler)
  | .click host id => do
    let host ← hostOf host
    return .count (← obtain fun w ↦ w.click client host id)
  | .listenerCount host id => return .count ((← surfaceOf host).clickListeners id).length

end LiveMarkup.Script
