import LiveMarkup.Script.Apps
import LiveMarkup.Script.Nodes
import LiveMarkup.Script.Observables
import LiveMarkup.Script.Registries
import LiveMarkup.Script.Stores
import LiveMarkup.World.Debug

/-!
Running scripts. Steps are executed one after the other; a step that calls callbacks executes
their steps before it is answered, up to a limit of nested calls.
-/

set_option autoImplicit false
set_option relaxedAutoImplicit false

namespace LiveMarkup.Script

open Session

/-- What is built, as debugging text. -/
def Shape.debug : Shape Step → String
  | .tag name => Debug.wrap "Tag" (quoted name)
  | .component kind => Debug.wrap "Class" (quoted kind.name)
  | .function _ => Debug.wrap "Function" "<fn>"

/-- What a handle is bound to, as debugging text. -/
def debugHandle (w : World Desk) : Handle → Option String
  | .observable id => some (Debug.observable (w.observable id))
  | .node id => some (w.debugNode id)
  | .subscriber target => some (Debug.subscriber (w.isAlive target))
  | .app id => (w.apps.get? id).map Debug.app
  | .emitter id => (w.client.emitters.get? id).map Debug.emitter
  | _ => none

/-- Performs a step that asks for debugging text. -/
def DebugStep.perform : DebugStep Step → Session Reply
  | .handle name => do
    let w ← get
    return .text (← lookUp name (debugHandle w))
  | .page app name => return .text? (((← appOf app).2.pages.get? name).map fun page ↦
      Debug.page page.options)
  | .children node => do
    let node ← getNode (← nodeOf node)
    look fun w ↦ .texts (node.content.map w.debugChild)
  | .attributes node => do
    let node ← getNode (← nodeOf node)
    return .texts (node.attributes.toList.map fun entry ↦ Debug.attributeValue entry.2)
  | .shape built => return .text built.debug

/-- Performs a step, given the client that its callbacks are called by. -/
def Step.perform (client : Client Desk) : Step → Session Reply
  | .registry step => step.perform client
  | .host step => step.perform client
  | .observable step => step.perform client
  | .node step => step.perform client
  | .app step => step.perform client
  | .store step => step.perform
  | .emitter step => step.perform client
  | .debug step => step.perform

/-- Executes a step in which calls nest less than `depth` deep. -/
def execute : Nat → Step → Session Reply
  | 0, _ => throw .endless
  | depth + 1, step => step.perform (clientOf (execute depth))

/-- How deep calls may nest: a bound that makes every run end, out of reach of scripts that end
without it. -/
def nestingLimit : Nat := 1000000

/-- The surfaces bound to handles, with their markup. -/
def surfaces (w : World Desk) : List (String × String) :=
  w.client.handles.toList.filterMap fun (name, handle) ↦
    match handle with
    | .host id => (w.host id).surface?.map fun surface ↦ (name, surface.markup)
    | _ => none

/-- Takes the markup that differs from what was last answered under the same handle; nothing
answered yet counts as no markup. -/
def takeMarkup : Session (List (String × String)) := do
  let changed ← look fun w ↦ (surfaces w).filter fun (name, markup) ↦
    (w.client.answered.get? name).getD "" != markup
  changeDesk fun desk ↦ { desk with answered := desk.answered.insertAll changed }
  return changed

/-- Takes the log. -/
def takeLog : Session (List LogEntry) := do
  let log ← look fun w ↦ w.client.log
  changeDesk fun desk ↦ { desk with log := #[] }
  return log.toList

/-- Executes the steps of a script and collects what it answers. -/
def runSteps : List Step → Session (List Item)
  | [] => return []
  | step :: rest => do
    let reply ← execute nestingLimit step
    let item : Item := ⟨reply, ← takeLog, ← takeMarkup⟩
    return item :: (← runSteps rest)

/-- Runs a script from an empty world. -/
def run (steps : List Step) : Except Fault (List Item) :=
  (runSteps steps |>.run { client := {} }).map Prod.fst

end LiveMarkup.Script
