import LiveMarkup.Script.Desk

/-!
Building the elements that a script describes. The attributes of an element are made first,
then its content from left to right, then the node; a node is subscribed and bound when it is
finished. Content is held until the node that is built from it exists.
-/

set_option autoImplicit false
set_option relaxedAutoImplicit false

namespace LiveMarkup.Script

open Session

/-- Makes attributes, callbacks included. -/
def buildAttributes (settings : List (String × Setting Step)) : Session Attributes :=
  settings.foldlM (fun attributes (key, setting) ↦ do
    match setting with
    | .value (.text s) => return attributes.insert key (.text s)
    | .value (.number n) => return attributes.insert key (.number n)
    | .value (.flag b) => return attributes.insert key (.flag b)
    | .callback plan => return attributes.insert key (.callback (← makeCallback plan))) ∅

/-- Subscribes a node to observables, one after the other. -/
def subscribeAll (node : NodeId) : List HandleName → Session Unit
  | [] => pure ()
  | name :: rest => do
    let observable ← observableOf name
    change fun w ↦ w.subscribe observable (.node node)
    subscribeAll node rest

mutual

/-- Builds an element in a registry and takes a reference to it; `slot` is the content that the
enclosing function received. -/
def buildElement (registry : RegistryId) (slot : List Child) : Spec Step → Session NodeId
  | .mk shape settings content subscriptions name? => do
    let attributes ← buildAttributes settings
    let content ← buildContent registry slot content
    let node ← buildShape registry attributes content shape
    change fun w ↦ w.releaseAll (content.filterMap Child.node?)
    subscribeAll node subscriptions
    share name? node
    return node

/-- Builds the node of an element from attributes and content. -/
def buildShape (registry : RegistryId) (attributes : Attributes) (content : List Child) :
    Shape Step → Session NodeId
  | .tag name => modifyGet fun w ↦ w.createPlain registry name attributes content
  | .component kind => modifyGet fun w ↦ w.createComponent registry kind attributes content
  | .function inner => buildElement registry content inner

/-- Builds content and takes a reference to each node in it. -/
def buildContent (registry : RegistryId) (slot : List Child) :
    List (Entry Step) → Session (List Child)
  | [] => return []
  | entry :: rest => do
    let first ← buildEntry registry slot entry
    let rest ← buildContent registry slot rest
    return first ++ rest

/-- Builds one entry of content and takes a reference to each node in it. -/
def buildEntry (registry : RegistryId) (slot : List Child) : Entry Step → Session (List Child)
  | .text s => return [.text s]
  | .number n => return [.number n]
  | .node name => do
    let node ← nodeOf name
    change fun w ↦ w.hold (.node node)
    return [.node node]
  | .observable name => return [.state (← observableOf name)]
  | .element spec => return [.node (← buildElement registry slot spec)]
  | .slot => do
    change fun w ↦ w.holdAll (slot.filterMap Child.node?)
    return slot

end

/-- Builds the content of the next visit to a page and takes a reference to it. -/
def buildVisit (renderer : Renderer) (registry : RegistryId) : Session (Option NodeId) := do
  match ← look fun w ↦ w.client.visits.get? renderer with
  | none => return none
  | some visits =>
    changeDesk fun desk ↦
      { desk with visits := desk.visits.modify renderer fun v ↦ { v with count := v.count + 1 } }
    match visits.next? with
    | some spec => return some (← buildElement registry [] spec)
    | none => return none

/-- The client that runs scripts, given how a step is executed. -/
def clientOf (exec : Step → Session Reply) : Client Desk where
  call
    | .listen handler value, w => (answer exec handler (some value) |>.run w).map Prod.snd
    | .act handler, w => (answer exec handler none |>.run w).map Prod.snd
  page renderer registry := buildVisit renderer registry

end LiveMarkup.Script
