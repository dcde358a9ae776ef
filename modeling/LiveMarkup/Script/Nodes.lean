import LiveMarkup.Script.Build
import LiveMarkup.World.Clicking

/-!
Steps on nodes.
-/

set_option autoImplicit false
set_option relaxedAutoImplicit false

namespace LiveMarkup.Script

open Session

/-- The live node with a number. -/
def getNode (id : NodeId) : Session Node := do
  match ← look fun w ↦ w.node? id with
  | some node => return node
  | none => throw (.unbound "")

/-- An entry of content as replies show it. -/
def viewChild : Child → Session ChildView
  | .text s => return .text s
  | .number n => return .number n
  | .state observable => look fun w ↦ .observable (w.observable observable).value
  | .node id => return .node (← refOf id)

/-- Everything that can be asked of a node. -/
def viewNode (id : NodeId) : Session NodeView := do
  let node ← getNode id
  let rendered? ← look fun w ↦ w.rendered? id
  return {
    ref := ← refOf id
    attributes := node.attributes.toList
    classes := node.classes
    style := node.style
    flags := node.flags.toNat
    children := ← node.content.mapM viewChild
    isLayout := node.kind.isLayout
    isMounted := node.isMounted
    parent? := ← refOf? (← look fun w ↦ w.parent? id)
    rendered? := ← refOf? rendered?
    isItself? := rendered?.map fun rendered ↦ rendered == id }

/-- Answers what a node was rendered as, and passes the reference to it on. -/
def answerRendered (node rendered : NodeId) (name? : Option HandleName) : Session Reply := do
  let markup ← obtain fun w ↦ w.write rendered
  let reply := Reply.rendered (rendered == node) (← refOf rendered) markup
  keep name? rendered
  return reply

/-- Performs a step on nodes. -/
def NodeStep.perform (client : Client Desk) : NodeStep Step → Session Reply
  | .build registry spec => do
    let node ← buildElement (← registryOf registry) [] spec
    let ref ← refOf node
    change fun w ↦ w.release (.node node)
    return .ref? (some ref)
  | .inspect node => return .node (← viewNode (← nodeOf node))
  | .attributeValue node key =>
    return .attributeValue ((← getNode (← nodeOf node)).attributes.get? key)
  | .write node => do
    let node ← nodeOf node
    return .text (← obtain fun w ↦ w.write node)
  | .writeInner node => do
    let node ← nodeOf node
    return .text (← obtain fun w ↦ w.writeInner node)
  | .addContent node content => do
    let node ← nodeOf node
    holding (.node node) do
      let content ← buildContent (← getNode node).registry [] content
      change fun w ↦ w.modifyNode node (Node.addContent · content)
      change fun w ↦ w.releaseAll (content.filterMap Child.node?)
      return .count (← getNode node).content.length
  | .addClass node name => do
    let node ← nodeOf node
    change fun w ↦ w.modifyNode node (Node.addClass · name)
    return .texts (← getNode node).classes
  | .takeId node id => do
    let node ← nodeOf node
    change fun w ↦ w.takeId node id
    return .attributes (← getNode node).attributes.toList
  | .setState node entries => do
    let node ← nodeOf node
    attempt fun w ↦ w.setState node entries
    return .done
  | .state node key => return .value? ((← getNode (← nodeOf node)).state.get? key)
  | .render node name? => do
    let node ← nodeOf node
    answerRendered node (← obtain fun w ↦ w.render node) name?
  | .renderAsContainer node name? => do
    let node ← nodeOf node
    answerRendered node (← obtain fun w ↦ w.renderAsContainer node) name?
  | .rendered node name? => do
    let node ← nodeOf node
    match ← look fun w ↦ w.rendered? node with
    | some form =>
      let ref ← refOf form
      share name? form
      return .ref? (some ref)
    | none => return .ref? none
  | .mount node host name? => do
    let node ← nodeOf node
    let host ← hostOf host
    let form ← obtain fun w ↦ w.mount node host
    let reply := Reply.mounted (form == node) (← refOf form)
    keep name? form
    return reply
  | .refresh node => do
    let node ← nodeOf node
    attempt fun w ↦ w.refresh node
    return .done
  | .afterMounting node => do
    let node ← nodeOf node
    change fun w ↦ w.afterMounting node
    return .done
  | .whenReady node host => do
    let node ← nodeOf node
    let host ← hostOf host
    holding (.node node) (attempt fun w ↦ w.whenReady client host node)
    return .done
  | .attachAction node host => do
    let node ← nodeOf node
    let host ← hostOf host
    holding (.node node) (attempt fun w ↦ w.attachAction client node host)
    return .done
  | .same a b => return .flag ((← nodeOf a) == (← nodeOf b))
  | .drop name => return .flag (← Session.drop name)

end LiveMarkup.Script
