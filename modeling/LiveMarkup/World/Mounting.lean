import LiveMarkup.World.Hosting
import LiveMarkup.World.Rendering
import LiveMarkup.World.Writing

/-!
Mounting and refreshing. A mounted node is displayed as its rendered form, which takes its id,
so that the element on the host is addressed by the id of the node; a refresh renders the node
again and replaces what is inside that element.
-/

set_option autoImplicit false
set_option relaxedAutoImplicit false

namespace LiveMarkup.World

variable {σ : Type} [Journal σ]

/-- Gives a node another id. -/
def takeId (w : World σ) (node : NodeId) (id : String) : World σ :=
  w.modifyNode node (Node.takeId · id)

/-- Records where and as what a node was mounted; its earlier form is given up. -/
def recordMounting (w : World σ) (node : NodeId) (host : HostId) (rendered : NodeId) : World σ :=
  let form := if rendered = node then .itself else .wrapper rendered
  (w.modifyNode node fun n ↦ { n with mounting? := some ⟨host, form⟩ }).sweep

/-- What a component does with a node that was just mounted. -/
def afterMounting (w : World σ) (id : NodeId) : World σ :=
  match w.node? id with
  | some node =>
    match node.kind with
    | .tracked => w.note (.shown node.id node.isMounted)
    | .boxed => w.note (.boxed node.id ((w.rendered? id).bind w.node? |>.map Node.tag))
    | _ => w
  | none => w

/-- Adds a node to a host, and takes a reference to its rendered form. -/
def mount (w : World σ) (node : NodeId) (host : HostId) : Except Fault (NodeId × World σ) := do
  let (rendered, w) ← w.render node
  let w := (w.takeId rendered (w.idOf node)).recordMounting node host rendered
  let (markup, w) ← w.write rendered
  return (rendered, (w.append host markup).afterMounting node)

/-- Renders a mounted node again and replaces the markup inside its element. Nothing happens to
a node that was never mounted, and nothing to a host without the element. -/
def refresh (w : World σ) (node : NodeId) : Except Fault (World σ) := do
  match (w.node? node).bind Node.mounting? with
  | none => return w
  | some mounting =>
    let id := w.idOf node
    let (rendered, w) ← w.render node
    let (markup, w) ← (w.takeId rendered id).writeInner rendered
    let w := (w.recordMounting node mounting.host rendered).setInner mounting.host id markup
    return w.2.release (.node rendered)

/-- Merges entries into the state of a node and refreshes it. -/
def setState (w : World σ) (node : NodeId) (entries : List (String × Value)) :
    Except Fault (World σ) :=
  (w.modifyNode node (Node.mergeState · entries)).refresh node

end LiveMarkup.World
