import LiveMarkup.World.Creation

/-!
Rendering: what a node is displayed as. Most nodes are displayed as themselves. A container is
displayed as a new `div` around its content, in which every layout stands in its own rendered
form; other nodes stay in it as they are, and what is below them is not looked at.
-/

set_option autoImplicit false
set_option relaxedAutoImplicit false

namespace LiveMarkup.World

variable {σ : Type} [Journal σ]

/-- The attributes of the `div` of a container. -/
def layoutAttributes (node : Node) : Attributes :=
  let classed : Attributes := .ofList [("class", .text (" ".intercalate node.classes))]
  if node.style.isEmpty then classed else classed.insert "style" (.text node.style)

/-- Replaces each layout in a content by its rendered form. References are taken to the forms,
which are returned with the content. -/
def renderLayouts (renderNode : World σ → NodeId → Except Fault (NodeId × World σ)) :
    World σ → List Child → Except Fault (List Child × List NodeId × World σ)
  | w, [] => .ok ([], [], w)
  | w, child :: rest => do
    match child.node?.filter fun id ↦ (w.node? id).any fun node ↦ node.kind.isLayout with
    | some id =>
      let (form, w) ← renderNode w id
      let (content, forms, w) ← renderLayouts renderNode w rest
      return (.node form :: content, form :: forms, w)
    | none =>
      let (content, forms, w) ← renderLayouts renderNode w rest
      return (child :: content, forms, w)

/-- Renders a node as a container, given how the layouts in it are rendered. -/
def renderContainer (renderNode : World σ → NodeId → Except Fault (NodeId × World σ))
    (w : World σ) (node : Node) : Except Fault (NodeId × World σ) := do
  let (content, forms, w) ← renderLayouts renderNode w node.content
  let (id, w) := w.createPlain node.registry "div" (layoutAttributes node) content
  return (id, w.releaseAll forms)

/-- The content of a greeting: the name in the state of the node is greeted first. -/
def greetingContent (node : Node) : List Child :=
  let name := (node.state.get? "name").elim "world" Value.display
  .text ("Hello, " ++ name ++ "!") :: node.content

/-- Renders a node in which layouts nest less than `depth` deep, and takes a reference to the
result. -/
def renderWithin : Nat → World σ → NodeId → Except Fault (NodeId × World σ)
  | 0, _, _ => .error .endless
  | depth + 1, w, id =>
    match w.node? id with
    | none => .ok (id, w)
    | some node =>
      match node.kind with
      | .layout | .flexLayout | .boxed => renderContainer (renderWithin depth) w node
      | .text => .ok (w.createPlain node.registry "p" ∅ node.content)
      | .greeting => .ok (w.createPlain node.registry "h1" ∅ (greetingContent node))
      | .plain | .badge | .tracked | .panel => .ok (id, w.hold (.node id))

/-- A depth of nesting that no content reaches unless it holds itself. -/
def depthLimit (w : World σ) : Nat := w.nodes.size + 1

/-- Renders a node and takes a reference to the result. -/
def render (w : World σ) (id : NodeId) : Except Fault (NodeId × World σ) :=
  renderWithin w.depthLimit w id

/-- Renders a node of any kind as a container and takes a reference to the result. -/
def renderAsContainer (w : World σ) (id : NodeId) : Except Fault (NodeId × World σ) :=
  match w.node? id with
  | none => .ok (id, w)
  | some node => renderContainer (renderWithin w.depthLimit) w node

end LiveMarkup.World
