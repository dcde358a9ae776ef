import LiveMarkup.World.Lifetime

/-!
Creating nodes. A node that is created without an id is given the next one of its registry.
Its presentation is resolved once; then it is listed in the registry, and its component acts.
-/

set_option autoImplicit false
set_option relaxedAutoImplicit false

namespace LiveMarkup.World

variable {σ : Type} [Journal σ]

/-- Attributes with an id, generated if they have none. -/
def withId (w : World σ) (registry : RegistryId) (attributes : Attributes) :
    Attributes × World σ :=
  if attributes.contains "id" then (attributes, w)
  else
    (attributes.insert "id" (.text (w.registry registry).nextId),
      w.modifyRegistry registry Registry.countId)

/-- What a component does with a node that was just created. -/
def afterCreation (w : World σ) (id : NodeId) : World σ :=
  match w.node? id with
  | some node =>
    match node.kind with
    | .flexLayout => w.modifyNode id (Node.addClass · Flag.flex.className)
    | .panel => w.modifyNode id fun node ↦ (node.addClass "panel").addContent [.text "[panel]"]
    | .tracked => w.note (.created node.id (w.population node.registry))
    | _ => w
  | none => w

/-- Creates a node and takes a reference to it. -/
def create (w : World σ) (registry : RegistryId) (kind : Kind) (tag : String)
    (attributes : Attributes) (content : List Child) : NodeId × World σ :=
  let (attributes, w) := w.withId registry attributes
  let presentation := resolve attributes (w.registry registry).config.baseClass
    (kind.style attributes)
  let id := w.nodes.next
  let node : Node :=
    { tag, kind, registry, attributes, content
      classes := presentation.classes
      style := presentation.style
      flags := presentation.flags }
  let w := { w with nodes := w.nodes.push node }.hold (.node id)
  let alive := w.nodes.idSet
  let w := w.modifyRegistry registry (Registry.register alive.contains id)
  (id, w.afterCreation id)

/-- Creates a plain node. -/
def createPlain (w : World σ) (registry : RegistryId) (tag : String) (attributes : Attributes)
    (content : List Child) : NodeId × World σ :=
  w.create registry .plain tag attributes content

/-- Creates a node of a component, tagged with its name. -/
def createComponent (w : World σ) (registry : RegistryId) (kind : Kind) (attributes : Attributes)
    (content : List Child) : NodeId × World σ :=
  w.create registry kind kind.name attributes content

end LiveMarkup.World
