import LiveMarkup.Node
import LiveMarkup.Proofs.Markup.Forest

/-!
Outlines: what a node unfolds to before values are filled in. An outline stays the same while
observables change, and gives a tree once it is known what they display (`Outline.tree`). The
elements of that tree are the parts of the outline (`Outline.elements_tree`).
-/

set_option autoImplicit false
set_option relaxedAutoImplicit false

namespace LiveMarkup

/-- A node but for its parent and its mounting. -/
def Node.bare (node : Node) : Node := { node with parent? := none, mounting? := none }

theorem Node.eq_of_bare {node node' : Node} (h : node'.bare = node.bare) :
    node' = { node with parent? := node'.parent?, mounting? := node'.mounting? } := by
  cases node
  cases node'
  simpa [bare] using h

/-- What an entry that is no node shows, given what observables display. -/
def Child.shown (display : ObservableId → String) : Child → String
  | .node _ => ""
  | .state observable => display observable
  | .text s => s
  | .number n => n.text

/-- A node, bare, with everything below it. -/
inductive Outline where
  | node (id : NodeId) (self : Node) (content : List Outline)
  | leaf (child : Child)

namespace Outline

mutual

/-- The tree of an outline, values filled in. -/
def tree (display : ObservableId → String) : Outline → Tree
  | .node id self content => .element id self.tag self.attributes.printed (trees display content)
  | .leaf child => .text (child.shown display)

/-- The trees of several outlines. -/
def trees (display : ObservableId → String) : List Outline → List Tree
  | [] => []
  | outline :: rest => outline.tree display :: trees display rest

end

mutual

/-- The nodes of an outline with what is below them, the outline itself first. -/
def parts : Outline → List Outline
  | .node id self content => .node id self content :: partsAll content
  | .leaf _ => []

/-- The nodes of several outlines with what is below them. -/
def partsAll : List Outline → List Outline
  | [] => []
  | outline :: rest => outline.parts ++ partsAll rest

end

/-- The nodes properly below the root of an outline, with what is below them. -/
def inside : Outline → List Outline
  | .node _ _ content => partsAll content
  | .leaf _ => []

/-- What the root of an outline prints as its attributes. -/
def printed : Outline → List (String × String)
  | .node _ self _ => self.attributes.printed
  | .leaf _ => []

/-- Some node of an outline has the value of an observable in its content. -/
def Holds (outline : Outline) (observable : ObservableId) : Prop :=
  ∃ id self content, .node id self content ∈ outline.parts ∧ .state observable ∈ self.content

variable {display : ObservableId → String}

theorem trees_eq_map (display : ObservableId → String) (outlines : List Outline) :
    trees display outlines = outlines.map (tree display) := by
  induction outlines with
  | nil => rfl
  | cons outline outlines ih => rw [trees, ih, List.map_cons]

theorem mem_partsAll {outlines : List Outline} {part : Outline} :
    part ∈ partsAll outlines ↔ ∃ outline ∈ outlines, part ∈ outline.parts := by
  induction outlines with
  | nil => simp [partsAll]
  | cons outline outlines ih => simp [partsAll, ih]

theorem mem_inside_iff {id : NodeId} {self : Node} {content : List Outline} {part : Outline} :
    part ∈ (node id self content).inside ↔ ∃ outline ∈ content, part ∈ outline.parts :=
  mem_partsAll

theorem mem_parts_iff {id : NodeId} {self : Node} {content : List Outline} {part : Outline} :
    part ∈ (node id self content).parts ↔
      part = .node id self content ∨ part ∈ (node id self content).inside :=
  List.mem_cons

theorem inside_subset_parts (outline : Outline) : outline.inside ⊆ outline.parts := by
  cases outline with
  | node id self content => exact fun _ hpart ↦ mem_parts_iff.mpr (.inr hpart)
  | leaf child => exact fun _ hpart ↦ hpart

/-- What is among the parts of an outline is the outline itself or inside it. -/
theorem eq_or_mem_inside {outline part : Outline} (h : part ∈ outline.parts) :
    part = outline ∨ part ∈ outline.inside := by
  cases outline with
  | node id self content => exact mem_parts_iff.mp h
  | leaf child => exact .inr h

mutual

/-- The elements of the tree are the parts of the outline. -/
theorem elements_tree (display : ObservableId → String) :
    (outline : Outline) → (outline.tree display).elements = outline.parts.map (tree display)
  | .node id self content => by
    rw [tree, Tree.elements, parts, List.map_cons, elementsAll_trees display content, tree]
  | .leaf _ => rfl

theorem elementsAll_trees (display : ObservableId → String) :
    (outlines : List Outline) →
      Tree.elementsAll (trees display outlines) = (partsAll outlines).map (tree display)
  | [] => rfl
  | outline :: rest => by
    rw [trees, Tree.elementsAll, partsAll, List.map_append, elements_tree display outline,
      elementsAll_trees display rest]

end

theorem attributes_tree (display : ObservableId → String) (outline : Outline) :
    (outline.tree display).attributes = outline.printed := by
  cases outline <;> rfl

end Outline

end LiveMarkup
