import LiveMarkup.Proofs.Content.Safety
import LiveMarkup.World.Hosting

/-!
What writing does to a world. Writing a node records parents and nothing else
(`World.recordParents_eq`), so that every node unfolds as before (`World.Unfolds.of_bare`), and a
node that unfolds is written as the markup of its tree (`World.write_eq_ok`).
-/

set_option autoImplicit false
set_option relaxedAutoImplicit false

namespace LiveMarkup

/-- A node but for the parent that it remembers. -/
def Node.forgetParent (node : Node) : Node := { node with parent? := none }

theorem Node.eq_of_forgetParent {node node' : Node} (h : node'.forgetParent = node.forgetParent) :
    node' = { node with parent? := node'.parent? } := by
  cases node
  cases node'
  simpa [forgetParent] using h

namespace World

variable {σ : Type} {w w' : World σ}

/-! ### Recording parents -/

theorem recordParents_eq (w : World σ) (links : List (NodeId × NodeId)) :
    ∃ nodes : Table Node, w.recordParents links = { w with nodes := nodes } ∧
      nodes.next = w.nodes.next ∧
      ∀ id, (nodes.get? id).map Node.forgetParent = (w.nodes.get? id).map Node.forgetParent := by
  induction links generalizing w with
  | nil => exact ⟨w.nodes, rfl, rfl, fun _ ↦ rfl⟩
  | cons link links ih =>
    let changed := w.nodes.modify link.1 fun node ↦ { node with parent? := some link.2 }
    obtain ⟨nodes, heq, hnext, hnodes⟩ := ih { w with nodes := changed }
    refine ⟨nodes, heq, hnext, fun id ↦ (hnodes id).trans ?_⟩
    show (changed.get? id).map Node.forgetParent = (w.nodes.get? id).map Node.forgetParent
    rw [Table.get?_modify]
    split
    · rw [Option.map_map]
      rfl
    · rfl

theorem forgetParent_recordParents (w : World σ) (links : List (NodeId × NodeId)) (id : NodeId) :
    ((w.recordParents links).node? id).map Node.forgetParent =
      (w.node? id).map Node.forgetParent := by
  obtain ⟨nodes, heq, _, hnodes⟩ := w.recordParents_eq links
  rw [heq]
  exact hnodes id

@[simp] theorem observables_recordParents (w : World σ) (links : List (NodeId × NodeId)) :
    (w.recordParents links).observables = w.observables := by
  obtain ⟨nodes, heq, _⟩ := w.recordParents_eq links
  rw [heq]

@[simp] theorem hosts_recordParents (w : World σ) (links : List (NodeId × NodeId)) :
    (w.recordParents links).hosts = w.hosts := by
  obtain ⟨nodes, heq, _⟩ := w.recordParents_eq links
  rw [heq]

@[simp] theorem held_recordParents (w : World σ) (links : List (NodeId × NodeId)) :
    (w.recordParents links).held = w.held := by
  obtain ⟨nodes, heq, _⟩ := w.recordParents_eq links
  rw [heq]

theorem map_bare_of_forgetParent {node? node'? : Option Node}
    (h : node'?.map Node.forgetParent = node?.map Node.forgetParent) :
    node'?.map Node.bare = node?.map Node.bare := by
  have hbare : Node.bare = Node.bare ∘ Node.forgetParent := rfl
  rw [hbare, ← Option.map_map, ← Option.map_map, h]

/-- The nodes of an outline are as it has them. -/
theorem Unfolds.bare_of_mem {root : NodeId} {outline : Outline} (h : w.Unfolds root outline)
    {id : NodeId} {self : Node} {content : List Outline}
    (hpart : .node id self content ∈ outline.parts) : (w.node? id).map Node.bare = some self := by
  obtain ⟨below, _, hunfolds⟩ := h.exists_reaches _ hpart
  obtain ⟨node, _, hnode, _, heq⟩ := unfolds_iff.mp hunfolds
  obtain ⟨rfl, rfl, -⟩ := Outline.node.inj heq
  rw [hnode, Option.map_some]

/-- Nodes unfold alike where all nodes are the same but for their parents and mountings. -/
theorem Unfolds.of_bare {root : NodeId} {outline : Outline} (h : w.Unfolds root outline)
    (hsame : ∀ id, (w'.node? id).map Node.bare = (w.node? id).map Node.bare) :
    w'.Unfolds root outline :=
  h.congr fun id _ _ hpart ↦ (hsame id).trans (h.bare_of_mem hpart)

/-! ### Markup -/

/-- A node that unfolds is written as the markup of its tree. -/
theorem write_eq_ok {id : NodeId} {outline : Outline} (h : w.Unfolds id outline) :
    w.write id = .ok ((outline.tree w.displayOf).markup,
      w.recordParents (outline.tree w.displayOf).links) := by
  rw [write, traverse, tree?_eq_some_iff.mpr ⟨outline, h, rfl⟩]
  rfl

/-- The content of a node that unfolds is written as the markup inside its tree. -/
theorem writeInner_eq_ok {id : NodeId} {outline : Outline} (h : w.Unfolds id outline) :
    w.writeInner id = .ok ((outline.tree w.displayOf).innerMarkup,
      w.recordParents (outline.tree w.displayOf).links) := by
  rw [writeInner, traverse, tree?_eq_some_iff.mpr ⟨outline, h, rfl⟩]
  rfl

theorem displayOf_congr (h : w'.observables = w.observables) : w'.displayOf = w.displayOf := by
  funext observable
  rw [displayOf, displayOf, World.observable, World.observable, h]

/-! ### Hosts -/

theorem host_eq {host : HostId} {shown : Host} (h : w.hosts.get? host = some shown) :
    w.host host = shown := by
  rw [World.host, h, Option.getD_some]

theorem hosts_setSurface {host : HostId} {shown : Host} (h : w.hosts.get? host = some shown)
    (surface : Surface) :
    (w.setSurface host surface).hosts.get? host = some (.surface surface) := by
  rw [setSurface, Table.get?_modify, if_pos rfl, h, Option.map_some]

/-- Adding markup to a surface changes the surface. -/
theorem append_surface [Journal σ] {host : HostId} {surface : Surface}
    (h : w.hosts.get? host = some (.surface surface)) (markup : String) :
    w.append host markup = w.setSurface host (surface.append markup) := by
  rw [append, host_eq h]

end World

end LiveMarkup
