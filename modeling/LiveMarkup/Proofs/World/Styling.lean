import LiveMarkup.Proofs.Identity.Runs
import LiveMarkup.Proofs.World.Conduct

/-!
Every node has the style that its attributes resolve to. It has when it is created, and whatever the
library does to nodes keeps it that way (`World.IsResolved.reporting`), so that it holds in every
run of a world without nodes (`World.Runs.isResolved`, `World.Runs.isStyled`).
-/

set_option autoImplicit false
set_option relaxedAutoImplicit false

namespace LiveMarkup.World

variable {σ : Type} {w w' : World σ}

/-- Every live node has an id, and the style that its attributes and its kind resolve to. -/
def IsResolved (w : World σ) : Prop := ∀ n node, w.node? n = some node → node.IsResolved

namespace IsResolved

theorem of_nodes_eq (h : w.IsResolved) (hnodes : w'.nodes = w.nodes) : w'.IsResolved := by
  intro n node hnode
  rw [node?, hnodes] at hnode
  exact h n node hnode

theorem added (h : w.IsResolved) {node : Node} (hnode : node.IsResolved) (named : Bool) :
    (w.added node named).IsResolved := by
  intro n found hfound
  rw [node?_added] at hfound
  split at hfound
  · obtain rfl := Option.some.inj hfound
    exact hnode
  · exact h n found hfound

/-- A node may be changed to one that is resolved too. -/
theorem modifyNode (h : w.IsResolved) {id : NodeId} {f : Node → Node}
    (hf : ∀ node, w.node? id = some node → node.IsResolved → (f node).IsResolved) :
    (w.modifyNode id f).IsResolved := by
  intro n node hnode
  rw [node?_modifyNode] at hnode
  split at hnode
  · rename_i heq
    obtain ⟨old, hold, rfl⟩ := Option.map_eq_some_iff.mp hnode
    exact hf old (heq ▸ hold) (h n old hold)
  · exact h n node hnode

/-- Whatever the library does to nodes, they keep the style that their attributes resolve to. -/
theorem routine : Routine fun w w' : World σ ↦ w.IsResolved → w'.IsResolved where
  refl _ h := h
  trans first second h := second (first h)
  added _ _ named hnode h := h.added hnode named
  retouch _ _ _ hf h := h.modifyNode fun node _ hresolved ↦ hresolved.congr (hf node)
  takeId _ _ _ hid h := h.modifyNode fun node hnode hresolved ↦ hresolved.takeId (hid node hnode)
  sweep _ h n node hnode := h n node (node?_of_sweep hnode)
  outside hnodes _ _ _ h := h.of_nodes_eq hnodes

theorem reporting [Journal σ] : Reporting fun w w' : World σ ↦ w.IsResolved → w'.IsResolved where
  toRoutine := routine
  note _ _ h := h.of_nodes_eq rfl

end IsResolved

variable [Journal σ] {deeds more : List Deed}

theorem Step.isResolved (hstep : Step w more w') (h : w.IsResolved) : w'.IsResolved := by
  have hreporting : Reporting fun w w' : World σ ↦ w.IsResolved → w'.IsResolved :=
    IsResolved.reporting
  cases hstep with
  | create _ kind tag attributes content =>
    exact hreporting.create w _ kind tag attributes content h
  | nextId => exact h.of_nodes_eq rfl
  | mount _ hrun => exact hreporting.mount hrun h
  | refresh _ hrun => exact hreporting.refresh hrun h
  | setState _ hrun => exact hreporting.setState hrun h
  | render _ hrun => exact hreporting.render hrun h
  | write hrun => exact hreporting.write hrun h
  | addClass node name => exact hreporting.retouch w node _ (fun node ↦ .addClass node name) h
  | nest node content =>
    exact hreporting.retouch w node (Node.addContent · content) (fun _ ↦ ⟨rfl, rfl, rfl⟩) h
  | release root => exact hreporting.release w root h
  | outside hnodes _ => exact h.of_nodes_eq hnodes

/-- A run keeps the styles that attributes resolve to. -/
theorem Runs.isResolved (hrun : Runs w deeds w') (h : w.IsResolved) : w'.IsResolved := by
  induction hrun with
  | refl => exact h
  | step _ hstep ih => exact hstep.isResolved ih

/-- In every run of a world without nodes, a node is styled unless quotes stand in the names of its
classes. -/
theorem Runs.isStyled (hrun : Runs w deeds w') (hempty : ∀ n, w.node? n = none) {n : NodeId}
    {node : Node} (hnode : w'.node? n = some node)
    (hclasses : ∀ name ∈ node.classes, NoQuote name) :
    node.IsStyled := by
  have hstart : w.IsResolved := fun n node hnode ↦ by
    rw [hempty n] at hnode
    cases hnode
  exact ⟨hclasses, (hrun.isResolved hstart n node hnode).style⟩

end LiveMarkup.World
