import LiveMarkup.Proofs.World.Conduct

/-!
What is gone does not come back. Numbers are handed out upwards, so that a node or a recorder that
is gone has a number that nothing will have again (`World.Ages`): a world only ages, whatever the
library does to nodes (`World.Ages.conduct`).
-/

set_option autoImplicit false
set_option relaxedAutoImplicit false

namespace LiveMarkup

theorem ages_survivors (roots : List NodeId) (rounds : Nat) (nodes : Table Node) :
    nodes.Ages (survivors roots rounds nodes) := by
  induction rounds generalizing nodes with
  | zero => exact .refl nodes
  | succ rounds ih =>
    rw [survivors]
    split
    · exact .refl nodes
    · exact (nodes.ages_filter _).trans (ih _)

namespace World

variable {σ : Type} {w w' w'' : World σ}

/-- Nodes and recorders may be new and may be gone, but none comes back. -/
structure Ages (w w' : World σ) : Prop where
  nodes : w.nodes.Ages w'.nodes
  recorders : w.recorders.Ages w'.recorders

/-- A target that is there, or was once. -/
def Knows (w : World σ) : Target → Prop
  | .node id => id < w.nodes.next
  | .recorder id => id < w.recorders.next

namespace Ages

theorem of_eq (hnodes : w'.nodes = w.nodes) (hrecorders : w'.recorders = w.recorders) :
    w.Ages w' := by
  refine ⟨?_, ?_⟩
  · rw [hnodes]
    exact .refl w.nodes
  · rw [hrecorders]
    exact .refl w.recorders

theorem refl (w : World σ) : w.Ages w := of_eq rfl rfl

theorem trans (h : w.Ages w') (h' : w'.Ages w'') : w.Ages w'' :=
  ⟨h.nodes.trans h'.nodes, h.recorders.trans h'.recorders⟩

theorem knows (h : w.Ages w') {target : Target} (htarget : w.Knows target) : w'.Knows target := by
  cases target with
  | node id => exact Nat.lt_of_lt_of_le htarget h.nodes.next
  | recorder id => exact Nat.lt_of_lt_of_le htarget h.recorders.next

/-- A target that is alive later was alive before. -/
theorem isAlive (h : w.Ages w') {target : Target} (htarget : w.Knows target)
    (halive : w'.isAlive target = true) : w.isAlive target = true := by
  cases target with
  | node id => exact h.nodes.contains id htarget halive
  | recorder id => exact h.recorders.contains id htarget halive

/-! ### What ages a world -/

theorem modifyNode (w : World σ) (id : NodeId) (f : Node → Node) : w.Ages (w.modifyNode id f) :=
  ⟨w.nodes.ages_modify id f, .refl w.recorders⟩

theorem sweep (w : World σ) : w.Ages w.sweep where
  nodes := ages_survivors _ _ _
  recorders := w.recorders.ages_filter fun id _ ↦ w.held.contains (.recorder id)

theorem added (w : World σ) (node : Node) (named : Bool) : w.Ages (w.added node named) := by
  refine ⟨?_, ?_⟩
  · rw [nodes_added]
    exact w.nodes.ages_push node
  · unfold World.added
    split <;> exact .refl w.recorders

/-- Whatever the library does to nodes, none comes back. -/
theorem conduct : Conduct (Ages (σ := σ)) where
  refl := refl
  trans := trans
  added := added
  modifyNode := modifyNode
  sweep := sweep
  outside hnodes hrecorders _ := ⟨hnodes ▸ .refl _, hrecorders⟩

theorem release (w : World σ) (root : Root) : w.Ages (w.release root) :=
  conduct.routine.release w root

end Ages

end World

end LiveMarkup
