import LiveMarkup.Proofs.Calls.Passing
import LiveMarkup.Proofs.Identity.Drawing

/-!
Runs in which nodes are created, nested, rendered, mounted, refreshed and given up, with what is
done to ids (`World.Step`, `World.Runs`). Observables may be changed at any time; a mutation with
all calls that it makes is a run if the answers to calls are, and so is what a client that answers
with programs does, however deep calls nest (`World.Leads.passage`). Every run keeps the invariant
of ids (`World.Runs.ledger`).
-/

set_option autoImplicit false
set_option relaxedAutoImplicit false

namespace LiveMarkup.World

variable {σ : Type}

/-- The client holds a reference to a live node. -/
structure Handles (w : World σ) (node : NodeId) : Prop where
  held : .node node ∈ w.held
  live : w.nodes.contains node = true

variable [Journal σ]

/-! ### Steps and runs -/

/-- A single thing that the library is asked to do, and what it does to ids. -/
inductive Step : World σ → List Deed → World σ → Prop where
  /-- A node of any kind is created, with an id of its own or without. -/
  | create {w : World σ} {registry : RegistryId}
      (hregistry : w.registries.contains registry = true) (kind : Kind) (tag : String)
      (attributes : Attributes) (content : List Child) :
      Step w (given registry w.nodes.next attributes)
        (w.create registry kind tag attributes content).2
  /-- An id is generated for the client. -/
  | nextId (w : World σ) (registry : RegistryId) :
      Step w [] (w.modifyRegistry registry Registry.countId)
  | mount {w w' : World σ} {node form : NodeId} {host : HostId} (hnode : w.Handles node)
      (hrun : w.mount node host = .ok (form, w')) : Step w [.displays node form] w'
  | refresh {w w' : World σ} {node : NodeId} (hnode : w.Handles node)
      (hrun : w.refresh node = .ok w') : Step w (w'.showing node) w'
  | setState {w w' : World σ} {node : NodeId} (hnode : w.Handles node)
      {entries : List (String × Value)} (hrun : w.setState node entries = .ok w') :
      Step w (w'.showing node) w'
  /-- A node is rendered without being displayed. -/
  | render {w w' : World σ} {node form : NodeId} (hnode : w.Handles node)
      (hrun : w.render node = .ok (form, w')) : Step w [] w'
  | write {w w' : World σ} {node : NodeId} {markup : String}
      (hrun : w.write node = .ok (markup, w')) : Step w [] w'
  | addClass (w : World σ) (node : NodeId) (name : String) :
      Step w [] (w.modifyNode node (Node.addClass · name))
  /-- Entries, among them nodes, are added to the content of a node. -/
  | nest (w : World σ) (node : NodeId) (content : List Child) :
      Step w [] (w.modifyNode node (Node.addContent · content))
  /-- A reference is given up, and whatever it alone kept alive is dropped. -/
  | release (w : World σ) (root : Root) : Step w [] (w.release root)
  /-- Observables, recorders, hosts, applications and references change, and the state of the
  client. -/
  | outside {w w' : World σ} (hnodes : w'.nodes = w.nodes)
      (hregistries : w'.registries = w.registries) : Step w [] w'

/-- One step after the other, and what they do to ids. -/
inductive Runs : World σ → List Deed → World σ → Prop where
  | refl (w : World σ) : Runs w [] w
  | step {w between w' : World σ} {deeds more : List Deed} (hrun : Runs w deeds between)
      (hstep : Step between more w') : Runs w (deeds ++ more) w'

variable {w w' w'' : World σ} {deeds more : List Deed}

/-- A step keeps the invariant. -/
theorem Step.ledger (hstep : Step w more w') (h : Ledger deeds w) : Ledger (deeds ++ more) w' := by
  -- most steps do nothing to ids
  have hframe {w' : World σ} (hframes : w.Frames w') : Ledger (deeds ++ []) w' := by
    rw [List.append_nil]
    exact h.frame hframes
  cases hstep with
  | create hregistry kind tag attributes content =>
    exact (create_ledger h hregistry kind tag attributes content).1
  | nextId registry => exact hframe (.countId w registry)
  | mount hnode hrun =>
    obtain ⟨node, hfound⟩ := exists_node? hnode.live
    exact (mount_ledger h hnode.held hfound hrun).1
  | refresh hnode hrun =>
    obtain ⟨node, hfound⟩ := exists_node? hnode.live
    exact (refresh_ledger h hnode.held hfound hrun).1
  | @setState _ id hnode entries hrun =>
    obtain ⟨node, hfound⟩ := exists_node? hnode.live
    have hframes : w.Frames (w.modifyNode id (Node.mergeState · entries)) :=
      .modifyNode id fun node _ ↦ ⟨rfl, rfl, rfl, rfl⟩
    have hmerged : (w.modifyNode id (Node.mergeState · entries)).node? id =
        some (node.mergeState entries) := by
      rw [node?_modifyNode, if_pos rfl, hfound, Option.map_some]
    exact (refresh_ledger (h.frame hframes) hnode.held hmerged hrun).1
  | render hnode hrun =>
    obtain ⟨node, hfound⟩ := exists_node? hnode.live
    rw [List.append_nil]
    exact (render_ledger h hnode.held hfound hrun).1
  | write hrun =>
    obtain ⟨links, rfl⟩ := write_inv hrun
    exact hframe (.recordParents w links)
  | addClass node name => exact hframe (.modifyNode node fun node _ ↦ .addClass node name)
  | nest node content => exact hframe (.modifyNode node fun node _ ↦ ⟨rfl, rfl, rfl, rfl⟩)
  | release root => exact hframe (.release w root)
  | outside hnodes hregistries => exact hframe (.of_eq hnodes hregistries)

namespace Runs

theorem of_step (hstep : Step w more w') : Runs w more w' := by
  have hrun := (Runs.refl w).step hstep
  rwa [List.nil_append] at hrun

theorem trans (h : Runs w deeds w') (h' : Runs w' more w'') : Runs w (deeds ++ more) w'' := by
  induction h' with
  | refl => rwa [List.append_nil]
  | step _ hstep ih =>
    rw [← List.append_assoc]
    exact ih.step hstep

/-- A run keeps the invariant. -/
theorem ledger (hrun : Runs w more w') (h : Ledger deeds w) : Ledger (deeds ++ more) w' := by
  induction hrun with
  | refl => rwa [List.append_nil]
  | step _ hstep ih =>
    rw [← List.append_assoc]
    exact hstep.ledger ih

end Runs

/-! ### Mutations -/

/-- There is a run from one world to another. -/
def Leads (w w' : World σ) : Prop := ∃ deeds, Runs w deeds w'

namespace Leads

theorem refl (w : World σ) : w.Leads w := ⟨[], .refl w⟩

theorem trans (h : w.Leads w') (h' : w'.Leads w'') : w.Leads w'' := by
  obtain ⟨deeds, hrun⟩ := h
  obtain ⟨more, hrun'⟩ := h'
  exact ⟨deeds ++ more, hrun.trans hrun'⟩

theorem of_step (hstep : Step w more w') : w.Leads w' := ⟨more, .of_step hstep⟩

/-- Whatever a mutation does besides making calls is a run. -/
theorem passage : Passage (Leads (σ := σ)) where
  refl := .refl
  trans := .trans
  changeHosts _ _ := .of_step (.outside rfl rfl)
  note _ _ := .of_step (.outside rfl rfl)
  holdNode _ := .of_step (.outside rfl rfl)
  holdRecorder _ _ := .of_step (.outside rfl rfl)
  release w root := .of_step (.release w root)
  store _ _ _ := .of_step (.outside rfl rfl)
  prune _ _ := .of_step (.outside rfl rfl)
  refresh hheld hlive hrun := .of_step (.refresh ⟨hheld, hlive⟩ hrun)

end Leads

end LiveMarkup.World
