import LiveMarkup.Proofs.Content.Writing
import LiveMarkup.Proofs.World.Lifetime
import LiveMarkup.World.Mounting

/-!
What is carried over from one world to a later one. While nodes are created, written, mounted and
dropped, every kept node stays what it was, up to its parent, and up to its mounting if it is
mounted anew (`World.Carries`). Ids are generated upwards, so that what a registry is still going
to generate was not generated before (`World.WillGenerate`).
-/

set_option autoImplicit false
set_option relaxedAutoImplicit false

namespace LiveMarkup

/-- The id attribute of a node is a text. -/
def Node.HasTextId (node : Node) : Prop := ∃ s, node.attributes.get? "id" = some (.text s)

/-- A node, and what has become of it: its parent and its mounting may have changed, and its
attributes too unless its id is a text. -/
structure Node.Kin (node node' : Node) : Prop where
  eq : node' = { node with
    attributes := node'.attributes, parent? := node'.parent?, mounting? := node'.mounting? }
  attributes : node.HasTextId → node'.attributes = node.attributes

namespace Node.Kin

variable {node node' node'' : Node}

theorem refl (node : Node) : node.Kin node := ⟨rfl, fun _ ↦ rfl⟩

theorem content (h : node.Kin node') : node'.content = node.content := by rw [h.eq]

theorem trans (h : node.Kin node') (h' : node'.Kin node'') : node.Kin node'' where
  eq := by rw [h'.eq, h.eq]
  attributes := fun hid ↦ by
    have hsame := h.attributes hid
    rw [h'.attributes (by rw [HasTextId, hsame]; exact hid), hsame]

theorem bare (h : node.Kin node') (hid : node.HasTextId) : node'.bare = node.bare := by
  rw [h.eq, h.attributes hid]
  rfl

theorem of_forgetParent (h : node'.forgetParent = node.forgetParent) : node.Kin node' := by
  rw [Node.eq_of_forgetParent h]
  exact ⟨rfl, fun _ ↦ rfl⟩

end Node.Kin

namespace World

variable {σ : Type} {w w' w'' : World σ} {skip : NodeId → Prop}

/-- What a later world keeps of an earlier one, but for the mountings of some nodes. -/
structure Carries (skip : NodeId → Prop) (w w' : World σ) : Prop where
  nodes : ∀ id node, w.Kept skip id → w.node? id = some node →
    ∃ node', w'.node? id = some node' ∧ node.Kin node' ∧
      (¬skip id → node'.mounting? = node.mounting?)
  held : ∀ root ∈ w.held, root ∈ w'.held
  observables : w'.observables = w.observables
  config : ∀ registry, (w'.registry registry).config = (w.registry registry).config
  generated : ∀ registry, (w.registry registry).generated ≤ (w'.registry registry).generated
  next : w.nodes.next ≤ w'.nodes.next
  mountings : ∀ id node', w'.node? id = some node' → skip id ∨ node'.mounting? = none ∨
    ∃ node, w.node? id = some node ∧ node'.mounting? = node.mounting?

theorem node?_modifyNode (w : World σ) (id other : NodeId) (f : Node → Node) :
    (w.modifyNode id f).node? other = if id = other then (w.node? other).map f else w.node? other :=
  Table.get?_modify ..

namespace Carries

theorem refl (skip : NodeId → Prop) (w : World σ) : w.Carries skip w where
  nodes := fun _ node _ hnode ↦ ⟨node, hnode, .refl node, fun _ ↦ rfl⟩
  held := fun _ ↦ id
  observables := rfl
  config := fun _ ↦ rfl
  generated := fun _ ↦ Nat.le_refl _
  next := Nat.le_refl _
  mountings := fun _ node' hnode' ↦ .inr (.inr ⟨node', hnode', rfl⟩)

/-- What was kept is kept. -/
theorem kept (h : w.Carries skip w') {id : NodeId} (hid : w.Kept skip id) : w'.Kept skip id := by
  induction hid with
  | held hheld hnode =>
    obtain ⟨node', hnode', _⟩ := h.nodes _ _ (.held hheld hnode) hnode
    exact .held (h.held _ hheld) hnode'
  | content hparent howner hmem hnode ih =>
    obtain ⟨node', hnode', _⟩ := h.nodes _ _ (.content hparent howner hmem hnode) hnode
    obtain ⟨owner', howner', hkin, _⟩ := h.nodes _ _ hparent howner
    exact .content ih howner' (by rw [hkin.content]; exact hmem) hnode'
  | wrapper hparent hskip howner hwrapper hnode ih =>
    obtain ⟨node', hnode', _⟩ := h.nodes _ _ (.wrapper hparent hskip howner hwrapper hnode) hnode
    obtain ⟨owner', howner', _, hmounting⟩ := h.nodes _ _ hparent howner
    refine .wrapper ih hskip howner' ?_ hnode'
    rw [Node.wrapper?, hmounting hskip]
    exact hwrapper

theorem trans (h : w.Carries skip w') (h' : w'.Carries skip w'') : w.Carries skip w'' where
  nodes := fun id node hid hnode ↦ by
    obtain ⟨node', hnode', hkin, hmounting⟩ := h.nodes id node hid hnode
    obtain ⟨node'', hnode'', hkin', hmounting'⟩ := h'.nodes id node' (h.kept hid) hnode'
    exact ⟨node'', hnode'', hkin.trans hkin',
      fun hskip ↦ (hmounting' hskip).trans (hmounting hskip)⟩
  held := fun root hroot ↦ h'.held root (h.held root hroot)
  observables := h'.observables.trans h.observables
  config := fun registry ↦ (h'.config registry).trans (h.config registry)
  generated := fun registry ↦ Nat.le_trans (h.generated registry) (h'.generated registry)
  next := Nat.le_trans h.next h'.next
  mountings := fun id node'' hnode'' ↦ by
    rcases h'.mountings id node'' hnode'' with hskip | hnone | ⟨node', hnode', hsame⟩
    · exact .inl hskip
    · exact .inr (.inl hnone)
    · rw [hsame]
      exact h.mountings id node' hnode'

/-- More nodes may be mounted anew. -/
theorem mono {skip' : NodeId → Prop} (h : w.Carries skip w') (hskip : ∀ id, skip id → skip' id) :
    w.Carries skip' w' where
  nodes := fun id node hid hnode ↦ by
    obtain ⟨node', hnode', hkin, hmounting⟩ := h.nodes id node (hid.mono hskip) hnode
    exact ⟨node', hnode', hkin, fun hnot ↦ hmounting fun hid ↦ hnot (hskip id hid)⟩
  held := h.held
  observables := h.observables
  config := h.config
  generated := h.generated
  next := h.next
  mountings := fun id node' hnode' ↦ (h.mountings id node' hnode').imp_left (hskip id)

/-- A sweep takes nothing away that was kept before. -/
theorem sweep (h : w.Carries skip w') : w.Carries skip w'.sweep where
  nodes := fun id node hid hnode ↦ by
    rw [node?_sweep (h.kept hid)]
    exact h.nodes id node hid hnode
  held := h.held
  observables := h.observables
  config := h.config
  generated := h.generated
  next := Nat.le_trans h.next (Nat.le_of_eq (next_sweep w').symm)
  mountings := fun id node' hnode' ↦ h.mountings id node' (node?_of_sweep hnode')

/-- References may be taken and given up as long as those of the earlier world are left. -/
theorem changeHeld (h : w.Carries skip w') {held : List Root}
    (hheld : ∀ root ∈ w.held, root ∈ held) :
    w.Carries skip { w' with held := held } :=
  { h with held := hheld }

/-- Nodes that are the same but for their parents are carried over. -/
theorem of_forgetParent
    (hnodes : ∀ id, (w'.node? id).map Node.forgetParent = (w.node? id).map Node.forgetParent)
    (hheld : w'.held = w.held) (hobservables : w'.observables = w.observables)
    (hregistries : w'.registries = w.registries) (hnext : w'.nodes.next = w.nodes.next) :
    w.Carries skip w' where
  nodes := fun id node _ hnode ↦ by
    obtain ⟨node', hnode', hsame⟩ := Option.map_eq_some_iff.mp
      ((hnodes id).trans (congrArg (Option.map Node.forgetParent) hnode))
    exact ⟨node', hnode', .of_forgetParent hsame, fun _ ↦ by rw [Node.eq_of_forgetParent hsame]⟩
  held := fun root hroot ↦ by rw [hheld]; exact hroot
  observables := hobservables
  config := fun registry ↦ by rw [World.registry, World.registry, hregistries]
  generated := fun registry ↦ Nat.le_of_eq (by rw [World.registry, World.registry, hregistries])
  next := Nat.le_of_eq hnext.symm
  mountings := fun id node' hnode' ↦ by
    obtain ⟨node, hnode, hsame⟩ := Option.map_eq_some_iff.mp
      ((hnodes id).symm.trans (congrArg (Option.map Node.forgetParent) hnode'))
    refine .inr (.inr ⟨node, hnode, ?_⟩)
    rw [Node.eq_of_forgetParent hsame]

/-- Writing carries everything over. -/
theorem recordParents (w : World σ) (links : List (NodeId × NodeId)) :
    w.Carries skip (w.recordParents links) := by
  obtain ⟨nodes, heq, hnext, hnodes⟩ := w.recordParents_eq links
  rw [heq]
  exact .of_forgetParent hnodes rfl rfl rfl hnext

/-- A new node is added beside what there is. -/
theorem push (h : w.Carries skip w') {node : Node} (hmounting : node.mounting? = none) :
    w.Carries skip { w' with nodes := w'.nodes.push node } where
  nodes := fun id old hid hold ↦ by
    obtain ⟨node', hnode', hsame⟩ := h.nodes id old hid hold
    have hne : id ≠ w'.nodes.next := fun heq ↦
      w'.nodes.next_notMem_ids (heq ▸ mem_ids_of_node? hnode')
    refine ⟨node', ?_, hsame⟩
    rw [← hnode', World.node?, World.node?, Table.get?_push, if_neg hne]
  held := h.held
  observables := h.observables
  config := h.config
  generated := h.generated
  next := Nat.le_succ_of_le h.next
  mountings := fun id node' hnode' ↦ by
    rw [World.node?, Table.get?_push] at hnode'
    split at hnode'
    · obtain rfl := Option.some.inj hnode'
      exact .inr (.inl hmounting)
    · exact h.mountings id node' hnode'

/-- A registry may list nodes and count ids. -/
theorem modifyRegistry (h : w.Carries skip w') (registry : RegistryId) {f : Registry → Registry}
    (hconfig : ∀ r, (f r).config = r.config) (hgenerated : ∀ r, r.generated ≤ (f r).generated) :
    w.Carries skip (w'.modifyRegistry registry f) where
  nodes := h.nodes
  held := h.held
  observables := h.observables
  config := fun other ↦ by
    rw [← h.config other, World.registry, World.modifyRegistry, Table.get?_modify]
    split
    · rw [World.registry]
      cases w'.registries.get? other with
      | none => rfl
      | some r => exact hconfig r
    · rfl
  generated := fun other ↦ by
    refine Nat.le_trans (h.generated other) ?_
    rw [World.registry, World.registry, World.modifyRegistry, Table.get?_modify]
    split
    · cases w'.registries.get? other with
      | none => exact Nat.le_refl _
      | some r => exact hgenerated r
    · exact Nat.le_refl _
  next := h.next
  mountings := h.mountings

/-- A node takes the id that it has, or is none of those carried over. -/
theorem takeId (h : w.Carries skip w') {node : NodeId} {id : String}
    (hid : ∀ n, w.node? node = some n → n.HasTextId →
      n.attributes.insert "id" (.text id) = n.attributes) :
    w.Carries skip (w'.takeId node id) where
  nodes := fun other old hother hold ↦ by
    obtain ⟨node', hnode', hkin, hmounting⟩ := h.nodes other old hother hold
    rw [World.takeId, node?_modifyNode]
    split
    · rename_i heq
      subst heq
      refine ⟨_, congrArg (Option.map _) hnode', ⟨?_, fun htext ↦ ?_⟩, hmounting⟩
      · rw [hkin.eq]
        rfl
      · show node'.attributes.insert "id" (.text id) = old.attributes
        rw [hkin.attributes htext, hid old hold htext]
    · exact ⟨node', hnode', hkin, hmounting⟩
  held := h.held
  observables := h.observables
  config := h.config
  generated := h.generated
  next := h.next
  mountings := fun other node' hnode' ↦ by
    rw [World.takeId, node?_modifyNode] at hnode'
    split at hnode'
    · obtain ⟨old, hold, rfl⟩ := Option.map_eq_some_iff.mp hnode'
      exact h.mountings other old hold
    · exact h.mountings other node' hnode'

/-- A node is mounted anew. -/
theorem recordMounting (h : w.Carries skip w') {node : NodeId} (hskip : skip node) (host : HostId)
    (rendered : NodeId) : w.Carries skip (w'.recordMounting node host rendered) := by
  let mounting : Mounting := ⟨host, if rendered = node then .itself else .wrapper rendered⟩
  have hmounted : w.Carries skip
      (w'.modifyNode node fun n ↦ { n with mounting? := some mounting }) := by
    refine
      { h with
        nodes := fun other old hother hold ↦ ?_
        mountings := fun other node' hnode' ↦ ?_ }
    · obtain ⟨node', hnode', hkin, hmounting⟩ := h.nodes other old hother hold
      rw [node?_modifyNode]
      split
      · rename_i heq
        subst heq
        exact ⟨_, congrArg (Option.map _) hnode', ⟨by rw [hkin.eq], hkin.attributes⟩,
          fun hnot ↦ absurd hskip hnot⟩
      · exact ⟨node', hnode', hkin, hmounting⟩
    · rw [node?_modifyNode] at hnode'
      split at hnode'
      · rename_i heq
        exact .inl (heq ▸ hskip)
      · exact h.mountings other node' hnode'
  exact hmounted.sweep

end Carries

/-! ### Ids that are still to be generated -/

/-- Some registry generates an id sooner or later. -/
def WillGenerate (w : World σ) (id : String) : Prop :=
  ∃ registry count, (w.registry registry).generated ≤ count ∧
    id = (w.registry registry).config.idStem ++ toString count

/-- What is generated later was still to be generated before. -/
theorem Carries.willGenerate (h : w.Carries skip w') {id : String} (hid : w'.WillGenerate id) :
    w.WillGenerate id := by
  obtain ⟨registry, count, hcount, rfl⟩ := hid
  exact ⟨registry, count, Nat.le_trans (h.generated registry) hcount, by rw [h.config registry]⟩

end World

end LiveMarkup
