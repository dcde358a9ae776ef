import LiveMarkup.Proofs.World.Refreshing

/-!
Whose id a node shows. A run is described by what it does to ids (`Deed`): a node is created with an
id of its own, or a node is displayed as a form, which takes its id. A node shows the id of its
origin (`origin`), which is the node that was first displayed as it, or else the node itself. Most
steps change no identity: they leave the nodes that stay alive as they were (`World.Keeps`), and
many create none and leave the registries alone too (`World.Frames`).
-/

set_option autoImplicit false
set_option relaxedAutoImplicit false

namespace LiveMarkup

/-- Whether a node of this kind is displayed as itself. -/
def Kind.rendersAsItself : Kind → Bool
  | .plain | .badge | .tracked | .panel => true
  | .layout | .flexLayout | .text | .greeting | .boxed => false

theorem Kind.IsBuiltIn.rendersAsItself_iff {kind : Kind} (h : kind.IsBuiltIn) :
    kind.rendersAsItself = true ↔ kind = .plain := by
  rcases h with rfl | rfl | rfl | rfl <;> simp [rendersAsItself]

/-! ### What a run does to ids -/

/-- Something that is done to the id of a node. -/
inductive Deed where
  /-- A node is created in a registry with an id of its own. -/
  | names (registry : RegistryId) (node : NodeId) (id : String)
  /-- A node is displayed as a form, which takes its id. -/
  | displays (source form : NodeId)
  deriving DecidableEq

/-- The node that has an id by a deed. -/
def Deed.subject : Deed → NodeId
  | .names _ node _ => node
  | .displays _ form => form

/-- The node whose id a node has by a deed, if another is displayed as it. -/
def Deed.source? (node : NodeId) : Deed → Option NodeId
  | .names .. => none
  | .displays source form => if form = node then some source else none

/-- The node whose id a node shows: the first one that was displayed as it, or else itself. -/
def origin (deeds : List Deed) (node : NodeId) : NodeId :=
  (deeds.findSome? (Deed.source? node)).getD node

/-- No node was created under this number with an id of its own. -/
def Unnamed (deeds : List Deed) (node : NodeId) : Prop :=
  ∀ registry id, .names registry node id ∉ deeds

theorem Deed.source?_eq_none {deed : Deed} {node : NodeId} (h : deed.subject ≠ node) :
    deed.source? node = none := by
  cases deed with
  | names => rfl
  | displays source form => exact if_neg h

/-- A node that nothing was done to shows its own id. -/
theorem origin_eq_self {deeds : List Deed} {node : NodeId}
    (h : ∀ deed ∈ deeds, deed.subject ≠ node) : origin deeds node = node := by
  have hnone : deeds.findSome? (Deed.source? node) = none :=
    List.findSome?_eq_none_iff.mpr fun deed hdeed ↦ Deed.source?_eq_none (h deed hdeed)
  rw [origin, hnone, Option.getD_none]

theorem Deed.source?_eq_some {deed : Deed} {node source : NodeId} :
    deed.source? node = some source ↔ deed = .displays source node := by
  cases deed with
  | names => simp [source?]
  | displays source' form =>
    by_cases h : form = node
    · simp [source?, h]
    · simp [source?, h]

/-- A node that was displayed as a form of no other node shows its own id. -/
theorem origin_eq_self_of_displays {deeds : List Deed} {node : NodeId}
    (h : ∀ source, .displays source node ∈ deeds → source = node) : origin deeds node = node := by
  rw [origin]
  cases hfirst : deeds.findSome? (Deed.source? node) with
  | none => rfl
  | some source =>
    obtain ⟨deed, hdeed, hsource⟩ := List.exists_of_findSome?_eq_some hfirst
    rw [Deed.source?_eq_some.mp hsource] at hdeed
    exact h source hdeed

/-- A deed does not matter to nodes that it is not about. -/
theorem origin_append_of_ne {deed : Deed} {node : NodeId} (h : deed.subject ≠ node)
    (deeds : List Deed) : origin (deeds ++ [deed]) node = origin deeds node := by
  have hnone : [deed].findSome? (Deed.source? node) = none := by
    rw [List.findSome?_singleton, Deed.source?_eq_none h]
  rw [origin, List.findSome?_append, hnone, Option.or_none, origin]

theorem origin_append_names (deeds : List Deed) (registry : RegistryId) (named : NodeId)
    (id : String) (node : NodeId) :
    origin (deeds ++ [.names registry named id]) node = origin deeds node := by
  rw [origin, List.findSome?_append]
  simp [Deed.source?, origin]

/-- A node that is displayed as itself keeps its origin, and so do all others. -/
theorem origin_append_displays_self (deeds : List Deed) (form node : NodeId) :
    origin (deeds ++ [.displays form form]) node = origin deeds node := by
  by_cases h : form = node
  · subst h
    rw [origin, List.findSome?_append, origin]
    cases deeds.findSome? (Deed.source? form) <;> simp [Deed.source?]
  · have hsubject : (Deed.displays form form).subject ≠ node := h
    exact origin_append_of_ne hsubject deeds

/-- A form that nothing was done to before has the id of the node that is displayed as it. -/
theorem origin_append_displays {deeds : List Deed} {form : NodeId}
    (h : ∀ deed ∈ deeds, deed.subject ≠ form) (source : NodeId) :
    origin (deeds ++ [.displays source form]) form = source := by
  have hnone : deeds.findSome? (Deed.source? form) = none :=
    List.findSome?_eq_none_iff.mpr fun deed hdeed ↦ Deed.source?_eq_none (h deed hdeed)
  rw [origin, List.findSome?_append, hnone]
  simp [Deed.source?]

theorem names_mem_append_displays {deeds : List Deed} {source form : NodeId} {registry : RegistryId}
    {node : NodeId} {id : String} :
    .names registry node id ∈ deeds ++ [.displays source form] ↔
      .names registry node id ∈ deeds := by
  simp

theorem unnamed_append_displays {deeds : List Deed} {source form node : NodeId} :
    Unnamed (deeds ++ [.displays source form]) node ↔ Unnamed deeds node := by
  unfold Unnamed
  simp only [names_mem_append_displays]

/-! ### Nodes that are the same -/

/-- A node, and what has become of it, without change to its identity or its mounting. -/
structure Node.Same (node node' : Node) : Prop where
  id : node'.id = node.id
  kind : node'.kind = node.kind
  registry : node'.registry = node.registry
  mounting : node'.mounting? = node.mounting?

namespace Node.Same

variable {node node' node'' : Node}

theorem refl (node : Node) : node.Same node := ⟨rfl, rfl, rfl, rfl⟩

theorem trans (h : node.Same node') (h' : node'.Same node'') : node.Same node'' :=
  ⟨h'.id.trans h.id, h'.kind.trans h.kind, h'.registry.trans h.registry,
    h'.mounting.trans h.mounting⟩

theorem wrapper (h : node.Same node') : node'.wrapper? = node.wrapper? := by
  rw [wrapper?, wrapper?, h.mounting]

theorem of_forgetParent (h : node'.forgetParent = node.forgetParent) : node.Same node' := by
  rw [Node.eq_of_forgetParent h]
  exact ⟨rfl, rfl, rfl, rfl⟩

theorem addClass (node : Node) (name : String) : node.Same (node.addClass name) := by
  unfold Node.addClass
  split <;> exact ⟨rfl, rfl, rfl, rfl⟩

end Node.Same

theorem Attributes.id_insert_id (attributes : Attributes) (id : String) :
    Attributes.id (OrderedMap.insert attributes "id" (.text id)) = id := by
  rw [Attributes.id, OrderedMap.get?_insert, if_pos rfl]
  rfl

/-- A node shows the id that it took. -/
theorem Node.id_takeId (node : Node) (id : String) : (node.takeId id).id = id :=
  Attributes.id_insert_id node.attributes id

/-- What a surviving node owns survives. -/
theorem get?_survivors_of_owned {roots : List NodeId} {rounds : Nat} {nodes : Table Node}
    {n owned : NodeId} {node other : Node}
    (h : (survivors roots rounds nodes).get? n = some node) (howned : owned ∈ node.owned)
    (hother : nodes.get? owned = some other) :
    (survivors roots rounds nodes).get? owned = some other := by
  induction rounds generalizing nodes with
  | zero => exact hother
  | succ rounds ih =>
    have hnode : nodes.get? n = some node := get?_of_survivors h
    rw [survivors] at h ⊢
    split at h
    · rename_i hsize
      rw [if_pos hsize]
      exact hother
    · rename_i hsize
      rw [if_neg hsize]
      refine ih h (Table.get?_filter_iff.mpr ⟨hother, ?_⟩)
      rw [IdSet.contains_ofList, List.contains_iff_mem]
      exact List.mem_append_right _ (mem_ownedNodes hnode howned)

namespace World

variable {σ : Type} {w w' w'' : World σ}

theorem registry_modifyRegistry (w : World σ) (registry other : RegistryId)
    (f : Registry → Registry) :
    (w.modifyRegistry registry f).registry other =
      if registry = other ∧ w.registries.contains other = true then f (w.registry other)
      else w.registry other := by
  rw [World.registry, modifyRegistry, Table.get?_modify, World.registry, ← Table.isSome_get?]
  by_cases h : registry = other
  · cases w.registries.get? other <;> simp [h]
  · simp [h]

theorem contains_modifyRegistry (w : World σ) (registry other : RegistryId)
    (f : Registry → Registry) :
    (w.modifyRegistry registry f).registries.contains other = w.registries.contains other := by
  rw [Bool.eq_iff_iff, Table.contains_iff, Table.contains_iff, modifyRegistry, Table.ids_modify]

theorem node?_takeId (w : World σ) (form : NodeId) (id : String) (n : NodeId) :
    (w.takeId form id).node? n =
      if form = n then (w.node? n).map (Node.takeId · id) else w.node? n :=
  node?_modifyNode ..

theorem node?_takeId_self {form : NodeId} {shown : Node} (hshown : w.node? form = some shown)
    (id : String) : (w.takeId form id).node? form = some (shown.takeId id) := by
  rw [node?_takeId, if_pos rfl, hshown, Option.map_some]

/-- Writing a node changes no live node but for its parent. -/
theorem exists_node?_recordParents (links : List (NodeId × NodeId)) {n : NodeId} {node : Node}
    (hnode : w.node? n = some node) :
    ∃ written, (w.recordParents links).node? n = some written ∧ node.Same written := by
  obtain ⟨written, hwritten, hforget⟩ := Option.map_eq_some_iff.mp
    ((forgetParent_recordParents w links n).trans (congrArg (Option.map Node.forgetParent) hnode))
  exact ⟨written, hwritten, .of_forgetParent hforget⟩

/-- The nodes that there were and that are still alive are what they were, and the registries are
still there. -/
structure Keeps (w w' : World σ) : Prop where
  next : w.nodes.next ≤ w'.nodes.next
  nodes : ∀ n node', n < w.nodes.next → w'.node? n = some node' →
    ∃ node, w.node? n = some node ∧ node.Same node'
  contains : ∀ r, w.registries.contains r = true → w'.registries.contains r = true

namespace Keeps

theorem refl (w : World σ) : w.Keeps w :=
  ⟨Nat.le_refl _, fun _ node' _ hnode' ↦ ⟨node', hnode', .refl node'⟩, fun _ hr ↦ hr⟩

theorem trans (h : w.Keeps w') (h' : w'.Keeps w'') : w.Keeps w'' := by
  refine ⟨Nat.le_trans h.next h'.next, fun n node'' hlt hnode'' ↦ ?_, fun r hr ↦
    h'.contains r (h.contains r hr)⟩
  obtain ⟨node', hnode', hsame'⟩ := h'.nodes n node'' (Nat.lt_of_lt_of_le hlt h.next) hnode''
  obtain ⟨node, hnode, hsame⟩ := h.nodes n node' hlt hnode'
  exact ⟨node, hnode, hsame.trans hsame'⟩

end Keeps

/-- No node is new, those that are still alive are what they were, and so are the wrappers that they
keep alive; the registries list the same nodes, and may have generated more ids. -/
structure Frames (w w' : World σ) : Prop where
  next : w'.nodes.next = w.nodes.next
  nodes : ∀ n node', w'.node? n = some node' → ∃ node, w.node? n = some node ∧ node.Same node'
  wrappers : ∀ n node' form, w'.node? n = some node' → node'.wrapper? = some form →
    w.nodes.contains form = true → w'.nodes.contains form = true
  contains : ∀ r, w'.registries.contains r = w.registries.contains r
  entries : ∀ r, (w'.registry r).entries = (w.registry r).entries
  config : ∀ r, (w'.registry r).config = (w.registry r).config
  generated : ∀ r, (w.registry r).generated ≤ (w'.registry r).generated

theorem contains_of_node? {n : NodeId} {node : Node} (h : w.node? n = some node) :
    w.nodes.contains n = true := by
  rw [← Table.isSome_get?]
  exact Option.isSome_iff_exists.mpr ⟨node, h⟩

theorem exists_node? {n : NodeId} (h : w.nodes.contains n = true) :
    ∃ node, w.node? n = some node := by
  rw [← Table.isSome_get?] at h
  exact Option.isSome_iff_exists.mp h

namespace Frames

theorem refl (w : World σ) : w.Frames w where
  next := rfl
  nodes := fun _ node' hnode' ↦ ⟨node', hnode', .refl node'⟩
  wrappers := fun _ _ _ _ _ hlive ↦ hlive
  contains := fun _ ↦ rfl
  entries := fun _ ↦ rfl
  config := fun _ ↦ rfl
  generated := fun _ ↦ Nat.le_refl _

theorem trans (h : w.Frames w') (h' : w'.Frames w'') : w.Frames w'' where
  next := h'.next.trans h.next
  nodes := fun n node'' hnode'' ↦ by
    obtain ⟨node', hnode', hsame'⟩ := h'.nodes n node'' hnode''
    obtain ⟨node, hnode, hsame⟩ := h.nodes n node' hnode'
    exact ⟨node, hnode, hsame.trans hsame'⟩
  wrappers := fun n node'' form hnode'' hwrapper hlive ↦ by
    obtain ⟨node', hnode', hsame'⟩ := h'.nodes n node'' hnode''
    have hlive' := h.wrappers n node' form hnode' (hsame'.wrapper ▸ hwrapper) hlive
    exact h'.wrappers n node'' form hnode'' hwrapper hlive'
  contains := fun r ↦ (h'.contains r).trans (h.contains r)
  entries := fun r ↦ (h'.entries r).trans (h.entries r)
  config := fun r ↦ (h'.config r).trans (h.config r)
  generated := fun r ↦ Nat.le_trans (h.generated r) (h'.generated r)

theorem keeps (h : w.Frames w') : w.Keeps w' :=
  ⟨Nat.le_of_eq h.next.symm, fun n node' _ hnode' ↦ h.nodes n node' hnode',
    fun r hr ↦ (h.contains r).trans hr⟩

/-- Nodes that are all the same make a frame, whatever else is changed besides registries. -/
theorem of_map_same {f : Node → Node} (hf : ∀ node node', f node' = f node → node.Same node')
    (hnodes : ∀ n, (w'.node? n).map f = (w.node? n).map f)
    (hnext : w'.nodes.next = w.nodes.next) (hregistries : w'.registries = w.registries) :
    w.Frames w' where
  next := hnext
  nodes := fun n node' hnode' ↦ by
    obtain ⟨node, hnode, hsame⟩ := Option.map_eq_some_iff.mp
      ((hnodes n).symm.trans (congrArg (Option.map f) hnode'))
    exact ⟨node, hnode, hf node node' hsame.symm⟩
  wrappers := fun _ _ form _ _ hlive ↦ by
    obtain ⟨node, hnode⟩ := exists_node? hlive
    obtain ⟨node', hnode', _⟩ := Option.map_eq_some_iff.mp
      ((hnodes form).trans (congrArg (Option.map f) hnode))
    exact contains_of_node? hnode'
  contains := fun r ↦ by rw [hregistries]
  entries := fun r ↦ by rw [World.registry, World.registry, hregistries]
  config := fun r ↦ by rw [World.registry, World.registry, hregistries]
  generated := fun r ↦ Nat.le_of_eq (by rw [World.registry, World.registry, hregistries])

/-- Nothing is changed but what is neither a node nor a registry. -/
theorem of_eq (hnodes : w'.nodes = w.nodes) (hregistries : w'.registries = w.registries) :
    w.Frames w' := by
  have hsame (node node' : Node) (h : id node' = id node) : node.Same node' := by
    obtain rfl : node' = node := h
    exact .refl node'
  exact of_map_same hsame (fun n ↦ by rw [node?, node?, hnodes]) (by rw [hnodes]) hregistries

theorem recordParents (w : World σ) (links : List (NodeId × NodeId)) :
    w.Frames (w.recordParents links) := by
  obtain ⟨nodes, heq, hnext, hnodes⟩ := w.recordParents_eq links
  rw [heq]
  exact of_map_same (f := Node.forgetParent) (fun _ _ ↦ Node.Same.of_forgetParent) hnodes hnext rfl

/-- A node may change without change to its identity or its mounting. -/
theorem modifyNode (id : NodeId) {f : Node → Node}
    (hf : ∀ node, w.node? id = some node → node.Same (f node)) : w.Frames (w.modifyNode id f) where
  next := rfl
  nodes := fun n node' hnode' ↦ by
    rw [node?_modifyNode] at hnode'
    split at hnode'
    · rename_i heq
      subst heq
      obtain ⟨node, hnode, rfl⟩ := Option.map_eq_some_iff.mp hnode'
      exact ⟨node, hnode, hf node hnode⟩
    · exact ⟨node', hnode', .refl node'⟩
  wrappers := fun _ _ form _ _ hlive ↦ by
    rw [Table.contains_iff] at hlive ⊢
    rw [World.modifyNode, Table.ids_modify]
    exact hlive
  contains := fun _ ↦ rfl
  entries := fun _ ↦ rfl
  config := fun _ ↦ rfl
  generated := fun _ ↦ Nat.le_refl _

/-- An id may be generated that no node has. -/
theorem countId (w : World σ) (registry : RegistryId) :
    w.Frames (w.modifyRegistry registry Registry.countId) where
  next := rfl
  nodes := fun _ node' hnode' ↦ ⟨node', hnode', .refl node'⟩
  wrappers := fun _ _ _ _ _ hlive ↦ hlive
  contains := fun r ↦ contains_modifyRegistry w registry r _
  entries := fun r ↦ by
    rw [registry_modifyRegistry]
    split <;> rfl
  config := fun r ↦ by
    rw [registry_modifyRegistry]
    split <;> rfl
  generated := fun r ↦ by
    rw [registry_modifyRegistry]
    split
    · exact Nat.le_succ _
    · exact Nat.le_refl _

/-- A sweep leaves the nodes that stay alive as they were, with their wrappers. -/
theorem sweep (w : World σ) : w.Frames w.sweep where
  next := next_sweep w
  nodes := fun _ node' hnode' ↦ ⟨node', node?_of_sweep hnode', .refl node'⟩
  wrappers := fun n node' form hnode' hwrapper hlive ↦ by
    obtain ⟨shown, hshown⟩ := exists_node? hlive
    have howned : form ∈ node'.owned := by
      rw [Node.owned, hwrapper]
      exact List.mem_append_right _ (List.mem_singleton_self form)
    exact contains_of_node? (get?_survivors_of_owned hnode' howned hshown)
  contains := fun _ ↦ rfl
  entries := fun _ ↦ rfl
  config := fun _ ↦ rfl
  generated := fun _ ↦ Nat.le_refl _

theorem release (w : World σ) (root : Root) : w.Frames (w.release root) := by
  have hdropped : w.Frames { w with held := w.held.erase root } := of_eq rfl rfl
  exact hdropped.trans (.sweep _)

theorem releaseAll (w : World σ) (nodes : List NodeId) : w.Frames (w.releaseAll nodes) := by
  have hdropped : w.Frames
      { w with held := nodes.foldl (fun held node ↦ held.erase (.node node)) w.held } :=
    of_eq rfl rfl
  exact hdropped.trans (.sweep _)

end Frames

end World

end LiveMarkup
