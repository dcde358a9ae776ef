import LiveMarkup.World.Lifetime

/-!
Which nodes stay alive. A node is kept if it is held, or if a kept node has it in its content or as
its wrapper (`World.Kept`). A sweep leaves kept nodes as they are (`World.node?_sweep`) and brings
none back (`World.node?_of_sweep`).
-/

set_option autoImplicit false
set_option relaxedAutoImplicit false

namespace LiveMarkup

/-! ### Filtered tables -/

namespace Table

variable {α : Type}

theorem mem_rows_of_get? {t : Table α} {i : Nat} {a : α} (h : t.get? i = some a) :
    (i, a) ∈ t.rows := by
  obtain ⟨row, hrow, rfl⟩ := Option.map_eq_some_iff.mp h
  obtain rfl : row.1 = i := by simpa using List.find?_some hrow
  exact List.mem_of_find?_eq_some hrow

/-- A number names one row only. -/
theorem get?_of_mem_rows {t : Table α} {row : Nat × α} (h : row ∈ t.rows) :
    t.get? row.1 = some row.2 := by
  have hincreasing := t.increasing
  rw [get?, Option.map_eq_some_iff]
  refine ⟨row, ?_, rfl⟩
  generalize t.rows = rows at h hincreasing
  induction rows with
  | nil => simp at h
  | cons first rows ih =>
    rw [List.find?_cons]
    rcases List.mem_cons.mp h with rfl | h
    · rw [beq_self_eq_true]
    · have hlt := (List.pairwise_cons.mp hincreasing).1 row h
      have hne : (first.1 == row.1) = false := by simpa using Nat.ne_of_lt hlt
      rw [hne]
      exact ih h (List.pairwise_cons.mp hincreasing).2

theorem get?_eq_some_iff {t : Table α} {i : Nat} {a : α} : t.get? i = some a ↔ (i, a) ∈ t.rows :=
  ⟨mem_rows_of_get?, fun h ↦ get?_of_mem_rows h⟩

theorem get?_filter_iff {t : Table α} {p : Nat → α → Bool} {i : Nat} {a : α} :
    (t.filter p).get? i = some a ↔ t.get? i = some a ∧ p i a = true := by
  rw [get?_eq_some_iff, get?_eq_some_iff]
  exact List.mem_filter

end Table

theorem mem_ownedNodes {nodes : Table Node} {parent id : NodeId} {owner : Node}
    (howner : nodes.get? parent = some owner) (hid : id ∈ owner.owned) : id ∈ ownedNodes nodes :=
  List.mem_flatMap.mpr ⟨(parent, owner), Table.mem_rows_of_get? howner, hid⟩

/-! ### Survivors -/

theorem get?_of_survivors {roots : List NodeId} {rounds : Nat} {nodes : Table Node} {id : NodeId}
    {node : Node} (h : (survivors roots rounds nodes).get? id = some node) :
    nodes.get? id = some node := by
  induction rounds generalizing nodes with
  | zero => exact h
  | succ rounds ih =>
    rw [survivors] at h
    split at h
    · exact h
    · exact (Table.get?_filter_iff.mp (ih h)).1

theorem next_survivors (roots : List NodeId) (rounds : Nat) (nodes : Table Node) :
    (survivors roots rounds nodes).next = nodes.next := by
  induction rounds generalizing nodes with
  | zero => rfl
  | succ rounds ih =>
    rw [survivors]
    split
    · rfl
    · exact ih _

/-- Nodes that are each a root, or owned by another of them, survive. -/
theorem get?_survivors {roots : List NodeId} {rounds : Nat} {nodes : Table Node}
    (kept : NodeId → Prop)
    (h : ∀ id, kept id → ∃ node, nodes.get? id = some node ∧
      (id ∈ roots ∨ ∃ parent owner, kept parent ∧ nodes.get? parent = some owner ∧
        id ∈ owner.owned))
    {id : NodeId} (hid : kept id) : (survivors roots rounds nodes).get? id = nodes.get? id := by
  induction rounds generalizing nodes id with
  | zero => rfl
  | succ rounds ih =>
    rw [survivors]
    split
    · rfl
    · let referred := IdSet.ofList (roots ++ ownedNodes nodes)
      have hreferred (id : NodeId) (hid : kept id) : referred.contains id = true := by
        rw [IdSet.contains_ofList, List.contains_iff_mem, List.mem_append]
        obtain ⟨_, _, hroot | ⟨parent, owner, _, howner, hmem⟩⟩ := h id hid
        · exact .inl hroot
        · exact .inr (mem_ownedNodes howner hmem)
      have hkeeps (id : NodeId) (hid : kept id) (node : Node) (hnode : nodes.get? id = some node) :
          (nodes.filter fun id _ ↦ referred.contains id).get? id = some node :=
        Table.get?_filter_iff.mpr ⟨hnode, hreferred id hid⟩
      obtain ⟨node, hnode, _⟩ := h id hid
      rw [ih (fun id hid ↦ ?_) hid, hkeeps id hid node hnode, hnode]
      obtain ⟨node, hnode, hkept⟩ := h id hid
      refine ⟨node, hkeeps id hid node hnode, hkept.imp_right ?_⟩
      rintro ⟨parent, owner, hparent, howner, hmem⟩
      exact ⟨parent, owner, hparent, hkeeps parent hparent owner howner, hmem⟩

namespace World

variable {σ : Type} {w : World σ}

/-! ### Kept nodes -/

/-- A node that is held, or that a kept node has in its content or as its wrapper; the wrappers
of some nodes are left out. -/
inductive Kept (w : World σ) (skip : NodeId → Prop) : NodeId → Prop
  | held {id : NodeId} {node : Node} (hheld : .node id ∈ w.held) (hnode : w.node? id = some node) :
    Kept w skip id
  | content {parent id : NodeId} {owner node : Node} (hparent : Kept w skip parent)
    (howner : w.node? parent = some owner) (hmem : .node id ∈ owner.content)
    (hnode : w.node? id = some node) : Kept w skip id
  | wrapper {parent id : NodeId} {owner node : Node} (hparent : Kept w skip parent)
    (hskip : ¬skip parent) (howner : w.node? parent = some owner)
    (hwrapper : owner.wrapper? = some id) (hnode : w.node? id = some node) : Kept w skip id

/-- Leaving out fewer wrappers keeps more. -/
theorem Kept.mono {skip skip' : NodeId → Prop} (hskip : ∀ id, skip' id → skip id) {id : NodeId}
    (h : w.Kept skip id) : w.Kept skip' id := by
  induction h with
  | held hheld hnode => exact .held hheld hnode
  | content _ howner hmem hnode ih => exact .content ih howner hmem hnode
  | wrapper _ hnot howner hwrapper hnode ih =>
    exact .wrapper ih (fun h ↦ hnot (hskip _ h)) howner hwrapper hnode

/-- A kept node is a root, or a kept node owns it. -/
theorem Kept.referred {skip : NodeId → Prop} {id : NodeId} (h : w.Kept skip id) :
    ∃ node, w.node? id = some node ∧ (.node id ∈ w.held ∨
      ∃ parent owner, w.Kept skip parent ∧ w.node? parent = some owner ∧ id ∈ owner.owned) := by
  cases h with
  | held hheld hnode => exact ⟨_, hnode, .inl hheld⟩
  | @content parent _ owner node hparent howner hmem hnode =>
    refine ⟨node, hnode, .inr ⟨parent, owner, hparent, howner, ?_⟩⟩
    exact List.mem_append.mpr (.inl (List.mem_filterMap.mpr ⟨_, hmem, rfl⟩))
  | @wrapper parent _ owner node hparent _ howner hwrapper hnode =>
    refine ⟨node, hnode, .inr ⟨parent, owner, hparent, howner, ?_⟩⟩
    rw [Node.owned, hwrapper]
    simp

/-! ### Sweeping -/

/-- A sweep leaves kept nodes as they are. -/
theorem node?_sweep {skip : NodeId → Prop} {id : NodeId} (h : w.Kept skip id) :
    w.sweep.node? id = w.node? id := by
  refine get?_survivors (w.Kept skip) (fun id hid ↦ ?_) h
  obtain ⟨node, hnode, hkept⟩ := hid.referred
  refine ⟨node, hnode, hkept.imp_left fun hheld ↦ ?_⟩
  exact List.mem_append.mpr (.inl (List.mem_filterMap.mpr ⟨_, hheld, rfl⟩))

/-- A sweep brings no node back and changes none. -/
theorem node?_of_sweep {id : NodeId} {node : Node} (h : w.sweep.node? id = some node) :
    w.node? id = some node :=
  get?_of_survivors h

theorem next_sweep (w : World σ) : w.sweep.nodes.next = w.nodes.next := next_survivors ..

end World

end LiveMarkup
