import LiveMarkup.Proofs.Identity.Origins
import Mathlib.Data.Finset.Dedup
import Mathlib.Data.Finset.Max

/-!
What a sweep drops and what it leaves. Nodes of which each is a root or owned by another one support
one another, and stay as they are (`World.Supports.node?_sweep`). Nodes that are loose from all
others, which neither a root nor a node outside of them refers to, are dropped together
(`World.Loose.node?_sweep`), as long as they do not keep one another alive in a circle.
-/

set_option autoImplicit false
set_option relaxedAutoImplicit false

namespace LiveMarkup

theorem Node.mem_owned_iff {node : Node} {id : NodeId} :
    id ∈ node.owned ↔ .node id ∈ node.content ∨ node.wrapper? = some id := by
  have hentry : (∃ child ∈ node.content, child.node? = some id) ↔ .node id ∈ node.content := by
    constructor
    · rintro ⟨child, hmem, hchild⟩
      cases child <;> simp_all [Child.node?]
    · exact fun hmem ↦ ⟨_, hmem, rfl⟩
  rw [Node.owned, List.mem_append, List.mem_filterMap, Option.mem_toList, hentry]

theorem mem_ownedNodes_iff {nodes : Table Node} {id : NodeId} :
    id ∈ ownedNodes nodes ↔ ∃ parent owner, nodes.get? parent = some owner ∧ id ∈ owner.owned := by
  constructor
  · intro h
    obtain ⟨row, hrow, hid⟩ := List.mem_flatMap.mp h
    exact ⟨row.1, row.2, Table.get?_of_mem_rows hrow, hid⟩
  · rintro ⟨parent, owner, howner, hid⟩
    exact mem_ownedNodes howner hid

/-- Whatever survives as many rounds as there are nodes is a root or owned by a survivor. -/
theorem referred_of_survivors {roots : List NodeId} {rounds : Nat} {nodes : Table Node}
    (hrounds : nodes.size ≤ rounds) {id : NodeId} {node : Node}
    (h : (survivors roots rounds nodes).get? id = some node) :
    id ∈ roots ∨ id ∈ ownedNodes (survivors roots rounds nodes) := by
  induction rounds generalizing nodes with
  | zero =>
    have hnone : nodes.rows = [] := List.eq_nil_of_length_eq_zero (Nat.le_zero.mp hrounds)
    have hmem := Table.mem_rows_of_get? (get?_of_survivors h)
    rw [hnone] at hmem
    cases hmem
  | succ rounds ih =>
    let referred := IdSet.ofList (roots ++ ownedNodes nodes)
    let kept := nodes.filter fun id _ ↦ referred.contains id
    have hle : kept.size ≤ nodes.size := List.length_filter_le _ _
    by_cases hsize : kept.size = nodes.size
    · -- nothing is dropped any more, so that every row is referred to
      have hsurvivors : survivors roots (rounds + 1) nodes = nodes := if_pos hsize
      rw [hsurvivors] at h ⊢
      have hall : ∀ row ∈ nodes.rows, referred.contains row.1 = true :=
        List.length_filter_eq_length_iff.mp hsize
      have hreferred := hall (id, node) (Table.mem_rows_of_get? h)
      rwa [IdSet.contains_ofList, List.contains_iff_mem, List.mem_append] at hreferred
    · have hsurvivors : survivors roots (rounds + 1) nodes = survivors roots rounds kept :=
        if_neg hsize
      rw [hsurvivors] at h ⊢
      exact ih (by omega) h

namespace World

variable {σ : Type} {w w' : World σ} {skip kept : NodeId → Prop}

/-! ### Who keeps a node alive -/

/-- A reference from outside the tree, or an application that is held, keeps a node alive. -/
def Rooted (w : World σ) (id : NodeId) : Prop :=
  .node id ∈ w.held ∨
    ∃ app shown, .app app ∈ w.held ∧ w.apps.get? app = some shown ∧ shown.mounted? = some id

/-- A node keeps another one alive; the wrappers of some nodes are left out. -/
def Owns (w : World σ) (skip : NodeId → Prop) (parent id : NodeId) : Prop :=
  ∃ owner, w.node? parent = some owner ∧
    (.node id ∈ owner.content ∨ ¬skip parent ∧ owner.wrapper? = some id)

theorem Rooted.mono {id : NodeId} (h : w.Rooted id) (hheld : ∀ root ∈ w.held, root ∈ w'.held)
    (happs : ∀ app, .app app ∈ w.held → w'.apps.get? app = w.apps.get? app) : w'.Rooted id := by
  rcases h with hnode | ⟨app, shown, happ, hshown, hmounted⟩
  · exact .inl (hheld _ hnode)
  · exact .inr ⟨app, shown, hheld _ happ, (happs app happ).trans hshown, hmounted⟩

theorem mem_roots_dropUnheld {id : NodeId} : id ∈ w.dropUnheld.roots ↔ w.Rooted id := by
  have hheld : id ∈ w.held.filterMap Root.node? ↔ .node id ∈ w.held := by
    rw [List.mem_filterMap]
    constructor
    · rintro ⟨root, hroot, hid⟩
      cases root <;> simp_all [Root.node?]
    · exact fun hroot ↦ ⟨_, hroot, rfl⟩
  have happs : id ∈ w.dropUnheld.apps.rows.filterMap (fun row ↦ row.2.mounted?) ↔
      ∃ app shown, .app app ∈ w.held ∧ w.apps.get? app = some shown ∧
        shown.mounted? = some id := by
    rw [List.mem_filterMap]
    constructor
    · rintro ⟨⟨app, shown⟩, hrow, hmounted⟩
      obtain ⟨hget, hcontains⟩ := Table.get?_filter_iff.mp (Table.get?_of_mem_rows hrow)
      exact ⟨app, shown, List.contains_iff_mem.mp hcontains, hget, hmounted⟩
    · rintro ⟨app, shown, happ, hget, hmounted⟩
      refine ⟨(app, shown), Table.mem_rows_of_get? (Table.get?_filter_iff.mpr ⟨hget, ?_⟩), hmounted⟩
      exact List.contains_iff_mem.mpr happ
  rw [roots, List.mem_append]
  exact or_congr hheld happs

/-! ### Nodes that stay -/

/-- Live nodes of which each is a root or owned by another one of them. -/
def Supports (w : World σ) (skip kept : NodeId → Prop) : Prop :=
  ∀ id, kept id → (∃ node, w.node? id = some node) ∧
    (w.Rooted id ∨ ∃ parent, kept parent ∧ w.Owns skip parent id)

/-- A sweep leaves nodes that support one another as they are. -/
theorem Supports.node?_sweep (h : w.Supports skip kept) {id : NodeId} (hid : kept id) :
    w.sweep.node? id = w.node? id := by
  refine get?_survivors kept (fun id hid ↦ ?_) hid
  obtain ⟨⟨node, hnode⟩, hroot | ⟨parent, hparent, owner, howner, howns⟩⟩ := h id hid
  · exact ⟨node, hnode, .inl (mem_roots_dropUnheld.mpr hroot)⟩
  · exact ⟨node, hnode, .inr ⟨parent, owner, hparent, howner,
      Node.mem_owned_iff.mpr (howns.imp_right And.right)⟩⟩

/-- They support one another in every world in which they are the same and have the same roots. -/
theorem Supports.congr (h : w.Supports skip kept)
    (hnodes : ∀ id, kept id → w'.node? id = w.node? id)
    (hroots : ∀ id, kept id → w.Rooted id → w'.Rooted id) : w'.Supports skip kept := by
  intro id hid
  obtain ⟨⟨node, hnode⟩, hsupport⟩ := h id hid
  refine ⟨⟨node, (hnodes id hid).trans hnode⟩, hsupport.imp (hroots id hid) ?_⟩
  rintro ⟨parent, hparent, owner, howner, howns⟩
  exact ⟨parent, hparent, owner, (hnodes parent hparent).trans howner, howns⟩

/-- A sweep leaves the applications and recorders that are held. -/
theorem apps_sweep {app : AppId} (happ : .app app ∈ w.held) :
    w.sweep.apps.get? app = w.apps.get? app := by
  ext shown
  refine Table.get?_filter_iff.trans (and_iff_left ?_)
  exact List.contains_iff_mem.mpr happ

theorem recorders_sweep {recorder : RecorderId} (hrecorder : .recorder recorder ∈ w.held) :
    w.sweep.recorders.get? recorder = w.recorders.get? recorder := by
  ext handler
  refine Table.get?_filter_iff.trans (and_iff_left ?_)
  exact List.contains_iff_mem.mpr hrecorder

theorem rooted_sweep_iff {id : NodeId} : w.sweep.Rooted id ↔ w.Rooted id := by
  unfold Rooted
  refine or_congr Iff.rfl (exists_congr fun app ↦ exists_congr fun shown ↦ ?_)
  refine and_congr_right fun happ ↦ ?_
  rw [apps_sweep (w := w) happ]

theorem Supports.sweep (h : w.Supports skip kept) : w.sweep.Supports skip kept :=
  h.congr (fun _ hid ↦ h.node?_sweep hid) fun _ _ hroot ↦ rooted_sweep_iff.mpr hroot

/-! ### Nodes that go -/

/-- Nodes that neither a root nor any other node refers to. Each has a rank below the ranks of its
owners, so that they are in no circle. -/
structure Loose (w : World σ) (loose : NodeId → Prop) (rank : NodeId → Nat) : Prop where
  unrooted : ∀ id, loose id → ¬w.Rooted id
  owners : ∀ id parent, loose id → w.Owns (fun _ ↦ False) parent id →
    loose parent ∧ rank id < rank parent

/-- A sweep drops loose nodes. -/
theorem Loose.node?_sweep {loose : NodeId → Prop} {rank : NodeId → Nat} (h : w.Loose loose rank)
    {id : NodeId} (hid : loose id) : w.sweep.node? id = none := by
  classical
  by_contra hleft
  -- of the loose nodes that are left, one of the highest rank has no owner
  let left := w.sweep.nodes.ids.toFinset.filter loose
  have hmem {other : NodeId} :
      other ∈ left ↔ (∃ node, w.sweep.node? other = some node) ∧ loose other := by
    rw [Finset.mem_filter, List.mem_toFinset, ← Table.contains_iff, ← Table.isSome_get?,
      Option.isSome_iff_exists]
    exact Iff.rfl
  have hnonempty : left.Nonempty :=
    ⟨id, hmem.mpr ⟨Option.ne_none_iff_exists'.mp hleft, hid⟩⟩
  obtain ⟨top, htop, hhighest⟩ := left.exists_max_image rank hnonempty
  obtain ⟨⟨node, hnode⟩, hloose⟩ := hmem.mp htop
  have hrounds : w.dropUnheld.nodes.size ≤ w.dropUnheld.nodes.size := Nat.le_refl _
  have hreferred : top ∈ w.dropUnheld.roots ∨ top ∈ ownedNodes w.sweep.nodes :=
    referred_of_survivors hrounds hnode
  rcases hreferred with hroot | howned
  · exact h.unrooted top hloose (mem_roots_dropUnheld.mp hroot)
  · obtain ⟨parent, owner, howner, howns⟩ := mem_ownedNodes_iff.mp howned
    have howns' : w.Owns (fun _ ↦ False) parent top :=
      ⟨owner, node?_of_sweep howner, (Node.mem_owned_iff.mp howns).imp_right (.intro not_false)⟩
    obtain ⟨hparent, hrank⟩ := h.owners top parent hloose howns'
    have hle := hhighest parent (hmem.mpr ⟨⟨owner, howner⟩, hparent⟩)
    omega

end World

end LiveMarkup
