import LiveMarkup.Proofs.Content.Outline
import LiveMarkup.World.Writing
import Mathlib.Data.List.Forall2
import Mathlib.Logic.Relation

/-!
Unfolding the content of nodes. Apart from any depth, a node unfolds to an outline if the nodes
in its content do (`World.unfolds_iff`), and to one outline only (`World.Unfolds.unique`). A node
below which no node holds itself unfolds, and the number of live nodes is depth enough for it
(`World.exists_unfolds`): no two nodes on a way down are the same. The tree of a node is that of
its outline (`World.tree?_eq_some_iff`), and the outline depends only on the nodes in it
(`World.Unfolds.congr`).
-/

set_option autoImplicit false
set_option relaxedAutoImplicit false

namespace LiveMarkup

/-! ### Lists related entry by entry -/

theorem mapM_eq_some_iff {α β : Type} {f : α → Option β} {l : List α} {r : List β} :
    l.mapM f = some r ↔ List.Forall₂ (fun a b ↦ f a = some b) l r := by
  induction l generalizing r with
  | nil => simp [eq_comm]
  | cons a l ih =>
    rw [List.mapM_cons, List.forall₂_cons_left_iff]
    constructor
    · intro h
      obtain ⟨b, hb, h⟩ := Option.bind_eq_some_iff.mp h
      obtain ⟨rest, hrest, h⟩ := Option.bind_eq_some_iff.mp h
      exact ⟨b, rest, hb, ih.mp hrest, (Option.some.inj h).symm⟩
    · rintro ⟨b, rest, hb, hrest, rfl⟩
      rw [hb, ih.mpr hrest]
      rfl

theorem exists_forall₂ {α β : Type} {p : α → β → Prop} {l : List α}
    (h : ∀ a ∈ l, ∃ b, p a b) : ∃ r, List.Forall₂ p l r := by
  induction l with
  | nil => exact ⟨[], .nil⟩
  | cons a l ih =>
    obtain ⟨b, hb⟩ := h a (by simp)
    obtain ⟨r, hr⟩ := ih fun other hother ↦ h other (List.mem_cons_of_mem a hother)
    exact ⟨b :: r, .cons hb hr⟩

theorem exists_mem_of_forall₂ {α β : Type} {p : α → β → Prop} {l : List α} {r : List β}
    (h : List.Forall₂ p l r) {a : α} (ha : a ∈ l) : ∃ b ∈ r, p a b := by
  induction h with
  | nil => simp at ha
  | @cons first b l r hb _ ih =>
    rcases List.mem_cons.mp ha with rfl | ha
    · exact ⟨b, by simp, hb⟩
    · obtain ⟨b', hb', hp⟩ := ih ha
      exact ⟨b', List.mem_cons_of_mem b hb', hp⟩

theorem forall₂_imp_of_mem {α β : Type} {p q : α → β → Prop} {l : List α} {r : List β}
    (h : List.Forall₂ p l r) (hpq : ∀ a ∈ l, ∀ b ∈ r, p a b → q a b) : List.Forall₂ q l r := by
  induction h with
  | nil => exact .nil
  | @cons a b l r hab _ ih =>
    refine .cons (hpq a (by simp) b (by simp) hab) (ih fun other hother result hresult ↦ ?_)
    exact hpq other (List.mem_cons_of_mem a hother) result (List.mem_cons_of_mem b hresult)

namespace World

variable {σ : Type} {w w' : World σ}

/-! ### What stands below a node -/

/-- One node stands in the content of another. -/
def Contains (w : World σ) (parent child : NodeId) : Prop :=
  ∃ node, w.node? parent = some node ∧ .node child ∈ node.content

/-- A node is another one, or stands somewhere below it. -/
def Reaches (w : World σ) : NodeId → NodeId → Prop := Relation.ReflTransGen w.Contains

/-- From a node down, no node holds itself. -/
def Acyclic (w : World σ) (root : NodeId) : Prop :=
  ∀ id, w.Reaches root id → ¬Relation.TransGen w.Contains id id

/-- From a node down, all nodes are alive. -/
def Live (w : World σ) (root : NodeId) : Prop :=
  ∀ id, w.Reaches root id → ∃ node, w.node? id = some node

theorem Acyclic.of_reaches {root id : NodeId} (h : w.Acyclic root) (hid : w.Reaches root id) :
    w.Acyclic id :=
  fun below hbelow ↦ h below (hid.trans hbelow)

theorem Live.of_reaches {root id : NodeId} (h : w.Live root) (hid : w.Reaches root id) :
    w.Live id :=
  fun below hbelow ↦ h below (hid.trans hbelow)

/-! ### Outlines of nodes -/

/-- The outline of an entry of content, given the outlines of nodes. -/
def childOutline? (nodeOutline : NodeId → Option Outline) : Child → Option Outline
  | .node id => nodeOutline id
  | child => some (.leaf child)

/-- The outline of a node whose content nests less than `depth` deep. -/
def outlineWithin? (w : World σ) : Nat → NodeId → Option Outline
  | 0, _ => none
  | depth + 1, id => do
    let node ← w.node? id
    let content ← node.content.mapM (childOutline? (outlineWithin? w depth))
    return .node id node.bare content

/-- A node unfolds to an outline, whatever depth that takes. -/
def Unfolds (w : World σ) (id : NodeId) (outline : Outline) : Prop :=
  ∃ depth, w.outlineWithin? depth id = some outline

/-- An entry of content unfolds to an outline. -/
def ChildUnfolds (w : World σ) : Child → Outline → Prop
  | .node id, outline => w.Unfolds id outline
  | child, outline => outline = .leaf child

theorem outlineWithin?_succ_iff {depth : Nat} {id : NodeId} {outline : Outline} :
    w.outlineWithin? (depth + 1) id = some outline ↔
      ∃ node content, w.node? id = some node ∧
        List.Forall₂ (fun child part ↦ childOutline? (w.outlineWithin? depth) child = some part)
          node.content content ∧
        outline = .node id node.bare content := by
  constructor
  · intro h
    obtain ⟨node, hnode, h⟩ := Option.bind_eq_some_iff.mp h
    obtain ⟨content, hcontent, h⟩ := Option.bind_eq_some_iff.mp h
    exact ⟨node, content, hnode, mapM_eq_some_iff.mp hcontent, (Option.some.inj h).symm⟩
  · rintro ⟨node, content, hnode, hcontent, rfl⟩
    refine Option.bind_eq_some_iff.mpr ⟨node, hnode, ?_⟩
    exact Option.bind_eq_some_iff.mpr ⟨content, mapM_eq_some_iff.mpr hcontent, rfl⟩

/-- An entry keeps its outline if nodes do. -/
theorem childOutline?_mono {f g : NodeId → Option Outline} {child : Child} {part : Outline}
    (h : ∀ id, child = .node id → f id = some part → g id = some part)
    (hchild : childOutline? f child = some part) : childOutline? g child = some part := by
  cases child with
  | node id => exact h id rfl hchild
  | state => exact hchild
  | text => exact hchild
  | number => exact hchild

/-- More depth changes no outline. -/
theorem outlineWithin?_mono {depth depth' : Nat} (hle : depth ≤ depth') {id : NodeId}
    {outline : Outline} (h : w.outlineWithin? depth id = some outline) :
    w.outlineWithin? depth' id = some outline := by
  induction depth generalizing depth' id outline with
  | zero => cases h
  | succ depth ih =>
    obtain ⟨more, rfl⟩ : ∃ more, depth' = more + 1 := ⟨depth' - 1, by omega⟩
    obtain ⟨node, content, hnode, hcontent, rfl⟩ := outlineWithin?_succ_iff.mp h
    exact outlineWithin?_succ_iff.mpr ⟨node, content, hnode,
      hcontent.imp fun _ _ ↦ childOutline?_mono fun _ _ ↦ ih (by omega), rfl⟩

theorem Unfolds.unique {id : NodeId} {outline outline' : Outline} (h : w.Unfolds id outline)
    (h' : w.Unfolds id outline') : outline = outline' := by
  obtain ⟨depth, h⟩ := h
  obtain ⟨depth', h'⟩ := h'
  have hleft := outlineWithin?_mono (Nat.le_max_left depth depth') h
  have hright := outlineWithin?_mono (Nat.le_max_right depth depth') h'
  exact Option.some.inj (hleft.symm.trans hright)

theorem childUnfolds_iff {child : Child} {part : Outline} :
    w.ChildUnfolds child part ↔
      ∃ depth, childOutline? (w.outlineWithin? depth) child = some part := by
  have hleaf : part = .leaf child ↔ ∃ _ : Nat, some (Outline.leaf child) = some part := by
    rw [exists_const, Option.some_inj, eq_comm]
  cases child with
  | node id => exact Iff.rfl
  | state => exact hleaf
  | text => exact hleaf
  | number => exact hleaf

/-- One depth does for all entries of a content. -/
theorem exists_depth {content : List Child} {parts : List Outline}
    (h : List.Forall₂ w.ChildUnfolds content parts) :
    ∃ depth, List.Forall₂
      (fun child part ↦ childOutline? (w.outlineWithin? depth) child = some part)
      content parts := by
  induction h with
  | nil => exact ⟨0, .nil⟩
  | @cons child part content parts hchild _ ih =>
    obtain ⟨first, hfirst⟩ := childUnfolds_iff.mp hchild
    obtain ⟨later, hlater⟩ := ih
    exact ⟨max first later,
      .cons (childOutline?_mono (fun _ _ ↦ outlineWithin?_mono (Nat.le_max_left _ _)) hfirst)
        (hlater.imp fun _ _ ↦
          childOutline?_mono fun _ _ ↦ outlineWithin?_mono (Nat.le_max_right _ _))⟩

/-- A node unfolds to itself with what its content unfolds to. -/
theorem unfolds_iff {id : NodeId} {outline : Outline} :
    w.Unfolds id outline ↔ ∃ node content, w.node? id = some node ∧
      List.Forall₂ w.ChildUnfolds node.content content ∧ outline = .node id node.bare content := by
  constructor
  · rintro ⟨depth, h⟩
    cases depth with
    | zero => cases h
    | succ depth =>
      obtain ⟨node, content, hnode, hcontent, rfl⟩ := outlineWithin?_succ_iff.mp h
      exact ⟨node, content, hnode,
        hcontent.imp fun _ _ hchild ↦ childUnfolds_iff.mpr ⟨depth, hchild⟩, rfl⟩
  · rintro ⟨node, content, hnode, hcontent, rfl⟩
    obtain ⟨depth, hdepth⟩ := exists_depth hcontent
    exact ⟨depth + 1, outlineWithin?_succ_iff.mpr ⟨node, content, hnode, hdepth, rfl⟩⟩

/-! ### Which nodes unfold -/

theorem mem_ids_of_node? {id : NodeId} {node : Node} (h : w.node? id = some node) :
    id ∈ w.nodes.ids := by
  rw [← Table.contains_iff, ← Table.isSome_get?]
  exact Option.isSome_of_eq_some h

/-- On the way down to a node, which is a list of different live nodes above it, there is always
depth left. -/
theorem exists_outlineWithin? {depth : Nat} {id : NodeId} (hacyclic : w.Acyclic id)
    (hlive : w.Live id) {above : List NodeId} (hnodup : above.Nodup)
    (hids : ∀ a ∈ above, a ∈ w.nodes.ids ∧ Relation.TransGen w.Contains a id)
    (hdepth : w.nodes.size < above.length + depth) :
    ∃ outline, w.outlineWithin? depth id = some outline := by
  induction depth generalizing id above with
  | zero =>
    have hle := hnodup.length_le_of_subset fun a ha ↦ (hids a ha).1
    rw [Table.ids, List.length_map] at hle
    exact absurd hdepth (Nat.not_lt.mpr hle)
  | succ depth ih =>
    obtain ⟨node, hnode⟩ := hlive id .refl
    have hfresh : id ∉ above := fun hmem ↦ hacyclic id .refl (hids id hmem).2
    have hcontent : ∀ child ∈ node.content,
        ∃ part, childOutline? (w.outlineWithin? depth) child = some part := by
      intro child hchild
      cases child with
      | node below =>
        have hstep : w.Contains id below := ⟨node, hnode, hchild⟩
        have hbelow : ∀ a ∈ id :: above,
            a ∈ w.nodes.ids ∧ Relation.TransGen w.Contains a below := by
          intro a ha
          rcases List.mem_cons.mp ha with rfl | ha
          · exact ⟨mem_ids_of_node? hnode, .single hstep⟩
          · exact ⟨(hids a ha).1, (hids a ha).2.tail hstep⟩
        refine ih (hacyclic.of_reaches (.single hstep)) (hlive.of_reaches (.single hstep))
          (List.nodup_cons.mpr ⟨hfresh, hnodup⟩) hbelow ?_
        rw [List.length_cons]
        omega
      | state => exact ⟨_, rfl⟩
      | text => exact ⟨_, rfl⟩
      | number => exact ⟨_, rfl⟩
    obtain ⟨content, hparts⟩ := exists_forall₂ hcontent
    exact ⟨_, outlineWithin?_succ_iff.mpr ⟨node, content, hnode, hparts, rfl⟩⟩

/-- A node below which no node holds itself, all of them being alive, unfolds in a depth of one
more than there are nodes. -/
theorem exists_unfolds {id : NodeId} (hacyclic : w.Acyclic id) (hlive : w.Live id) :
    ∃ outline, w.outlineWithin? (w.nodes.size + 1) id = some outline := by
  refine exists_outlineWithin? hacyclic hlive List.nodup_nil (by simp) ?_
  rw [List.length_nil]
  omega

/-! ### What is below a node that unfolds -/

theorem outlineWithin?_step {depth : Nat} {root id : NodeId} {outline : Outline}
    (h : w.outlineWithin? depth root = some outline) (hid : w.Contains root id) :
    ∃ less < depth, ∃ part, w.outlineWithin? less id = some part ∧
      part.parts ⊆ outline.inside := by
  cases depth with
  | zero => cases h
  | succ depth =>
    obtain ⟨node, content, hnode, hcontent, rfl⟩ := outlineWithin?_succ_iff.mp h
    obtain ⟨node', hnode', hchild⟩ := hid
    obtain rfl : node' = node := Option.some.inj (hnode'.symm.trans hnode)
    obtain ⟨part, hpart, hunfolds⟩ := exists_mem_of_forall₂ hcontent hchild
    exact ⟨depth, Nat.lt_succ_self depth, part, hunfolds,
      fun inner hinner ↦ Outline.mem_inside_iff.mpr ⟨part, hpart, hinner⟩⟩

/-- What stands below a node unfolds in less depth. -/
theorem outlineWithin?_below {depth : Nat} {root id : NodeId} {outline : Outline}
    (h : w.outlineWithin? depth root = some outline) (hid : Relation.TransGen w.Contains root id) :
    ∃ less < depth, ∃ part, w.outlineWithin? less id = some part := by
  induction hid using Relation.TransGen.head_induction_on generalizing depth outline with
  | @single parent hstep =>
    obtain ⟨less, hless, part, hpart, _⟩ := outlineWithin?_step h hstep
    exact ⟨less, hless, part, hpart⟩
  | @head parent child hstep _ ih =>
    obtain ⟨less, hless, part, hpart, _⟩ := outlineWithin?_step h hstep
    obtain ⟨less', hless', inner, hinner⟩ := ih hpart
    exact ⟨less', by omega, inner, hinner⟩

/-- A node somewhere below one that unfolds unfolds to a part of its outline. -/
theorem Unfolds.of_reaches {root id : NodeId} {outline : Outline} (h : w.Unfolds root outline)
    (hid : w.Reaches root id) : ∃ part ∈ outline.parts, w.Unfolds id part := by
  induction hid using Relation.ReflTransGen.head_induction_on generalizing outline with
  | refl =>
    obtain ⟨node, content, _, _, rfl⟩ := unfolds_iff.mp h
    exact ⟨_, List.mem_cons_self, h⟩
  | @head parent child hstep _ ih =>
    obtain ⟨depth, hdepth⟩ := h
    obtain ⟨less, _, below, hbelow, hsubset⟩ := outlineWithin?_step hdepth hstep
    obtain ⟨part, hpart, hid⟩ := ih ⟨less, hbelow⟩
    obtain ⟨node, content, _, _, rfl⟩ := unfolds_iff.mp ⟨depth, hdepth⟩
    exact ⟨part, Outline.mem_parts_iff.mpr (.inr (hsubset hpart)), hid⟩

/-- Each part of what a node unfolds to is what a node below it unfolds to. -/
theorem Unfolds.exists_reaches {root : NodeId} {outline : Outline} (h : w.Unfolds root outline) :
    ∀ part ∈ outline.parts, ∃ id, w.Reaches root id ∧ w.Unfolds id part := by
  obtain ⟨depth, hdepth⟩ := h
  induction depth generalizing root outline with
  | zero => cases hdepth
  | succ depth ih =>
    obtain ⟨node, content, hnode, hcontent, rfl⟩ := outlineWithin?_succ_iff.mp hdepth
    intro part hpart
    rcases Outline.mem_parts_iff.mp hpart with rfl | hinside
    · exact ⟨root, .refl, _, hdepth⟩
    · obtain ⟨below, hbelow, hin⟩ := Outline.mem_inside_iff.mp hinside
      obtain ⟨child, hchild, houtline⟩ := exists_mem_of_forall₂ hcontent.flip hbelow
      cases child with
      | node next =>
        obtain ⟨id, hid, hunfolds⟩ := ih houtline part hin
        exact ⟨id, .head ⟨node, hnode, hchild⟩ hid, hunfolds⟩
      | state =>
        obtain rfl := Option.some.inj houtline
        simp [Outline.parts] at hin
      | text =>
        obtain rfl := Option.some.inj houtline
        simp [Outline.parts] at hin
      | number =>
        obtain rfl := Option.some.inj houtline
        simp [Outline.parts] at hin

/-- Below a node that unfolds all nodes are alive. -/
theorem Unfolds.live {root : NodeId} {outline : Outline} (h : w.Unfolds root outline) :
    w.Live root := by
  intro id hid
  obtain ⟨part, _, hunfolds⟩ := h.of_reaches hid
  obtain ⟨node, _, hnode, _⟩ := unfolds_iff.mp hunfolds
  exact ⟨node, hnode⟩

/-- Below a node that unfolds no node holds itself. -/
theorem Unfolds.acyclic {root : NodeId} {outline : Outline} (h : w.Unfolds root outline) :
    w.Acyclic root := by
  have hnone (depth : Nat) : ∀ id outline, w.outlineWithin? depth id = some outline →
      ¬Relation.TransGen w.Contains id id := by
    induction depth using Nat.strongRecOn with
    | ind depth ih =>
      intro id outline houtline hcycle
      obtain ⟨less, hless, part, hpart⟩ := outlineWithin?_below houtline hcycle
      exact ih less hless id part hpart hcycle
  intro id hid
  obtain ⟨part, _, depth, hdepth⟩ := h.of_reaches hid
  exact hnone depth id part hdepth

/-- The number of live nodes is depth enough for a node that unfolds. -/
theorem Unfolds.outlineWithin? {id : NodeId} {outline : Outline} (h : w.Unfolds id outline) :
    w.outlineWithin? (w.nodes.size + 1) id = some outline := by
  obtain ⟨outline', houtline'⟩ := exists_unfolds h.acyclic h.live
  rw [houtline', h.unique ⟨_, houtline'⟩]

/-! ### What outlines depend on -/

/-- An outline is what a node unfolds to in every world whose nodes are as the outline has
them. -/
theorem outlineWithin?_congr {depth : Nat} {root : NodeId} {outline : Outline}
    (h : w.outlineWithin? depth root = some outline)
    (hsame : ∀ id self content, .node id self content ∈ outline.parts →
      (w'.node? id).map Node.bare = some self) :
    w'.outlineWithin? depth root = some outline := by
  induction depth generalizing root outline with
  | zero => cases h
  | succ depth ih =>
    obtain ⟨node, content, hnode, hcontent, rfl⟩ := outlineWithin?_succ_iff.mp h
    obtain ⟨node', hnode', hbare⟩ := Option.map_eq_some_iff.mp (hsame root _ _ List.mem_cons_self)
    have hchildren : node'.content = node.content := by rw [Node.eq_of_bare hbare]
    refine outlineWithin?_succ_iff.mpr ⟨node', content, hnode', ?_, by rw [hbare]⟩
    rw [hchildren]
    refine forall₂_imp_of_mem hcontent fun child _ part hpart hchild ↦ ?_
    refine childOutline?_mono (fun id _ hid ↦ ih hid fun below self inner hbelow ↦ ?_) hchild
    exact hsame below self inner
      (Outline.mem_parts_iff.mpr (.inr (Outline.mem_inside_iff.mpr ⟨part, hpart, hbelow⟩)))

theorem Unfolds.congr {root : NodeId} {outline : Outline} (h : w.Unfolds root outline)
    (hsame : ∀ id self content, .node id self content ∈ outline.parts →
      (w'.node? id).map Node.bare = some self) : w'.Unfolds root outline := by
  obtain ⟨depth, h⟩ := h
  exact ⟨depth, outlineWithin?_congr h hsame⟩

/-! ### Trees -/

/-- What an observable displays. -/
def displayOf (w : World σ) (observable : ObservableId) : String :=
  (w.observable observable).value.display

theorem childTree?_eq_map {nodeTree : NodeId → Option Tree} {nodeOutline : NodeId → Option Outline}
    (h : ∀ id, nodeTree id = (nodeOutline id).map (Outline.tree w.displayOf)) (child : Child) :
    w.childTree? nodeTree child =
      (childOutline? nodeOutline child).map (Outline.tree w.displayOf) := by
  cases child with
  | node id => exact h id
  | state => rfl
  | text => rfl
  | number => rfl

/-- The tree of a node is its outline with values filled in. -/
theorem treeWithin?_eq_map (w : World σ) (depth : Nat) (id : NodeId) :
    w.treeWithin? depth id = (w.outlineWithin? depth id).map (Outline.tree w.displayOf) := by
  induction depth generalizing id with
  | zero => rfl
  | succ depth ih =>
    have hcontent (content : List Child) :
        content.mapM (w.childTree? (w.treeWithin? depth)) =
          (content.mapM (childOutline? (w.outlineWithin? depth))).map
            (Outline.trees w.displayOf) := by
      induction content with
      | nil => rfl
      | cons child content ihContent =>
        rw [List.mapM_cons, List.mapM_cons, childTree?_eq_map ih, ihContent]
        cases childOutline? (w.outlineWithin? depth) child with
        | none => rfl
        | some part =>
          cases content.mapM (childOutline? (w.outlineWithin? depth)) <;> rfl
    rw [treeWithin?, World.outlineWithin?]
    cases w.node? id with
    | none => rfl
    | some node =>
      show (do
        let content ← node.content.mapM (w.childTree? (w.treeWithin? depth))
        return Tree.element id node.tag node.attributes.printed content) = _
      rw [hcontent]
      cases hparts : node.content.mapM (childOutline? (w.outlineWithin? depth)) with
      | none => simp [hparts]
      | some parts => simp [hparts, Outline.tree, Node.bare]

theorem tree?_eq_some_iff {id : NodeId} {tree : Tree} :
    w.tree? id = some tree ↔ ∃ outline, w.Unfolds id outline ∧ tree = outline.tree w.displayOf := by
  rw [tree?, treeWithin?_eq_map, Option.map_eq_some_iff]
  constructor
  · rintro ⟨outline, houtline, rfl⟩
    exact ⟨outline, ⟨_, houtline⟩, rfl⟩
  · rintro ⟨outline, houtline, rfl⟩
    exact ⟨outline, houtline.outlineWithin?, rfl⟩

end World

end LiveMarkup
