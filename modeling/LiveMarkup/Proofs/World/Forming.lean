import LiveMarkup.Proofs.World.Growing

/-!
What exactly is new after rendering. Rendering a node that unfolds succeeds and adds as many nodes
as its outline tells, numbered in one piece, the form last; all nodes that support one another are
left exactly as they were (`World.exists_drawn`). The cases of a node follow how its kind is
displayed: around its content as it was laid out, around its content as it is, or as itself.
-/

set_option autoImplicit false
set_option relaxedAutoImplicit false

namespace LiveMarkup.World

variable {σ : Type} {w w' : World σ} {skip kept below : NodeId → Prop}
  {registries : RegistryId → Prop} {content : List Child} {forms : List NodeId} {part : Outline}
  {parts : List Outline}

/-! ### Laying out and drawing -/

/-- The nodes of some outlines. -/
def Among (parts : List Outline) (n : NodeId) : Prop := ∃ part ∈ parts, n ∈ part.ids

/-- A world after the content of a node was laid out: layouts in it were replaced by their forms, to
which references are taken, and as many nodes as told are new. -/
structure LaidOut (skip kept below : NodeId → Prop) (registries : RegistryId → Prop) (count : Nat)
    (content : List Child) (forms : List NodeId) (w w' : World σ) : Prop where
  grows : Grows skip kept below registries w w'
  held : w'.held.Perm (forms.map .node ++ w.held)
  next : w'.nodes.next = w.nodes.next + count
  forms_mem : ∀ form ∈ forms, .node form ∈ content
  entries : ∀ n, .node n ∈ content → below n ∨ w.Fresh w' n
  owned : ∀ n, w.Fresh w' n → n ∈ forms ∨ ∃ parent, w.Fresh w' parent ∧ w'.Contains parent n
  unfolds : ∃ parts, List.Forall₂ w'.ChildUnfolds content parts ∧
    ∀ part ∈ parts, ∀ n ∈ part.ids, kept n ∨ w.Fresh w' n

/-- A world after a node was rendered: its forms are new, the last of them is what the node is
displayed as, and a reference to that one is taken, after those to some of the others. A node
without forms is displayed as itself. -/
structure Drawn (skip kept : NodeId → Prop) (registries : RegistryId → Prop) (id : NodeId)
    (outline : Outline) (form : Nat) (others : List NodeId) (w w' : World σ) : Prop where
  grows : Grows skip kept (· ∈ outline.inner) registries w w'
  held : w'.held.Perm (.node form :: (others.map .node ++ w.held))
  next : w'.nodes.next = w.nodes.next + outline.forms
  place : if outline.forms = 0 then form = id else w'.nodes.next = form + 1
  owned : ∀ n, w.Fresh w' n → n = form ∨ ∃ parent, w.Fresh w' parent ∧ w'.Contains parent n
  shown : ∃ shown, w'.Unfolds form shown ∧ ∀ n ∈ shown.ids, kept n ∨ w.Fresh w' n

/-- An entry that is not rendered as a layout unfolds to no layout. -/
theorem ChildUnfolds.not_isLayout {child : Child} {part : Outline} (h : w.ChildUnfolds child part)
    (hlayout :
      (child.node?.filter fun id ↦ (w.node? id).any fun node ↦ node.kind.isLayout) = none) :
    part.isLayout = false := by
  cases child with
  | node id =>
    obtain ⟨node, _, hnode, _, rfl⟩ := unfolds_iff.mp h
    have hkind : node.kind.isLayout = false := by
      simpa [Child.node?, hnode] using hlayout
    exact hkind
  | state => obtain rfl := h; rfl
  | text => obtain rfl := h; rfl
  | number => obtain rfl := h; rfl

/-- A content may be laid out as it is. -/
theorem LaidOut.refl (hsupports : w.Supports skip kept)
    (hunfolds : List.Forall₂ w.ChildUnfolds content parts)
    (hparts : ∀ part ∈ parts, ∀ n ∈ part.ids, below n) (hkept : ∀ n, below n → kept n) :
    LaidOut skip kept below registries 0 content [] w w where
  grows := .refl hsupports
  held := .refl _
  next := rfl
  forms_mem := fun _ hform ↦ absurd hform List.not_mem_nil
  entries := fun n hn ↦ by
    obtain ⟨part, hpart, hpartUnfolds⟩ := exists_mem_of_forall₂ hunfolds hn
    exact .inl (hparts part hpart n (ChildUnfolds.mem_ids hpartUnfolds))
  owned := fun _ hn ↦ absurd hn.2 (Nat.not_lt.mpr hn.1)
  unfolds := ⟨parts, hunfolds, fun part hpart n hn ↦ .inl (hkept n (hparts part hpart n hn))⟩

/-- An entry that is no layout stays in front of a content. -/
theorem LaidOut.cons_other {child : Child}
    (h : LaidOut skip kept (Among parts) registries (Outline.formsAll parts) content forms w w')
    (hunfolds : w.ChildUnfolds child part) (hpart : part.isLayout = false)
    (hkept : ∀ n ∈ part.ids, kept n) :
    LaidOut skip kept (Among (part :: parts)) registries (Outline.formsAll (part :: parts))
      (child :: content) forms w w' where
  grows := h.grows.mono fun _ ⟨later, hlater, hn⟩ ↦ ⟨later, List.mem_cons_of_mem _ hlater, hn⟩
  held := h.held
  next := by
    rw [h.next, Outline.formsAll, hpart, if_neg Bool.false_ne_true, Nat.zero_add]
  forms_mem := fun form hform ↦ List.mem_cons_of_mem _ (h.forms_mem form hform)
  entries := fun n hn ↦ by
    rcases List.mem_cons.mp hn with rfl | hlater
    · exact .inl ⟨part, List.mem_cons_self, hunfolds.mem_ids⟩
    · refine (h.entries n hlater).imp_left ?_
      rintro ⟨later, hlater, hn⟩
      exact ⟨later, List.mem_cons_of_mem _ hlater, hn⟩
  owned := h.owned
  unfolds := by
    obtain ⟨parts', hunfolds', hids⟩ := h.unfolds
    refine ⟨part :: parts',
      .cons (hunfolds.of_nodes fun n hn ↦ h.grows.nodes n (hkept n hn)) hunfolds',
      fun later hlater n hn ↦ ?_⟩
    rcases List.mem_cons.mp hlater with rfl | hlater
    · exact .inl (hkept n hn)
    · exact hids later hlater n hn

/-- A layout in front of a content is replaced by its form. -/
theorem LaidOut.cons_layout {id : NodeId} {form : Nat} {first : World σ}
    (hdrawn : Drawn skip kept registries id part form [] w first)
    (h : LaidOut skip (fun n ↦ kept n ∨ w.Fresh first n) (Among parts) registries
      (Outline.formsAll parts) content forms first w')
    (hid : id ∈ part.ids) (hlayout : part.isLayout = true) :
    LaidOut skip kept (Among (part :: parts)) registries (Outline.formsAll (part :: parts))
      (.node form :: content) (form :: forms) w w' := by
  have hfirst {n : NodeId} (hn : w.Fresh first n) : w.Fresh w' n :=
    (fresh_trans_iff hdrawn.grows.ages h.grows.ages).mpr (.inl hn)
  have hlast {n : NodeId} (hn : first.Fresh w' n) : w.Fresh w' n :=
    (fresh_trans_iff hdrawn.grows.ages h.grows.ages).mpr (.inr hn)
  refine
    { grows := (hdrawn.grows.mono fun n hn ↦ ?_).trans (h.grows.mono ?_)
      held := ?_
      next := ?_
      forms_mem := fun other hother ↦ ?_
      entries := fun n hn ↦ ?_
      owned := fun n hn ↦ ?_
      unfolds := ?_ }
  · exact ⟨part, List.mem_cons_self, Outline.inner_subset_ids hn⟩
  · rintro n ⟨later, hlater, hn⟩
    exact ⟨later, List.mem_cons_of_mem _ hlater, hn⟩
  · rw [List.map_cons, List.cons_append]
    exact h.held.trans ((hdrawn.held.append_left _).trans List.perm_middle)
  · rw [h.next, hdrawn.next, Outline.formsAll, hlayout, if_pos rfl, Nat.add_assoc]
  · rcases List.mem_cons.mp hother with rfl | hother
    · exact List.mem_cons_self
    · exact List.mem_cons_of_mem _ (h.forms_mem other hother)
  · rcases List.mem_cons.mp hn with heq | hlater
    · obtain rfl := Child.node.inj heq
      have hplace := hdrawn.place
      by_cases hitself : part.forms = 0
      · rw [if_pos hitself] at hplace
        rw [hplace]
        exact .inl ⟨part, List.mem_cons_self, hid⟩
      · rw [if_neg hitself] at hplace
        have hnext := hdrawn.next
        refine .inr (hfirst ⟨?_, ?_⟩) <;> omega
    · rcases h.entries n hlater with ⟨later, hlater, hn⟩ | hnew
      · exact .inl ⟨later, List.mem_cons_of_mem _ hlater, hn⟩
      · exact .inr (hlast hnew)
  · rcases (fresh_trans_iff hdrawn.grows.ages h.grows.ages).mp hn with hearlier | hlater
    · rcases hdrawn.owned n hearlier with rfl | ⟨parent, hparent, owner, howner, hmem⟩
      · exact .inl List.mem_cons_self
      · have hsame := h.grows.nodes parent (.inr hparent)
        exact .inr ⟨parent, hfirst hparent, owner, hsame.trans howner, hmem⟩
    · refine (h.owned n hlater).imp (List.mem_cons_of_mem _) ?_
      rintro ⟨parent, hparent, hcontains⟩
      exact ⟨parent, hlast hparent, hcontains⟩
  · obtain ⟨shown, hshown, hshownIds⟩ := hdrawn.shown
    obtain ⟨parts', hunfolds, hids⟩ := h.unfolds
    refine ⟨shown :: parts',
      .cons (hshown.of_nodes fun n hn ↦ h.grows.nodes n (hshownIds n hn)) hunfolds,
      fun other hother n hn ↦ ?_⟩
    rcases List.mem_cons.mp hother with rfl | hother
    · exact (hshownIds n hn).imp_right hfirst
    · rcases hids other hother n hn with (hkept | hnew) | hnew
      · exact .inl hkept
      · exact .inr (hfirst hnew)
      · exact .inr (hlast hnew)

variable {id : NodeId} {node : Node}

theorem onclick_freshPlain (w : World σ) (registry : RegistryId) (tag : String)
    {attributes : Attributes} (honclick : attributes.get? "onclick" = none)
    (content : List Child) :
    (w.freshPlain registry tag attributes content).attributes.get? "onclick" = none := by
  show (attributes.insert "id" _).get? "onclick" = none
  rw [OrderedMap.get?_insert, if_neg (by decide), honclick]

/-- An element is created around a content that was laid out. -/
theorem LaidOut.added {outline : Outline} {count : Nat}
    (h : LaidOut skip kept below registries count content forms w w')
    (hbelow : ∀ n, below n → n ∈ outline.inner) (hforms : outline.forms = count + 1)
    {registry : RegistryId} (hregistry : registries registry) (tag : String)
    {attributes : Attributes} (honclick : attributes.get? "onclick" = none) :
    Drawn skip kept registries id outline w'.nodes.next forms w
      (w'.added (w'.freshPlain registry tag attributes content) false) := by
  let form := w'.freshPlain registry tag attributes content
  let created := w'.added form false
  have hisForm : IsForm (· ∈ outline.inner) registries w.nodes.next w'.nodes.next form :=
    { kind := rfl
      registry := hregistry
      unmounted := rfl
      content := fun child hchild ↦ (h.entries child hchild).imp_left (hbelow child)
      onclick := onclick_freshPlain w' _ _ honclick content }
  have hform : created.node? w'.nodes.next = some form := by
    rw [node?_added, if_pos rfl]
  have hfresh : w.Fresh created w'.nodes.next :=
    ⟨h.grows.ages.nodes.next, Nat.lt_succ_self w'.nodes.next⟩
  have hearlier {n : NodeId} (hn : w.Fresh w' n) : w.Fresh created n :=
    ⟨hn.1, Nat.lt_succ_of_lt hn.2⟩
  have hsame {n : NodeId} (hn : kept n ∨ w.Fresh w' n) : created.node? n = w'.node? n :=
    h.grows.supports.node?_added hn form false
  refine
    { grows := (h.grows.mono hbelow).added hisForm
      held := h.held.cons _
      next := ?_
      place := by rw [if_neg (by omega)]; rfl
      owned := fun n hn ↦ ?_
      shown := ?_ }
  · show w'.nodes.next + 1 = _
    rw [h.next, hforms, Nat.add_assoc]
  · rcases Nat.lt_succ_iff_lt_or_eq.mp hn.2 with hlt | hlast
    · refine .inr ?_
      rcases h.owned n ⟨hn.1, hlt⟩ with hmem | ⟨parent, hparent, owner, howner, hmem⟩
      · exact ⟨w'.nodes.next, hfresh, form, hform, h.forms_mem n hmem⟩
      · exact ⟨parent, hearlier hparent, owner, (hsame (.inr hparent)).trans howner, hmem⟩
    · exact .inl hlast
  · obtain ⟨parts, hunfolds, hparts⟩ := h.unfolds
    refine ⟨.node w'.nodes.next form.bare parts, unfolds_iff.mpr ⟨form, parts, hform, ?_, rfl⟩,
      fun n hn ↦ ?_⟩
    · exact forall₂_imp_of_mem hunfolds fun child _ part hpart hchild ↦
        hchild.of_nodes fun n hn ↦ hsame (hparts part hpart n hn)
    · rw [Outline.ids_node] at hn
      rcases List.mem_cons.mp hn with rfl | hinner
      · exact .inr hfresh
      · obtain ⟨part, hpart, hn⟩ := Outline.mem_inner_iff.mp hinner
        exact (hparts part hpart n hn).imp_right hearlier

/-- References to forms in the content of the last one are given up. -/
theorem Drawn.releaseAll {outline : Outline} {last : NodeId}
    (h : Drawn skip kept registries id outline last forms w w') (hnode : w'.node? last = some node)
    (hforms : ∀ form ∈ forms, .node form ∈ node.content) :
    Drawn skip kept registries id outline last [] w (w'.releaseAll forms) := by
  obtain ⟨shown, hshown, hshownIds⟩ := h.shown
  have hlast : kept last ∨ w.Fresh w' last := hshownIds last hshown.mem_ids
  have hnext : (w'.releaseAll forms).nodes.next = w'.nodes.next := next_sweep _
  have hfresh (n : NodeId) : w.Fresh (w'.releaseAll forms) n ↔ w.Fresh w' n := by
    unfold Fresh
    rw [hnext]
  have hsame {n : NodeId} (hn : kept n ∨ w.Fresh w' n) :
      (w'.releaseAll forms).node? n = w'.node? n :=
    h.grows.node?_releaseAll h.held hlast hnode hforms hn
  refine
    { grows := h.grows.releaseAll h.held hlast hnode hforms
      held := foldl_erase_perm (h.held.trans List.perm_middle.symm)
      next := hnext.trans h.next
      place := by rw [hnext]; exact h.place
      owned := fun n hn ↦ ?_
      shown := ⟨shown, hshown.of_nodes fun n hn ↦ hsame (hshownIds n hn), fun n hn ↦ ?_⟩ }
  · refine (h.owned n ((hfresh n).mp hn)).imp_right ?_
    rintro ⟨parent, hparent, owner, howner, hmem⟩
    exact ⟨parent, (hfresh parent).mpr hparent, owner, (hsame (.inr hparent)).trans howner, hmem⟩
  · exact (hshownIds n hn).imp_right (hfresh n).mpr

/-! ### Rendering -/

variable [Journal σ] {depth : Nat}

/-- A plain node without an id of its own is added under the next number. -/
theorem createPlain_eq (w : World σ) (registry : RegistryId) (tag : String)
    {attributes : Attributes} (hid : attributes.contains "id" = false) (content : List Child) :
    w.createPlain registry tag attributes content =
      (w.nodes.next, w.added (w.freshPlain registry tag attributes content) false) := by
  have hconfig : ((w.modifyRegistry registry Registry.countId).registry registry).config =
      (w.registry registry).config := by
    rw [registry_modifyRegistry]
    split <;> rfl
  have hadded (node : Node) (hkind : node.kind = .plain) :
      (w.added node false).afterCreation w.nodes.next = w.added node false := by
    have hnode : (w.added node false).node? w.nodes.next = some node := by
      rw [node?_added, if_pos rfl]
    rw [afterCreation, hnode]
    dsimp only
    rw [hkind]
  unfold createPlain create
  rw [withId, if_neg (by simp [hid])]
  dsimp only
  rw [hconfig]
  exact congrArg (Prod.mk w.nodes.next) (hadded (w.freshPlain registry tag attributes content) rfl)

theorem onclick_layoutAttributes (node : Node) :
    (layoutAttributes node).get? "onclick" = none := by
  unfold layoutAttributes
  split <;> rfl

/-- Rendering a node succeeds and draws it. -/
def Draws (skip kept : NodeId → Prop) (registries : RegistryId → Prop) (w : World σ) (id : NodeId)
    (outline : Outline) (result : Except Fault (NodeId × World σ)) : Prop :=
  ∃ (form : Nat) (w' : World σ),
    result = .ok (form, w') ∧ Drawn skip kept registries id outline form [] w w'

/-- What rendering nodes of a depth does. -/
def DrawsNodes (σ : Type) [Journal σ] (registries : RegistryId → Prop) (depth : Nat) : Prop :=
  ∀ (skip kept : NodeId → Prop) (w : World σ) (id : NodeId) (outline : Outline),
    w.outlineWithin? depth id = some outline → w.Supports skip kept → (∀ n ∈ outline.ids, kept n) →
    (∀ n self content, .node n self content ∈ outline.parts → registries self.registry) →
    Draws skip kept registries w id outline (renderWithin depth w id)

/-- The layouts in a content that unfolds are replaced by their forms. -/
theorem exists_laidOut (hrender : DrawsNodes σ registries depth)
    (hparts : List.Forall₂
      (fun child part ↦ childOutline? (w.outlineWithin? depth) child = some part) content parts)
    (hsupports : w.Supports skip kept) (hkept : ∀ part ∈ parts, ∀ n ∈ part.ids, kept n)
    (hregistries : ∀ part ∈ parts, ∀ n self content, .node n self content ∈ part.parts →
      registries self.registry) :
    ∃ content' forms w', renderLayouts (renderWithin depth) w content = .ok (content', forms, w') ∧
      LaidOut skip kept (Among parts) registries (Outline.formsAll parts) content' forms w w' := by
  induction content generalizing w kept parts with
  | nil =>
    obtain rfl := List.forall₂_nil_left_iff.mp hparts
    exact ⟨[], [], w, rfl, .refl hsupports .nil (fun _ hpart ↦ absurd hpart List.not_mem_nil)
      fun n ⟨part, hpart, hn⟩ ↦ hkept part hpart n hn⟩
  | cons child content ih =>
    obtain ⟨part, parts, hpart, hrest, rfl⟩ := List.forall₂_cons_left_iff.mp hparts
    have hpartKept := hkept part List.mem_cons_self
    have hunfolds : w.ChildUnfolds child part := childUnfolds_iff.mpr ⟨depth, hpart⟩
    have hlater (kept' : NodeId → Prop) (first : World σ) (hmono : ∀ n, kept n → kept' n)
        (hsame : ∀ n, kept n → first.node? n = w.node? n) (hfirst : first.Supports skip kept') :
        ∃ content' forms w',
          renderLayouts (renderWithin depth) first content = .ok (content', forms, w') ∧
          LaidOut skip kept' (Among parts) registries (Outline.formsAll parts) content' forms first
            w' := by
      refine ih (forall₂_imp_of_mem hrest fun child _ part hpart houtline ↦ ?_) hfirst
        (fun part hpart n hn ↦ hmono n (hkept part (List.mem_cons_of_mem _ hpart) n hn))
        fun part hpart ↦ hregistries part (List.mem_cons_of_mem _ hpart)
      refine childOutline?_mono (fun id _ hdepth ↦ ?_) houtline
      exact outlineWithin?_of_nodes hdepth fun n hn ↦
        hsame n (hkept part (List.mem_cons_of_mem _ hpart) n hn)
    cases hlayout : child.node?.filter fun id ↦ (w.node? id).any fun node ↦ node.kind.isLayout with
    | none =>
      obtain ⟨content', forms, w', hrun, hlaid⟩ :=
        hlater kept w (fun _ ↦ id) (fun _ _ ↦ rfl) hsupports
      refine ⟨child :: content', forms, w', ?_,
        hlaid.cons_other hunfolds (hunfolds.not_isLayout hlayout) hpartKept⟩
      rw [renderLayouts, hlayout, hrun]
      rfl
    | some id =>
      obtain ⟨hid, hany⟩ := Option.filter_eq_some_iff.mp hlayout
      obtain rfl : child = .node id := by cases child <;> simp_all [Child.node?]
      obtain ⟨node, hnode, hkind⟩ := (Option.any_eq_true _ _).mp hany
      obtain ⟨form, first, hform, hdrawn⟩ := hrender skip kept w id part hpart hsupports hpartKept
        (hregistries part List.mem_cons_self)
      obtain ⟨content', forms, w', hrun, hlaid⟩ :=
        hlater _ first (fun _ ↦ .inl) hdrawn.grows.nodes hdrawn.grows.supports
      have hisLayout : part.isLayout = true := by
        obtain ⟨same, inner, hsame, -, rfl⟩ := unfolds_iff.mp hunfolds
        obtain rfl : same = node := Option.some.inj (hsame.symm.trans hnode)
        exact hkind
      refine ⟨.node form :: content', form :: forms, w', ?_,
        .cons_layout hdrawn hlaid hunfolds.mem_ids hisLayout⟩
      rw [renderLayouts, hlayout]
      dsimp only
      rw [hform]
      show (renderLayouts (renderWithin depth) first content >>= _) = _
      rw [hrun]
      rfl

/-- A container is rendered as a fresh element around its content as it was laid out. -/
theorem draws_container (hnode : registries node.registry)
    (hforms : (Outline.node id node.bare parts).forms = Outline.formsAll parts + 1)
    (hrun : renderLayouts (renderWithin depth) w node.content = .ok (content, forms, w'))
    (hlaid :
      LaidOut skip kept (Among parts) registries (Outline.formsAll parts) content forms w w') :
    Draws skip kept registries w id (.node id node.bare parts)
      (renderContainer (renderWithin depth) w node) := by
  have hdrawn : Drawn skip kept registries id (.node id node.bare parts) w'.nodes.next forms w
      (w'.added (w'.freshPlain node.registry "div" (layoutAttributes node) content) false) :=
    hlaid.added (fun _ hn ↦ Outline.mem_inner_iff.mpr hn) hforms hnode "div"
      (onclick_layoutAttributes node)
  have hform : (w'.added (w'.freshPlain node.registry "div" (layoutAttributes node) content)
      false).node? w'.nodes.next =
        some (w'.freshPlain node.registry "div" (layoutAttributes node) content) := by
    rw [node?_added, if_pos rfl]
  refine ⟨w'.nodes.next, _, ?_, hdrawn.releaseAll hform hlaid.forms_mem⟩
  rw [renderContainer, hrun]
  refine congrArg Except.ok ?_
  show ((w'.createPlain node.registry "div" (layoutAttributes node) content).1,
    (w'.createPlain node.registry "div" (layoutAttributes node) content).2.releaseAll forms) = _
  rw [createPlain_eq _ _ _ (contains_id_layoutAttributes node)]

/-- A text is rendered as a fresh element around its content as it is. -/
theorem draws_plain (hsupports : w.Supports skip kept) (hnode : registries node.registry)
    (hforms : (Outline.node id node.bare parts).forms = 1)
    (hkept : ∀ n ∈ (Outline.node id node.bare parts).inner, kept n) (tag : String)
    {content : List Child} {parts' : List Outline}
    (hunfolds : List.Forall₂ w.ChildUnfolds content parts')
    (hparts' : ∀ part ∈ parts', ∀ n ∈ part.ids, n ∈ (Outline.node id node.bare parts).inner) :
    Draws skip kept registries w id (.node id node.bare parts)
      (.ok (w.createPlain node.registry tag ∅ content)) := by
  have hlaid : LaidOut skip kept (· ∈ (Outline.node id node.bare parts).inner) registries 0 content
      [] w w := .refl hsupports hunfolds hparts' hkept
  refine ⟨w.nodes.next, w.added (w.freshPlain node.registry tag ∅ content) false, ?_,
    hlaid.added (fun _ hn ↦ hn) hforms hnode tag rfl⟩
  rw [createPlain_eq _ _ _ rfl]

omit [Journal σ] in
/-- A node that is displayed as itself is held once more. -/
theorem draws_itself {outline : Outline} (hsupports : w.Supports skip kept)
    (hunfolds : w.Unfolds id outline) (hforms : outline.forms = 0)
    (hkept : ∀ n ∈ outline.ids, kept n) :
    Draws skip kept registries w id outline (.ok (id, w.hold (.node id))) := by
  refine ⟨id, w.hold (.node id), rfl, ?_⟩
  exact
    { grows := .hold hsupports id
      held := .refl _
      next := by rw [hforms]; rfl
      place := by rw [if_pos hforms]
      owned := fun n hn ↦ absurd hn.2 (Nat.not_lt.mpr hn.1)
      shown := ⟨outline, hunfolds.changeHeld _, fun n hn ↦ .inl (hkept n hn)⟩ }

/-- Rendering a node that unfolds, down to a depth that its outline needs. -/
theorem drawsNodes (registries : RegistryId → Prop) (depth : Nat) :
    DrawsNodes σ registries depth := by
  induction depth with
  | zero =>
    intro skip kept w id outline hdepth
    cases hdepth
  | succ depth ih =>
    intro skip kept w id outline hdepth hsupports hkept hregistries
    have hunfolds : w.Unfolds id outline := ⟨_, hdepth⟩
    obtain ⟨node, parts, hnode, hparts, rfl⟩ := outlineWithin?_succ_iff.mp hdepth
    have hinner (n : NodeId) (hn : n ∈ (Outline.node id node.bare parts).inner) : kept n :=
      hkept n (Outline.inner_subset_ids hn)
    have hpartsKept (part : Outline) (hpart : part ∈ parts) (n : NodeId) (hn : n ∈ part.ids) :
        n ∈ (Outline.node id node.bare parts).inner :=
      Outline.mem_inner_iff.mpr ⟨part, hpart, hn⟩
    have hregistry : registries node.registry :=
      hregistries id node.bare parts List.mem_cons_self
    obtain ⟨content, forms, w', hrun, hlaid⟩ := exists_laidOut ih hparts hsupports
      (fun part hpart n hn ↦ hinner n (hpartsKept part hpart n hn))
      fun part hpart n self content hin ↦ hregistries n self content
        (Outline.mem_parts_iff.mpr (.inr (Outline.mem_inside_iff.mpr ⟨part, hpart, hin⟩)))
    have hchildren : List.Forall₂ w.ChildUnfolds node.content parts :=
      hparts.imp fun _ _ hpart ↦ childUnfolds_iff.mpr ⟨depth, hpart⟩
    have hgreeting : List.Forall₂ w.ChildUnfolds (greetingContent node)
        (.leaf (.text _) :: parts) := .cons rfl hchildren
    rw [renderWithin, hnode]
    dsimp only
    cases hkind : node.kind with
    | layout | flexLayout | boxed =>
      exact draws_container hregistry (by simp [Outline.forms, Node.bare, hkind]) hrun hlaid
    | text =>
      exact draws_plain hsupports hregistry (by simp [Outline.forms, Node.bare, hkind]) hinner "p"
        hchildren hpartsKept
    | greeting =>
      refine draws_plain hsupports hregistry (by simp [Outline.forms, Node.bare, hkind]) hinner "h1"
        hgreeting fun part hpart n hn ↦ ?_
      rcases List.mem_cons.mp hpart with rfl | hpart
      · cases hn
      · exact hpartsKept part hpart n hn
    | plain | badge | tracked | panel =>
      exact draws_itself hsupports hunfolds (by simp [Outline.forms, Node.bare, hkind]) hkept

/-- Rendering a node that unfolds succeeds and does nothing but adding its forms. -/
theorem exists_drawn {id : NodeId} {outline : Outline} (hunfolds : w.Unfolds id outline)
    (hsupports : w.Supports skip kept) (hkept : ∀ n ∈ outline.ids, kept n)
    (hregistries : ∀ n self content, .node n self content ∈ outline.parts →
      registries self.registry) :
    Draws skip kept registries w id outline (w.render id) :=
  drawsNodes registries w.depthLimit skip kept w id outline hunfolds.outlineWithin? hsupports hkept
    hregistries

end LiveMarkup.World
