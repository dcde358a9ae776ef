import LiveMarkup.Proofs.Content.Appearance
import LiveMarkup.Proofs.World.Rendering

/-!
The forms that nodes are displayed as. A node that unfolds and can be presented has a form
(`World.exists_renderWithin`), which unfolds too, shows the same observables, and shows below
its root no id but those that the node shows and ids that are new (`World.FormOf`).
-/

set_option autoImplicit false
set_option relaxedAutoImplicit false

namespace LiveMarkup.World

variable {σ : Type} {w w' : World σ} {skip : NodeId → Prop}

/-! ### Outlines of kept nodes -/

/-- A node that a container can display: safe, its id a text, the presentation of a container
without quotes, as ids that its registry generates. -/
structure Presents (w : World σ) (node : Node) : Prop where
  safe : node.Safe
  textId : node.HasTextId
  container : node.kind = .layout ∨ node.kind = .flexLayout →
    (∀ name ∈ node.classes, NoQuote name) ∧ NoQuote node.style
  stem : NoQuote (w.registry node.registry).config.idStem

/-- All nodes of an outline can be displayed. -/
def Ready (w : World σ) (outline : Outline) : Prop :=
  ∀ id self content, .node id self content ∈ outline.parts → w.Presents self

theorem Ready.safe {outline : Outline} (h : w.Ready outline) : outline.Safe :=
  fun id self content hpart ↦ (h id self content hpart).safe

theorem Ready.of_mem_content {id : NodeId} {self : Node} {content : List Outline}
    (h : w.Ready (.node id self content)) {part : Outline} (hpart : part ∈ content) :
    w.Ready part :=
  fun id' self' content' hin ↦ h id' self' content'
    (Outline.mem_parts_iff.mpr (.inr (Outline.mem_inside_iff.mpr ⟨part, hpart, hin⟩)))

/-- Only the configurations of registries matter. -/
theorem Presents.congr
    (hconfig : ∀ registry, (w'.registry registry).config = (w.registry registry).config)
    {node : Node} (h : w.Presents node) : w'.Presents node where
  safe := h.safe
  textId := h.textId
  container := h.container
  stem := by
    rw [hconfig node.registry]
    exact h.stem

theorem Ready.congr
    (hconfig : ∀ registry, (w'.registry registry).config = (w.registry registry).config)
    {outline : Outline} (h : w.Ready outline) : w'.Ready outline :=
  fun id self content hpart ↦ (h id self content hpart).congr hconfig

theorem Carries.ready_iff (h : w.Carries skip w') {outline : Outline} :
    w'.Ready outline ↔ w.Ready outline :=
  ⟨.congr fun registry ↦ (h.config registry).symm, .congr h.config⟩

/-- What stands below a kept node is kept. -/
theorem Kept.of_reaches {root id : NodeId} (hroot : w.Kept skip root) (hlive : w.Live root)
    (hid : w.Reaches root id) : w.Kept skip id := by
  induction hid with
  | refl => exact hroot
  | tail hparent hstep ih =>
    obtain ⟨owner, howner, hmem⟩ := hstep
    obtain ⟨node, hnode⟩ := hlive _ (hparent.tail ⟨owner, howner, hmem⟩)
    exact .content ih howner hmem hnode

theorem Unfolds.kept {root : NodeId} {outline : Outline} (h : w.Unfolds root outline)
    (hroot : w.Kept skip root) {id : NodeId} {self : Node} {content : List Outline}
    (hpart : .node id self content ∈ outline.parts) : w.Kept skip id := by
  obtain ⟨below, hbelow, hunfolds⟩ := h.exists_reaches _ hpart
  obtain ⟨node, _, _, _, heq⟩ := unfolds_iff.mp hunfolds
  obtain ⟨rfl, -, -⟩ := Outline.node.inj heq
  exact hroot.of_reaches h.live hbelow

/-- Kept nodes unfold to what they did. -/
theorem Carries.outlineWithin? (h : w.Carries skip w') {depth : Nat} {root : NodeId}
    {outline : Outline} (hdepth : w.outlineWithin? depth root = some outline)
    (hroot : w.Kept skip root) (hready : w.Ready outline) :
    w'.outlineWithin? depth root = some outline := by
  have hunfolds : w.Unfolds root outline := ⟨depth, hdepth⟩
  refine outlineWithin?_congr hdepth fun id self content hpart ↦ ?_
  obtain ⟨node, hnode, rfl⟩ := Option.map_eq_some_iff.mp (hunfolds.bare_of_mem hpart)
  obtain ⟨node', hnode', hkin, _⟩ := h.nodes id node (hunfolds.kept hroot hpart) hnode
  rw [hnode', Option.map_some, hkin.bare (hready id _ content hpart).textId]

theorem Carries.unfolds (h : w.Carries skip w') {root : NodeId} {outline : Outline}
    (hunfolds : w.Unfolds root outline) (hroot : w.Kept skip root) (hready : w.Ready outline) :
    w'.Unfolds root outline := by
  obtain ⟨depth, hdepth⟩ := hunfolds
  exact ⟨depth, h.outlineWithin? hdepth hroot hready⟩

theorem Unfolds.sweep {root : NodeId} {outline : Outline} (h : w.Unfolds root outline)
    (hroot : w.Kept skip root) : w.sweep.Unfolds root outline :=
  h.congr fun _ _ _ hpart ↦ by rw [node?_sweep (h.kept hroot hpart), h.bare_of_mem hpart]

/-! ### Forms -/

/-- An outline prints an id at its root. -/
def PrintsId (outline : Outline) (id : String) : Prop := ("id", id) ∈ outline.printed

/-- What the outline of a form has to do with the outline of the node that it displays: it can be
displayed, it holds no other observables, and its ids are those below the node or new. -/
structure FormOf (w : World σ) (outline form : Outline) : Prop where
  ready : w.Ready form
  holds : ∀ observable, form.Holds observable → outline.Holds observable
  inside : ∀ part ∈ form.inside, ∀ id, PrintsId part id →
    (∃ part' ∈ outline.inside, PrintsId part' id) ∨ w.WillGenerate id
  root : form = outline ∨ outline.IsWrapped ∧ ∀ id, PrintsId form id → w.WillGenerate id

theorem FormOf.refl {outline : Outline} (h : w.Ready outline) : w.FormOf outline outline where
  ready := h
  holds := fun _ ↦ id
  inside := fun part hpart _ hid ↦ .inl ⟨part, hpart, hid⟩
  root := .inl rfl

/-- Content laid out in a later world: each part in a form of its own. -/
structure LaysOut (skip : NodeId → Prop) (w laid : World σ) (content content' : List Child)
    (parts parts' : List Outline) : Prop where
  unfolds : List.Forall₂ laid.ChildUnfolds content' parts'
  forms : List.Forall₂ w.FormOf parts parts'
  entries : ∀ child ∈ content', child.node? = none → child ∈ content
  kept : ∀ id, .node id ∈ content' → laid.Kept skip id

theorem LaysOut.refl {content : List Child} {parts : List Outline}
    (hunfolds : List.Forall₂ w.ChildUnfolds content parts) (hready : ∀ part ∈ parts, w.Ready part)
    (hkept : ∀ id, .node id ∈ content → w.Kept skip id) :
    LaysOut skip w w content content parts parts where
  unfolds := hunfolds
  forms := List.forall₂_same.mpr fun part hpart ↦ .refl (hready part hpart)
  entries := fun _ hchild _ ↦ hchild
  kept := hkept

theorem noQuote_toString (n : Nat) : NoQuote (toString n) := by
  intro c hc heq
  have hdigit : c.isDigit = true := by
    refine Nat.isDigit_of_mem_toDigits (b := 10) (n := n) (by decide) (by decide) ?_
    rw [← Nat.toList_repr]
    exact hc
  rw [heq] at hdigit
  exact absurd hdigit (by decide)

/-- A fresh node around laid out content is a form of the node that had the content. -/
theorem LaysOut.formOf {laid : World σ} {owner : Node} {content : List Child}
    {parts parts' : List Outline} (h : LaysOut skip w laid owner.content content parts parts')
    (hcarries : w.Carries skip laid) {id : NodeId} (hready : w.Ready (.node id owner.bare parts))
    (hwrapped : (Outline.node id owner.bare parts).IsWrapped) {tag : String}
    (htag : SafeTag tag.toList) {attributes : Attributes}
    (hattributes : ∀ pair ∈ attributes.printed, SafeAttribute pair) (form : NodeId) :
    w.FormOf (.node id owner.bare parts)
      (.node form (laid.freshPlain owner.registry tag attributes content).bare parts') := by
  have howner := hready id owner.bare parts List.mem_cons_self
  have hgenerates : w.WillGenerate (laid.registry owner.registry).nextId :=
    hcarries.willGenerate ⟨owner.registry, _, Nat.le_refl _, rfl⟩
  have hnextId : NoQuote (laid.registry owner.registry).nextId := by
    refine NoQuote.append ?_ (noQuote_toString _)
    rw [hcarries.config]
    exact howner.stem
  have hget : (laid.freshPlain owner.registry tag attributes content).attributes.get? "id" =
      some (.text (laid.registry owner.registry).nextId) := by
    show OrderedMap.get? (OrderedMap.insert attributes "id" _) "id" = _
    rw [OrderedMap.get?_insert, if_pos rfl]
  constructor
  · intro id' self content' hpart
    rcases Outline.mem_parts_iff.mp hpart with heq | hinside
    · obtain ⟨-, rfl, -⟩ := Outline.node.inj heq
      refine ⟨⟨htag, safeAttribute_insert_id hattributes hnextId, fun s hs ↦ ?_⟩, ⟨_, hget⟩, ?_,
        howner.stem⟩
      · exact howner.safe.texts s (h.entries _ hs rfl)
      · rintro (hkind | hkind) <;> cases hkind
    · obtain ⟨part', hpart', hin⟩ := Outline.mem_inside_iff.mp hinside
      obtain ⟨part, _, hform⟩ := exists_mem_of_forall₂ h.forms.flip hpart'
      exact hform.ready id' self content' hin
  · rintro observable ⟨id', self, content', hpart, hstate⟩
    rcases Outline.mem_parts_iff.mp hpart with heq | hinside
    · obtain ⟨-, rfl, -⟩ := Outline.node.inj heq
      exact ⟨id, owner.bare, parts, List.mem_cons_self, h.entries _ hstate rfl⟩
    · obtain ⟨part', hpart', hin⟩ := Outline.mem_inside_iff.mp hinside
      obtain ⟨part, hmem, hform⟩ := exists_mem_of_forall₂ h.forms.flip hpart'
      exact (hform.holds observable ⟨id', self, content', hin, hstate⟩).of_mem_content hmem
  · intro inner hinner printed hprinted
    obtain ⟨part', hpart', hin⟩ := Outline.mem_inside_iff.mp hinner
    obtain ⟨part, hmem, hform⟩ := exists_mem_of_forall₂ h.forms.flip hpart'
    rcases Outline.eq_or_mem_inside hin with rfl | hdeeper
    · rcases hform.root with rfl | hnew
      · exact .inl ⟨inner, Outline.mem_inside_iff.mpr ⟨inner, hmem, hin⟩, hprinted⟩
      · exact .inr (hnew.2 printed hprinted)
    · refine (hform.inside inner hdeeper printed hprinted).imp_left ?_
      rintro ⟨below, hbelow, hshown⟩
      refine ⟨below, Outline.mem_inside_iff.mpr ⟨part, hmem, ?_⟩, hshown⟩
      exact part.inside_subset_parts hbelow
  · refine .inr ⟨hwrapped, fun printed hprinted ↦ ?_⟩
    rw [(Attributes.mem_printed_id_iff hget).mp hprinted]
    exact hgenerates

theorem Carries.formOf (h : w.Carries skip w') {outline form : Outline}
    (hform : w'.FormOf outline form) : w.FormOf outline form where
  ready := h.ready_iff.mp hform.ready
  holds := hform.holds
  inside := fun part hpart id hid ↦ (hform.inside part hpart id hid).imp_right h.willGenerate
  root := hform.root.imp_right (And.imp_right fun hnew id hid ↦ h.willGenerate (hnew id hid))

theorem Carries.childUnfolds (h : w.Carries skip w') {child : Child} {part : Outline}
    (hunfolds : w.ChildUnfolds child part) (hkept : ∀ id, child = .node id → w.Kept skip id)
    (hready : w.Ready part) : w'.ChildUnfolds child part := by
  cases child with
  | node id => exact h.unfolds hunfolds (hkept id rfl) hready
  | state => exact hunfolds
  | text => exact hunfolds
  | number => exact hunfolds

/-- A layout in front of laid out content is replaced by its form. -/
theorem LaysOut.cons {first laid : World σ} {content content' : List Child}
    {parts parts' : List Outline} (hcarries : w.Carries skip first)
    (h : LaysOut skip first laid content content' parts parts') {child child' : Child}
    {part part' : Outline} (hunfolds : laid.ChildUnfolds child' part')
    (hform : w.FormOf part part') (hentry : child'.node? = none → child' = child)
    (hkept : ∀ id, child' = .node id → laid.Kept skip id) :
    LaysOut skip w laid (child :: content) (child' :: content') (part :: parts)
      (part' :: parts') where
  unfolds := .cons hunfolds h.unfolds
  forms := .cons hform (h.forms.imp fun _ _ ↦ hcarries.formOf)
  entries := fun entry hentries hnone ↦ by
    rcases List.mem_cons.mp hentries with rfl | hlater
    · rw [hentry hnone]
      exact List.mem_cons_self
    · exact List.mem_cons_of_mem child (h.entries entry hlater hnone)
  kept := fun id hid ↦ by
    rcases List.mem_cons.mp hid with heq | hlater
    · exact hkept id heq.symm
    · exact h.kept id hlater

/-- A fresh node around laid out content unfolds to what was laid out. -/
theorem LaysOut.unfolds_created {laid created : World σ} {owner : Node} {content : List Child}
    {parts parts' : List Outline} (h : LaysOut skip w laid owner.content content parts parts')
    (hcarries : w.Carries skip laid) (hcarries' : laid.Carries skip created) {form : NodeId}
    {tag : String} {attributes : Attributes}
    (hnode : created.node? form =
      some (laid.freshPlain owner.registry tag attributes content)) :
    created.Unfolds form
      (.node form (laid.freshPlain owner.registry tag attributes content).bare parts') := by
  refine unfolds_iff.mpr ⟨_, parts', hnode, ?_, rfl⟩
  refine forall₂_imp_of_mem h.unfolds fun child hchild part' hpart' hunfolds ↦ ?_
  obtain ⟨part, _, hform⟩ := exists_mem_of_forall₂ h.forms.flip hpart'
  exact hcarries'.childUnfolds hunfolds (fun id hid ↦ h.kept id (hid ▸ hchild))
    (hcarries.ready_iff.mpr hform.ready)

theorem Unfolds.changeHeld {root : NodeId} {outline : Outline} (h : w.Unfolds root outline)
    (held : List Root) : World.Unfolds { w with held := held } root outline :=
  h.congr fun _ _ _ hpart ↦ h.bare_of_mem hpart

variable [Journal σ]

/-- A node is rendered: the result is a form that looks like it. -/
def GivesForm (w : World σ) (outline : Outline) (result : Except Fault (NodeId × World σ)) : Prop :=
  ∃ form w' formOutline, result = .ok (form, w') ∧ w'.Unfolds form formOutline ∧
    w.FormOf outline formOutline ∧ ∀ display, Looks display outline (formOutline.tree display)

/-- A content is laid out, and looks like it. -/
def GivesLayout (w : World σ) (skip : NodeId → Prop) (content : List Child) (parts : List Outline)
    (result : Except Fault (List Child × List NodeId × World σ)) : Prop :=
  ∃ content' forms w' parts', result = .ok (content', forms, w') ∧
    LaysOut skip w w' content content' parts parts' ∧
      ∀ display, List.Forall₂ (Looks display) parts (Outline.trees display parts')

/-- What rendering nodes of a depth gives: each has a form. -/
def RendersForms (σ : Type) [Journal σ] (skip : NodeId → Prop) (depth : Nat) : Prop :=
  ∀ (w : World σ) (id : NodeId) (outline : Outline) (node : Node),
    w.outlineWithin? depth id = some outline → w.Kept skip id → w.Ready outline →
    w.node? id = some node → node.kind ≠ .greeting → node.kind ≠ .boxed →
    w.GivesForm outline (renderWithin depth w id)

/-! ### The content of containers -/

section Content

variable {depth : Nat} {content : List Child} {part : Outline} {parts : List Outline}

/-- A layout in front of a content is replaced by its form. -/
theorem givesLayout_cons_layout (hrender : RendersForms σ skip depth) {id : NodeId} {node : Node}
    (hnode : w.node? id = some node) (hkind : node.kind.isLayout = true)
    (hpart : w.outlineWithin? depth id = some part) (hkept : w.Kept skip id) (hready : w.Ready part)
    (hlater : ∀ {first : World σ}, w.Carries skip first →
      first.GivesLayout skip content parts (renderLayouts (renderWithin depth) first content)) :
    w.GivesLayout skip (.node id :: content) (part :: parts)
      (renderLayouts (renderWithin depth) w (.node id :: content)) := by
  have hlayout : ((Child.node id).node?.filter fun id ↦
      (w.node? id).any fun node ↦ node.kind.isLayout) = some id := by
    simp [Child.node?, hnode, hkind]
  obtain ⟨form, first, formOutline, hform, hunfolds, hformOf, hlooks⟩ :=
    hrender w id part node hpart hkept hready hnode
      (by rintro h; simp [h, Kind.isLayout] at hkind)
      (by rintro h; simp [h, Kind.isLayout] at hkind)
  obtain ⟨hcarries, hheld, _, _⟩ :=
    renderWithin_renders depth w id form first ⟨node, hnode⟩ hform
  obtain ⟨content', forms, w', parts', hrun, hlays, hlooksLater⟩ := hlater hcarries
  obtain ⟨hcarries', _⟩ := renderLayouts_renders (renderWithin_renders depth) hrun
  refine ⟨.node form :: content', form :: forms, w', formOutline :: parts', ?_, ?_,
    fun display ↦ .cons (hlooks display) (hlooksLater display)⟩
  · rw [renderLayouts, hlayout]
    dsimp only
    rw [hform]
    show (renderLayouts (renderWithin depth) first content >>= _) = _
    rw [hrun]
    rfl
  · have hformKept : first.Kept skip form := by
      obtain ⟨formNode, _, hformNode, _⟩ := unfolds_iff.mp hunfolds
      exact .held (hheld.mem_iff.mpr List.mem_cons_self) hformNode
    have hlast : w'.Unfolds form formOutline :=
      hcarries'.unfolds hunfolds hformKept (hcarries.ready_iff.mpr hformOf.ready)
    refine hlays.cons hcarries hlast hformOf (fun hnone ↦ by cases hnone) fun id hid ↦ ?_
    obtain rfl := Child.node.inj hid
    exact hcarries'.kept hformKept

omit [Journal σ] in
/-- What is no layout is displayed as it is. -/
theorem not_isWrapped_of_filter {child : Child}
    (hlayout : (child.node?.filter fun id ↦ (w.node? id).any fun node ↦ node.kind.isLayout) = none)
    (hunfolds : w.ChildUnfolds child part) : ¬part.IsWrapped := by
  cases child with
  | node id =>
    obtain ⟨node, _, hnode, _, rfl⟩ := unfolds_iff.mp hunfolds
    intro hwrapped
    have hkind : node.kind.isLayout = true := by
      rcases hwrapped with hkind | hkind | hkind <;> rw [show node.kind = _ from hkind] <;> rfl
    simp [Child.node?, hnode, hkind] at hlayout
  | state => obtain rfl := hunfolds; exact not_false
  | text => obtain rfl := hunfolds; exact not_false
  | number => obtain rfl := hunfolds; exact not_false

/-- What is no layout stays as it is in front of a content. -/
theorem givesLayout_cons_other {child : Child}
    (hlayout : (child.node?.filter fun id ↦ (w.node? id).any fun node ↦ node.kind.isLayout) = none)
    (hunfolds : w.ChildUnfolds child part) (hkept : ∀ id, child = .node id → w.Kept skip id)
    (hready : w.Ready part)
    (hlater : w.GivesLayout skip content parts (renderLayouts (renderWithin depth) w content)) :
    w.GivesLayout skip (child :: content) (part :: parts)
      (renderLayouts (renderWithin depth) w (child :: content)) := by
  obtain ⟨content', forms, w', parts', hrun, hlays, hlooksLater⟩ := hlater
  obtain ⟨hcarries, _⟩ := renderLayouts_renders (renderWithin_renders depth) hrun
  refine ⟨child :: content', forms, w', part :: parts', ?_, ?_,
    fun display ↦ .cons (.same (not_isWrapped_of_filter hlayout hunfolds)) (hlooksLater display)⟩
  · rw [renderLayouts, hlayout, hrun]
    rfl
  · exact hlays.cons (.refl skip w) (hcarries.childUnfolds hunfolds hkept hready) (.refl hready)
      (fun _ ↦ rfl) fun id hid ↦ hcarries.kept (hkept id hid)

/-- The layouts in a content are replaced by their forms. -/
theorem exists_renderLayouts (hrender : RendersForms σ skip depth)
    (hparts : List.Forall₂
      (fun child part ↦ childOutline? (w.outlineWithin? depth) child = some part)
      content parts)
    (hkept : ∀ id, .node id ∈ content → w.Kept skip id) (hready : ∀ part ∈ parts, w.Ready part) :
    w.GivesLayout skip content parts (renderLayouts (renderWithin depth) w content) := by
  induction content generalizing w parts with
  | nil =>
    obtain rfl := List.forall₂_nil_left_iff.mp hparts
    exact ⟨[], [], w, [], rfl, ⟨.nil, .nil, by simp, by simp⟩, fun _ ↦ .nil⟩
  | cons child content ih =>
    obtain ⟨part, parts, hpart, hrest, rfl⟩ := List.forall₂_cons_left_iff.mp hparts
    have hlater {first : World σ} (hcarries : w.Carries skip first) :
        first.GivesLayout skip content parts
          (renderLayouts (renderWithin depth) first content) := by
      refine ih (forall₂_imp_of_mem hrest fun child hchild part hpart houtline ↦ ?_)
        (fun id hid ↦ hcarries.kept (hkept id (List.mem_cons_of_mem child hid)))
        fun part hpart ↦ hcarries.ready_iff.mpr (hready part (List.mem_cons_of_mem _ hpart))
      refine childOutline?_mono (fun id hid hdepth ↦ ?_) houtline
      exact hcarries.outlineWithin? hdepth (hkept id (List.mem_cons_of_mem _ (hid ▸ hchild)))
        (hready part (List.mem_cons_of_mem _ hpart))
    have hfirst : w.Ready part := hready part List.mem_cons_self
    cases hlayout : child.node?.filter fun id ↦ (w.node? id).any fun node ↦ node.kind.isLayout with
    | some id =>
      obtain ⟨hid, hany⟩ := Option.filter_eq_some_iff.mp hlayout
      obtain rfl : child = .node id := by cases child <;> simp_all [Child.node?]
      obtain ⟨node, hnode, hkind⟩ := (Option.any_eq_true _ _).mp hany
      exact givesLayout_cons_layout hrender hnode hkind hpart (hkept id List.mem_cons_self) hfirst
        hlater
    | none =>
      have hchildKept (id : NodeId) (hid : child = .node id) : w.Kept skip id :=
        hkept id (by rw [hid]; exact List.mem_cons_self)
      exact givesLayout_cons_other hlayout (childUnfolds_iff.mpr ⟨depth, hpart⟩) hchildKept hfirst
        (hlater (.refl skip w))

end Content

/-! ### The form of each kind -/

section Kinds

variable {id : NodeId} {node : Node} {parts : List Outline}

omit [Journal σ] in
theorem givesForm_itself {outline : Outline} (hunfolds : w.Unfolds id outline)
    (hready : w.Ready outline) (hwrapped : ¬outline.IsWrapped) :
    w.GivesForm outline (.ok (id, w.hold (.node id))) :=
  ⟨id, _, _, rfl, hunfolds.changeHeld _, .refl hready, fun _ ↦ .same hwrapped⟩

/-- A container is displayed as a fresh element around its content as it was laid out. -/
theorem givesForm_container {depth : Nat} (hready : w.Ready (.node id node.bare parts))
    (hkind : node.kind = .layout ∨ node.kind = .flexLayout)
    (hlayout : w.GivesLayout skip node.content parts
      (renderLayouts (renderWithin depth) w node.content)) :
    w.GivesForm (.node id node.bare parts) (renderContainer (renderWithin depth) w node) := by
  obtain ⟨hclasses, hstyle⟩ := (hready id node.bare parts List.mem_cons_self).container hkind
  obtain ⟨content, forms, laid, parts', hrun, hlays, hlooks⟩ := hlayout
  obtain ⟨hcarries, hheld, _⟩ := renderLayouts_renders (renderWithin_renders depth) hrun
  obtain ⟨created, hcreate, hcreated, hfresh⟩ := laid.createPlain_renders node.registry "div"
    (contains_id_layoutAttributes node) content
  have htag : SafeTag "div".toList := by decide +kernel
  have hwrapped : (Outline.node id node.bare parts).IsWrapped := hkind.imp_right .inl
  refine ⟨laid.nodes.next, created.releaseAll forms, _, ?_, ?_,
    hlays.formOf hcarries hready hwrapped htag (safeAttribute_layoutAttributes hclasses hstyle)
      laid.nodes.next, fun display ↦ .container hkind ?_ (hlooks display)⟩
  · rw [renderContainer, hrun]
    refine congrArg Except.ok ?_
    show ((laid.createPlain node.registry "div" (layoutAttributes node) content).1,
      (laid.createPlain node.registry "div" (layoutAttributes node) content).2.releaseAll forms) = _
    rw [hcreate]
  · have hwhole := hlays.unfolds_created hcarries (hcreated skip id).carries hfresh
    have hheld' := foldl_erase_perm_of_cons (hcreated skip id).held hheld
    have hformKept : World.Kept { created with held := forms.foldl _ created.held } skip
        laid.nodes.next := .held (hheld'.mem_iff.mpr List.mem_cons_self) hfresh
    exact (hwhole.changeHeld _).sweep hformKept
  · exact (Attributes.besidesId_printed_insert_id _ _).trans
      (Attributes.besidesId_printed_of_contains (contains_id_layoutAttributes node))

/-- A text is displayed as a fresh paragraph around its content as it is. -/
theorem givesForm_paragraph (hready : w.Ready (.node id node.bare parts))
    (hkind : node.kind = .text) (hlays : LaysOut skip w w node.content node.content parts parts) :
    w.GivesForm (.node id node.bare parts)
      (.ok (w.createPlain node.registry "p" ∅ node.content)) := by
  have hid : (∅ : Attributes).contains "id" = false := rfl
  obtain ⟨created, hcreate, hcreated, hfresh⟩ :=
    w.createPlain_renders node.registry "p" hid node.content
  have htag : SafeTag "p".toList := by decide +kernel
  have hprinted : (∅ : Attributes).printed = [] := rfl
  refine ⟨w.nodes.next, created, _, by rw [hcreate],
    hlays.unfolds_created (.refl skip w) (hcreated skip id).carries hfresh,
    hlays.formOf (.refl skip w) hready (.inr (.inr hkind)) htag ?_ w.nodes.next,
    fun display ↦ .paragraph hkind (Attributes.besidesId_printed_insert_id ∅ _)⟩
  intro pair hpair
  rw [hprinted] at hpair
  cases hpair

end Kinds

/-- A kept node that unfolds and can be displayed has a form. -/
theorem exists_renderWithin (depth : Nat) : RendersForms σ skip depth := by
  induction depth with
  | zero =>
    intro w id outline node h
    cases h
  | succ depth ih =>
    intro w id outline node hdepth hkept hready hnode hgreeting hboxed
    have hunfolds : w.Unfolds id outline := ⟨_, hdepth⟩
    obtain ⟨same, parts, hsame, hparts, rfl⟩ := outlineWithin?_succ_iff.mp hdepth
    obtain rfl : same = node := Option.some.inj (hsame.symm.trans hnode)
    have hpartsReady (part : Outline) (hpart : part ∈ parts) : w.Ready part :=
      hready.of_mem_content hpart
    have hcontentKept (child : NodeId) (hchild : .node child ∈ same.content) :
        w.Kept skip child := by
      obtain ⟨below, hbelow⟩ := hunfolds.live child (.single ⟨same, hnode, hchild⟩)
      exact .content hkept hnode hchild hbelow
    have hcontent := exists_renderLayouts ih hparts hcontentKept hpartsReady
    have hlays : LaysOut skip w w same.content same.content parts parts :=
      .refl (hparts.imp fun _ _ hpart ↦ childUnfolds_iff.mpr ⟨depth, hpart⟩) hpartsReady
        hcontentKept
    rw [renderWithin, hnode]
    dsimp only
    cases hkind : same.kind with
    | layout => exact givesForm_container hready (.inl hkind) hcontent
    | flexLayout => exact givesForm_container hready (.inr hkind) hcontent
    | text => exact givesForm_paragraph hready hkind hlays
    | greeting => exact absurd hkind hgreeting
    | boxed => exact absurd hkind hboxed
    | plain | badge | tracked | panel =>
      exact givesForm_itself hunfolds hready (by simp [Outline.IsWrapped, Node.bare, hkind])

end LiveMarkup.World
