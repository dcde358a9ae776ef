import LiveMarkup.Proofs.Identity.Drawing

/-!
What the library does to nodes, in single things. Nodes are created and changed, what nothing keeps
alive is dropped, and the rest leaves the nodes and the lists of registries alone. A relation that
each of these keeps up (`World.Routine`, `World.Reporting`) holds between the worlds before and
after a node is rendered, however deep layouts nest, written, mounted and refreshed; many are kept
up by whatever changes a node (`World.Conduct`).
-/

set_option autoImplicit false
set_option relaxedAutoImplicit false

namespace LiveMarkup

namespace Table

variable {α : Type} {t t' t'' : Table α}

/-- Of the numbers that were handed out, none names a row that it did not name before. -/
structure Ages (t t' : Table α) : Prop where
  next : t.next ≤ t'.next
  contains : ∀ i < t.next, t'.contains i = true → t.contains i = true

theorem Ages.refl (t : Table α) : t.Ages t := ⟨Nat.le_refl _, fun _ _ h ↦ h⟩

theorem Ages.trans (h : t.Ages t') (h' : t'.Ages t'') : t.Ages t'' := by
  refine ⟨Nat.le_trans h.next h'.next, fun i hi hlast ↦ h.contains i hi ?_⟩
  exact h'.contains i (Nat.lt_of_lt_of_le hi h.next) hlast

theorem ages_push (t : Table α) (a : α) : t.Ages (t.push a) := by
  refine ⟨Nat.le_succ _, fun i hi hpushed ↦ ?_⟩
  rw [contains_iff, ids_push, List.mem_append, List.mem_singleton] at hpushed
  rcases hpushed with hold | rfl
  · exact (contains_iff t i).mpr hold
  · exact absurd hi (Nat.lt_irrefl _)

theorem ages_modify (t : Table α) (i : Nat) (f : α → α) : t.Ages (t.modify i f) :=
  ⟨Nat.le_refl _, fun j _ h ↦ by rwa [contains_modify] at h⟩

theorem ages_filter (t : Table α) (p : Nat → α → Bool) : t.Ages (t.filter p) := by
  refine ⟨Nat.le_refl _, fun i _ hkept ↦ ?_⟩
  rw [contains_iff] at hkept ⊢
  exact (ids_filter_sublist t p).subset hkept

end Table

namespace World

variable {σ : Type}

/-- The registries that there were are still there, and list the same nodes. -/
def ListsAlike (w w' : World σ) : Prop :=
  ∀ r, w.registries.contains r = true →
    w'.registries.contains r = true ∧ (w'.registry r).entries = (w.registry r).entries ∧
      (w'.registry r).created = (w.registry r).created

theorem listsAlike_of_eq {w w' : World σ} (h : w'.registries = w.registries) : w.ListsAlike w' := by
  intro r hr
  rw [World.registry, World.registry, h]
  exact ⟨hr, rfl, rfl⟩

/-- A relation that holds between the worlds before and after each single thing that the library
does to nodes. -/
structure Routine (R : World σ → World σ → Prop) : Prop where
  refl : ∀ w, R w w
  trans : ∀ {w w' w''}, R w w' → R w' w'' → R w w''
  /-- A node with the style that its attributes resolve to is listed in its registry, under the next
  number. -/
  added : ∀ w {node : Node} named, node.IsResolved → R w (w.added node named)
  /-- Classes, content, state, parent or mounting of a node change. -/
  retouch : ∀ w id (f : Node → Node), (∀ node : Node, node.ResolvedAlike (f node)) →
    R w (w.modifyNode id f)
  /-- A node takes its own id again, or a plain one takes another. -/
  takeId : ∀ w form id, (∀ node, w.node? form = some node → node.kind = .plain ∨ node.id = id) →
    R w (w.takeId form id)
  sweep : ∀ w, R w w.sweep
  /-- Ids are generated, registries and recorders are added, and observables, hosts, applications
  and references change. -/
  outside : ∀ {w w'}, w'.nodes = w.nodes → w.recorders.Ages w'.recorders → w.ListsAlike w' →
    w'.client = w.client → R w w'

/-- Such a relation that holds before and after something is reported to the client, too. -/
structure Reporting [Journal σ] (R : World σ → World σ → Prop) : Prop extends Routine R where
  note : ∀ w note, R w (w.note note)

/-- A relation that holds between the worlds before and after each single thing that can be done to
nodes, however a node is changed. -/
structure Conduct (R : World σ → World σ → Prop) : Prop where
  refl : ∀ w, R w w
  trans : ∀ {w w' w''}, R w w' → R w' w'' → R w w''
  /-- A node is listed in its registry, under the next number. -/
  added : ∀ w node named, R w (w.added node named)
  modifyNode : ∀ w id f, R w (w.modifyNode id f)
  sweep : ∀ w, R w w.sweep
  /-- Ids are generated, registries and recorders are added, and observables, hosts, applications,
  references and the state of the client change. -/
  outside : ∀ {w w'}, w'.nodes = w.nodes → w.recorders.Ages w'.recorders → w.ListsAlike w' → R w w'

section

variable {R : World σ → World σ → Prop} (h : Conduct R)

include h

theorem Conduct.routine : Routine R where
  refl := h.refl
  trans := h.trans
  added w _ named _ := h.added w _ named
  retouch w id f _ := h.modifyNode w id f
  takeId w form _ _ := h.modifyNode w form _
  sweep := h.sweep
  outside hnodes hrecorders hregistries _ := h.outside hnodes hrecorders hregistries

theorem Conduct.reporting [Journal σ] : Reporting R where
  toRoutine := h.routine
  note w _ := h.outside rfl (.refl w.recorders) (listsAlike_of_eq rfl)

end

/-! ### Forms -/

section Forms

variable [Journal σ] {w w' : World σ} {id form : NodeId}

theorem kind_createPlain {registry : RegistryId} {tag : String} {attributes : Attributes}
    {content : List Child} (hrun : w.createPlain registry tag attributes content = (form, w'))
    {shown : Node} (hshown : w'.node? form = some shown) : shown.kind = .plain := by
  obtain ⟨node, hkind, -, -, -, -, -, -, hcreate⟩ :=
    w.exists_create registry .plain tag attributes content
  rw [createPlain, hcreate] at hrun
  obtain ⟨rfl, rfl⟩ := Prod.mk.inj hrun
  obtain ⟨created, hcreated, hsame⟩ := (Frames.afterCreation _ _).nodes _ shown hshown
  rw [node?_added, if_pos rfl] at hcreated
  obtain rfl := Option.some.inj hcreated
  exact hsame.kind.trans hkind

theorem kind_renderContainer
    {renderNode : World σ → NodeId → Except Fault (NodeId × World σ)} {node : Node}
    (hrun : renderContainer renderNode w node = .ok (form, w')) {shown : Node}
    (hshown : w'.node? form = some shown) : shown.kind = .plain := by
  obtain ⟨⟨content, forms, laid⟩, -, hrun⟩ := bind_eq_ok.mp hrun
  dsimp only at hrun
  generalize hcreate : laid.createPlain node.registry "div" (layoutAttributes node) content =
    result at hrun
  obtain ⟨created, after⟩ := result
  obtain ⟨rfl, rfl⟩ : created = form ∧ after.releaseAll forms = w' := by
    simpa [pure, Except.pure] using hrun
  rw [releaseAll] at hshown
  have hcreated := node?_of_sweep hshown
  exact kind_createPlain hcreate hcreated

/-- A node is rendered as itself or as a plain node. -/
theorem form_of_render (hrun : w.render id = .ok (form, w')) :
    (form = id ∧ w'.nodes = w.nodes) ∨
      ∀ shown, w'.node? form = some shown → shown.kind = .plain := by
  have hcontainer {node : Node}
      (hrun : renderContainer (renderWithin w.nodes.size) w node = .ok (form, w')) :
      (form = id ∧ w'.nodes = w.nodes) ∨
        ∀ shown, w'.node? form = some shown → shown.kind = .plain :=
    .inr fun _ hshown ↦ kind_renderContainer hrun hshown
  rw [render, depthLimit, renderWithin] at hrun
  split at hrun
  · obtain ⟨rfl, rfl⟩ := Prod.mk.inj (Except.ok.inj hrun)
    exact .inl ⟨rfl, rfl⟩
  · split at hrun
    · exact hcontainer hrun
    · exact hcontainer hrun
    · exact hcontainer hrun
    · exact .inr fun _ hshown ↦ kind_createPlain (Except.ok.inj hrun) hshown
    · exact .inr fun _ hshown ↦ kind_createPlain (Except.ok.inj hrun) hshown
    all_goals
      obtain ⟨rfl, rfl⟩ := Prod.mk.inj (Except.ok.inj hrun)
      exact .inl ⟨rfl, rfl⟩

end Forms

namespace Routine

variable {R : World σ → World σ → Prop} (h : Routine R) {w w' : World σ}

include h

theorem of_eq (hnodes : w'.nodes = w.nodes) (hrecorders : w'.recorders = w.recorders)
    (hregistries : w'.registries = w.registries) (hclient : w'.client = w.client) : R w w' :=
  h.outside hnodes (hrecorders ▸ .refl _) (listsAlike_of_eq hregistries) hclient

/-! ### References, parents and mountings -/

/-- The references that were held may be others then. -/
theorem reheld (w : World σ) (held : List Root) : R w ({ w with held := held } : World σ).sweep :=
  have hheld : R w { w with held := held } := h.of_eq rfl rfl rfl rfl
  h.trans hheld (h.sweep _)

theorem release (w : World σ) (root : Root) : R w (w.release root) := h.reheld w _

theorem releaseAll (w : World σ) (nodes : List NodeId) : R w (w.releaseAll nodes) := h.reheld w _

theorem recordParents (w : World σ) (links : List (NodeId × NodeId)) :
    R w (w.recordParents links) := by
  induction links generalizing w with
  | nil => exact h.refl w
  | cons link links ih =>
    have hfirst := h.retouch w link.1 (fun node ↦ { node with parent? := some link.2 }) fun _ ↦
      ⟨rfl, rfl, rfl⟩
    exact h.trans hfirst (ih _)

theorem write {id : NodeId} {markup : String} (hrun : w.write id = .ok (markup, w')) : R w w' := by
  obtain ⟨links, rfl⟩ := write_inv hrun
  exact h.recordParents w links

theorem recordMounting (w : World σ) (node : NodeId) (host : HostId) (rendered : NodeId) :
    R w (w.recordMounting node host rendered) := by
  let form := if rendered = node then Form.itself else .wrapper rendered
  have hmounted := h.retouch w node (fun n ↦ { n with mounting? := some ⟨host, form⟩ }) fun _ ↦
    ⟨rfl, rfl, rfl⟩
  exact h.trans hmounted (h.sweep _)

end Routine

namespace Reporting

variable [Journal σ] {R : World σ → World σ → Prop} (h : Reporting R) {w w' : World σ}

include h

/-! ### Hosts -/

theorem append (w : World σ) (host : HostId) (markup : String) : R w (w.append host markup) := by
  unfold World.append
  split
  · exact h.of_eq rfl rfl rfl rfl
  · exact h.note w _

theorem setInner (w : World σ) (host : HostId) (id markup : String) :
    R w (w.setInner host id markup).2 := by
  unfold World.setInner
  split
  · split
    · exact h.of_eq rfl rfl rfl rfl
    · exact h.refl w
  · exact h.note w _

theorem afterMounting (w : World σ) (id : NodeId) : R w (w.afterMounting id) := by
  unfold World.afterMounting
  split
  · split
    · exact h.note w _
    · exact h.note w _
    · exact h.refl w
  · exact h.refl w

/-! ### Creating and rendering -/

theorem afterCreation (w : World σ) (id : NodeId) : R w (w.afterCreation id) := by
  unfold World.afterCreation
  split
  · split
    · exact h.retouch w id _ fun node ↦ .addClass node Flag.flex.className
    · refine h.retouch w id _ fun node ↦ ?_
      obtain ⟨hkind, hattributes, hstyle⟩ := Node.ResolvedAlike.addClass node "panel"
      exact ⟨hkind, hattributes, hstyle⟩
    · exact h.note w _
    · exact h.refl w
  · exact h.refl w

theorem create (w : World σ) (registry : RegistryId) (kind : Kind) (tag : String)
    (attributes : Attributes) (content : List Child) :
    R w (w.create registry kind tag attributes content).2 := by
  obtain ⟨node, -, -, -, -, -, -, hresolved, hcreate⟩ :=
    w.exists_create registry kind tag attributes content
  rw [hcreate]
  exact h.trans (h.added w _ hresolved) (h.afterCreation _ _)

section Layouts

variable {renderNode : World σ → NodeId → Except Fault (NodeId × World σ)}
  (hrender : ∀ w id form w', renderNode w id = .ok (form, w') → R w w')

include hrender

theorem renderLayouts {content content' : List Child} {forms : List NodeId}
    (hrun : World.renderLayouts renderNode w content = .ok (content', forms, w')) : R w w' := by
  induction content generalizing w content' forms with
  | nil =>
    obtain ⟨-, -, rfl⟩ : [] = content' ∧ [] = forms ∧ w = w' := by
      simpa [World.renderLayouts] using hrun
    exact h.refl w
  | cons child content ih =>
    rw [World.renderLayouts] at hrun
    split at hrun
    · obtain ⟨⟨form, first⟩, hform, hrun⟩ := bind_eq_ok.mp hrun
      obtain ⟨⟨rest, forms', last⟩, hrest, hrun⟩ := bind_eq_ok.mp hrun
      obtain ⟨-, -, rfl⟩ : _ = content' ∧ _ = forms ∧ last = w' := by
        simpa [pure, Except.pure] using hrun
      exact h.trans (hrender w _ form first hform) (ih hrest)
    · obtain ⟨⟨rest, forms', last⟩, hrest, hrun⟩ := bind_eq_ok.mp hrun
      obtain ⟨-, -, rfl⟩ : _ = content' ∧ _ = forms ∧ last = w' := by
        simpa [pure, Except.pure] using hrun
      exact ih hrest

theorem renderContainer {node : Node} {form : NodeId}
    (hrun : World.renderContainer renderNode w node = .ok (form, w')) : R w w' := by
  obtain ⟨⟨content, forms, laid⟩, hlayouts, hrun⟩ := bind_eq_ok.mp hrun
  obtain ⟨-, rfl⟩ : _ = form ∧
      (laid.createPlain node.registry "div" (layoutAttributes node) content).2.releaseAll forms =
        w' := by
    simpa [pure, Except.pure] using hrun
  have hcreated := h.create laid node.registry .plain "div" (layoutAttributes node) content
  exact h.trans (h.trans (h.renderLayouts hrender hlayouts) hcreated) (h.releaseAll _ forms)

end Layouts

theorem renderWithin (depth : Nat) (w : World σ) (id form : NodeId) (w' : World σ)
    (hrun : World.renderWithin depth w id = .ok (form, w')) : R w w' := by
  induction depth generalizing w id form w' with
  | zero => cases hrun
  | succ depth ih =>
    have hplain {registry : RegistryId} {tag : String} {content : List Child}
        (hrun : (.ok (w.createPlain registry tag ∅ content) : Except Fault _) = .ok (form, w')) :
        R w w' := by
      have hcreated : R w (w.createPlain registry tag ∅ content).2 := h.create w ..
      rwa [Except.ok.inj hrun] at hcreated
    rw [World.renderWithin] at hrun
    split at hrun
    · obtain ⟨-, rfl⟩ := Prod.mk.inj (Except.ok.inj hrun)
      exact h.refl w
    · split at hrun
      · exact h.renderContainer ih hrun
      · exact h.renderContainer ih hrun
      · exact h.renderContainer ih hrun
      · exact hplain hrun
      · exact hplain hrun
      all_goals
        obtain ⟨-, rfl⟩ := Prod.mk.inj (Except.ok.inj hrun)
        exact h.of_eq rfl rfl rfl rfl

theorem render {id form : NodeId} (hrun : w.render id = .ok (form, w')) : R w w' :=
  h.renderWithin _ w id form w' hrun

theorem renderAsContainer {id form : NodeId} (hrun : w.renderAsContainer id = .ok (form, w')) :
    R w w' := by
  unfold World.renderAsContainer at hrun
  split at hrun
  · obtain ⟨-, rfl⟩ := Prod.mk.inj (Except.ok.inj hrun)
    exact h.refl w
  · exact h.renderContainer (h.renderWithin _) hrun

/-! ### Mounting and refreshing -/

theorem mount {id form : NodeId} {host : HostId} (hrun : w.mount id host = .ok (form, w')) :
    R w w' := by
  obtain ⟨⟨rendered, after⟩, hrender, hrun⟩ := bind_eq_ok.mp hrun
  obtain ⟨⟨markup, written⟩, hwrite, hrun⟩ := bind_eq_ok.mp hrun
  obtain ⟨-, rfl⟩ : rendered = form ∧ (written.append host markup).afterMounting id = w' := by
    simpa [pure, Except.pure] using hrun
  have hid : ∀ node, after.node? rendered = some node →
      node.kind = .plain ∨ node.id = after.idOf id := by
    intro node hnode
    rcases form_of_render hrender with ⟨rfl, -⟩ | hplain
    · exact .inr (idOf_eq hnode).symm
    · exact .inl (hplain node hnode)
  have hnamed := h.trans (h.render hrender) (h.takeId after rendered (after.idOf id) hid)
  have hwritten := h.trans (h.trans hnamed (h.recordMounting _ id host rendered)) (h.write hwrite)
  exact h.trans (h.trans hwritten (h.append written host markup)) (h.afterMounting _ id)

theorem refresh {id : NodeId} (hrun : w.refresh id = .ok w') : R w w' := by
  cases hmounting : (w.node? id).bind Node.mounting? with
  | none =>
    rw [refresh_of_unmounted hmounting] at hrun
    rw [← Except.ok.inj hrun]
    exact h.refl w
  | some mounting =>
    obtain ⟨node, hnode, hmounting⟩ := Option.bind_eq_some_iff.mp hmounting
    obtain ⟨form, rendered, links, markup, hrender, rfl⟩ := exists_of_refresh hnode hmounting hrun
    have hid : ∀ shown, rendered.node? form = some shown →
        shown.kind = .plain ∨ shown.id = node.id := by
      intro shown hshown
      rcases form_of_render hrender with ⟨rfl, hnodes⟩ | hplain
      · rw [World.node?, hnodes] at hshown
        exact .inr (congrArg Node.id (Option.some.inj (hshown.symm.trans hnode)))
      · exact .inl (hplain shown hshown)
    have hnamed := h.trans (h.render hrender) (h.takeId rendered form node.id hid)
    have hwritten := h.trans hnamed (h.recordParents _ links)
    have hmounted := h.trans hwritten (h.recordMounting _ id mounting.host form)
    exact h.trans (h.trans hmounted (h.setInner _ mounting.host node.id markup)) (h.release _ _)

theorem setState {id : NodeId} {entries : List (String × Value)}
    (hrun : w.setState id entries = .ok w') : R w w' := by
  have hmerged := h.retouch w id (Node.mergeState · entries) fun _ ↦ ⟨rfl, rfl, rfl⟩
  exact h.trans hmerged (h.refresh hrun)

end Reporting

end World

end LiveMarkup
