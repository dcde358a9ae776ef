import LiveMarkup.Proofs.World.Tidying

/-!
Worlds that stay tidy while nodes are created, rendered, written, mounted and refreshed. What
renders a node retains all nodes that there were (`World.Retains`), so that the content of a
container is still alive when the layouts in it were rendered (`World.renderLayouts_tidy`), however
deep they nest (`World.renderWithin_tidy`). What a node was mounted as before may go
(`World.Tidy.display`).
-/

set_option autoImplicit false
set_option relaxedAutoImplicit false

namespace LiveMarkup.World

variable {σ : Type} {w w' w'' : World σ}

/-! ### Retaining -/

/-- The nodes that there were are still there and keep the same nodes alive; so are references,
applications that are held, and registries. -/
structure Retains (w w' : World σ) : Prop where
  nodes : ∀ n node, w.node? n = some node → ∃ node', w'.node? n = some node' ∧ node.Tied node'
  held : ∀ root ∈ w.held, root ∈ w'.held
  apps : ∀ app, .app app ∈ w.held → w'.apps.get? app = w.apps.get? app
  contains : ∀ r, w.registries.contains r = true → w'.registries.contains r = true

namespace Retains

theorem of_eq (hnodes : w'.nodes = w.nodes) (hheld : w'.held = w.held) (happs : w'.apps = w.apps)
    (hregistries : w'.registries = w.registries) : w.Retains w' where
  nodes := fun n node hnode ↦ by
    rw [World.node?, hnodes]
    exact ⟨node, hnode, .refl node⟩
  held := fun root hroot ↦ by rwa [hheld]
  apps := fun app _ ↦ by rw [happs]
  contains := fun r hr ↦ by rwa [hregistries]

theorem refl (w : World σ) : w.Retains w := of_eq rfl rfl rfl rfl

theorem trans (h : w.Retains w') (h' : w'.Retains w'') : w.Retains w'' where
  nodes := fun n node hnode ↦ by
    obtain ⟨node', hnode', htied⟩ := h.nodes n node hnode
    obtain ⟨node'', hnode'', htied'⟩ := h'.nodes n node' hnode'
    exact ⟨node'', hnode'', htied.trans htied'⟩
  held := fun root hroot ↦ h'.held root (h.held root hroot)
  apps := fun app happ ↦ (h'.apps app (h.held _ happ)).trans (h.apps app happ)
  contains := fun r hr ↦ h'.contains r (h.contains r hr)

theorem live (h : w.Retains w') {n : NodeId} (hn : ∃ node, w.node? n = some node) :
    ∃ node, w'.node? n = some node := by
  obtain ⟨node, hnode⟩ := hn
  obtain ⟨node', hnode', -⟩ := h.nodes n node hnode
  exact ⟨node', hnode'⟩

theorem retouch {id : NodeId} {f : Node → Node} (hf : ∀ node : Node, node.Tied (f node)) :
    w.Retains (w.modifyNode id f) where
  nodes := fun n node hnode ↦ by
    rw [node?_modifyNode]
    split
    · exact ⟨f node, congrArg (Option.map f) hnode, hf node⟩
    · exact ⟨node, hnode, .refl node⟩
  held := fun _ hroot ↦ hroot
  apps := fun _ _ ↦ rfl
  contains := fun _ hr ↦ hr

/-- References may be taken and given up as long as those that there were are left. -/
theorem reheld (h : w.Retains w') {held : List Root} (hheld : ∀ root ∈ w.held, root ∈ held) :
    w.Retains { w' with held := held } :=
  ⟨h.nodes, hheld, h.apps, h.contains⟩

/-- A sweep drops nothing that there was in a tidy world. -/
theorem sweep (h : w.Retains w') (htidy : w.Tidy) : w.Retains w'.sweep where
  nodes := fun n node hnode ↦ by
    have hsupports : w'.Supports (fun _ ↦ False) fun n ↦ ∃ node, w.node? n = some node := by
      rintro n ⟨node, hnode⟩
      refine ⟨h.live ⟨node, hnode⟩, (htidy.referred n node hnode).imp ?_ ?_⟩
      · exact fun hroot ↦ hroot.mono h.held h.apps
      · rintro ⟨parent, howns⟩
        obtain ⟨owner, howner, howned⟩ := owns_iff.mp howns
        obtain ⟨owner', howner', htied⟩ := h.nodes parent owner howner
        exact ⟨parent, ⟨owner, howner⟩, owns_iff.mpr ⟨owner', howner', htied.owned ▸ howned⟩⟩
    rw [hsupports.node?_sweep ⟨node, hnode⟩]
    exact h.nodes n node hnode
  held := h.held
  apps := fun app happ ↦ (apps_sweep (h.held _ happ)).trans (h.apps app happ)
  contains := h.contains

end Retains

/-- Without roots nothing is left but circles: nodes with ranks from owner to owned are gone. -/
theorem Tidy.node?_eq_none (h : w.Tidy) (hroots : ∀ n, ¬w.Rooted n) {rank : NodeId → Nat}
    (hrank : ∀ parent n, w.Owns (fun _ ↦ False) parent n → rank n < rank parent) (n : NodeId) :
    w.node? n = none := by
  have hloose : w.Loose (fun _ ↦ True) rank :=
    ⟨fun n _ ↦ hroots n, fun n parent _ howns ↦ ⟨trivial, hrank parent n howns⟩⟩
  cases hnode : w.node? n with
  | none => rfl
  | some node =>
    -- a sweep drops loose nodes, and nothing of a tidy world
    obtain ⟨_, hleft⟩ := ((Retains.refl w).sweep h).live ⟨node, hnode⟩
    rw [hloose.node?_sweep trivial] at hleft
    cases hleft

/-! ### Creating nodes -/

theorem apps_added (w : World σ) (node : Node) (named : Bool) :
    (w.added node named).apps = w.apps := by
  cases named <;> rfl

theorem node?_added_of_node? {n : NodeId} {old : Node} (hold : w.node? n = some old) (node : Node)
    (named : Bool) : (w.added node named).node? n = some old := by
  rw [node?_added, if_neg (Nat.ne_of_lt (lt_next_of_node? hold)), hold]

theorem Retains.added (w : World σ) (node : Node) (named : Bool) :
    w.Retains (w.added node named) where
  nodes := fun _ old hold ↦ ⟨old, node?_added_of_node? hold node named, .refl old⟩
  held := fun _ hroot ↦ List.mem_cons_of_mem _ hroot
  apps := fun _ _ ↦ by rw [apps_added]
  contains := fun r hr ↦ (contains_added w node named r).trans hr

/-- A node that keeps live nodes alive may be added to a registry that there is. -/
theorem Tidy.added (h : w.Tidy) {node : Node} (named : Bool)
    (hregistry : w.registries.contains node.registry = true)
    (howned : ∀ n ∈ node.owned, ∃ other, w.node? n = some other) : (w.added node named).Tidy where
  listing := Ledger.listing_added h.listing hregistry
  live := fun n hn ↦ by
    have hnew : (w.added node named).node? w.nodes.next = some node := by
      rw [node?_added, if_pos rfl]
    have hretains : w.Retains (w.added node named) := .added w node named
    rcases hn with (hroot | ⟨app, shown, happ, hshown, hmounted⟩) | ⟨parent, howns⟩
    · rcases List.mem_cons.mp hroot with heq | hroot
      · obtain rfl := Root.node.inj heq
        exact ⟨node, hnew⟩
      · exact hretains.live (h.live n (.inl (.inl hroot)))
    · rcases List.mem_cons.mp happ with heq | happ
      · cases heq
      · rw [apps_added] at hshown
        exact hretains.live (h.live n (.inl (.inr ⟨app, shown, happ, hshown, hmounted⟩)))
    · obtain ⟨owner, howner, hmem⟩ := owns_iff.mp howns
      rcases Ledger.node?_of_added howner with ⟨-, rfl⟩ | hold
      · exact hretains.live (howned n hmem)
      · exact hretains.live (h.live n (.inr ⟨parent, owns_iff.mpr ⟨owner, hold, hmem⟩⟩))
  apps := fun id app happ ↦ by
    rw [apps_added] at happ
    rw [contains_added]
    exact h.apps id app happ
  referred := fun n found hfound ↦ by
    rcases Ledger.node?_of_added hfound with ⟨rfl, -⟩ | hold
    · exact .inl (.inl List.mem_cons_self)
    · refine (h.referred n found hold).imp (fun hroot ↦ ?_) ?_
      · exact hroot.mono (fun _ hheld ↦ List.mem_cons_of_mem _ hheld) fun _ _ ↦ by rw [apps_added]
      · rintro ⟨parent, howns⟩
        obtain ⟨owner, howner, hmem⟩ := owns_iff.mp howns
        exact ⟨parent, owns_iff.mpr ⟨owner, node?_added_of_node? howner node named, hmem⟩⟩

variable [Journal σ]

/-- What a component does with a node that was just created. -/
theorem Tidy.afterCreation (h : w.Tidy) (id : NodeId) :
    (w.afterCreation id).Tidy ∧ w.Retains (w.afterCreation id) := by
  have hpanel (node : Node) :
      node.Tied ((node.addClass "panel").addContent [.text "[panel]"]) :=
    (Node.Tied.addClass node "panel").trans (.addContent _ rfl)
  unfold World.afterCreation
  split
  · split
    · exact ⟨h.retouch fun node ↦ .addClass node _, .retouch fun node ↦ .addClass node _⟩
    · exact ⟨h.retouch hpanel, .retouch hpanel⟩
    · exact ⟨h.of_eq rfl rfl rfl rfl, .of_eq rfl rfl rfl rfl⟩
    · exact ⟨h, .refl w⟩
  · exact ⟨h, .refl w⟩

/-- Nodes may be created in registries that there are, around live nodes. -/
theorem Tidy.create (h : w.Tidy) {registry : RegistryId}
    (hregistry : w.registries.contains registry = true) (kind : Kind) (tag : String)
    (attributes : Attributes) {content : List Child}
    (hcontent : ∀ n, .node n ∈ content → ∃ node, w.node? n = some node) :
    (w.create registry kind tag attributes content).2.Tidy ∧
      w.Retains (w.create registry kind tag attributes content).2 := by
  obtain ⟨node, -, rfl, hmounting, rfl, -, -, -, hcreate⟩ :=
    w.exists_create registry kind tag attributes content
  rw [hcreate]
  have howned : ∀ n ∈ node.owned, ∃ other, w.node? n = some other := by
    intro n hn
    rcases Node.mem_owned_iff.mp hn with hentry | hwrapper
    · exact hcontent n hentry
    · rw [Node.wrapper?, hmounting] at hwrapper
      cases hwrapper
  have hadded := h.added (attributes.contains "id") hregistry howned
  obtain ⟨hcreated, hretains⟩ := hadded.afterCreation w.nodes.next
  exact ⟨hcreated, (Retains.added w node _).trans hretains⟩

/-! ### Rendering -/

/-- Rendering a node leaves tidy worlds tidy and retains what there was. -/
def KeepsTidy (renderNode : World σ → NodeId → Except Fault (NodeId × World σ)) : Prop :=
  ∀ w id form w', w.Tidy → renderNode w id = .ok (form, w') → w'.Tidy ∧ w.Retains w'

section Layouts

variable {renderNode : World σ → NodeId → Except Fault (NodeId × World σ)}
  (hrender : KeepsTidy renderNode) (hrenders : RendersNodes (fun _ ↦ False) renderNode)

include hrender hrenders

omit [Journal σ] in
/-- The content in which layouts were replaced is alive. -/
theorem renderLayouts_tidy (h : w.Tidy) {content content' : List Child} {forms : List NodeId}
    (hcontent : ∀ n, .node n ∈ content → ∃ node, w.node? n = some node)
    (hrun : renderLayouts renderNode w content = .ok (content', forms, w')) :
    w'.Tidy ∧ w.Retains w' ∧ ∀ n, .node n ∈ content' → ∃ node, w'.node? n = some node := by
  induction content generalizing w content' forms with
  | nil =>
    obtain ⟨rfl, -, rfl⟩ : [] = content' ∧ [] = forms ∧ w = w' := by
      simpa [renderLayouts] using hrun
    exact ⟨h, .refl w, hcontent⟩
  | cons child content ih =>
    have hlater : ∀ n, .node n ∈ content → ∃ node, w.node? n = some node :=
      fun n hn ↦ hcontent n (List.mem_cons_of_mem _ hn)
    rw [renderLayouts] at hrun
    split at hrun
    · rename_i id hid
      obtain ⟨⟨form, first⟩, hform, hrun⟩ := bind_eq_ok.mp hrun
      obtain ⟨⟨rest, forms', last⟩, hrest, hrun⟩ := bind_eq_ok.mp hrun
      obtain ⟨rfl, -, rfl⟩ : .node form :: rest = content' ∧ _ = forms ∧ last = w' := by
        simpa [pure, Except.pure] using hrun
      obtain ⟨hfirst, hretains⟩ := hrender w id form first h hform
      obtain ⟨hlast, hretains', hlive⟩ := ih hfirst (fun n hn ↦ hretains.live (hlater n hn)) hrest
      refine ⟨hlast, hretains.trans hretains', fun n hn ↦ ?_⟩
      rcases List.mem_cons.mp hn with heq | hn
      · obtain rfl := Child.node.inj heq
        have hentry : .node id = child := by
          obtain ⟨hchild, -⟩ := Option.filter_eq_some_iff.mp hid
          cases child <;> simp_all [Child.node?]
        have hlive := hcontent id (hentry ▸ List.mem_cons_self)
        have hheld := (hrenders w id n first hlive hform).held
        exact hretains'.live
          (hfirst.live n (.inl (.inl (hheld.mem_iff.mpr List.mem_cons_self))))
      · exact hlive n hn
    · obtain ⟨⟨rest, forms', last⟩, hrest, hrun⟩ := bind_eq_ok.mp hrun
      obtain ⟨rfl, -, rfl⟩ : child :: rest = content' ∧ _ = forms ∧ last = w' := by
        simpa [pure, Except.pure] using hrun
      obtain ⟨hlast, hretains, hlive⟩ := ih h hlater hrest
      refine ⟨hlast, hretains, fun n hn ↦ ?_⟩
      rcases List.mem_cons.mp hn with rfl | hn
      · exact hretains.live (hcontent n List.mem_cons_self)
      · exact hlive n hn

theorem renderContainer_tidy (h : w.Tidy) {id : NodeId} {node : Node}
    (hnode : w.node? id = some node) {form : NodeId}
    (hrun : renderContainer renderNode w node = .ok (form, w')) : w'.Tidy ∧ w.Retains w' := by
  have hheld := (renderContainer_renders hrenders hrun id).held
  obtain ⟨⟨content, forms, laid⟩, hlayouts, hrun⟩ := bind_eq_ok.mp hrun
  obtain ⟨hlaid, hretains, hcontent⟩ := renderLayouts_tidy hrender hrenders h (fun n hn ↦
    h.live n (.inr ⟨id, node, hnode, .inl hn⟩)) hlayouts
  obtain ⟨hcreated, hretains'⟩ := hlaid.create
    (hretains.contains _ (h.listing.exists_registry id node hnode)) .plain "div"
    (layoutAttributes node) hcontent
  obtain ⟨-, rfl⟩ : _ = form ∧
      (laid.createPlain node.registry "div" (layoutAttributes node) content).2.releaseAll forms =
        w' := by
    simpa [pure, Except.pure] using hrun
  refine ⟨hcreated.releaseAll forms, ?_⟩
  refine ((hretains.trans hretains').reheld fun root hroot ↦ ?_).sweep h
  exact hheld.mem_iff.mpr (List.mem_cons_of_mem _ hroot)

end Layouts

theorem renderWithin_tidy (depth : Nat) : KeepsTidy (σ := σ) (renderWithin depth) := by
  induction depth with
  | zero =>
    intro w id form w' _ hrun
    cases hrun
  | succ depth ih =>
    intro w id form w' h hrun
    cases hnode : w.node? id with
    | none =>
      rw [renderWithin, hnode] at hrun
      obtain ⟨-, rfl⟩ := Prod.mk.inj (Except.ok.inj hrun)
      exact ⟨h, .refl w⟩
    | some node =>
      have hregistry := h.listing.exists_registry id node hnode
      have hcontent : ∀ n, .node n ∈ node.content → ∃ other, w.node? n = some other :=
        fun n hn ↦ h.live n (.inr ⟨id, node, hnode, .inl hn⟩)
      have hplain {tag : String} {content : List Child}
          (hcontent : ∀ n, .node n ∈ content → ∃ other, w.node? n = some other)
          (hrun : (.ok (w.createPlain node.registry tag ∅ content) : Except Fault _) =
            .ok (form, w')) : w'.Tidy ∧ w.Retains w' := by
        have hcreated := h.create hregistry .plain tag ∅ hcontent
        rwa [show w.create node.registry .plain tag ∅ content = (form, w') from
          Except.ok.inj hrun] at hcreated
      have hitself (hrun : (.ok (id, w.hold (.node id)) : Except Fault _) = .ok (form, w')) :
          w'.Tidy ∧ w.Retains w' := by
        obtain ⟨-, rfl⟩ := Prod.mk.inj (Except.ok.inj hrun)
        exact ⟨h.hold ⟨node, hnode⟩,
          (Retains.refl w).reheld fun _ hroot ↦ List.mem_cons_of_mem _ hroot⟩
      have hcontainer (hrun : renderContainer (renderWithin depth) w node = .ok (form, w')) :
          w'.Tidy ∧ w.Retains w' :=
        renderContainer_tidy ih (renderWithin_renders depth) h hnode hrun
      have hgreeting : ∀ n, .node n ∈ greetingContent node → ∃ other, w.node? n = some other := by
        intro n hn
        rcases List.mem_cons.mp hn with heq | hn
        · cases heq
        · exact hcontent n hn
      rw [renderWithin, hnode] at hrun
      dsimp only at hrun
      split at hrun
      · exact hcontainer hrun
      · exact hcontainer hrun
      · exact hcontainer hrun
      · exact hplain hcontent hrun
      · exact hplain hgreeting hrun
      all_goals exact hitself hrun

theorem Tidy.render (h : w.Tidy) {id form : NodeId} (hrun : w.render id = .ok (form, w')) :
    w'.Tidy ∧ w.Retains w' :=
  renderWithin_tidy _ w id form w' h hrun

theorem Tidy.renderAsContainer (h : w.Tidy) {id form : NodeId}
    (hrun : w.renderAsContainer id = .ok (form, w')) : w'.Tidy ∧ w.Retains w' := by
  unfold World.renderAsContainer at hrun
  split at hrun
  · obtain ⟨-, rfl⟩ := Prod.mk.inj (Except.ok.inj hrun)
    exact ⟨h, .refl w⟩
  · rename_i node hnode
    exact renderContainer_tidy (renderWithin_tidy _) (renderWithin_renders _) h hnode hrun

/-- What a live node is rendered as is alive. -/
theorem Tidy.live_of_render (h : w.Tidy) {id form : NodeId} (hrun : w.render id = .ok (form, w'))
    (hid : ∃ node, w'.node? id = some node) : ∃ node, w'.node? form = some node := by
  cases hnode : w.node? id with
  | none =>
    rw [World.render, depthLimit, renderWithin, hnode] at hrun
    obtain ⟨rfl, -⟩ := Prod.mk.inj (Except.ok.inj hrun)
    exact hid
  | some node =>
    have hrenders : Renders (fun _ ↦ False) w w' id form :=
      renderWithin_renders _ w id form w' ⟨node, hnode⟩ hrun
    exact (h.render hrun).1.live form
      (.inl (.inl (hrenders.held.mem_iff.mpr List.mem_cons_self)))

/-! ### Writing, mounting and refreshing -/

theorem append_eq (w : World σ) (host : HostId) (markup : String) :
    ∃ hosts client, w.append host markup = { w with hosts := hosts, client := client } := by
  unfold World.append
  split <;> exact ⟨_, _, rfl⟩

theorem replace_eq (w : World σ) (host : HostId) (markup : String) :
    ∃ hosts client, w.replace host markup = { w with hosts := hosts, client := client } := by
  unfold World.replace
  split <;> exact ⟨_, _, rfl⟩

section Hosts

variable (h : w.Tidy)

include h

omit [Journal σ] in
theorem Tidy.write {id : NodeId} {markup : String} (hrun : w.write id = .ok (markup, w')) :
    w'.Tidy := by
  obtain ⟨links, rfl⟩ := write_inv hrun
  exact h.recordParents links

theorem Tidy.append (host : HostId) (markup : String) : (w.append host markup).Tidy := by
  obtain ⟨hosts, client, heq⟩ := w.append_eq host markup
  rw [heq]
  exact h.of_eq rfl rfl rfl rfl

theorem Tidy.replace (host : HostId) (markup : String) : (w.replace host markup).Tidy := by
  obtain ⟨hosts, client, heq⟩ := w.replace_eq host markup
  rw [heq]
  exact h.of_eq rfl rfl rfl rfl

theorem Tidy.setInner (host : HostId) (id markup : String) :
    (w.setInner host id markup).2.Tidy := by
  obtain ⟨hosts, client, hset, -⟩ := w.setInner_eq host id markup
  rw [hset]
  exact h.of_eq rfl rfl rfl rfl

theorem Tidy.afterMounting (id : NodeId) : (w.afterMounting id).Tidy := by
  obtain ⟨client, heq⟩ := w.afterMounting_eq id
  rw [heq]
  exact h.of_eq rfl rfl rfl rfl

omit [Journal σ] in
/-- A node may be mounted as a live node; the form that it had is dropped unless something refers to
it. -/
theorem Tidy.recordMounting {id form : NodeId}
    (hform : (∃ node, w.node? id = some node) → ∃ node, w.node? form = some node) (host : HostId) :
    (w.recordMounting id host form).Tidy := by
  refine Intact.sweep (h.toIntact.modifyNode (fun _ ↦ rfl) fun node hnode n hmem ↦ ?_)
  rcases Node.mem_owned_iff.mp hmem with hentry | hwrapper
  · exact h.live n (.inr ⟨id, node, hnode, .inl hentry⟩)
  · rw [Node.wrapper?] at hwrapper
    by_cases hitself : form = id
    · simp [hitself] at hwrapper
    · obtain rfl : form = n := by simpa [hitself] using hwrapper
      exact hform ⟨node, hnode⟩

/-- A node that was rendered may be mounted as the form, which took its id. -/
theorem Tidy.display {id form : NodeId} (hrender : w.render id = .ok (form, w')) (name : String)
    (links : List (NodeId × NodeId)) (host : HostId) :
    (((w'.takeId form name).recordParents links).recordMounting id host form).Tidy := by
  have hrendered := (h.render hrender).1
  have htaken : (w'.takeId form name).Tidy := hrendered.retouch fun _ ↦ ⟨rfl, rfl⟩
  have hlive (n : NodeId) :
      (∃ node, ((w'.takeId form name).recordParents links).node? n = some node) ↔
        ∃ node, w'.node? n = some node :=
    exists_node?_recordParents_iff.trans exists_node?_modifyNode_iff
  refine (htaken.recordParents links).recordMounting (fun hid ↦ ?_) host
  rw [hlive] at hid ⊢
  exact h.live_of_render hrender hid

/-- A node may be mounted, and all references are left. -/
theorem Tidy.mount {id form : NodeId} {host : HostId} (hrun : w.mount id host = .ok (form, w')) :
    w'.Tidy ∧ ∀ root ∈ w.held, root ∈ w'.held := by
  obtain ⟨⟨rendered, after⟩, hrender, hrun⟩ := bind_eq_ok.mp hrun
  obtain ⟨⟨markup, written⟩, hwrite, hrun⟩ := bind_eq_ok.mp hrun
  obtain ⟨-, rfl⟩ : rendered = form ∧ (written.append host markup).afterMounting id = w' := by
    simpa [pure, Except.pure] using hrun
  have hshown : ((after.takeId rendered (after.idOf id)).recordMounting id host rendered).Tidy :=
    h.display hrender (after.idOf id) [] host
  obtain ⟨links, rfl⟩ := write_inv hwrite
  generalize hwritten :
    ((after.takeId rendered (after.idOf id)).recordMounting id host rendered).recordParents links =
      written
  have htidy : written.Tidy := hwritten ▸ hshown.recordParents links
  refine ⟨(htidy.append host markup).afterMounting id, fun root hroot ↦ ?_⟩
  have hheld : root ∈ written.held := by
    rw [← hwritten, held_recordParents]
    exact (h.render hrender).2.held root hroot
  obtain ⟨hosts, client, happended⟩ := written.append_eq host markup
  obtain ⟨client', hmounted⟩ := (written.append host markup).afterMounting_eq id
  rw [hmounted, happended]
  exact hheld

theorem Tidy.refresh {id : NodeId} (hrun : w.refresh id = .ok w') : w'.Tidy := by
  cases hmounting : (w.node? id).bind Node.mounting? with
  | none =>
    rw [refresh_of_unmounted hmounting] at hrun
    rwa [← Except.ok.inj hrun]
  | some mounting =>
    obtain ⟨node, hnode, hmounting⟩ := Option.bind_eq_some_iff.mp hmounting
    obtain ⟨form, rendered, links, markup, hrender, rfl⟩ := exists_of_refresh hnode hmounting hrun
    have hshown := h.display hrender node.id links mounting.host
    exact (hshown.setInner mounting.host node.id markup).release (.node form)

theorem Tidy.setState {id : NodeId} {entries : List (String × Value)}
    (hrun : w.setState id entries = .ok w') : w'.Tidy :=
  have hmerged : (w.modifyNode id (Node.mergeState · entries)).Tidy :=
    h.retouch fun _ ↦ ⟨rfl, rfl⟩
  hmerged.refresh hrun

end Hosts

end LiveMarkup.World
