import LiveMarkup.Proofs.Identity.Ledger
import LiveMarkup.Proofs.Style.Presenting

/-!
Creating, rendering, mounting and refreshing nodes keep the invariant of ids (`World.Ledger`). A
node that is rendered yields itself, or a form that is younger than all nodes that there were
(`World.Yields`), which takes the id of the node when it is mounted or refreshed; nothing else that
is alive changes its id (`World.mount_ledger`, `World.refresh_ledger`).
-/

set_option autoImplicit false
set_option relaxedAutoImplicit false

namespace LiveMarkup.World

variable {σ : Type} {w w' : World σ} {deeds : List Deed}

/-- All nodes that there were, but for a form if there is one, show the ids that they showed. -/
def KeepsIds (form? : Option NodeId) (w w' : World σ) : Prop :=
  ∀ n node node', form? ≠ some n → w.node? n = some node → w'.node? n = some node' →
    node'.id = node.id

/-- A form may take any id when a node was rendered. -/
theorem Keeps.keepsIds_takeId (h : w.Keeps w') (form : NodeId) (id : String) :
    KeepsIds (some form) w (w'.takeId form id) := by
  intro n node node' hne hnode hnode'
  rw [node?_takeId, if_neg fun h ↦ hne (congrArg some h)] at hnode'
  obtain ⟨_, hnode'', hsame⟩ := h.nodes n node' (lt_next_of_node? hnode) hnode'
  obtain rfl := Option.some.inj (hnode.symm.trans hnode'')
  exact hsame.id

theorem KeepsIds.frame {form? : Option NodeId} {w'' : World σ} (h : KeepsIds form? w w')
    (hframes : w'.Frames w'') : KeepsIds form? w w'' := by
  intro n node node'' hne hnode hnode''
  obtain ⟨node', hnode', hsame⟩ := hframes.nodes n node'' hnode''
  rw [hsame.id, h n node node' hne hnode hnode']

theorem KeepsIds.recordMounting {form? : Option NodeId} (h : KeepsIds form? w w') (n : NodeId)
    (host : HostId) (rendered : NodeId) :
    KeepsIds form? w (w'.recordMounting n host rendered) := by
  intro k node node'' hne hnode hnode''
  have hmounted := node?_of_sweep hnode''
  rw [node?_modifyNode] at hmounted
  split at hmounted
  · obtain ⟨node', hnode', rfl⟩ := Option.map_eq_some_iff.mp hmounted
    exact h k node node' hne hnode hnode'
  · exact h k node node'' hne hnode hmounted

/-- What is done to ids when a node was refreshed: it is displayed as what it is displayed as
afterwards, if it is mounted. -/
def showing (w : World σ) (id : NodeId) : List Deed := (w.rendered? id).toList.map (.displays id)

/-- What a node yields when it is rendered: itself, or a plain form that is younger than all nodes
that there were. -/
structure Yields (w : World σ) (id : NodeId) (node : Node) (w' : World σ) (form : NodeId) :
    Prop where
  keeps : w.Keeps w'
  form : (node.kind.rendersAsItself = true ∧ form = id) ∨
    (node.kind.rendersAsItself = false ∧ w.nodes.next ≤ form ∧
      ∃ shown, w'.node? form = some shown ∧ shown.kind = .plain ∧
        shown.registry = node.registry ∧ shown.mounting? = none)

/-- Rendering single live nodes keeps the invariant. -/
def KeepsLedger (deeds : List Deed)
    (renderNode : World σ → NodeId → Except Fault (NodeId × World σ)) : Prop :=
  ∀ w id node form w', Ledger deeds w → w.node? id = some node →
    renderNode w id = .ok (form, w') → Ledger deeds w' ∧ Yields w id node w' form

theorem renderLayouts_ledger {renderNode : World σ → NodeId → Except Fault (NodeId × World σ)}
    (hrender : KeepsLedger deeds renderNode) (h : Ledger deeds w) {content content' : List Child}
    {forms : List NodeId}
    (hrun : renderLayouts renderNode w content = .ok (content', forms, w')) :
    Ledger deeds w' ∧ w.Keeps w' := by
  induction content generalizing w content' forms with
  | nil =>
    obtain ⟨-, -, rfl⟩ : [] = content' ∧ [] = forms ∧ w = w' := by
      simpa [renderLayouts] using hrun
    exact ⟨h, .refl w⟩
  | cons child content ih =>
    rw [renderLayouts] at hrun
    split at hrun
    · rename_i id hid
      obtain ⟨⟨form, first⟩, hform, hrun⟩ := bind_eq_ok.mp hrun
      obtain ⟨⟨rest, forms', last⟩, hrest, hrun⟩ := bind_eq_ok.mp hrun
      obtain ⟨-, -, rfl⟩ : _ = content' ∧ _ = forms ∧ last = w' := by
        simpa [pure, Except.pure] using hrun
      obtain ⟨_, hany⟩ := Option.filter_eq_some_iff.mp hid
      have hlive : ∃ node, w.node? id = some node := by
        cases hnode : w.node? id with
        | none => simp [hnode] at hany
        | some node => exact ⟨node, rfl⟩
      obtain ⟨node, hnode⟩ := hlive
      obtain ⟨hfirst, hyields⟩ := hrender w id node form first h hnode hform
      obtain ⟨hlast, hkeeps⟩ := ih hfirst hrest
      exact ⟨hlast, hyields.keeps.trans hkeeps⟩
    · obtain ⟨⟨rest, forms', last⟩, hrest, hrun⟩ := bind_eq_ok.mp hrun
      obtain ⟨-, -, rfl⟩ : _ = content' ∧ _ = forms ∧ last = w' := by
        simpa [pure, Except.pure] using hrun
      exact ih h hrest

variable [Journal σ]

/-! ### Creating nodes -/

theorem Frames.afterCreation (w : World σ) (id : NodeId) : w.Frames (w.afterCreation id) := by
  unfold World.afterCreation
  split
  · split
    · exact .modifyNode id fun node _ ↦ .addClass node _
    · exact .modifyNode id fun node _ ↦
        (Node.Same.addClass node "panel").trans ⟨rfl, rfl, rfl, rfl⟩
    · exact .of_eq rfl rfl
    · exact .refl w
  · exact .refl w

/-- A node is created with the id of its attributes or the next one of its registry, and with the
style that its attributes resolve to, and is listed; then its component acts. -/
theorem exists_create (w : World σ) (registry : RegistryId) (kind : Kind) (tag : String)
    (attributes : Attributes) (content : List Child) :
    ∃ node : Node, node.kind = kind ∧ node.registry = registry ∧ node.mounting? = none ∧
      node.content = content ∧
      node.attributes.get? "onclick" = attributes.get? "onclick" ∧
      node.id = (if attributes.contains "id" then attributes.id else (w.registry registry).nextId) ∧
      node.IsResolved ∧
      w.create registry kind tag attributes content =
        (w.nodes.next,
          (w.added node (attributes.contains "id")).afterCreation w.nodes.next) := by
  let baseClass := (w.registry registry).config.baseClass
  unfold create withId
  cases hnamed : attributes.contains "id" with
  | true => exact ⟨_, rfl, rfl, rfl, rfl, rfl, rfl, ⟨hnamed, baseClass, rfl⟩, rfl⟩
  | false =>
    refine ⟨_, rfl, rfl, rfl, rfl, ?_, ?_, ⟨?_, baseClass, rfl⟩, rfl⟩
    · show (attributes.insert "id" _).get? "onclick" = _
      rw [OrderedMap.get?_insert, if_neg (by decide)]
    · rw [if_neg (by simp)]
      exact Attributes.id_insert_id attributes _
    · show (attributes.insert "id" _).contains "id" = true
      rw [OrderedMap.contains, OrderedMap.get?_insert, if_pos rfl]
      rfl

/-- What is done to ids when a node is created with attributes. -/
def given (registry : RegistryId) (n : NodeId) (attributes : Attributes) : List Deed :=
  if attributes.contains "id" then [.names registry n attributes.id] else []

/-- Creating a node in a registry that there is keeps the invariant, and the nodes there were. -/
theorem create_ledger (h : Ledger deeds w) {registry : RegistryId}
    (hregistry : w.registries.contains registry = true) (kind : Kind) (tag : String)
    (attributes : Attributes) (content : List Child) :
    Ledger (deeds ++ given registry w.nodes.next attributes)
        (w.create registry kind tag attributes content).2 ∧
      w.Keeps (w.create registry kind tag attributes content).2 := by
  obtain ⟨node, -, rfl, hmounting, -, -, hid, -, hcreate⟩ :=
    w.exists_create registry kind tag attributes content
  rw [hcreate]
  have hgiven : given node.registry w.nodes.next attributes =
      Ledger.naming node w.nodes.next (attributes.contains "id") := by
    cases hnamed : attributes.contains "id" with
    | true =>
      rw [hnamed, if_pos rfl] at hid
      rw [given, hnamed, Ledger.naming, if_pos rfl, if_pos rfl, hid]
    | false => rw [given, hnamed, Ledger.naming, if_neg (by simp), if_neg (by simp)]
  have hframes : (w.added node (attributes.contains "id")).Frames
      ((w.added node (attributes.contains "id")).afterCreation w.nodes.next) := .afterCreation _ _
  constructor
  · rw [hgiven]
    refine (h.added hmounting hregistry fun hnamed ↦ ?_).frame hframes
    rw [hid, hnamed, if_neg (by simp)]
  · refine Keeps.trans ⟨Nat.le_succ _, fun n found hlt hfound ↦ ?_, fun r hr ↦ ?_⟩ hframes.keeps
    · rw [node?_added, if_neg (Nat.ne_of_lt hlt)] at hfound
      exact ⟨found, hfound, .refl found⟩
    · rw [contains_added, hr]

/-- A plain node without an id of its own is created. -/
theorem createPlain_ledger (h : Ledger deeds w) {registry : RegistryId}
    (hregistry : w.registries.contains registry = true) (tag : String) {attributes : Attributes}
    (hid : attributes.contains "id" = false) (content : List Child) :
    Ledger deeds (w.createPlain registry tag attributes content).2 ∧
      w.Keeps (w.createPlain registry tag attributes content).2 := by
  have hcreated := create_ledger h hregistry .plain tag attributes content
  rwa [given, hid, if_neg (by simp), List.append_nil] at hcreated

/-! ### Rendering -/

theorem createPlain_yields (h : Ledger deeds w) (id : NodeId) {node : Node}
    (hregistry : w.registries.contains node.registry = true)
    (hkind : node.kind.rendersAsItself = false) {tag : String} {attributes : Attributes}
    (hid : attributes.contains "id" = false) {content : List Child} {form : NodeId}
    (hrun : w.createPlain node.registry tag attributes content = (form, w')) :
    Ledger deeds w' ∧ Yields w id node w' form := by
  obtain ⟨hledger, hkeeps⟩ := createPlain_ledger h hregistry tag hid content
  obtain ⟨created, hcreate, -, hnode⟩ := w.createPlain_renders node.registry tag hid content
  rw [hrun] at hledger hkeeps
  rw [hrun] at hcreate
  obtain ⟨rfl, rfl⟩ := Prod.mk.inj hcreate
  exact ⟨hledger, hkeeps, .inr ⟨hkind, Nat.le_refl _, _, hnode, rfl, rfl, rfl⟩⟩

theorem renderContainer_ledger {renderNode : World σ → NodeId → Except Fault (NodeId × World σ)}
    (hledgers : KeepsLedger deeds renderNode) (hrenders : RendersNodes (fun _ ↦ False) renderNode)
    (h : Ledger deeds w) {id : NodeId} {node : Node} (hnode : w.node? id = some node)
    (hkind : node.kind.rendersAsItself = false) {form : NodeId}
    (hrun : renderContainer renderNode w node = .ok (form, w')) :
    Ledger deeds w' ∧ Yields w id node w' form := by
  have hheld := (renderContainer_renders hrenders hrun id).held
  obtain ⟨⟨content, forms, laid⟩, hlayouts, hrun⟩ := bind_eq_ok.mp hrun
  obtain ⟨hlaid, hkeeps⟩ := renderLayouts_ledger hledgers h hlayouts
  have hregistry : laid.registries.contains node.registry = true :=
    hkeeps.contains _ (h.exists_registry id node hnode)
  dsimp only at hrun
  generalize hcreate : laid.createPlain node.registry "div" (layoutAttributes node) content =
    result at hrun
  obtain ⟨created, after⟩ := result
  obtain ⟨rfl, rfl⟩ : created = form ∧ after.releaseAll forms = w' := by
    simpa [pure, Except.pure] using hrun
  obtain ⟨hcreated, hyields⟩ := createPlain_yields hlaid id hregistry hkind
    (contains_id_layoutAttributes node) hcreate
  have hframes : after.Frames (after.releaseAll forms) := .releaseAll after forms
  refine ⟨hcreated.frame hframes, (hkeeps.trans hyields.keeps).trans hframes.keeps, .inr ?_⟩
  rcases hyields.form with ⟨hitself, -⟩ | ⟨-, hle, shown, hshown, hfacts⟩
  · rw [hkind] at hitself
    cases hitself
  · refine ⟨hkind, Nat.le_trans hkeeps.next hle, shown, ?_, hfacts⟩
    have hmem : .node created ∈ (after.releaseAll forms).held :=
      hheld.mem_iff.mpr List.mem_cons_self
    let dropped : World σ :=
      { after with held := forms.foldl (fun held node ↦ held.erase (.node node)) after.held }
    have hkept : dropped.Kept (fun _ ↦ False) created := .held hmem hshown
    exact (node?_sweep hkept).trans hshown

/-- Rendering a live node keeps the invariant, and yields the node itself or a younger form. -/
theorem renderWithin_ledger (deeds : List Deed) (depth : Nat) :
    KeepsLedger (σ := σ) deeds (renderWithin depth) := by
  induction depth with
  | zero =>
    intro w id node form w' _ _ hrun
    cases hrun
  | succ depth ih =>
    intro w id node form w' h hnode hrun
    have hregistry : w.registries.contains node.registry = true := h.exists_registry id node hnode
    have hplain (hkind : node.kind.rendersAsItself = false) (tag : String) (content : List Child)
        (hrun : (.ok (w.createPlain node.registry tag ∅ content) : Except Fault _) =
          .ok (form, w')) : Ledger deeds w' ∧ Yields w id node w' form :=
      createPlain_yields h id hregistry hkind rfl (Except.ok.inj hrun)
    have hitself (hkind : node.kind.rendersAsItself = true)
        (hrun : (.ok (id, w.hold (.node id)) : Except Fault _) = .ok (form, w')) :
        Ledger deeds w' ∧ Yields w id node w' form := by
      obtain ⟨rfl, rfl⟩ := Prod.mk.inj (Except.ok.inj hrun)
      have hframes : w.Frames (w.hold (.node id)) := .of_eq rfl rfl
      exact ⟨h.frame hframes, hframes.keeps, .inl ⟨hkind, rfl⟩⟩
    have hcontainer (hkind : node.kind.rendersAsItself = false)
        (hrun : renderContainer (renderWithin depth) w node = .ok (form, w')) :
        Ledger deeds w' ∧ Yields w id node w' form :=
      renderContainer_ledger ih (renderWithin_renders depth) h hnode hkind hrun
    rw [renderWithin, hnode] at hrun
    dsimp only at hrun
    cases hkind : node.kind <;> rw [hkind] at hrun
    · exact hitself (by rw [hkind]; rfl) hrun
    · exact hcontainer (by rw [hkind]; rfl) hrun
    · exact hcontainer (by rw [hkind]; rfl) hrun
    · exact hplain (by rw [hkind]; rfl) "p" node.content hrun
    · exact hitself (by rw [hkind]; rfl) hrun
    · exact hplain (by rw [hkind]; rfl) "h1" (greetingContent node) hrun
    · exact hitself (by rw [hkind]; rfl) hrun
    · exact hitself (by rw [hkind]; rfl) hrun
    · exact hcontainer (by rw [hkind]; rfl) hrun

/-- Rendering a held node keeps the invariant and the node. -/
theorem render_ledger (h : Ledger deeds w) {id form : NodeId} (hid : .node id ∈ w.held)
    {node : Node} (hnode : w.node? id = some node) {rendered : World σ}
    (hrender : w.render id = .ok (form, rendered)) :
    Ledger deeds rendered ∧ Yields w id node rendered form ∧
      ∃ source, rendered.node? id = some source ∧ node.Same source := by
  obtain ⟨hrendered, hyields⟩ := renderWithin_ledger deeds _ w id node form rendered h hnode hrender
  have hcarries : w.Carries (fun _ ↦ False) rendered :=
    (renderWithin_renders _ w id form rendered ⟨node, hnode⟩ hrender).carries
  obtain ⟨source, hsource, -⟩ := hcarries.nodes id node (.held hid hnode) hnode
  obtain ⟨_, hnode', hsame⟩ := hyields.keeps.nodes id source (lt_next_of_node? hnode) hsource
  obtain rfl := Option.some.inj (hnode.symm.trans hnode')
  exact ⟨hrendered, hyields, source, hsource, hsame⟩

/-! ### Displaying -/

/-- A node that was rendered may be mounted as the form that took its id: the invariant is kept, and
so are all ids but that of the form. -/
theorem display_ledger (h : Ledger deeds w) {id form : NodeId} (hid : .node id ∈ w.held)
    {node : Node} (hnode : w.node? id = some node) {rendered : World σ}
    (hrender : w.render id = .ok (form, rendered)) (links : List (NodeId × NodeId))
    (host : HostId) :
    Ledger (deeds ++ [.displays id form])
        (((rendered.takeId form node.id).recordParents links).recordMounting id host form) ∧
      KeepsIds (some form) w
        (((rendered.takeId form node.id).recordParents links).recordMounting id host form) := by
  obtain ⟨hrendered, hyields, source, hsource, hsame⟩ := render_ledger h hid hnode hrender
  have hframes := Frames.recordParents (rendered.takeId form node.id) links
  have hids := (hyields.keeps.keepsIds_takeId form node.id).frame hframes
  refine ⟨?_, hids.recordMounting id host form⟩
  rw [← hsame.id]
  rcases hyields.form with ⟨hkind, rfl⟩ | ⟨hkind, hle, shown, hshown, hplain, hregistry, hmounting⟩
  · exact hrendered.display_itself hsource (hsame.kind ▸ hkind) links host
  · have hfresh : FreshForm deeds rendered id source form shown :=
      { found := hsource
        wraps := hsame.kind ▸ hkind
        live := hshown
        itself := by
          rw [hplain]
          rfl
        registry := hregistry.trans hsame.registry.symm
        unmounted := hmounting
        younger := Nat.lt_of_lt_of_le (lt_next_of_node? hnode) hle
        untouched := h.subject_ne hle }
    exact hrendered.display_form hfresh links host

/-! ### Mounting and refreshing -/

theorem Frames.append (w : World σ) (host : HostId) (markup : String) :
    w.Frames (w.append host markup) := by
  unfold World.append
  split <;> exact .of_eq rfl rfl

theorem Frames.setInner (w : World σ) (host : HostId) (id markup : String) :
    w.Frames (w.setInner host id markup).2 := by
  obtain ⟨hosts, client, hset, -⟩ := w.setInner_eq host id markup
  rw [hset]
  exact .of_eq rfl rfl

theorem Frames.afterMounting (w : World σ) (id : NodeId) : w.Frames (w.afterMounting id) := by
  unfold World.afterMounting
  split
  · split
    · exact .of_eq rfl rfl
    · exact .of_eq rfl rfl
    · exact .refl w
  · exact .refl w

/-- Mounting a node keeps the invariant, and all ids but that of the form. -/
theorem mount_ledger (h : Ledger deeds w) {id form : NodeId} (hid : .node id ∈ w.held) {node : Node}
    (hnode : w.node? id = some node) {host : HostId} (hrun : w.mount id host = .ok (form, w')) :
    Ledger (deeds ++ [.displays id form]) w' ∧ KeepsIds (some form) w w' := by
  obtain ⟨⟨rendered, after⟩, hrender, hrun⟩ := bind_eq_ok.mp hrun
  obtain ⟨⟨markup, written⟩, hwrite, hrun⟩ := bind_eq_ok.mp hrun
  obtain ⟨rfl, rfl⟩ : rendered = form ∧ (written.append host markup).afterMounting id = w' := by
    simpa [pure, Except.pure] using hrun
  obtain ⟨-, -, source, hsource, hsame⟩ := render_ledger h hid hnode hrender
  rw [idOf_eq hsource, hsame.id] at hwrite
  obtain ⟨links, rfl⟩ := write_inv hwrite
  obtain ⟨hledger, hids⟩ := display_ledger h hid hnode hrender [] host
  let shown := (after.takeId rendered node.id).recordMounting id host rendered
  let written := shown.recordParents links
  have hwritten : shown.Frames written := .recordParents shown links
  have happended : written.Frames (written.append host markup) := .append written host markup
  have hframes := (hwritten.trans happended).trans (.afterMounting (written.append host markup) id)
  exact ⟨hledger.frame hframes, hids.frame hframes⟩

/-- Refreshing a node keeps the invariant, and all ids but that of the form. -/
theorem refresh_ledger (h : Ledger deeds w) {id : NodeId} (hid : .node id ∈ w.held) {node : Node}
    (hnode : w.node? id = some node) (hrun : w.refresh id = .ok w') :
    Ledger (deeds ++ w'.showing id) w' ∧ KeepsIds (w'.rendered? id) w w' := by
  cases hmounting : node.mounting? with
  | none =>
    have hunmounted : (w.node? id).bind Node.mounting? = none := by
      rw [hnode, Option.bind_some, hmounting]
    obtain rfl : w = w' := Except.ok.inj ((refresh_of_unmounted hunmounted).symm.trans hrun)
    have hnone : w.rendered? id = none := by rw [rendered?, hunmounted, Option.map_none]
    rw [showing, hnone]
    refine ⟨by simpa using h, fun n node node' _ hnode hnode' ↦ ?_⟩
    rw [Option.some.inj (hnode.symm.trans hnode')]
  | some mounting =>
    obtain ⟨form, rendered, links, markup, hrender, rfl⟩ := exists_of_refresh hnode hmounting hrun
    obtain ⟨hshown, -⟩ := redisplays_of_render hid hnode hrender links mounting.host
    obtain ⟨hledger, hids⟩ := display_ledger h hid hnode hrender links mounting.host
    generalize ((rendered.takeId form node.id).recordParents links).recordMounting id mounting.host
      form = shown at hshown hledger hids ⊢
    obtain ⟨-, -, hmounted, -⟩ := (hshown.setInner hid mounting.host node.id markup).release hid
    have hframes := (Frames.setInner shown mounting.host node.id markup).trans
      (Frames.release _ (.node form))
    rw [showing, hmounted.rendered?]
    exact ⟨hledger.frame hframes, hids.frame hframes⟩

end LiveMarkup.World
