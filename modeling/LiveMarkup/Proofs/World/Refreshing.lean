import LiveMarkup.Proofs.Markup.Rewriting
import LiveMarkup.Proofs.World.Forms

/-!
What mounting and refreshing do to a world. A refresh displays a mounted node as a new form and
carries everything else over (`World.refresh_carries`); a node that can be displayed is
refreshed without fault, and its element is given the markup inside the form
(`World.exists_refresh`). Mounting adds the markup of the form to the host (`World.exists_mount`).
-/

set_option autoImplicit false
set_option relaxedAutoImplicit false

namespace LiveMarkup

/-- The kinds of nodes that the library brings: plain nodes, containers and paragraphs. -/
def Kind.IsBuiltIn (kind : Kind) : Prop :=
  kind = .plain ∨ kind = .layout ∨ kind = .flexLayout ∨ kind = .text

theorem Kind.IsBuiltIn.ne_greeting {kind : Kind} (h : kind.IsBuiltIn) : kind ≠ .greeting := by
  rintro rfl
  simp [IsBuiltIn] at h

theorem Kind.IsBuiltIn.ne_boxed {kind : Kind} (h : kind.IsBuiltIn) : kind ≠ .boxed := by
  rintro rfl
  simp [IsBuiltIn] at h

theorem Node.HasTextId.insert_id {node : Node} (h : node.HasTextId) :
    node.attributes.insert "id" (.text node.id) = node.attributes := by
  obtain ⟨s, hs⟩ := h
  refine OrderedMap.insert_eq_self ?_
  rw [Node.id, Attributes.id_eq_of_text hs]
  exact hs

/-! ### Taking an id -/

namespace Outline

/-- An outline whose root has another id. -/
def takeId (id : String) : Outline → Outline
  | .node form self content => .node form (self.takeId id) content
  | .leaf child => .leaf child

theorem inside_takeId (id : String) (outline : Outline) :
    (outline.takeId id).inside = outline.inside := by
  cases outline <;> rfl

theorem content_tree_takeId (display : ObservableId → String) (id : String) (outline : Outline) :
    ((outline.takeId id).tree display).content = (outline.tree display).content := by
  cases outline <;> rfl

theorem Holds.of_takeId {id : String} {outline : Outline} {observable : ObservableId}
    (h : (outline.takeId id).Holds observable) : outline.Holds observable := by
  cases outline with
  | leaf child => exact h
  | node form self content =>
    obtain ⟨id', self', content', hpart, hstate⟩ := h
    rcases mem_parts_iff.mp hpart with heq | hinside
    · obtain ⟨-, rfl, -⟩ := Outline.node.inj heq
      exact ⟨form, self, content, List.mem_cons_self, hstate⟩
    · exact ⟨id', self', content', mem_parts_iff.mpr (.inr hinside), hstate⟩

end Outline

namespace World

variable {σ : Type} {w w' w'' : World σ} {skip : NodeId → Prop}

theorem lt_next_of_node? {id : Nat} {node : Node} (h : w.node? id = some node) :
    id < w.nodes.next := by
  obtain ⟨row, hrow, rfl⟩ := List.mem_map.mp (mem_ids_of_node? h)
  exact w.nodes.bounded row hrow

theorem idOf_eq {id : NodeId} {node : Node} (h : w.node? id = some node) : w.idOf id = node.id := by
  rw [idOf, h, Option.elim_some]

/-- A node that takes an id unfolds as before but for its own id. -/
theorem Unfolds.takeId {form : NodeId} {outline : Outline} (h : w.Unfolds form outline)
    (id : String) : (w.takeId form id).Unfolds form (outline.takeId id) := by
  obtain ⟨node, parts, hnode, hparts, rfl⟩ := unfolds_iff.mp h
  refine unfolds_iff.mpr ⟨node.takeId id, parts, ?_, ?_, rfl⟩
  · rw [World.takeId, node?_modifyNode, if_pos rfl, hnode, Option.map_some]
  · refine forall₂_imp_of_mem hparts fun child hchild part _ hunfolds ↦ ?_
    cases child with
    | node below =>
      refine hunfolds.congr fun id' self content hin ↦ ?_
      obtain ⟨deeper, hdeeper, hpart⟩ := Unfolds.exists_reaches hunfolds _ hin
      obtain ⟨_, _, _, _, heq⟩ := unfolds_iff.mp hpart
      obtain ⟨rfl, -, -⟩ := Outline.node.inj heq
      -- the form does not stand below itself
      have hne : form ≠ id' := by
        rintro rfl
        exact h.acyclic form .refl (.head' ⟨node, hnode, hchild⟩ hdeeper)
      rw [World.takeId, node?_modifyNode, if_neg hne]
      exact hunfolds.bare_of_mem hin
    | state => exact hunfolds
    | text => exact hunfolds
    | number => exact hunfolds

/-- What the outline of a form that took a name has to do with the outline of the node that it
displays. -/
structure ShowsAs (w : World σ) (name : String) (outline form : Outline) : Prop where
  ready : w.Ready form
  holds : ∀ observable, form.Holds observable → outline.Holds observable
  inside : ∀ part ∈ form.inside, ∀ id, PrintsId part id →
    (∃ part' ∈ outline.inside, PrintsId part' id) ∨ w.WillGenerate id
  root : ∀ id, PrintsId form id ↔ id = name
  looks : ∀ display, Looks display outline (form.tree display)

/-- A form that takes a name shows the node under that name. -/
theorem FormOf.takeId {outline : Outline} {id : NodeId} {self : Node} {content : List Outline}
    (h : w.FormOf outline (.node id self content))
    (hlooks : ∀ display, Looks display outline (Outline.tree display (.node id self content)))
    {name : String} (hname : NoQuote name) (hsame : outline.takeId name = outline) :
    w.ShowsAs name outline (Outline.takeId name (.node id self content)) where
  ready := fun id' self' content' hpart ↦ by
    have hself := h.ready id self content List.mem_cons_self
    rcases Outline.mem_parts_iff.mp hpart with heq | hinside
    · obtain ⟨-, rfl, -⟩ := Outline.node.inj heq
      refine ⟨⟨hself.safe.tag, safeAttribute_insert_id hself.safe.attributes hname,
          hself.safe.texts⟩,
        ⟨name, ?_⟩, hself.container, hself.stem⟩
      show (OrderedMap.insert self.attributes "id" _).get? "id" = _
      rw [OrderedMap.get?_insert, if_pos rfl]
    · exact h.ready id' self' content' (Outline.mem_parts_iff.mpr (.inr hinside))
  holds := fun observable hholds ↦ h.holds observable hholds.of_takeId
  inside := fun part hpart ↦ h.inside part (by rwa [Outline.inside_takeId] at hpart)
  root := fun id' ↦ by
    refine Attributes.mem_printed_id_iff ?_
    show (OrderedMap.insert self.attributes "id" _).get? "id" = _
    rw [OrderedMap.get?_insert, if_pos rfl]
  looks := fun display ↦ by
    rcases h.root with heq | ⟨hwrapped, _⟩
    · have hform := hlooks display
      rw [heq] at hform
      rw [heq, hsame]
      exact hform
    · exact (hlooks display).rename hwrapped (Attributes.besidesId_printed_insert_id _ _)

/-- A rendered form may take the id of the node. -/
theorem Renders.takeId {id form : NodeId} (h : Renders skip w w' id form) :
    w.Carries skip (w'.takeId form (w.idOf id)) := by
  refine h.carries.takeId fun node hnode htext ↦ ?_
  rcases h.own with rfl | hnew
  · rw [idOf_eq hnode]
    exact htext.insert_id
  · exact absurd (lt_next_of_node? hnode) (Nat.not_lt_of_le hnew)

theorem Presents.noQuote_id {node : Node} (h : w.Presents node) : NoQuote node.id := by
  obtain ⟨s, hs⟩ := h.textId
  exact (h.safe.attributes _
    ((Attributes.mem_printed_id_iff hs).mpr (Attributes.id_eq_of_text hs))).value

/-! ### Mounted nodes -/

/-- A node is mounted on a host and displayed as a form. -/
def MountedAs (w : World σ) (id : NodeId) (host : HostId) (form : NodeId) : Prop :=
  ∃ node, w.node? id = some node ∧
    node.mounting? = some ⟨host, if form = id then .itself else .wrapper form⟩

namespace MountedAs

variable {id form : NodeId} {host : HostId}

theorem rendered? (h : w.MountedAs id host form) : w.rendered? id = some form := by
  obtain ⟨node, hnode, hmounting⟩ := h
  rw [World.rendered?, hnode, Option.bind_some, hmounting, Option.map_some]
  by_cases hown : form = id
  · rw [if_pos hown, hown]
  · rw [if_neg hown]

/-- The form of a held node is kept. -/
theorem kept (h : w.MountedAs id host form) (hid : .node id ∈ w.held)
    (hskip : ¬skip id) {node : Node}
    (hform : w.node? form = some node) : w.Kept skip form := by
  obtain ⟨owner, howner, hmounting⟩ := h
  by_cases hown : form = id
  · rw [hown]
    exact .held hid howner
  · refine .wrapper (.held hid howner) hskip howner ?_ hform
    rw [Node.wrapper?, hmounting, if_neg hown]

theorem of_carries (h : w.MountedAs id host form) (hcarries : w.Carries skip w')
    (hid : .node id ∈ w.held) (hskip : ¬skip id) : w'.MountedAs id host form := by
  obtain ⟨node, hnode, hmounting⟩ := h
  obtain ⟨node', hnode', _, hsame⟩ := hcarries.nodes id node (.held hid hnode) hnode
  exact ⟨node', hnode', (hsame hskip).trans hmounting⟩

end MountedAs

/-- A held node is recorded as mounted. -/
theorem mountedAs_recordMounting {id : NodeId} (hid : .node id ∈ w.held) {node : Node}
    (hnode : w.node? id = some node) (host : HostId) (form : NodeId) :
    (w.recordMounting id host form).MountedAs id host form := by
  let mounting : Mounting := ⟨host, if form = id then .itself else .wrapper form⟩
  let mounted := w.modifyNode id fun n ↦ { n with mounting? := some mounting }
  have hmounted : mounted.node? id = some { node with mounting? := some mounting } := by
    rw [node?_modifyNode, if_pos rfl, hnode, Option.map_some]
  have hkept : mounted.Kept (fun _ ↦ False) id := .held hid hmounted
  exact ⟨_, (node?_sweep hkept).trans hmounted, rfl⟩

/-! ### Displaying a node anew -/

/-- A world after a node was displayed on a host as a form, to which a reference was taken. -/
structure Redisplays (w w' : World σ) (id : NodeId) (host : HostId) (form : NodeId) : Prop where
  carries : w.Carries (· = id) w'
  held : w'.held.Perm (.node form :: w.held)
  mounted : w'.MountedAs id host form

namespace Redisplays

variable {id form : NodeId} {host : HostId}

theorem recordMounting (hcarries : w.Carries (· = id) w')
    (hheld : w'.held.Perm (.node form :: w.held))
    (hid : .node id ∈ w.held) {node : Node} (hnode : w.node? id = some node) (host : HostId) :
    Redisplays w (w'.recordMounting id host form) id host form where
  carries := hcarries.recordMounting rfl host form
  held := hheld
  mounted := by
    obtain ⟨node', hnode', _⟩ := hcarries.nodes id node (.held hid hnode) hnode
    exact mountedAs_recordMounting (hcarries.held _ hid) hnode' host form

/-- What changes no mounting may come after. -/
theorem trans (h : Redisplays w w' id host form) (hid : .node id ∈ w.held)
    (hcarries : w'.Carries (fun _ ↦ False) w'') (hheld : w''.held = w'.held) :
    Redisplays w w'' id host form where
  carries := h.carries.trans (hcarries.mono fun _ hfalse ↦ hfalse.elim)
  held := by rw [hheld]; exact h.held
  mounted := h.mounted.of_carries hcarries (h.carries.held _ hid) not_false

/-- The reference to the form may be given up: the node keeps the form alive. -/
theorem release (h : Redisplays w w' id host form) (hid : .node id ∈ w.held) :
    w.Carries (· = id) (w'.release (.node form)) ∧
      (w'.release (.node form)).held.Perm w.held ∧
      (w'.release (.node form)).MountedAs id host form ∧
      ∀ outline, w'.Unfolds form outline → (w'.release (.node form)).Unfolds form outline := by
  let dropped : World σ := { w' with held := w'.held.erase (.node form) }
  have hheld : dropped.held.Perm w.held := erase_perm h.held
  have hidHeld : .node id ∈ dropped.held := hheld.mem_iff.mpr hid
  have hdropped : dropped.MountedAs id host form := h.mounted
  have hcarries : w.Carries (· = id) dropped :=
    h.carries.changeHeld fun root hroot ↦ hheld.mem_iff.mpr hroot
  refine ⟨hcarries.sweep, hheld, ?_, fun outline houtline ↦ ?_⟩
  · exact hdropped.of_carries (Carries.refl (fun _ ↦ False) dropped).sweep hidHeld not_false
  · obtain ⟨node, _, hnode, _⟩ := unfolds_iff.mp houtline
    have hkept : dropped.Kept (fun _ ↦ False) form := hdropped.kept hidHeld not_false hnode
    exact (houtline.changeHeld _).sweep hkept

end Redisplays

/-- A node that is held still unfolds when something else is given up. -/
theorem Unfolds.release {root : NodeId} {outline : Outline} (h : w.Unfolds root outline)
    {freed : Root}
    (hroot : .node root ∈ (w.release freed).held) : (w.release freed).Unfolds root outline := by
  obtain ⟨_, _, hnode, _⟩ := unfolds_iff.mp h
  have hkept : World.Kept { w with held := w.held.erase freed } (fun _ ↦ False) root :=
    .held hroot hnode
  exact (h.changeHeld _).sweep hkept

/-- What is written and recorded about a form leaves it as it unfolds. -/
theorem Unfolds.recordMounting {form : NodeId} {shown : Outline} (h : w.Unfolds form shown)
    (hready : w.Ready shown) (hform : .node form ∈ w.held) (id : NodeId) (host : HostId) :
    (w.recordMounting id host form).Unfolds form shown := by
  obtain ⟨node, _, hnode, _⟩ := unfolds_iff.mp h
  have hkept : w.Kept (· = id) form := .held hform hnode
  exact ((Carries.refl (· = id) w).recordMounting rfl host form).unfolds h hkept hready

/-! ### Changing hosts -/

/-- A world with other hosts and another state of the client carries everything over. -/
theorem Carries.changeHosts (w : World σ) (hosts : Table Host) (client : σ) :
    w.Carries skip { w with hosts := hosts, client := client } :=
  .of_forgetParent (fun _ ↦ rfl) rfl rfl rfl rfl

theorem Unfolds.changeHosts {root : NodeId} {outline : Outline} (h : w.Unfolds root outline)
    (hosts : Table Host) (client : σ) :
    World.Unfolds { w with hosts := hosts, client := client } root outline :=
  h.congr fun _ _ _ hpart ↦ h.bare_of_mem hpart

theorem traverse_inv {id : NodeId} {tree : Tree} (h : w.traverse id = .ok (tree, w')) :
    ∃ links, w' = w.recordParents links := by
  rw [traverse] at h
  split at h
  · rename_i tree' _
    obtain ⟨-, rfl⟩ : tree' = tree ∧ w.recordParents tree'.links = w' := by simpa using h
    exact ⟨_, rfl⟩
  · cases h

theorem write_inv {id : NodeId} {markup : String} (h : w.write id = .ok (markup, w')) :
    ∃ links, w' = w.recordParents links := by
  obtain ⟨⟨tree, traversed⟩, htraverse, h⟩ := bind_eq_ok.mp h
  obtain ⟨-, rfl⟩ : tree.markup = markup ∧ traversed = w' := by
    simpa [pure, Except.pure] using h
  exact traverse_inv htraverse

theorem writeInner_inv {id : NodeId} {markup : String} (h : w.writeInner id = .ok (markup, w')) :
    ∃ links, w' = w.recordParents links := by
  obtain ⟨⟨tree, traversed⟩, htraverse, h⟩ := bind_eq_ok.mp h
  obtain ⟨-, rfl⟩ : tree.innerMarkup = markup ∧ traversed = w' := by
    simpa [pure, Except.pure] using h
  exact traverse_inv htraverse

variable [Journal σ]

theorem setInner_eq (w : World σ) (host : HostId) (id markup : String) :
    ∃ hosts client, (w.setInner host id markup).2 = { w with hosts := hosts, client := client } ∧
      ∀ other, other ≠ host → hosts.get? other = w.hosts.get? other := by
  unfold setInner
  split
  · split
    · exact ⟨_, _, rfl, fun other hother ↦ by rw [Table.get?_modify, if_neg (Ne.symm hother)]⟩
    · exact ⟨_, _, rfl, fun _ _ ↦ rfl⟩
  · exact ⟨_, _, rfl, fun _ _ ↦ rfl⟩

/-- What is asked of a host is no matter for the nodes. -/
theorem Unfolds.setInner {root : NodeId} {outline : Outline} (h : w.Unfolds root outline)
    (host : HostId) (id markup : String) : (w.setInner host id markup).2.Unfolds root outline := by
  obtain ⟨hosts, client, hset, -⟩ := setInner_eq w host id markup
  rw [hset]
  exact h.changeHosts hosts client

theorem Redisplays.setInner {id form : NodeId} {host : HostId} (h : Redisplays w w' id host form)
    (hid : .node id ∈ w.held) (other : HostId) (name markup : String) :
    Redisplays w (w'.setInner other name markup).2 id host form := by
  obtain ⟨hosts, client, hset, -⟩ := setInner_eq w' other name markup
  rw [hset]
  exact h.trans hid (.changeHosts w' hosts client) rfl

/-- An element that a surface has is given other markup. -/
theorem setInner_surface {host : HostId} {surface : Surface} {id : String} {element : Located}
    (hhost : w.hosts.get? host = some (.surface surface)) (hfind : surface.find? id = some element)
    (markup : String) :
    (w.setInner host id markup).2 =
      w.setSurface host
        { surface with markup := String.ofList (element.withInner markup.toList) } := by
  rw [setInner, host_eq hhost]
  dsimp only
  rw [Surface.setInner_of_find? hfind]

/-! ### Refreshing and mounting -/

/-- A refresh does nothing to a node that is not mounted. -/
theorem refresh_of_unmounted {id : NodeId} (h : (w.node? id).bind Node.mounting? = none) :
    w.refresh id = .ok w := by
  rw [refresh, h]
  rfl

/-- A refresh renders a mounted node, gives its id to the form and records that it is mounted as
that form; then the host is asked to change, and the reference to the form is given up. -/
theorem exists_of_refresh {id : NodeId} {node : Node} (hnode : w.node? id = some node)
    {mounting : Mounting} (hmounting : node.mounting? = some mounting)
    (h : w.refresh id = .ok w') :
    ∃ form rendered links markup, w.render id = .ok (form, rendered) ∧
      w' = ((((rendered.takeId form node.id).recordParents links).recordMounting id mounting.host
        form).setInner mounting.host node.id markup).2.release (.node form) := by
  rw [refresh, hnode, Option.bind_some, hmounting] at h
  dsimp only at h
  rw [idOf_eq hnode] at h
  obtain ⟨⟨form, rendered⟩, hrender, h⟩ := bind_eq_ok.mp h
  obtain ⟨⟨markup, written⟩, hwrite, h⟩ := bind_eq_ok.mp h
  obtain ⟨links, rfl⟩ := writeInner_inv hwrite
  refine ⟨form, rendered, links, markup, hrender, ?_⟩
  simpa [pure, Except.pure] using h.symm

/-- A mounted node is refreshed if its form, which took its id, can be written: the host is asked to
show what is inside the form. -/
theorem refresh_eq_ok {id form : NodeId} {node : Node} (hnode : w.node? id = some node)
    {mounting : Mounting} (hmounting : node.mounting? = some mounting) {rendered : World σ}
    (hrender : w.render id = .ok (form, rendered))
    (hobservables : rendered.observables = w.observables)
    {shown : Outline} (hshown : (rendered.takeId form node.id).Unfolds form shown) :
    w.refresh id = .ok (((((rendered.takeId form node.id).recordParents
      (shown.tree w.displayOf).links).recordMounting id mounting.host form).setInner mounting.host
        node.id (shown.tree w.displayOf).innerMarkup).2.release (.node form)) := by
  have hdisplay : (rendered.takeId form node.id).displayOf = w.displayOf :=
    displayOf_congr hobservables
  rw [refresh, hnode, Option.bind_some, hmounting]
  dsimp only
  rw [idOf_eq hnode, hrender]
  show ((rendered.takeId form node.id).writeInner form >>= _) = _
  rw [writeInner_eq_ok hshown, hdisplay]
  rfl

/-- A node that was rendered is displayed anew when the form takes its id and it is mounted as the
form. -/
theorem redisplays_of_render {id form : NodeId} (hid : .node id ∈ w.held) {node : Node}
    (hnode : w.node? id = some node) {rendered : World σ}
    (hrender : w.render id = .ok (form, rendered)) (links : List (NodeId × NodeId))
    (host : HostId) :
    Redisplays w (((rendered.takeId form node.id).recordParents links).recordMounting id host form)
        id host form ∧
      (((rendered.takeId form node.id).recordParents links).recordMounting id host form).hosts =
        w.hosts := by
  have hrenders : Renders (· = id) w rendered id form :=
    renderWithin_renders _ w id form rendered ⟨node, hnode⟩ hrender
  have htaken := hrenders.takeId
  rw [idOf_eq hnode] at htaken
  have hcarries := htaken.trans (.recordParents _ links)
  have hheld : ((rendered.takeId form node.id).recordParents links).held = rendered.held := by
    rw [held_recordParents]
    rfl
  refine ⟨.recordMounting hcarries ?_ hid hnode host, ?_⟩
  · rw [hheld]
    exact hrenders.held
  · show ((rendered.takeId form node.id).recordParents links).hosts = w.hosts
    rw [hosts_recordParents]
    exact hrenders.hosts

/-- A refresh displays a node anew on its host, and gives up the reference to its form. -/
theorem refresh_inv {id : NodeId} (hid : .node id ∈ w.held) {node : Node}
    (hnode : w.node? id = some node) {mounting : Mounting}
    (hmounting : node.mounting? = some mounting)
    (h : w.refresh id = .ok w') :
    ∃ form shown markup, Redisplays w shown id mounting.host form ∧ shown.hosts = w.hosts ∧
      w' = (shown.setInner mounting.host node.id markup).2.release (.node form) := by
  obtain ⟨form, rendered, links, markup, hrender, rfl⟩ := exists_of_refresh hnode hmounting h
  obtain ⟨hshown, hhosts⟩ := redisplays_of_render hid hnode hrender links mounting.host
  exact ⟨form, _, markup, hshown, hhosts, rfl⟩

/-- A held node that can be displayed is rendered as a form, which may take its name. -/
theorem exists_render {id : NodeId} {outline : Outline} {node : Node} (hid : .node id ∈ w.held)
    (hunfolds : w.Unfolds id outline) (hready : w.Ready outline) (hnode : w.node? id = some node)
    (hkind : node.kind.IsBuiltIn) :
    ∃ form rendered shown, w.render id = .ok (form, rendered) ∧
      Renders (· = id) w rendered id form ∧ (rendered.takeId form node.id).Unfolds form shown ∧
      w.ShowsAs node.id outline shown := by
  have hkept : w.Kept (· = id) id := .held hid hnode
  obtain ⟨form, rendered, formOutline, hrender, hform, hformOf, hlooks⟩ :=
    exists_renderWithin w.depthLimit w id outline node hunfolds.outlineWithin? hkept hready hnode
      hkind.ne_greeting hkind.ne_boxed
  refine ⟨form, rendered, formOutline.takeId node.id, hrender,
    renderWithin_renders _ w id form rendered ⟨node, hnode⟩ hrender, hform.takeId node.id, ?_⟩
  obtain ⟨self, content, _, _, rfl⟩ := unfolds_iff.mp hform
  obtain ⟨same, parts, hsame, _, rfl⟩ := unfolds_iff.mp hunfolds
  obtain rfl : same = node := Option.some.inj (hsame.symm.trans hnode)
  have hself := hready id same.bare parts List.mem_cons_self
  refine hformOf.takeId hlooks hself.noQuote_id ?_
  rw [Outline.takeId, Node.takeId, show same.id = same.bare.id from rfl, hself.textId.insert_id]

/-- A mounted node that can be displayed is refreshed: its element is given what is inside its new
form, which takes its name. -/
theorem exists_refresh {id : NodeId} {outline : Outline} {node : Node} (hid : .node id ∈ w.held)
    (hunfolds : w.Unfolds id outline) (hready : w.Ready outline) (hnode : w.node? id = some node)
    (hkind : node.kind.IsBuiltIn) {mounting : Mounting}
    (hmounting : node.mounting? = some mounting) :
    ∃ form shown before, Redisplays w before id mounting.host form ∧ before.hosts = w.hosts ∧
      before.Unfolds form shown ∧ w.ShowsAs node.id outline shown ∧
      w.refresh id = .ok ((before.setInner mounting.host node.id
        (shown.tree w.displayOf).innerMarkup).2.release (.node form)) := by
  obtain ⟨form, rendered, shown, hrender, hrenders, hshown, hshowsAs⟩ :=
    exists_render hid hunfolds hready hnode hkind
  let taken := rendered.takeId form node.id
  let written := taken.recordParents (shown.tree w.displayOf).links
  have htaken : w.Carries (· = id) taken := by
    have hcarries := hrenders.takeId
    rwa [idOf_eq hnode] at hcarries
  have hcarries : w.Carries (· = id) written := htaken.trans (.recordParents _ _)
  have hheld : written.held = rendered.held := by
    rw [held_recordParents]
    rfl
  have hwritten : written.Unfolds form shown :=
    hshown.of_bare fun other ↦ map_bare_of_forgetParent (forgetParent_recordParents taken _ other)
  refine ⟨form, shown, written.recordMounting id mounting.host form,
    .recordMounting hcarries ?_ hid hnode mounting.host, ?_, ?_, hshowsAs,
    refresh_eq_ok hnode hmounting hrender hrenders.carries.observables hshown⟩
  · rw [hheld]
    exact hrenders.held
  · show written.hosts = w.hosts
    rw [hosts_recordParents]
    exact hrenders.hosts
  · refine hwritten.recordMounting (hcarries.ready_iff.mpr hshowsAs.ready) ?_ id mounting.host
    rw [hheld]
    exact hrenders.held.mem_iff.mpr List.mem_cons_self

/-- Nothing happens after a node of a kind of the library was mounted. -/
theorem afterMounting_of_isBuiltIn {id : NodeId} {node : Node} (hnode : w.node? id = some node)
    (hkind : node.kind.IsBuiltIn) : w.afterMounting id = w := by
  rw [afterMounting, hnode]
  dsimp only
  rcases hkind with hkind | hkind | hkind | hkind <;> rw [hkind]

/-- A node that can be displayed is mounted: the host shows its form, which takes its name. -/
theorem exists_mount {id : NodeId} {outline : Outline} {node : Node} (hid : .node id ∈ w.held)
    (hunfolds : w.Unfolds id outline) (hready : w.Ready outline) (hnode : w.node? id = some node)
    (hkind : node.kind.IsBuiltIn) {host : HostId} {surface : Surface}
    (hhost : w.hosts.get? host = some (.surface surface)) :
    ∃ form shown before, Redisplays w before id host form ∧ before.hosts = w.hosts ∧
      before.Unfolds form shown ∧ w.ShowsAs node.id outline shown ∧
      w.mount id host = .ok (form,
        before.setSurface host (surface.append (shown.tree w.displayOf).markup)) := by
  obtain ⟨form, rendered, shown, hrender, hrenders, hshown, hshowsAs⟩ :=
    exists_render hid hunfolds hready hnode hkind
  have hself : node.HasTextId := by
    obtain ⟨same, parts, hsame, _, rfl⟩ := unfolds_iff.mp hunfolds
    obtain rfl : same = node := Option.some.inj (hsame.symm.trans hnode)
    exact (hready id same.bare parts List.mem_cons_self).textId
  have hname : rendered.idOf id = node.id := by
    obtain ⟨node', hnode', hkin, _⟩ := hrenders.carries.nodes id node (.held hid hnode) hnode
    rw [idOf_eq hnode', Node.id, hkin.attributes hself, Node.id]
  let taken := rendered.takeId form node.id
  have htaken : w.Carries (· = id) taken := by
    have hcarries := hrenders.takeId
    rwa [idOf_eq hnode] at hcarries
  let recorded := taken.recordMounting id host form
  have hrecorded : Redisplays w recorded id host form :=
    .recordMounting htaken hrenders.held hid hnode host
  have hformHeld : .node form ∈ taken.held := hrenders.held.mem_iff.mpr List.mem_cons_self
  have hshown' : recorded.Unfolds form shown :=
    hshown.recordMounting (htaken.ready_iff.mpr hshowsAs.ready) hformHeld id host
  have hdisplay : recorded.displayOf = w.displayOf := displayOf_congr hrecorded.carries.observables
  let before := recorded.recordParents (shown.tree w.displayOf).links
  have hbefore : Redisplays w before id host form :=
    hrecorded.trans hid (.recordParents recorded _) (held_recordParents ..)
  have hhosts : before.hosts = w.hosts := (hosts_recordParents ..).trans hrenders.hosts
  refine ⟨form, shown, before, hbefore, hhosts,
    hshown'.of_bare fun other ↦
      map_bare_of_forgetParent (forgetParent_recordParents recorded _ other),
    hshowsAs, ?_⟩
  have hafter :
    (before.setSurface host (surface.append (shown.tree w.displayOf).markup)).afterMounting
      id = before.setSurface host (surface.append (shown.tree w.displayOf).markup) := by
    obtain ⟨node', hnode', hkin, _⟩ :=
      hbefore.carries.nodes id node (.held hid hnode) hnode
    refine afterMounting_of_isBuiltIn hnode' ?_
    rw [hkin.eq]
    exact hkind
  rw [mount, hrender]
  show
    (((rendered.takeId form (rendered.idOf id)).recordMounting id host form).write form >>= _) = _
  rw [hname]
  show (recorded.write form >>= _) = _
  rw [write_eq_ok hshown', hdisplay]
  show Except.ok (form, (before.append host (shown.tree w.displayOf).markup).afterMounting id) = _
  rw [append_surface (by rw [hhosts]; exact hhost), hafter]

end World

end LiveMarkup
