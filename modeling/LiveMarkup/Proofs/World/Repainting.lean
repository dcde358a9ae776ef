import LiveMarkup.Proofs.Calls.Exhibition
import LiveMarkup.Proofs.World.Composing

/-!
What a refresh shows. The forms of safe nodes are safe (`World.RendersAs.showsSafely`), so that the
host can be given what is inside them; a refresh changes nothing else there
(`World.exists_refresh_repaints`). A node whose content holds nothing that is rendered in turn shows
its own content (`World.Rendering.content_tree`), and the next refresh finds it as it is.
-/

set_option autoImplicit false
set_option relaxedAutoImplicit false

namespace LiveMarkup

/-- A form prints what it was given, and its id. -/
theorem Node.IsFormOf.printed {node form : Node} {tag : String} {attributes : Attributes}
    {content : List Child} (h : node.IsFormOf tag attributes.toList content form) :
    form.attributes.printed = attributes.printed ++ [("id", form.id)] := by
  rw [Attributes.printed, h.attributes, List.filterMap_append]
  rfl

namespace World

variable {σ : Type} {w w' rendered : World σ} {id form : NodeId} {node : Node}
  {content content' : List Child} {forms : List (Nat × Node)} {outline shown : Outline}
  {host : HostId}

/-! ### Forms of safe nodes -/

/-- A node shows markup that cannot be misread, given what observables display. -/
structure ShowsSafely (w : World σ) (node : Node) : Prop where
  safe : node.Safe
  values : ∀ observable, .state observable ∈ node.content →
    SafeText (w.displayOf observable).toList

/-- A node and the forms that it may be given show markup that cannot be misread. -/
structure RendersSafely (w : World σ) (node : Node) : Prop where
  shows : w.ShowsSafely node
  container : node.kind = .layout ∨ node.kind = .flexLayout →
    (∀ name ∈ node.classes, NoQuote name) ∧ NoQuote node.style
  stem : NoQuote (w.registry node.registry).config.idStem

/-- A form of a safe node is safe if its tag and its attributes are, and its entries are nodes or
entries of the node. -/
theorem RendersSafely.showsSafely {new : Node} (h : w.RendersSafely node) {tag : String}
    {attributes : Attributes} (hnew : node.IsFormOf tag attributes.toList content new)
    (htag : SafeTag tag.toList) (hattributes : ∀ pair ∈ attributes.printed, SafeAttribute pair)
    (hcontent : ∀ child ∈ content, child.node? = none → child ∈ node.content)
    (hnamed : w.IsNamed new) :
    w.ShowsSafely new := by
  have hkey : SafeAttribute ("id", "") := by decide +kernel
  obtain ⟨count, hid⟩ := hnamed
  rw [hnew.registry] at hid
  refine ⟨⟨hnew.tag ▸ htag, fun pair hpair ↦ ?_, fun s hs ↦ ?_⟩, fun observable hstate ↦ ?_⟩
  · rw [hnew.printed] at hpair
    rcases List.mem_append.mp hpair with hpair | hpair
    · exact hattributes pair hpair
    · rw [List.mem_singleton.mp hpair]
      exact ⟨hkey.key, hid ▸ h.stem.append (noQuote_toString count)⟩
  · exact h.shows.safe.texts s (hcontent _ (hnew.content ▸ hs) rfl)
  · exact h.shows.values observable (hcontent _ (hnew.content ▸ hstate) rfl)

/-- What is no node is not replaced in a content. -/
theorem Composes.mem (h : w.Composes content content' forms) {child : Child}
    (hchild : child ∈ content') (hnone : child.node? = none) : child ∈ content := by
  induction content generalizing content' forms with
  | nil =>
    cases h
    cases hchild
  | cons first content ih =>
    cases h with
    | layout _ _ _ hrest =>
      rcases List.mem_cons.mp hchild with rfl | hlater
      · cases hnone
      · exact List.mem_cons_of_mem _ (ih hrest hlater)
    | other _ hrest =>
      rcases List.mem_cons.mp hchild with rfl | hlater
      · exact List.mem_cons_self
      · exact List.mem_cons_of_mem _ (ih hrest hlater)

mutual

/-- All forms that are created for a node show markup that cannot be misread, if the nodes from it
down are safe: a form has tag, attributes and texts from the node that it was created for. -/
theorem RendersAs.showsSafely {id form : NodeId} {forms : List (Nat × Node)}
    (h : w.RendersAs id form forms) :
    (∀ node, w.node? id = some node → node.kind ≠ .greeting ∧ node.kind ≠ .boxed) →
    (∀ n node, w.Reaches id n → w.node? n = some node → w.RendersSafely node) →
    (∀ new ∈ forms, w.IsNamed new.2) → ∀ new ∈ forms, w.ShowsSafely new.2 :=
  match h with
  | .itself _ _ => by simp
  | .container hnode hcontainer hcontent hnew => by
    intro hkind hsafe hnamed
    have hself := hsafe id _ .refl hnode
    obtain ⟨hclasses, hstyle⟩ := hself.container
      (hcontainer.imp_right fun h ↦ h.resolve_right (hkind _ hnode).2)
    have hbelow := hcontent.showsSafely
      (fun child n found hchild hn hfound ↦ hsafe n found (.head ⟨_, hnode, hchild⟩ hn) hfound)
      fun new hnew ↦ hnamed new (List.mem_append_left _ hnew)
    intro new hmem
    rcases List.mem_append.mp hmem with hmem | hmem
    · exact hbelow new hmem
    · obtain rfl := List.mem_singleton.mp hmem
      exact hself.showsSafely (toList_layoutAttributes _ ▸ hnew) (by decide +kernel)
        (safeAttribute_layoutAttributes hclasses hstyle) (fun child ↦ hcontent.mem)
        (hnamed _ (List.mem_append_right _ List.mem_cons_self))
  | .paragraph hnode _ hnew => by
    intro _ hsafe hnamed new hmem
    obtain rfl := List.mem_singleton.mp hmem
    have hattributes : ∀ pair ∈ Attributes.printed ∅, SafeAttribute pair :=
      fun _ hpair ↦ nomatch hpair
    exact (hsafe id _ .refl hnode).showsSafely hnew (by decide +kernel) hattributes
      (fun _ hchild _ ↦ hchild) (hnamed _ List.mem_cons_self)
  | .heading hnode hgreeting _ => fun hkind ↦ absurd hgreeting (hkind _ hnode).1

/-- The same for a content that is laid out. -/
theorem Composes.showsSafely {content content' : List Child} {forms : List (Nat × Node)}
    (h : w.Composes content content' forms) :
    (∀ child n node, .node child ∈ content → w.Reaches child n → w.node? n = some node →
      w.RendersSafely node) →
    (∀ new ∈ forms, w.IsNamed new.2) → ∀ new ∈ forms, w.ShowsSafely new.2 :=
  match h with
  | .nil => by simp
  | .layout hnode hlayout hform hrest => by
    intro hsafe hnamed new hmem
    have hfirst := hform.showsSafely
      (fun other hother ↦ by
        obtain rfl := Option.some.inj (hnode.symm.trans hother)
        constructor <;> intro hkind <;> rw [hkind] at hlayout <;> cases hlayout)
      (fun n found ↦ hsafe _ n found List.mem_cons_self)
      fun new hnew ↦ hnamed new (List.mem_append_left _ hnew)
    have hlater := hrest.showsSafely
      (fun child n found hchild ↦ hsafe child n found (List.mem_cons_of_mem _ hchild))
      fun new hnew ↦ hnamed new (List.mem_append_right _ hnew)
    exact (List.mem_append.mp hmem).elim (hfirst new) (hlater new)
  | .other _ hrest => fun hsafe ↦ hrest.showsSafely
      fun child n found hchild ↦ hsafe child n found (List.mem_cons_of_mem _ hchild)

end

/-! ### What a form shows -/

/-- Nothing in the content of a node is rendered when the node is: it is no container, or neither a
container nor a text stands in it. -/
def IsFlat (w : World σ) (node : Node) : Prop :=
  node.kind = .layout ∨ node.kind = .flexLayout →
    ∀ id below, .node id ∈ node.content → w.node? id = some below →
      below.kind ≠ .layout ∧ below.kind ≠ .flexLayout ∧ below.kind ≠ .text

/-- A content in which there is neither a container nor a text is laid out as it is. -/
theorem Composes.eq_of_flat (h : w.Composes content content' forms)
    (hflat : ∀ id below, .node id ∈ content → w.node? id = some below →
      below.kind ≠ .layout ∧ below.kind ≠ .flexLayout ∧ below.kind ≠ .text) :
    content' = content := by
  induction content generalizing content' forms with
  | nil =>
    cases h
    rfl
  | cons first content ih =>
    have hlater := fun id below hid ↦ hflat id below (List.mem_cons_of_mem _ hid)
    cases h with
    | @layout id form below _ _ _ _ hnode hlayout hform hrest =>
      obtain ⟨hblock, hflex, htext⟩ := hflat id below List.mem_cons_self hnode
      have hpanel : below.kind = .panel := by
        cases hkind : below.kind with
        | panel => rfl
        | layout => exact absurd hkind hblock
        | flexLayout => exact absurd hkind hflex
        | text => exact absurd hkind htext
        | plain | badge | greeting | tracked | boxed =>
          rw [hkind] at hlayout
          cases hlayout
      have hsame := hform.by_kind hnode
      rw [hpanel] at hsame
      rw [hsame.1, ih hrest hlater]
    | other _ hrest => rw [ih hrest hlater]

/-- A world after a held node was rendered: the forms of the node are new, and the one that it is
displayed as unfolds to nodes from the node down and to forms. -/
structure Rendering (w rendered : World σ) (id form : NodeId) (outline shown : Outline)
    (forms : List (Nat × Node)) : Prop where
  drawn : Drawn (· = id) (· ∈ outline.ids) (fun _ ↦ True) id outline form [] w rendered
  renders : w.RendersAs id form forms
  registers : Registers forms w rendered
  unfolds : rendered.Unfolds form shown
  ids : ∀ n ∈ shown.ids, n ∈ outline.ids ∨ w.Fresh rendered n

namespace Rendering

variable (h : Rendering w rendered id form outline shown forms) (hunfolds : w.Unfolds id outline)
  (hnode : w.node? id = some node)

include h hunfolds

/-- When the form takes a name, the node does so only if it is its own form. -/
theorem unfolds_takeId (name : String) : (rendered.takeId form name).Unfolds id
    (if form = id then outline.takeId name else outline) := by
  have hrendered : rendered.Unfolds id outline :=
    hunfolds.of_nodes fun n hn ↦ h.drawn.grows.nodes n hn
  split
  · rename_i heq
    subst heq
    exact hrendered.takeId name
  · rename_i hne
    refine hrendered.of_nodes fun n hn ↦ ?_
    -- a form that is not the node itself is new
    have hform : form ≠ n := by
      rintro rfl
      obtain ⟨found, hfound⟩ := hunfolds.live form (hunfolds.mem_ids_iff.mp hn)
      have hold := lt_next_of_node? hfound
      have hplace := h.drawn.place
      have hnext := h.drawn.next
      split at hplace
      · exact hne hplace
      · omega
    rw [World.takeId, node?_modifyNode, if_neg hform]

include hnode

/-- What is displayed of safe nodes cannot be misread. -/
theorem safe_tree (hkind : node.kind.IsBuiltIn)
    (hsafe : ∀ n below, w.Reaches id n → w.node? n = some below → w.RendersSafely below) :
    (shown.tree w.displayOf).Safe := by
  have hforms : ∀ new ∈ forms, w.ShowsSafely new.2 := by
    refine h.renders.showsSafely (fun other hother ↦ ?_) hsafe h.registers.named
    obtain rfl := Option.some.inj (hnode.symm.trans hother)
    exact ⟨hkind.ne_greeting, hkind.ne_boxed⟩
  have hshown (n : NodeId) (self : Node) (content : List Outline)
      (hpart : .node n self content ∈ shown.parts) : w.ShowsSafely self := by
    obtain ⟨found, hfound, rfl⟩ := Option.map_eq_some_iff.mp (h.unfolds.bare_of_mem hpart)
    suffices hfoundSafe : w.ShowsSafely found from
      ⟨Node.safe_bare_iff.mpr hfoundSafe.safe, hfoundSafe.values⟩
    rcases h.ids n (Outline.mem_ids_iff.mpr ⟨_, _, hpart⟩) with hold | hnew
    · have hfoundBefore := (h.drawn.grows.nodes n hold).symm.trans hfound
      exact (hsafe n found (hunfolds.mem_ids_iff.mp hold) hfoundBefore).shows
    · obtain ⟨new, hmem, rfl⟩ := List.mem_map.mp (h.registers.mem_of_fresh hnew)
      obtain rfl := Option.some.inj ((h.registers.present new hmem).symm.trans hfound)
      exact hforms new hmem
  refine h.unfolds.safe_tree (fun n self content hpart ↦ (hshown n self content hpart).safe) ?_
  rintro observable ⟨n, self, content, hpart, hstate⟩
  exact (hshown n self content hpart).values observable hstate

/-- A node in whose content nothing is rendered has a form with the same content. -/
theorem exists_content_eq (hkind : node.kind.IsBuiltIn) (hflat : w.IsFlat node) :
    ∃ new, rendered.node? form = some new ∧ new.content = node.content := by
  have hrenders := h.renders.by_kind hnode
  have hpresent (below : List (Nat × Node)) (new : Node) (hforms : forms = below ++ [(form, new)]) :
      rendered.node? form = some new :=
    h.registers.present (form, new) (by rw [hforms]; simp)
  have hcontainer (hkind : node.kind = .layout ∨ node.kind = .flexLayout)
      (hform : ∃ content below new, w.Composes node.content content below ∧
        node.IsFormOf "div" (layoutEntries node) content new ∧ forms = below ++ [(form, new)]) :
      ∃ new, rendered.node? form = some new ∧ new.content = node.content := by
    obtain ⟨content, below, new, hcomposes, hnew, hforms⟩ := hform
    exact ⟨new, hpresent below new hforms,
      hnew.content.trans (hcomposes.eq_of_flat (hflat hkind))⟩
  rcases hkind with hkind | hkind | hkind | hkind <;> rw [hkind] at hrenders
  · rw [hrenders.1]
    exact ⟨node, (h.drawn.grows.nodes id hunfolds.mem_ids).trans hnode, rfl⟩
  · exact hcontainer (.inl hkind) hrenders
  · exact hcontainer (.inr hkind) hrenders
  · obtain ⟨new, hnew, hforms⟩ := hrenders
    exact ⟨new, hpresent [] new hforms, hnew.content⟩

/-- A node in whose content nothing is rendered shows its own content. -/
theorem content_tree (hkind : node.kind.IsBuiltIn) (hflat : w.IsFlat node)
    (display : ObservableId → String) :
    (shown.tree display).content = (outline.tree display).content := by
  obtain ⟨new, hform, hcontent⟩ := h.exists_content_eq hunfolds hnode hkind hflat
  obtain ⟨same, parts, hsame, hparts, rfl⟩ := unfolds_iff.mp hunfolds
  obtain rfl : same = node := Option.some.inj (hsame.symm.trans hnode)
  have hbelow : List.Forall₂ rendered.ChildUnfolds new.content parts := by
    rw [hcontent]
    refine forall₂_imp_of_mem hparts fun child _ part hpart hchild ↦ hchild.of_nodes fun n hn ↦ ?_
    exact h.drawn.grows.nodes n
      (Outline.inner_subset_ids (Outline.mem_inner_iff.mpr ⟨part, hpart, hn⟩))
  obtain rfl := h.unfolds.unique (unfolds_iff.mpr ⟨new, parts, hform, hbelow, rfl⟩)
  rfl

end Rendering

variable [Journal σ]

/-- A held node that unfolds is rendered. -/
theorem exists_rendering (hid : .node id ∈ w.held) (hunfolds : w.Unfolds id outline) :
    ∃ form rendered shown forms, w.render id = .ok (form, rendered) ∧
      Rendering w rendered id form outline shown forms := by
  have hsupports : w.Supports (· = id) (· ∈ outline.ids) := hunfolds.supports (.inl hid) _
  obtain ⟨form, rendered, forms, hrender, hdrawn, hrenders, hregisters⟩ :=
    exists_rendersAs (fun _ ↦ True) hunfolds hsupports (fun _ hn ↦ hn) fun _ _ _ _ ↦ trivial
  obtain ⟨shown, hshown, hids⟩ := hdrawn.shown
  exact ⟨form, rendered, shown, forms, hrender, hdrawn, hrenders, hregisters, hshown, hids⟩

/-! ### Refreshing -/

/-- A world after a refresh of a node, whose host was asked to show a text inside the element. -/
structure Repaints (w w' : World σ) (id : NodeId) (node : Node) (host : HostId) (form : NodeId)
    (outline : Outline) (inner : String) : Prop where
  mounted : w'.MountedAs id host form
  held : .node id ∈ w'.held
  observables : w'.observables = w.observables
  hosts : w'.hosts = (w.setInner host node.id inner).2.hosts
  written : ∃ written, w'.writeInner form = .ok (inner, written)
  unfolds : w'.Unfolds id (if form = id then outline.takeId node.id else outline)

/-- What a host is asked to show depends on nothing but the hosts. -/
theorem hosts_setInner_congr (hhosts : w'.hosts = w.hosts) (host : HostId) (id markup : String) :
    (w'.setInner host id markup).2.hosts = (w.setInner host id markup).2.hosts := by
  have hhost : w'.host host = w.host host := by rw [World.host, World.host, hhosts]
  unfold setInner
  rw [hhost]
  split
  · split
    · rw [setSurface, setSurface, hhosts]
    · exact hhosts
  · exact hhosts

/-- A rendered node that is mounted is refreshed. -/
theorem Rendering.exists_repaints (h : Rendering w rendered id form outline shown forms)
    (hid : .node id ∈ w.held) (hunfolds : w.Unfolds id outline) (hnode : w.node? id = some node)
    {mounting : Mounting} (hmounting : node.mounting? = some mounting)
    (hrender : w.render id = .ok (form, rendered)) :
    ∃ w', w.refresh id = .ok w' ∧ Repaints w w' id node mounting.host form outline
      (shown.tree w.displayOf).innerMarkup := by
  let tree := (shown.takeId node.id).tree w.displayOf
  have hinner : tree.innerMarkup = (shown.tree w.displayOf).innerMarkup :=
    congrArg Tree.markupAll (shown.content_tree_takeId w.displayOf node.id)
  let recorded :=
    ((rendered.takeId form node.id).recordParents tree.links).recordMounting id mounting.host form
  have hform : recorded.Unfolds form (shown.takeId node.id) :=
    unfolds_recordMounting h.drawn.grows.supports tree.links (h.unfolds.takeId node.id)
      (fun n hn ↦ h.ids n (Outline.ids_takeId node.id shown ▸ hn)) mounting.host
  have hself : recorded.Unfolds id (if form = id then outline.takeId node.id else outline) := by
    refine unfolds_recordMounting h.drawn.grows.supports tree.links
      (h.unfolds_takeId hunfolds node.id) (fun n hn ↦ .inl ?_) mounting.host
    split at hn
    · rwa [Outline.ids_takeId] at hn
    · exact hn
  obtain ⟨hredisplays, hhosts⟩ := redisplays_of_render hid hnode hrender tree.links mounting.host
  let last := (recorded.setInner mounting.host node.id tree.innerMarkup).2
  have hlast : Redisplays w last id mounting.host form :=
    hredisplays.setInner hid mounting.host node.id tree.innerMarkup
  obtain ⟨hcarries, hheld, hmounted, hreleased⟩ := hlast.release hid
  have hidHeld : .node id ∈ (last.release (.node form)).held := hheld.mem_iff.mpr hid
  have hdisplay : (last.release (.node form)).displayOf = w.displayOf :=
    displayOf_congr hcarries.observables
  refine ⟨last.release (.node form), refresh_eq_ok hnode hmounting hrender
    h.drawn.grows.observables (h.unfolds.takeId node.id), ?_⟩
  exact
    { mounted := hmounted
      held := hidHeld
      observables := hcarries.observables
      hosts := by
        rw [← hinner]
        exact hosts_setInner_congr hhosts mounting.host node.id tree.innerMarkup
      written := by
        have hshown := hreleased _ (hform.setInner mounting.host node.id tree.innerMarkup)
        rw [writeInner_eq_ok hshown, hdisplay, hinner]
        exact ⟨_, rfl⟩
      unfolds := (hself.setInner mounting.host node.id tree.innerMarkup).release hidHeld }

namespace Repaints

variable {inner : String} (h : Repaints w w' id node host form outline inner)
  (hunfolds : w.Unfolds id outline) (hnode : w.node? id = some node)

include h hunfolds hnode

/-- The node is as it was, but for its mounting and perhaps the way in which its id is given. -/
theorem exists_node : ∃ node', w'.node? id = some node' ∧ node'.kind = node.kind ∧
    node'.content = node.content ∧ node'.id = node.id := by
  obtain ⟨same, parts, hsame, -, rfl⟩ := unfolds_iff.mp hunfolds
  obtain rfl : same = node := Option.some.inj (hsame.symm.trans hnode)
  obtain ⟨node', parts', hnode', -, heq⟩ := unfolds_iff.mp h.unfolds
  refine ⟨node', hnode', ?_⟩
  split at heq
  · obtain ⟨-, hbare, -⟩ := Outline.node.inj heq
    have hid : node'.bare.id = same.id := hbare ▸ Node.id_takeId same.bare same.id
    have hkind : node'.bare.kind = same.kind := hbare ▸ rfl
    have hcontent : node'.bare.content = same.content := hbare ▸ rfl
    exact ⟨hkind, hcontent, hid⟩
  · obtain ⟨-, hbare, -⟩ := Outline.node.inj heq
    rw [Node.eq_of_bare hbare.symm]
    exact ⟨rfl, rfl, rfl⟩

/-- Nothing new is rendered in the content of the node at the next refresh. -/
theorem isFlat (hflat : w.IsFlat node) {node' : Node} (hkind : node'.kind = node.kind)
    (hcontent : node'.content = node.content) : w'.IsFlat node' := by
  intro hcontainer child below hchild hbelow
  rw [hkind] at hcontainer
  rw [hcontent] at hchild
  obtain ⟨same, parts, hsame, hparts, rfl⟩ := unfolds_iff.mp hunfolds
  obtain rfl : same = node := Option.some.inj (hsame.symm.trans hnode)
  obtain ⟨part, hpart, hchildUnfolds⟩ := exists_mem_of_forall₂ hparts hchild
  obtain ⟨old, content, hold, -, rfl⟩ := unfolds_iff.mp hchildUnfolds
  have hinside : Outline.node child old.bare content ∈ Outline.parts
      (if form = id then (Outline.node id same.bare parts).takeId same.id
        else Outline.node id same.bare parts) := by
    have hmem : Outline.node child old.bare content ∈ Outline.partsAll parts :=
      Outline.mem_partsAll.mpr ⟨_, hpart, List.mem_cons_self⟩
    split
    · exact List.mem_cons_of_mem _ hmem
    · exact List.mem_cons_of_mem _ hmem
  have hbare := h.unfolds.bare_of_mem hinside
  rw [hbelow, Option.map_some, Option.some_inj] at hbare
  rw [Node.eq_of_bare hbare]
  exact hflat hcontainer child old hchild hold

/-- A node in whose content nothing is rendered gives its host the same text at the next refresh. -/
theorem refresh_again (hkind : node.kind.IsBuiltIn) (hflat : w.IsFlat node)
    (hinner : inner = (outline.tree w.displayOf).innerMarkup) :
    ∃ w'', w'.refresh id = .ok w'' ∧ w''.hosts = (w'.setInner host node.id inner).2.hosts := by
  obtain ⟨node', hnode', hsameKind, hcontent, hname⟩ := h.exists_node hunfolds hnode
  obtain ⟨mounted, hmounted, hmounting⟩ := h.mounted
  obtain rfl : mounted = node' := Option.some.inj (hmounted.symm.trans hnode')
  obtain ⟨form', rendered, shown, forms, hrender, hrendering⟩ := exists_rendering h.held h.unfolds
  obtain ⟨w'', hrefresh, hagain⟩ :=
    hrendering.exists_repaints h.held h.unfolds hnode' hmounting hrender
  have hshown : (shown.tree w'.displayOf).innerMarkup = inner := by
    have hsame := hrendering.content_tree h.unfolds hnode' (hsameKind ▸ hkind)
      (h.isFlat hunfolds hnode hflat hsameKind hcontent) w'.displayOf
    rw [Tree.innerMarkup, hsame, hinner, displayOf_congr h.observables]
    split
    · rw [Outline.content_tree_takeId, Tree.innerMarkup]
    · rfl
  refine ⟨w'', hrefresh, ?_⟩
  rw [hagain.hosts, hshown, hname]

end Repaints

/-- Refresh touches only its own element. A held node of a kind of the library that is mounted on a
surface, and is safe with everything from it down, is refreshed, whatever has become of it since it
was mounted. If its id is found in printed form, what is inside its form now takes the place of what
was inside the element, and is read back from there; nothing around the element changes, nor do the
listeners or another host. A second refresh changes no host, unless the node is a container in which
containers or texts stand. If the id is not found, no host changes. -/
theorem exists_refresh_repaints (hid : .node id ∈ w.held) (hnode : w.node? id = some node)
    (hkind : node.kind.IsBuiltIn) {mounting : Mounting} (hmounting : node.mounting? = some mounting)
    {surface : Surface} (hhost : w.hosts.get? mounting.host = some (.surface surface))
    (hsafe : w.MarkupSafe id)
    (hstyled : ∀ n below, w.Reaches id n → w.node? n = some below →
      (below.kind = .layout ∨ below.kind = .flexLayout → below.IsStyled) ∧
        NoQuote (w.registry below.registry).config.idStem) :
    ∃ form inner written w', w.refresh id = .ok w' ∧ w'.rendered? id = some form ∧
      w'.writeInner form = .ok (inner, written) ∧ w'.idOf id = node.id ∧
      (∀ element, surface.find? node.id = some element → element.IsPrinted →
        ∃ changed, w'.hosts = w.hosts.modify mounting.host (fun _ ↦ .surface changed) ∧
          surface.Refills element inner changed ∧ changed.innerMarkup? node.id = some inner ∧
          (w.IsFlat node → ∃ w'', w'.refresh id = .ok w'' ∧ w''.hosts = w'.hosts)) ∧
      (surface.find? node.id = none → w'.hosts = w.hosts) := by
  obtain ⟨outline, hunfolds, -, -⟩ := hsafe.exists_unfolds
  have hrendersSafely (n : NodeId) (below : Node) (hn : w.Reaches id n)
      (hbelow : w.node? n = some below) : w.RendersSafely below := by
    obtain ⟨found, hfound, hshows, -, hvalues⟩ := hsafe.safe n hn
    obtain rfl : found = below := Option.some.inj (hfound.symm.trans hbelow)
    obtain ⟨hstyle, hstem⟩ := hstyled n found hn hbelow
    exact ⟨⟨hshows, hvalues⟩, fun hcontainer ↦ ⟨(hstyle hcontainer).classes,
      (hstyle hcontainer).noQuote_style hshows hcontainer⟩, hstem⟩
  obtain ⟨form, rendered, shown, forms, hrender, hrendering⟩ := exists_rendering hid hunfolds
  obtain ⟨w', hrefresh, hrepaints⟩ :=
    hrendering.exists_repaints hid hunfolds hnode hmounting hrender
  let inner := (shown.tree w.displayOf).innerMarkup
  have htree : (shown.tree w.displayOf).Safe :=
    hrendering.safe_tree hunfolds hnode hkind hrendersSafely
  obtain ⟨written, hwritten⟩ := hrepaints.written
  obtain ⟨node', hnode', -, -, hname⟩ := hrepaints.exists_node hunfolds hnode
  refine ⟨form, inner, written, w', hrefresh, hrepaints.mounted.rendered?, hwritten,
    (idOf_eq hnode').trans hname, fun element hfind hprinted ↦ ?_, fun hnone ↦ ?_⟩
  · let changed : Surface :=
      { surface with markup := String.ofList (element.withInner inner.toList) }
    have hhosts : w'.hosts = w.hosts.modify mounting.host fun _ ↦ .surface changed := by
      rw [hrepaints.hosts, setInner_surface hhost hfind]
      rfl
    refine ⟨changed, hhosts, Surface.refills_withInner hfind inner,
      Surface.innerMarkup?_withInner hfind hprinted htree.reads_innerMarkup
        (htree.balanced_content _), fun hflat ↦ ?_⟩
    have hinner : inner = (outline.tree w.displayOf).innerMarkup :=
      congrArg Tree.markupAll (hrendering.content_tree hunfolds hnode hkind hflat w.displayOf)
    obtain ⟨w'', hagain, hagainHosts⟩ :=
      hrepaints.refresh_again hunfolds hnode hkind hflat hinner
    have hchanged : w'.hosts.get? mounting.host = some (.surface changed) := by
      rw [hhosts, Table.get?_modify, if_pos rfl, hhost, Option.map_some]
    have hfound : changed.find? node.id = some _ :=
      Surface.find?_withInner hfind hprinted htree.reads_innerMarkup (htree.balanced_content _)
    refine ⟨w'', hagain, ?_⟩
    rw [hagainHosts, setInner_surface hchanged hfound, Located.withInner_filled]
    show w'.hosts.modify mounting.host (fun _ ↦ .surface changed) = w'.hosts
    rw [hhosts, Table.modify_modify]
    rfl
  · rw [hrepaints.hosts, setInner, host_eq hhost]
    dsimp only
    rw [Surface.setInner_of_find?_eq_none hnone]

/-! A layout that was mounted when it was empty, and was given content since. -/

namespace Filling

def plain : Node where
  tag := "b"
  kind := .plain
  registry := 0
  attributes := .ofList [("id", .text "m")]
  content := []
  classes := []
  style := ""
  flags := ⟨0⟩

def layout : Node where
  tag := "Layout"
  kind := .layout
  registry := 0
  attributes := .ofList [("id", .text "n")]
  content := [.text "1 < 2", .node 0]
  classes := ["a"]
  style := ""
  flags := ⟨0⟩
  mounting? := some ⟨0, .wrapper 2⟩

/-- What the layout was displayed as. -/
def division : Node :=
  { plain with tag := "div", attributes := .ofList [("class", .text "a"), ("id", .text "n")] }

def surface : Surface where
  markup := "<p/><div class=\"a\" id=\"n\"/>"

def world : World (List Note) where
  nodes := ((Table.empty.push plain).push layout).push division
  registries := Table.empty.push { entries := [0, 1, 2], created := 3, generated := 1 }
  hosts := Table.empty.push (.surface surface)
  held := [.node 1]
  client := []

/-- The element of the layout, behind a paragraph. -/
def element : Located :=
  ⟨[.tag ⟨false, ['p'], ['/']⟩], ⟨false, "div".toList, " class=\"a\" id=\"n\"/".toList⟩, [],
    none, []⟩

theorem exists_unfolds_world : ∃ outline, world.Unfolds 1 outline ∧ outline.ids = [1, 0] :=
  ⟨_, ⟨2, rfl⟩, rfl⟩

theorem eq_of_reaches {n : NodeId} {node : Node} (hn : world.Reaches 1 n)
    (hnode : world.node? n = some node) : node = layout ∨ node = plain := by
  obtain ⟨outline, hunfolds, hids⟩ := exists_unfolds_world
  have hmem : n ∈ [1, 0] := hids ▸ hunfolds.mem_ids_iff.mpr hn
  rcases List.mem_pair.mp hmem with rfl | rfl
  · exact .inl (Option.some.inj hnode).symm
  · exact .inr (Option.some.inj hnode).symm

theorem markupSafe : world.MarkupSafe 1 := by
  obtain ⟨outline, hunfolds, -⟩ := exists_unfolds_world
  refine ⟨hunfolds.acyclic, fun n hn ↦ ?_⟩
  obtain ⟨node, hnode⟩ := hunfolds.live n hn
  refine ⟨node, hnode, ?_⟩
  rcases eq_of_reaches hn hnode with rfl | rfl
  · refine ⟨⟨by decide +kernel, by decide +kernel, fun s hs ↦ ?_⟩, by decide +kernel,
      by simp [layout]⟩
    obtain rfl : s = "1 < 2" := by simpa [layout] using hs
    decide +kernel
  · exact ⟨⟨by decide +kernel, by decide +kernel, by simp [plain]⟩, by decide +kernel,
      by simp [plain]⟩

theorem isStyled {n : NodeId} {node : Node} (hn : world.Reaches 1 n)
    (hnode : world.node? n = some node) :
    (node.kind = .layout ∨ node.kind = .flexLayout → node.IsStyled) ∧
      NoQuote (world.registry node.registry).config.idStem := by
  rcases eq_of_reaches hn hnode with rfl | rfl
  · exact ⟨fun _ ↦ ⟨by decide +kernel, "", by decide +kernel⟩, by decide +kernel⟩
  · exact ⟨by simp [plain], by decide +kernel⟩

theorem isFlat : world.IsFlat layout := by
  intro _ n below hn hnode
  obtain rfl : n = 0 := by simpa [layout] using hn
  obtain rfl := Option.some.inj (show some plain = some below from hnode)
  decide

/-- What is inside the form after a refresh. -/
theorem inner_eq {w written : World (List Note)} {shown : NodeId} {inner : String}
    (hrefresh : world.refresh 1 = .ok w) (hshown : w.rendered? 1 = some shown)
    (hwritten : w.writeInner shown = .ok (inner, written)) : inner = "1 < 2<b id=\"m\"/>" := by
  have htext : ((world.refresh 1).toOption.bind fun w ↦ (w.rendered? 1).bind fun shown ↦
      (w.writeInner shown).toOption.map Prod.fst) = some "1 < 2<b id=\"m\"/>" := by
    decide +kernel
  rw [hrefresh] at htext
  change ((w.rendered? 1).bind _) = _ at htext
  rw [hshown] at htext
  change (w.writeInner shown).toOption.map _ = _ at htext
  rw [hwritten] at htext
  exact Option.some.inj htext

end Filling

/-- The content of the layout is filled into its element, which was a single tag. -/
theorem exists_refresh_repaints_filled :
    ∃ w' w'' changed, Filling.world.refresh 1 = .ok w' ∧
      w'.hosts.get? 0 = some (.surface changed) ∧
      changed.markup = "<p/><div class=\"a\" id=\"n\">1 < 2<b id=\"m\"/></div>" ∧
      changed.innerMarkup? "n" = some "1 < 2<b id=\"m\"/>" ∧
      w'.refresh 1 = .ok w'' ∧ w''.hosts = w'.hosts := by
  have hfind : Filling.surface.find? Filling.layout.id = some Filling.element := by
    decide +kernel
  have hprinted : Filling.element.IsPrinted := fun _ ↦ by decide +kernel
  have hlayout : Filling.world.node? 1 = some Filling.layout := rfl
  obtain ⟨form, inner, written, w', hrefresh, hform, hwritten, -, hfound, -⟩ :=
    exists_refresh_repaints (by decide) hlayout (.inr (.inl rfl)) rfl rfl Filling.markupSafe
      fun n below hn hnode ↦ Filling.isStyled hn hnode
  obtain ⟨changed, hhosts, hrefills, hinner, hagain⟩ := hfound Filling.element hfind hprinted
  obtain ⟨w'', hsecond, hsame⟩ := hagain Filling.isFlat
  obtain rfl := Filling.inner_eq hrefresh hform hwritten
  obtain ⟨stem, houter, hmarkup⟩ := hrefills.alone rfl
  have hstem : stem = "<div class=\"a\" id=\"n\"".toList :=
    List.append_cancel_right (houter.symm.trans (by decide +kernel))
  refine ⟨w', w'', changed, hrefresh, ?_, ?_, hinner, hsecond, hsame⟩
  · rw [hhosts]
    rfl
  · rw [← String.ofList_toList (s := changed.markup), hmarkup, hstem]
    decide +kernel

end World

end LiveMarkup
