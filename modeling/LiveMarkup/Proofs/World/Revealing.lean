import LiveMarkup.Proofs.World.Forming
import LiveMarkup.Proofs.World.Refreshing

/-!
What exactly a mounting or a refresh does to nodes. A node that unfolds is displayed on its host
(`World.exists_mount_reveals`, `World.exists_refresh_reveals`): its forms are new, it is mounted as
the last of them or as itself, and all other nodes that support one another are left with their
content, their ids and their mountings (`World.Reveals`).
-/

set_option autoImplicit false
set_option relaxedAutoImplicit false

namespace LiveMarkup

/-- A node and what has become of it: it has the same content, and to its id, its click callback and
its rendering nothing was done. -/
structure Node.Matches (node node' : Node) : Prop where
  kind : node'.kind = node.kind
  registry : node'.registry = node.registry
  content : node'.content = node.content
  id : node'.id = node.id
  onclick : node'.attributes.get? "onclick" = node.attributes.get? "onclick"

namespace Node.Matches

variable {node node' node'' : Node}

theorem refl (node : Node) : node.Matches node := ⟨rfl, rfl, rfl, rfl, rfl⟩

theorem trans (h : node.Matches node') (h' : node'.Matches node'') : node.Matches node'' :=
  ⟨h'.kind.trans h.kind, h'.registry.trans h.registry, h'.content.trans h.content,
    h'.id.trans h.id, h'.onclick.trans h.onclick⟩

theorem isForm (h : node.Matches node') (hmounting : node'.mounting? = node.mounting?)
    {below : NodeId → Prop} {registries : RegistryId → Prop} {first id : Nat}
    (hisForm : World.IsForm below registries first id node) :
    World.IsForm below registries first id node' where
  kind := h.kind.trans hisForm.kind
  registry := by rw [h.registry]; exact hisForm.registry
  unmounted := hmounting.trans hisForm.unmounted
  content := by rw [h.content]; exact hisForm.content
  onclick := h.onclick.trans hisForm.onclick

end Node.Matches

theorem Node.onclick_takeId (node : Node) (id : String) :
    (node.takeId id).attributes.get? "onclick" = node.attributes.get? "onclick" := by
  show (node.attributes.insert "id" _).get? "onclick" = _
  rw [OrderedMap.get?_insert, if_neg (by decide)]

namespace World

variable {σ : Type} {w w' w'' : World σ} {kept : NodeId → Prop} {id form : NodeId} {name : String}

/-! ### Touching nodes up -/

/-- A node that was touched up: it has the same content, and neither its click callback nor its kind
is another one. Only the form may have taken the name, and only the node may have been mounted. -/
structure Retouched (id form : NodeId) (name : String) (n : NodeId) (node node' : Node) : Prop where
  kind : node'.kind = node.kind
  registry : node'.registry = node.registry
  content : node'.content = node.content
  onclick : node'.attributes.get? "onclick" = node.attributes.get? "onclick"
  named : node'.id = node.id ∨ n = form ∧ node'.id = name
  mounting : n ≠ id → node'.mounting? = node.mounting?

namespace Retouched

variable {n : NodeId} {node node' node'' : Node}

theorem refl (node : Node) : Retouched id form name n node node :=
  ⟨rfl, rfl, rfl, rfl, .inl rfl, fun _ ↦ rfl⟩

theorem trans (h : Retouched id form name n node node')
    (h' : Retouched id form name n node' node'') :
    Retouched id form name n node node'' where
  kind := h'.kind.trans h.kind
  registry := h'.registry.trans h.registry
  content := h'.content.trans h.content
  onclick := h'.onclick.trans h.onclick
  named := by
    rcases h'.named with hsame | htaken
    · rw [hsame]
      exact h.named
    · exact .inr htaken
  mounting := fun hne ↦ (h'.mounting hne).trans (h.mounting hne)

theorem of_forgetParent (h : node'.forgetParent = node.forgetParent) :
    Retouched id form name n node node' := by
  rw [Node.eq_of_forgetParent h]
  exact ⟨rfl, rfl, rfl, rfl, .inl rfl, fun _ ↦ rfl⟩

/-- A form that is neither named nor mounted is a form still. -/
theorem isForm (h : Retouched id form name n node node') (hne : n ≠ id) {below : NodeId → Prop}
    {registries : RegistryId → Prop} {first m : Nat}
    (hisForm : IsForm below registries first m node) :
    IsForm below registries first m node' where
  kind := h.kind.trans hisForm.kind
  registry := by rw [h.registry]; exact hisForm.registry
  unmounted := (h.mounting hne).trans hisForm.unmounted
  content := by rw [h.content]; exact hisForm.content
  onclick := h.onclick.trans hisForm.onclick

end Retouched

/-- The nodes that matter are still there and were touched up, and there are no other ones than
before. -/
structure Retouches (kept : NodeId → Prop) (id form : NodeId) (name : String) (w w' : World σ) :
    Prop where
  ages : w.Ages w'
  next : w'.nodes.next = w.nodes.next
  nodes : ∀ n node, kept n → w.node? n = some node →
    ∃ node', w'.node? n = some node' ∧ Retouched id form name n node node'
  past : ∀ n node', w'.node? n = some node' →
    ∃ node, w.node? n = some node ∧ Retouched id form name n node node'
  held : w'.held = w.held
  apps : ∀ app, .app app ∈ w.held → w'.apps.get? app = w.apps.get? app
  recorders : ∀ recorder, .recorder recorder ∈ w.held →
    w'.recorders.get? recorder = w.recorders.get? recorder
  observables : w'.observables = w.observables
  registries : w'.registries = w.registries

namespace Retouches

theorem trans (h : Retouches kept id form name w w') (h' : Retouches kept id form name w' w'') :
    Retouches kept id form name w w'' where
  ages := h.ages.trans h'.ages
  next := h'.next.trans h.next
  nodes := fun n node hn hnode ↦ by
    obtain ⟨node', hnode', hretouched⟩ := h.nodes n node hn hnode
    obtain ⟨node'', hnode'', hretouched'⟩ := h'.nodes n node' hn hnode'
    exact ⟨node'', hnode'', hretouched.trans hretouched'⟩
  past := fun n node'' hnode'' ↦ by
    obtain ⟨node', hnode', hretouched'⟩ := h'.past n node'' hnode''
    obtain ⟨node, hnode, hretouched⟩ := h.past n node' hnode'
    exact ⟨node, hnode, hretouched.trans hretouched'⟩
  held := h'.held.trans h.held
  apps := fun app happ ↦ (h'.apps app (h.held ▸ happ)).trans (h.apps app happ)
  recorders := fun recorder hrecorder ↦
    (h'.recorders recorder (h.held ▸ hrecorder)).trans (h.recorders recorder hrecorder)
  observables := h'.observables.trans h.observables
  registries := h'.registries.trans h.registries

/-- Other hosts and another state of the client make no difference. -/
theorem changeHosts (kept : NodeId → Prop) (id form : NodeId) (name : String) (w : World σ)
    (hosts : Table Host) (client : σ) :
    Retouches kept id form name w { w with hosts := hosts, client := client } where
  ages := .of_eq rfl rfl
  next := rfl
  nodes := fun _ node _ hnode ↦ ⟨node, hnode, .refl node⟩
  past := fun _ node' hnode' ↦ ⟨node', hnode', .refl node'⟩
  held := rfl
  apps := fun _ _ ↦ rfl
  recorders := fun _ _ ↦ rfl
  observables := rfl
  registries := rfl

theorem recordParents (kept : NodeId → Prop) (id form : NodeId) (name : String) (w : World σ)
    (links : List (NodeId × NodeId)) : Retouches kept id form name w (w.recordParents links) := by
  obtain ⟨nodes, heq, hnext, hnodes⟩ := w.recordParents_eq links
  have hages := Ages.conduct.routine.recordParents w links
  rw [heq] at hages ⊢
  exact
    { ages := hages
      next := hnext
      nodes := fun n node _ hnode ↦ by
        obtain ⟨node', hnode', hforget⟩ := Option.map_eq_some_iff.mp
          ((hnodes n).trans (congrArg (Option.map Node.forgetParent) hnode))
        exact ⟨node', hnode', .of_forgetParent hforget⟩
      past := fun n node' hnode' ↦ by
        obtain ⟨node, hnode, hforget⟩ := Option.map_eq_some_iff.mp
          ((hnodes n).symm.trans (congrArg (Option.map Node.forgetParent) hnode'))
        exact ⟨node, hnode, .of_forgetParent hforget.symm⟩
      held := rfl
      apps := fun _ _ ↦ rfl
      recorders := fun _ _ ↦ rfl
      observables := rfl
      registries := rfl }

/-- A node is changed without change to what matters of it. -/
theorem modifyNode (w : World σ) (n : NodeId) {f : Node → Node}
    (hf : ∀ node, Retouched id form name n node (f node)) :
    Retouches kept id form name w (w.modifyNode n f) where
  ages := .modifyNode w n f
  next := rfl
  nodes := fun m node _ hnode ↦ by
    rw [node?_modifyNode]
    split
    · rename_i heq
      subst heq
      exact ⟨f node, by rw [hnode, Option.map_some], hf node⟩
    · exact ⟨node, hnode, .refl node⟩
  past := fun m node' hnode' ↦ by
    rw [node?_modifyNode] at hnode'
    split at hnode'
    · rename_i heq
      subst heq
      obtain ⟨node, hnode, rfl⟩ := Option.map_eq_some_iff.mp hnode'
      exact ⟨node, hnode, hf node⟩
    · exact ⟨node', hnode', .refl node'⟩
  held := rfl
  apps := fun _ _ ↦ rfl
  recorders := fun _ _ ↦ rfl
  observables := rfl
  registries := rfl

/-- Nodes that support one another outlast a sweep. -/
theorem sweep {skip : NodeId → Prop} (h : w.Supports skip kept) :
    Retouches kept id form name w w.sweep where
  ages := .sweep w
  next := next_sweep w
  nodes := fun _ node hn hnode ↦
    ⟨node, (h.node?_sweep hn).trans hnode, .refl node⟩
  past := fun _ node' hnode' ↦ ⟨node', node?_of_sweep hnode', .refl node'⟩
  held := rfl
  apps := fun _ happ ↦ apps_sweep happ
  recorders := fun _ hrecorder ↦ recorders_sweep hrecorder
  observables := rfl
  registries := rfl

theorem rooted (h : Retouches kept id form name w w') {n : NodeId} (hn : w.Rooted n) :
    w'.Rooted n :=
  hn.mono (fun _ hheld ↦ h.held ▸ hheld) h.apps

/-- The nodes that matter support one another as before, without the wrapper of the node. -/
theorem supports (h : Retouches kept id form name w w') (hsupports : w.Supports (· = id) kept) :
    w'.Supports (· = id) kept := by
  intro n hn
  obtain ⟨⟨node, hnode⟩, hsupport⟩ := hsupports n hn
  obtain ⟨node', hnode', -⟩ := h.nodes n node hn hnode
  refine ⟨⟨node', hnode'⟩, hsupport.imp h.rooted ?_⟩
  rintro ⟨parent, hparent, owner, howner, howns⟩
  obtain ⟨owner', howner', hretouched⟩ := h.nodes parent owner hparent howner
  refine ⟨parent, hparent, owner', howner', howns.imp (hretouched.content ▸ ·) ?_⟩
  rintro ⟨hne, hwrapper⟩
  refine ⟨hne, ?_⟩
  rw [Node.wrapper?, hretouched.mounting hne]
  exact hwrapper

theorem listing (h : Retouches kept id form name w w') (hlisting : w.Listing) : w'.Listing :=
  hlisting.of_registries h.next
    (fun n node' hnode' ↦ by
      obtain ⟨node, hnode, hretouched⟩ := h.past n node' hnode'
      exact ⟨node, hnode, hretouched.registry⟩)
    (fun r hr ↦ by rwa [h.registries]) fun r ↦ by rw [World.registry, World.registry, h.registries]

end Retouches

/-! ### Displaying a node -/

/-- A world after a node was displayed on a host as a form, to which a reference was taken: the
forms are new, and the other nodes that matter are still there with their content and their
mountings. -/
structure Reveals (kept : NodeId → Prop) (registries : RegistryId → Prop) (outline : Outline)
    (id : NodeId) (host : HostId) (form : Nat) (w w' : World σ) : Prop where
  ages : w.Ages w'
  next : w'.nodes.next = w.nodes.next + outline.forms
  place : if outline.forms = 0 then form = id else w'.nodes.next = form + 1
  nodes : ∀ n node, kept n → w.node? n = some node → ∃ node', w'.node? n = some node' ∧
    node.Matches node' ∧ (n ≠ id → node'.mounting? = node.mounting?)
  past : ∀ (n : Nat) node', n < w.nodes.next → w'.node? n = some node' →
    ∃ node, w.node? n = some node ∧ node'.content = node.content ∧
      (n ≠ id → node'.mounting? = node.mounting?)
  fresh : ∀ n, w.Fresh w' n → ∃ new, w'.node? n = some new ∧
    IsForm (· ∈ outline.inner) registries w.nodes.next n new
  owned : ∀ n, w.Fresh w' n → n = form ∨ ∃ parent, w.Fresh w' parent ∧ w'.Contains parent n
  supports : w'.Supports (· = id) fun n ↦ kept n ∨ w.Fresh w' n
  mounted : w'.MountedAs id host form
  held : w'.held.Perm (.node form :: w.held)
  apps : ∀ app, .app app ∈ w.held → w'.apps.get? app = w.apps.get? app
  recorders : ∀ recorder, .recorder recorder ∈ w.held →
    w'.recorders.get? recorder = w.recorders.get? recorder
  observables : w'.observables = w.observables
  contains : ∀ registry, w'.registries.contains registry = w.registries.contains registry
  listing : (∀ registry, registries registry → w.registries.contains registry = true) →
    w.Listing → w'.Listing

end World

theorem Outline.ids_takeId (name : String) (outline : Outline) :
    (outline.takeId name).ids = outline.ids := by
  cases outline <;> rfl

namespace World

variable {σ : Type} {w w' w'' : World σ} {kept : NodeId → Prop} {registries : RegistryId → Prop}
  {outline : Outline} {id : NodeId} {form : Nat} {host : HostId}

section Mounting

variable {name : String} (hsupports : w.Supports (· = id) kept) (links : List (NodeId × NodeId))

/-- A form takes a name and is written. -/
theorem retouches_takeId (form : NodeId) (name : String) :
    Retouches kept id form name w ((w.takeId form name).recordParents links) := by
  have htaken : Retouches kept id form name w (w.takeId form name) :=
    .modifyNode w form fun node ↦ ⟨rfl, rfl, rfl, node.onclick_takeId name,
      .inr ⟨rfl, node.id_takeId name⟩, fun _ ↦ rfl⟩
  exact htaken.trans (.recordParents kept id form name _ links)

/-- The node is mounted then. -/
theorem retouches_mounting (form : NodeId) (name : String) (mounting : Mounting) :
    Retouches kept id form name w
      (((w.takeId form name).recordParents links).modifyNode id fun n ↦
        { n with mounting? := some mounting }) :=
  (retouches_takeId links form name).trans
    (.modifyNode _ id fun _ ↦ ⟨rfl, rfl, rfl, rfl, .inl rfl, fun hne ↦ absurd rfl hne⟩)

include hsupports

/-- A form takes a name and is recorded as what a node is mounted as. -/
theorem retouches_recordMounting (host : HostId) :
    Retouches kept id form name w
      (((w.takeId form name).recordParents links).recordMounting id host form) := by
  let mounting : Mounting := ⟨host, if form = id then .itself else .wrapper form⟩
  have hmounted : Retouches kept id form name w _ := retouches_mounting links form name mounting
  exact hmounted.trans (.sweep (hmounted.supports hsupports))

/-- What unfolds when the form has its name does so when the node is recorded as mounted. -/
theorem unfolds_recordMounting {root : NodeId} {shown : Outline}
    (h : (w.takeId form name).Unfolds root shown) (hshown : ∀ n ∈ shown.ids, kept n)
    (host : HostId) :
    (((w.takeId form name).recordParents links).recordMounting id host form).Unfolds root
      shown := by
  let written := (w.takeId form name).recordParents links
  let mounting : Mounting := ⟨host, if form = id then .itself else .wrapper form⟩
  let mounted := written.modifyNode id fun n ↦ { n with mounting? := some mounting }
  have hwritten : written.Unfolds root shown :=
    h.of_bare fun n ↦ map_bare_of_forgetParent (forgetParent_recordParents _ links n)
  have hmounted : mounted.Unfolds root shown := by
    refine hwritten.of_bare fun n ↦ ?_
    rw [node?_modifyNode]
    split
    · rw [Option.map_map]
      rfl
    · rfl
  have hleft := (retouches_mounting links form name mounting).supports hsupports
  exact hmounted.of_nodes fun n hn ↦ hleft.node?_sweep (hshown n hn)

end Mounting

/-- What was rendered and then touched up is displayed. -/
theorem Reveals.of_retouches {node : Node}
    (hdrawn : Drawn (· = id) kept registries id outline form [] w w')
    (hnode : w.node? id = some node)
    (hretouches : Retouches (fun n ↦ kept n ∨ w.Fresh w' n) id form node.id w' w'')
    (hmounted : w''.MountedAs id host form) :
    Reveals kept registries outline id host form w w'' := by
  have hgrows := hdrawn.grows
  have hfresh (n : NodeId) : w.Fresh w'' n ↔ w.Fresh w' n := by
    unfold Fresh
    rw [hretouches.next]
  refine
    { ages := hgrows.ages.trans hretouches.ages
      next := hretouches.next.trans hdrawn.next
      place := by rw [hretouches.next]; exact hdrawn.place
      nodes := fun n old hn hold ↦ ?_
      past := fun n node' hn hnode' ↦ ?_
      fresh := fun n hn ↦ ?_
      owned := fun n hn ↦ ?_
      supports := ?_
      mounted := hmounted
      held := by rw [hretouches.held]; exact hdrawn.held
      apps := fun app happ ↦ (hretouches.apps app (hgrows.held _ happ)).trans (hgrows.apps app happ)
      recorders := fun recorder hrecorder ↦
        (hretouches.recorders recorder (hgrows.held _ hrecorder)).trans
          (hgrows.recorders recorder hrecorder)
      observables := hretouches.observables.trans hgrows.observables
      contains := fun registry ↦ by rw [hretouches.registries]; exact hgrows.contains registry
      listing := fun hregistries hlisting ↦
        hretouches.listing (hgrows.listing hregistries hlisting) }
  · have hsame : w'.node? n = some old := (hgrows.nodes n hn).trans hold
    obtain ⟨node', hnode', hretouched⟩ := hretouches.nodes n old (.inl hn) hsame
    refine ⟨node', hnode', ⟨hretouched.kind, hretouched.registry, hretouched.content, ?_,
      hretouched.onclick⟩, hretouched.mounting⟩
    rcases hretouched.named with hsameId | ⟨rfl, htaken⟩
    · exact hsameId
    · -- a form that was there before is the node itself
      have hlt := lt_next_of_node? hold
      have hplace := hdrawn.place
      have hnext := hdrawn.next
      split at hplace
      · obtain rfl := hplace
        rw [htaken, Option.some.inj (hold.symm.trans hnode)]
      · omega
  · obtain ⟨middle, hmiddle, hretouched⟩ := hretouches.past n node' hnode'
    exact ⟨middle, hgrows.past n middle hn hmiddle, hretouched.content, hretouched.mounting⟩
  · obtain ⟨new, hnew, hisForm⟩ := hgrows.fresh n ((hfresh n).mp hn)
    obtain ⟨node', hnode', hretouched⟩ := hretouches.nodes n new (.inr ((hfresh n).mp hn)) hnew
    have hne : n ≠ id := by
      rintro rfl
      exact absurd (lt_next_of_node? hnode) (Nat.not_lt.mpr hn.1)
    exact ⟨node', hnode', hretouched.isForm hne hisForm⟩
  · simp only [hfresh] at hn ⊢
    refine (hdrawn.owned n hn).imp_right ?_
    rintro ⟨parent, hparent, owner, howner, hmem⟩
    obtain ⟨owner', howner', hretouched⟩ := hretouches.nodes parent owner (.inr hparent) howner
    exact ⟨parent, hparent, owner', howner', by rw [hretouched.content]; exact hmem⟩
  · simp only [hfresh]
    exact hretouches.supports hgrows.supports

/-- As long as the node is a root, the nodes from it down and the forms stay alive: the node keeps
its form alive, and each other form stands in one. -/
theorem Reveals.supports_forms (h : Reveals kept registries outline id host form w w')
    (w'' : World σ) (hunfolds : w.Unfolds id outline) (hkept : ∀ n ∈ outline.ids, kept n)
    (hnodes : w''.nodes = w'.nodes) (hroot : w''.Rooted id) :
    w''.Supports (fun _ ↦ False) fun n ↦ n ∈ outline.ids ∨ w.Fresh w' n := by
  have hnode? (n : NodeId) : w''.node? n = w'.node? n := congrArg (fun nodes ↦ nodes.get? n) hnodes
  intro n hn
  refine ⟨?_, ?_⟩
  · obtain ⟨hlive, -⟩ := h.supports n (hn.imp_left (hkept n))
    rwa [hnode?]
  rcases hn with hn | hn
  · rcases hunfolds.exists_contains hn with rfl | ⟨parent, hparent, owner, howner, hmem⟩
    · exact .inl hroot
    · obtain ⟨owner', howner', hmatches, -⟩ := h.nodes parent owner (hkept parent hparent) howner
      exact .inr ⟨parent, .inl hparent, owner', (hnode? parent).trans howner',
        .inl (hmatches.content ▸ hmem)⟩
  · rcases h.owned n hn with rfl | ⟨parent, hparent, owner, howner, hmem⟩
    · obtain ⟨node, hnode, hmounting⟩ := h.mounted
      by_cases hitself : n = id
      · exact .inl (hitself ▸ hroot)
      · rw [if_neg hitself] at hmounting
        refine .inr ⟨id, .inl hunfolds.mem_ids, node, (hnode? id).trans hnode, .inr ⟨not_false, ?_⟩⟩
        rw [Node.wrapper?, hmounting]
    · exact .inr ⟨parent, .inr hparent, owner, (hnode? parent).trans howner, .inl hmem⟩

/-! ### Mounting and refreshing -/

variable [Journal σ]

/-- The surfaces are still there, whatever they show. -/
def KeepsSurfaces (w w' : World σ) : Prop :=
  ∀ host surface, w.hosts.get? host = some (.surface surface) →
    ∃ changed, w'.hosts.get? host = some (.surface changed)

theorem keepsSurfaces_setInner (w : World σ) (host : HostId) (id markup : String) :
    w.KeepsSurfaces (w.setInner host id markup).2 := by
  intro other surface hsurface
  unfold setInner
  split
  · split
    · by_cases hother : host = other
      · subst hother
        exact ⟨_, hosts_setSurface hsurface _⟩
      · refine ⟨surface, ?_⟩
        rw [setSurface, Table.get?_modify, if_neg hother]
        exact hsurface
    · exact ⟨surface, hsurface⟩
  · exact ⟨surface, hsurface⟩

theorem afterMounting_eq (w : World σ) (id : NodeId) :
    ∃ client, w.afterMounting id = { w with client := client } := by
  unfold afterMounting
  split
  · split
    · exact ⟨_, rfl⟩
    · exact ⟨_, rfl⟩
    · exact ⟨_, rfl⟩
  · exact ⟨_, rfl⟩

omit [Journal σ] in
/-- What was rendered is displayed when the form takes the id of the node and the node is mounted as
the form; before and after that, nodes may be written. -/
theorem Drawn.reveals {node : Node} (h : Drawn (· = id) kept registries id outline form [] w w')
    (hid : .node id ∈ w.held) (hkept : kept id) (hnode : w.node? id = some node)
    (links links' : List (NodeId × NodeId)) (hosts : Table Host) (client : σ) :
    Reveals kept registries outline id host form w
      { ((((w'.takeId form node.id).recordParents links).recordMounting id host form).recordParents
          links') with
        hosts := hosts, client := client } := by
  let written := (w'.takeId form node.id).recordParents links
  let recorded := written.recordMounting id host form
  have hrecorded : Retouches (fun n ↦ kept n ∨ w.Fresh w' n) id form node.id w' recorded :=
    retouches_recordMounting h.grows.supports links host
  have hretouches := (hrecorded.trans (.recordParents _ _ form _ recorded links')).trans
    (.changeHosts _ _ form _ _ hosts client)
  refine .of_retouches h hnode hretouches ?_
  have hwritten : Retouches kept id form node.id w' written := retouches_takeId links form node.id
  obtain ⟨taken, htaken, -⟩ :=
    hwritten.nodes id node hkept ((h.grows.nodes id hkept).trans hnode)
  have hheldStill : .node id ∈ written.held := by
    rw [held_recordParents]
    exact h.grows.held _ hid
  have hmounted := mountedAs_recordMounting hheldStill htaken host form
  have hcarries : recorded.Carries (fun _ ↦ False)
      { recorded.recordParents links' with hosts := hosts, client := client } :=
    (Carries.recordParents recorded links').trans (.changeHosts _ hosts client)
  exact hmounted.of_carries hcarries hheldStill not_false

section Displaying

variable (registries) (hid : .node id ∈ w.held) (hunfolds : w.Unfolds id outline)
  (hsupports : w.Supports (· = id) kept) (hkept : ∀ n ∈ outline.ids, kept n)
  (hregistries : ∀ n self content, .node n self content ∈ outline.parts → registries self.registry)

include hid hunfolds hsupports hkept hregistries

/-- A held node that unfolds is mounted on a surface: it is displayed there as a form whose markup
the surface ends with. -/
theorem exists_mount_reveals {surface : Surface}
    (hhost : w.hosts.get? host = some (.surface surface)) :
    ∃ form shown w', w.mount id host = .ok (form, w') ∧
      Reveals kept registries outline id host form w w' ∧ w'.Unfolds form shown ∧
      (∀ n ∈ shown.ids, kept n ∨ w.Fresh w' n) ∧
      w'.hosts =
        w.hosts.modify host fun _ ↦
          .surface (surface.append (shown.tree w.displayOf).markup) := by
  obtain ⟨⟨node, hnode⟩, -⟩ := hsupports id (hkept id hunfolds.mem_ids)
  obtain ⟨form, rendered, hrender, hdrawn⟩ := exists_drawn hunfolds hsupports hkept hregistries
  have hgrows := hdrawn.grows
  obtain ⟨shown, hshown, hshownIds⟩ := hdrawn.shown
  have hname : rendered.idOf id = node.id :=
    idOf_eq ((hgrows.nodes id (hkept id hunfolds.mem_ids)).trans hnode)
  let recorded := (rendered.takeId form node.id).recordMounting id host form
  have hrecorded : recorded.Unfolds form (shown.takeId node.id) :=
    unfolds_recordMounting hgrows.supports [] (hshown.takeId node.id)
      (fun n hn ↦ hshownIds n (Outline.ids_takeId node.id shown ▸ hn)) host
  have hobservables : recorded.observables = w.observables := hgrows.observables
  let tree := (shown.takeId node.id).tree w.displayOf
  let written := recorded.recordParents tree.links
  have hwritten : written.Unfolds form (shown.takeId node.id) :=
    hrecorded.of_bare fun n ↦ map_bare_of_forgetParent (forgetParent_recordParents _ tree.links n)
  have hhosts : written.hosts = w.hosts := (hosts_recordParents ..).trans hgrows.hosts
  let displayed := written.setSurface host (surface.append tree.markup)
  obtain ⟨client, hafter⟩ := afterMounting_eq displayed id
  have hreveals : Reveals kept registries outline id host form w
      { written with hosts := displayed.hosts, client := client } :=
    hdrawn.reveals hid (hkept id hunfolds.mem_ids) hnode [] tree.links displayed.hosts client
  refine ⟨form, shown.takeId node.id, { written with hosts := displayed.hosts, client := client },
    ?_, hreveals, hwritten.changeHosts _ client, fun n hn ↦ ?_, ?_⟩
  · rw [mount, hrender]
    show
      (((rendered.takeId form (rendered.idOf id)).recordMounting id host form).write form >>= _) = _
    rw [hname]
    show (recorded.write form >>= _) = _
    rw [write_eq_ok hrecorded, displayOf_congr hobservables]
    show Except.ok (form, (written.append host tree.markup).afterMounting id) = _
    rw [append_surface (hhosts ▸ hhost)]
    exact congrArg (fun last ↦ Except.ok (form, last)) hafter
  · rw [Outline.ids_takeId] at hn
    refine (hshownIds n hn).imp_right fun hnew ↦ ⟨hnew.1, ?_⟩
    rw [hreveals.next, ← hdrawn.next]
    exact hnew.2
  · show displayed.hosts = _
    rw [← hhosts]
    rfl

/-- A held node that is mounted and unfolds is refreshed: it is displayed anew, and the reference to
its form is given up. -/
theorem exists_refresh_reveals {node : Node} (hnode : w.node? id = some node) {mounting : Mounting}
    (hmounting : node.mounting? = some mounting) :
    ∃ form w', w.refresh id = .ok (w'.release (.node form)) ∧
      Reveals kept registries outline id mounting.host form w w' ∧ w.KeepsSurfaces w' := by
  obtain ⟨form, rendered, hrender, hdrawn⟩ := exists_drawn hunfolds hsupports hkept hregistries
  obtain ⟨shown, hshown, -⟩ := hdrawn.shown
  let tree := (shown.takeId node.id).tree w.displayOf
  let recorded :=
    ((rendered.takeId form node.id).recordParents tree.links).recordMounting id mounting.host form
  obtain ⟨hosts, client, hset, -⟩ :=
    setInner_eq recorded mounting.host node.id tree.innerMarkup
  have hhosts : recorded.hosts = w.hosts := (hosts_recordParents ..).trans hdrawn.grows.hosts
  refine ⟨form, (recorded.setInner mounting.host node.id tree.innerMarkup).2,
    refresh_eq_ok hnode hmounting hrender hdrawn.grows.observables (hshown.takeId node.id), ?_, ?_⟩
  · rw [hset]
    exact hdrawn.reveals hid (hkept id hunfolds.mem_ids) hnode tree.links [] hosts client
  · have hkeeps := recorded.keepsSurfaces_setInner mounting.host node.id tree.innerMarkup
    unfold KeepsSurfaces at hkeeps
    rwa [hhosts] at hkeeps

end Displaying

end World

end LiveMarkup
