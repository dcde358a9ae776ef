import LiveMarkup.Proofs.World.Settling

/-!
Worlds in which nothing dangles and nothing is left over. In a tidy world (`World.Tidy`) whatever is
referred to is alive, and whatever is alive is referred to, so that it is sound
(`World.Tidy.sound`). The first half (`World.Intact`) is enough for a sweep to make a world tidy
(`World.Intact.sweep`). A tidy world stays tidy while nodes are changed, nested and given up,
references are taken, and what is no node is changed.
-/

set_option autoImplicit false
set_option relaxedAutoImplicit false

namespace LiveMarkup

/-- The number that is handed out next names no row yet. -/
theorem Table.get?_next {α : Type} (t : Table α) : t.get? t.next = none := by
  rw [← Option.not_isSome_iff_eq_none, isSome_get?, contains_iff]
  exact t.next_notMem_ids

/-- A node, and what has become of it: it is in the same registry and keeps the same nodes alive. -/
structure Node.Tied (node node' : Node) : Prop where
  registry : node'.registry = node.registry
  owned : node'.owned = node.owned

namespace Node.Tied

variable {node node' node'' : Node}

theorem refl (node : Node) : node.Tied node := ⟨rfl, rfl⟩

theorem trans (h : node.Tied node') (h' : node'.Tied node'') : node.Tied node'' :=
  ⟨h'.registry.trans h.registry, h'.owned.trans h.owned⟩

theorem addClass (node : Node) (name : String) : node.Tied (node.addClass name) := by
  unfold Node.addClass
  split <;> exact ⟨rfl, rfl⟩

/-- Content that is no node ties a node to nothing. -/
theorem addContent (node : Node) {content : List Child}
    (hcontent : content.filterMap Child.node? = []) : node.Tied (node.addContent content) := by
  refine ⟨rfl, ?_⟩
  show (node.content ++ content).filterMap Child.node? ++ node.wrapper?.toList = node.owned
  rw [List.filterMap_append, hcontent, List.append_nil, Node.owned]

end Node.Tied

namespace World

variable {σ : Type} {w w' : World σ}

/-! ### Tidy worlds -/

/-- Something refers to a node: a reference from outside the tree, or a node that is there. -/
def Referred (w : World σ) (n : NodeId) : Prop :=
  w.Rooted n ∨ ∃ parent, w.Owns (fun _ ↦ False) parent n

theorem owns_iff {parent n : NodeId} : w.Owns (fun _ ↦ False) parent n ↔
    ∃ owner, w.node? parent = some owner ∧ n ∈ owner.owned :=
  exists_congr fun _ ↦ and_congr_right fun _ ↦
    (or_congr_right (and_iff_right not_false)).trans Node.mem_owned_iff.symm

/-- A world in which nothing dangles: whatever is referred to is alive, and applications are in
registries that there are. -/
structure Intact (w : World σ) : Prop where
  listing : w.Listing
  live : ∀ n, w.Referred n → ∃ node, w.node? n = some node
  apps : ∀ id app, w.apps.get? id = some app → w.registries.contains app.registry = true

/-- A world in which nothing is left over either: whatever is alive is referred to. -/
structure Tidy (w : World σ) : Prop extends Intact w where
  referred : ∀ n node, w.node? n = some node → w.Referred n

theorem Tidy.sound (h : w.Tidy) : w.Sound :=
  ⟨h.listing, fun n ↦ ⟨h.live n, fun ⟨node, hnode⟩ ↦ h.referred n node hnode⟩⟩

/-- Nothing is left over after a sweep. -/
theorem Intact.sweep (h : w.Intact) : w.sweep.Tidy where
  listing := h.listing.of_registries (next_sweep w)
    (fun _ node hnode ↦ ⟨node, node?_of_sweep hnode, rfl⟩) (fun _ hr ↦ hr) fun _ ↦ rfl
  live := fun n hn ↦ by
    rcases hn with hroot | ⟨parent, howns⟩
    · have hroot' := rooted_sweep_iff.mp hroot
      obtain ⟨node, hnode⟩ := h.live n (.inl hroot')
      have hsupports : w.Supports (fun _ ↦ False) (· = n) := by
        rintro _ rfl
        exact ⟨⟨node, hnode⟩, .inl hroot'⟩
      exact ⟨node, (hsupports.node?_sweep rfl).trans hnode⟩
    · obtain ⟨owner, howner, howned⟩ := owns_iff.mp howns
      obtain ⟨node, hnode⟩ :=
        h.live n (.inr ⟨parent, owns_iff.mpr ⟨owner, node?_of_sweep howner, howned⟩⟩)
      exact ⟨node, get?_survivors_of_owned howner howned hnode⟩
  apps := fun id app happ ↦ h.apps id app (Table.get?_filter_iff.mp happ).1
  referred := fun n node hnode ↦ by
    have hrounds : w.dropUnheld.nodes.size ≤ w.dropUnheld.nodes.size := Nat.le_refl _
    have hreferred : n ∈ w.dropUnheld.roots ∨ n ∈ ownedNodes w.sweep.nodes :=
      referred_of_survivors hrounds hnode
    rcases hreferred with hroot | howned
    · exact .inl (rooted_sweep_iff.mpr (mem_roots_dropUnheld.mp hroot))
    · obtain ⟨parent, owner, howner, howned⟩ := mem_ownedNodes_iff.mp howned
      exact .inr ⟨parent, owns_iff.mpr ⟨owner, howner, howned⟩⟩

/-- A world without nodes and references, in which no registry lists anything, is tidy. -/
theorem Tidy.of_empty (hnodes : ∀ n, w.node? n = none) (hentries : ∀ r, (w.registry r).entries = [])
    (hheld : w.held = []) (happs : ∀ id, w.apps.get? id = none) : w.Tidy where
  listing := (Ledger.nil hnodes hentries).toListing
  live := fun n hn ↦ by
    rcases hn with (hroot | ⟨_, _, happ, -⟩) | ⟨parent, owner, howner, -⟩
    · rw [hheld] at hroot
      cases hroot
    · rw [hheld] at happ
      cases happ
    · rw [hnodes] at howner
      cases howner
  apps := fun id app happ ↦ by
    rw [happs] at happ
    cases happ
  referred := fun n node hnode ↦ by
    rw [hnodes] at hnode
    cases hnode

/-! ### Changing nodes -/

theorem exists_node?_modifyNode_iff {id n : NodeId} {f : Node → Node} :
    (∃ node, (w.modifyNode id f).node? n = some node) ↔ ∃ node, w.node? n = some node := by
  simp only [← Option.isSome_iff_exists, node?, Table.isSome_get?, World.modifyNode,
    Table.contains_modify]

theorem exists_node?_recordParents_iff {links : List (NodeId × NodeId)} {n : NodeId} :
    (∃ node, (w.recordParents links).node? n = some node) ↔ ∃ node, w.node? n = some node := by
  induction links generalizing w with
  | nil => rfl
  | cons link links ih => exact ih.trans exists_node?_modifyNode_iff

/-- Nodes may be changed so that they keep other live nodes alive. -/
theorem Intact.modifyNode (h : w.Intact) {id : NodeId} {f : Node → Node}
    (hregistry : ∀ node, (f node).registry = node.registry)
    (howned : ∀ node, w.node? id = some node →
      ∀ n ∈ (f node).owned, ∃ other, w.node? n = some other) : (w.modifyNode id f).Intact where
  listing := by
    refine h.listing.of_registries rfl (fun n node' hnode' ↦ ?_) (fun _ hr ↦ hr) fun _ ↦ rfl
    rw [node?_modifyNode] at hnode'
    split at hnode'
    · obtain ⟨node, hnode, rfl⟩ := Option.map_eq_some_iff.mp hnode'
      exact ⟨node, hnode, hregistry node⟩
    · exact ⟨node', hnode', rfl⟩
  live := fun n hn ↦ by
    rw [exists_node?_modifyNode_iff]
    rcases hn with hroot | ⟨parent, howns⟩
    · exact h.live n (.inl hroot)
    · obtain ⟨owner, howner, hmem⟩ := owns_iff.mp howns
      rw [node?_modifyNode] at howner
      split at howner
      · rename_i heq
        subst heq
        obtain ⟨node, hnode, rfl⟩ := Option.map_eq_some_iff.mp howner
        exact howned node hnode n hmem
      · exact h.live n (.inr ⟨parent, owns_iff.mpr ⟨owner, howner, hmem⟩⟩)
  apps := h.apps

/-- Nodes may be changed so that they keep more live nodes alive. -/
theorem Tidy.modifyNode (h : w.Tidy) {id : NodeId} {f : Node → Node}
    (hregistry : ∀ node, (f node).registry = node.registry)
    (howned : ∀ node, w.node? id = some node →
      ∀ n ∈ (f node).owned, ∃ other, w.node? n = some other)
    (hstill : ∀ node, node.owned ⊆ (f node).owned) : (w.modifyNode id f).Tidy where
  toIntact := h.toIntact.modifyNode hregistry howned
  referred := fun n node' hnode' ↦ by
    obtain ⟨node, hnode⟩ := exists_node?_modifyNode_iff.mp ⟨node', hnode'⟩
    refine (h.referred n node hnode).imp_right ?_
    rintro ⟨parent, howns⟩
    obtain ⟨owner, howner, hmem⟩ := owns_iff.mp howns
    refine ⟨parent, owns_iff.mpr ?_⟩
    rw [node?_modifyNode]
    split
    · exact ⟨f owner, congrArg (Option.map f) howner, hstill owner hmem⟩
    · exact ⟨owner, howner, hmem⟩

/-- Whatever else nodes have may be changed. -/
theorem Tidy.retouch (h : w.Tidy) {id : NodeId} {f : Node → Node}
    (hf : ∀ node : Node, node.Tied (f node)) : (w.modifyNode id f).Tidy := by
  refine h.modifyNode (fun node ↦ (hf node).registry) (fun node hnode n hmem ↦ ?_) fun node ↦ ?_
  · rw [(hf node).owned] at hmem
    exact h.live n (.inr ⟨id, owns_iff.mpr ⟨node, hnode, hmem⟩⟩)
  · rw [(hf node).owned]
    exact List.Subset.refl _

/-- Live nodes may be nested in a node. -/
theorem Tidy.nest (h : w.Tidy) (id : NodeId) {content : List Child}
    (hcontent : ∀ n, .node n ∈ content → ∃ node, w.node? n = some node) :
    (w.modifyNode id (Node.addContent · content)).Tidy := by
  refine h.modifyNode (fun _ ↦ rfl) (fun node hnode n hmem ↦ ?_) fun node n hmem ↦ ?_
  · rcases Node.mem_owned_iff.mp hmem with hentry | hwrapper
    · rcases List.mem_append.mp hentry with hold | hnew
      · exact h.live n (.inr ⟨id, owns_iff.mpr ⟨node, hnode, Node.mem_owned_iff.mpr (.inl hold)⟩⟩)
      · exact hcontent n hnew
    · exact h.live n (.inr ⟨id, owns_iff.mpr ⟨node, hnode, Node.mem_owned_iff.mpr (.inr hwrapper)⟩⟩)
  · exact Node.mem_owned_iff.mpr ((Node.mem_owned_iff.mp hmem).imp_left (List.mem_append_left _))

theorem Tidy.recordParents (h : w.Tidy) (links : List (NodeId × NodeId)) :
    (w.recordParents links).Tidy := by
  induction links generalizing w with
  | nil => exact h
  | cons link links ih => exact ih (h.retouch fun _ ↦ ⟨rfl, rfl⟩)

/-! ### Changing references -/

/-- What a reference may be taken to: a live node, an application that is held already, or a
recorder. -/
def Offers (w : World σ) : Root → Prop
  | .node id => ∃ node, w.node? id = some node
  | .recorder _ => True
  | .app id => .app id ∈ w.held

theorem Intact.offers (h : w.Intact) {root : Root} (hroot : root ∈ w.held) : w.Offers root := by
  cases root with
  | node id => exact h.live id (.inl (.inl hroot))
  | recorder => trivial
  | app => exact hroot

/-- Other references may be held. -/
theorem Intact.reheld (h : w.Intact) {held : List Root} (hheld : ∀ root ∈ held, w.Offers root) :
    ({ w with held := held } : World σ).Intact where
  listing := h.listing.of_nodes rfl (fun _ hr ↦ hr) fun _ ↦ rfl
  live := fun n hn ↦ by
    rcases hn with (hroot | ⟨app, shown, happ, hshown⟩) | howns
    · exact hheld _ hroot
    · exact h.live n (.inl (.inr ⟨app, shown, hheld _ happ, hshown⟩))
    · exact h.live n (.inr howns)
  apps := h.apps

/-- More references may be held. -/
theorem Tidy.reheld (h : w.Tidy) {held : List Root} (hheld : ∀ root ∈ held, w.Offers root)
    (hstill : ∀ root ∈ w.held, root ∈ held) : ({ w with held := held } : World σ).Tidy where
  toIntact := h.toIntact.reheld hheld
  referred := fun n node hnode ↦
    (h.referred n node hnode).imp_left fun hroot ↦ hroot.mono hstill fun _ _ ↦ rfl

theorem Tidy.hold (h : w.Tidy) {root : Root} (hroot : w.Offers root) : (w.hold root).Tidy := by
  refine h.reheld (fun other hother ↦ ?_) fun other hother ↦ List.mem_cons_of_mem _ hother
  rcases List.mem_cons.mp hother with rfl | hother
  · exact hroot
  · exact h.offers hother

theorem Tidy.holdAll (h : w.Tidy) {nodes : List NodeId}
    (hnodes : ∀ n ∈ nodes, ∃ node, w.node? n = some node) : (w.holdAll nodes).Tidy := by
  refine h.reheld (fun other hother ↦ ?_) fun other hother ↦ List.mem_append_right _ hother
  rcases List.mem_append.mp hother with hnew | hother
  · obtain ⟨n, hn, rfl⟩ := List.mem_map.mp hnew
    exact hnodes n hn
  · exact h.offers hother

/-- References may be given up, if what they alone kept alive is dropped. -/
theorem Intact.sweep_of_subset (h : w.Intact) {held : List Root} (hheld : held ⊆ w.held) :
    ({ w with held := held } : World σ).sweep.Tidy :=
  (h.reheld fun _ hroot ↦ h.offers (hheld hroot)).sweep

theorem Intact.release (h : w.Intact) (root : Root) : (w.release root).Tidy :=
  h.sweep_of_subset (List.erase_subset ..)

theorem foldl_erase_subset (nodes : List NodeId) (held : List Root) :
    nodes.foldl (fun held node ↦ held.erase (.node node)) held ⊆ held := by
  induction nodes generalizing held with
  | nil => exact List.Subset.refl held
  | cons node nodes ih => exact List.Subset.trans (ih _) (List.erase_subset ..)

theorem Intact.releaseAll (h : w.Intact) (nodes : List NodeId) : (w.releaseAll nodes).Tidy :=
  h.sweep_of_subset (foldl_erase_subset nodes w.held)

/-! ### Changing what is no node -/

theorem node?_congr (hnodes : w'.nodes = w.nodes) (n : NodeId) : w'.node? n = w.node? n := by
  rw [node?, node?, hnodes]

/-- Registries may be added, and all that is no node may be changed, as long as roots are alive. -/
theorem Intact.aside (h : w.Intact) (hnodes : w'.nodes = w.nodes)
    (hcontains : ∀ r, w.registries.contains r = true → w'.registries.contains r = true)
    (hentries : ∀ r, (w'.registry r).entries = (w.registry r).entries)
    (happs : ∀ id app, w'.apps.get? id = some app → w'.registries.contains app.registry = true)
    (hrooted : ∀ n, w'.Rooted n → ∃ node, w.node? n = some node) : w'.Intact where
  listing := h.listing.of_nodes hnodes hcontains hentries
  live := fun n hn ↦ by
    rw [node?_congr hnodes]
    rcases hn with hroot | ⟨parent, owner, howner, howned⟩
    · exact hrooted n hroot
    · exact h.live n (.inr ⟨parent, owner, (node?_congr hnodes parent).symm.trans howner, howned⟩)
  apps := happs

/-- They may be changed as long as the roots are the same. -/
theorem Tidy.aside (h : w.Tidy) (hnodes : w'.nodes = w.nodes)
    (hcontains : ∀ r, w.registries.contains r = true → w'.registries.contains r = true)
    (hentries : ∀ r, (w'.registry r).entries = (w.registry r).entries)
    (happs : ∀ id app, w'.apps.get? id = some app → w'.registries.contains app.registry = true)
    (hrooted : ∀ n, w'.Rooted n ↔ w.Rooted n) : w'.Tidy where
  toIntact := h.toIntact.aside hnodes hcontains hentries happs fun n hroot ↦
    h.live n (.inl ((hrooted n).mp hroot))
  referred := fun n node hnode ↦ by
    rw [node?_congr hnodes] at hnode
    refine (h.referred n node hnode).imp (hrooted n).mpr ?_
    rintro ⟨parent, owner, howner, howned⟩
    exact ⟨parent, owner, (node?_congr hnodes parent).trans howner, howned⟩

/-- Observables, recorders, hosts and the state of the client may be changed. -/
theorem Tidy.of_eq (h : w.Tidy) (hnodes : w'.nodes = w.nodes) (hheld : w'.held = w.held)
    (happs : w'.apps = w.apps) (hregistries : w'.registries = w.registries) : w'.Tidy := by
  refine h.aside hnodes (fun r hr ↦ by rwa [hregistries])
    (fun r ↦ by rw [World.registry, World.registry, hregistries]) (fun id app happ ↦ ?_) fun n ↦ ?_
  · rw [happs] at happ
    rw [hregistries]
    exact h.apps id app happ
  · rw [Rooted, Rooted, hheld, happs]

theorem Tidy.addRegistry (h : w.Tidy) (config : Config) : (w.addRegistry config).Tidy := by
  have hcontains (r : RegistryId) (hr : w.registries.contains r = true) :
      (w.addRegistry config).registries.contains r = true := by
    rw [Table.contains_iff] at hr ⊢
    rw [World.addRegistry, Table.ids_push]
    exact List.mem_append_left _ hr
  refine h.aside rfl hcontains (fun r ↦ ?_) (fun id app happ ↦ hcontains _ (h.apps id app happ))
    fun _ ↦ .rfl
  rw [World.registry, World.addRegistry, Table.get?_push, World.registry]
  split
  · -- what is read in the place of a registry that there is not lists nothing
    rename_i heq
    rw [heq, Option.getD_some, w.registries.get?_next]
    rfl
  · rfl

/-- Ids may be generated, and rules may be added. -/
theorem Tidy.modifyRegistry (h : w.Tidy) (registry : RegistryId) {f : Registry → Registry}
    (hf : ∀ r, (f r).entries = r.entries) : (w.modifyRegistry registry f).Tidy := by
  have hcontains (r : RegistryId) := contains_modifyRegistry w registry r f
  refine h.aside rfl (fun r hr ↦ (hcontains r).trans hr) (fun r ↦ ?_)
    (fun id app happ ↦ (hcontains _).trans (h.apps id app happ)) fun _ ↦ .rfl
  rw [registry_modifyRegistry]
  split
  · exact hf _
  · rfl

theorem Tidy.addRecorder (h : w.Tidy) (handler : Handler) : (w.addRecorder handler).Tidy := by
  have hpushed : ({ w with recorders := w.recorders.push handler } : World σ).Tidy :=
    h.of_eq rfl rfl rfl rfl
  exact hpushed.hold trivial

/-! ### Applications -/

theorem rooted_iff {n : NodeId} : w.Rooted n ↔
    .node n ∈ w.held ∨ ∃ app, .app app ∈ w.held ∧ (w.apps.get? app).bind App.mounted? = some n := by
  simp only [Rooted, Option.bind_eq_some_iff, exists_and_left]

/-- Applications may be made to show live nodes. -/
theorem Intact.modifyApp (h : w.Intact) {id : AppId} {f : App → App}
    (hregistry : ∀ app, (f app).registry = app.registry)
    (hmounted : ∀ app n, (f app).mounted? = some n →
      app.mounted? = some n ∨ ∃ node, w.node? n = some node) : (w.modifyApp id f).Intact := by
  refine h.aside rfl (fun _ hr ↦ hr) (fun _ ↦ rfl) (fun other app happ ↦ ?_) fun n hroot ↦ ?_
  · rw [World.modifyApp, Table.get?_modify] at happ
    split at happ
    · obtain ⟨before, hbefore, rfl⟩ := Option.map_eq_some_iff.mp happ
      rw [hregistry]
      exact h.apps other before hbefore
    · exact h.apps other app happ
  · rcases hroot with hnode | ⟨other, app, hother, happ, hshown⟩
    · exact h.live n (.inl (.inl hnode))
    · rw [World.modifyApp, Table.get?_modify] at happ
      split at happ
      · obtain ⟨before, hbefore, rfl⟩ := Option.map_eq_some_iff.mp happ
        refine (hmounted before n hshown).elim (fun hsame ↦ ?_) fun hlive ↦ hlive
        exact h.live n (.inl (.inr ⟨other, before, hother, hbefore, hsame⟩))
      · exact h.live n (.inl (.inr ⟨other, app, hother, happ, hshown⟩))

/-- Whatever else applications have may be changed. -/
theorem Tidy.modifyApp (h : w.Tidy) {id : AppId} {f : App → App}
    (hregistry : ∀ app, (f app).registry = app.registry)
    (hmounted : ∀ app, (f app).mounted? = app.mounted?) : (w.modifyApp id f).Tidy where
  toIntact := h.toIntact.modifyApp hregistry fun app n hn ↦ .inl (hmounted app ▸ hn)
  referred := fun n node hnode ↦ by
    refine (h.referred n node hnode).imp_left fun hroot ↦ ?_
    rw [rooted_iff] at hroot ⊢
    refine hroot.imp_right ?_
    rintro ⟨other, hother, hshown⟩
    refine ⟨other, hother, ?_⟩
    rw [World.modifyApp, Table.get?_modify]
    split
    · rw [Option.bind_map, show App.mounted? ∘ f = App.mounted? from funext hmounted]
      exact hshown
    · exact hshown

/-- An application that shows nothing yet may be added. -/
theorem Tidy.addApp (h : w.Tidy) {app : App} (hregistry : w.registries.contains app.registry = true)
    (hmounted : app.mounted? = none) : (w.addApp app).Tidy := by
  refine h.aside rfl (fun _ hr ↦ hr) (fun _ ↦ rfl) (fun id other hother ↦ ?_) fun n ↦ ?_
  · rw [World.addApp, World.hold, Table.get?_push] at hother
    split at hother
    · obtain rfl := Option.some.inj hother
      exact hregistry
    · exact h.apps id other hother
  · have hshown (id : AppId) : ((w.apps.push app).get? id).bind App.mounted? =
        (w.apps.get? id).bind App.mounted? := by
      rw [Table.get?_push]
      split
      · rename_i heq
        rw [heq, w.apps.get?_next, Option.bind_some, Option.bind_none, hmounted]
      · rfl
    rw [rooted_iff, rooted_iff]
    simp only [World.addApp, World.hold, List.mem_cons, hshown, reduceCtorEq, false_or]
    refine or_congr_right (exists_congr fun id ↦ ⟨?_, fun hold ↦ ⟨.inr hold.1, hold.2⟩⟩)
    rintro ⟨heq | hheld, hmountedId⟩
    · obtain rfl := Root.app.inj heq
      rw [w.apps.get?_next] at hmountedId
      cases hmountedId
    · exact ⟨hheld, hmountedId⟩

end World

end LiveMarkup
