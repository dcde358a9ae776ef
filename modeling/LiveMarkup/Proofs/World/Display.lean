import LiveMarkup.Proofs.Markup.Mosaic
import LiveMarkup.Proofs.World.Refreshing

/-!
What a surface displays. A stage is a surface with the nodes that are to be mounted on it, told
apart by their ids (`Stage`). A world displays the nodes mounted so far if the surface consists of
one piece for each, in the order of mounting, and the piece of a node that is not stale holds what
is inside the form of the node now (`Stage.Displays`).
-/

set_option autoImplicit false
set_option relaxedAutoImplicit false

namespace LiveMarkup

open World (PrintsId)

/-- A host with the nodes to be mounted on it, what they unfold to, and their ids. No id of a node
is shown below one of the nodes. -/
structure Stage where
  host : HostId
  nodes : List NodeId
  outline : NodeId → Outline
  name : NodeId → String
  safeId : ∀ id ∈ nodes, SafeId (name id).toList
  distinct : ∀ id ∈ nodes, ∀ other ∈ nodes, name id = name other → id = other
  apart : ∀ id ∈ nodes, ∀ part ∈ (outline id).inside, ∀ other ∈ nodes, ¬PrintsId part (name other)

/-- What is not printed below the root of an outline is not printed inside its tree. -/
theorem Outline.occurrences_content_tree {display : ObservableId → String} {outline : Outline}
    {id : String} (h : ∀ part ∈ outline.inside, ¬PrintsId part id) :
    Tree.occurrences id (outline.tree display).content = 0 := by
  cases outline with
  | leaf child => rfl
  | node form self content =>
    rw [Tree.occurrences, List.countP_eq_zero]
    intro element helement
    have helements : element ∈ (partsAll content).map (tree display) := by
      rw [← elementsAll_trees]
      exact helement
    obtain ⟨part, hpart, rfl⟩ := List.mem_map.mp helements
    rw [Tree.printsId_iff, attributes_tree]
    exact h part hpart

namespace Stage

variable {σ : Type} {w w' : World σ} {skip : NodeId → Prop} {stage : Stage}

/-- The nodes of a stage are alive, can be displayed with safe values, and have ids that are not
generated any more. -/
structure Stands (stage : Stage) (w : World σ) : Prop where
  held : ∀ id ∈ stage.nodes, .node id ∈ w.held
  node : ∀ id ∈ stage.nodes, ∃ node, w.node? id = some node ∧ node.kind.IsBuiltIn ∧
    node.HasTextId ∧ node.id = stage.name id
  unfolds : ∀ id ∈ stage.nodes, w.Unfolds id (stage.outline id)
  ready : ∀ id ∈ stage.nodes, w.Ready (stage.outline id)
  values : ∀ id ∈ stage.nodes, ∀ observable, (stage.outline id).Holds observable →
    SafeText (w.displayOf observable).toList
  fresh : ∀ id ∈ stage.nodes, ¬w.WillGenerate (stage.name id)

/-- A node is mounted, displayed as a form that unfolds to an outline. -/
structure Shows (stage : Stage) (w : World σ) (id form : NodeId) (shown : Outline) : Prop where
  mounted : w.MountedAs id stage.host form
  unfolds : w.Unfolds form shown
  ready : w.Ready shown
  holds : ∀ observable, shown.Holds observable → (stage.outline id).Holds observable
  looks : ∀ display, Looks display (stage.outline id) (shown.tree display)
  hides : ∀ part ∈ shown.inside, ∀ other ∈ stage.nodes, ¬PrintsId part (stage.name other)

/-- A piece is found under the id of a node, and under no other. -/
structure Fits (stage : Stage) (id : NodeId) (piece : Piece) : Prop where
  safe : piece.Safe
  root : ∀ other ∈ stage.nodes, ("id", stage.name other) ∈ piece.attributes ↔ other = id
  hides : ∀ other ∈ stage.nodes, piece.HidesNo (stage.name other)

/-- The surface of a stage consists of one piece for each node mounted on it, in order; the pieces
of nodes that are not stale are up to date. -/
structure Displays (stage : Stage) (w : World σ) (mounted : List NodeId) (stale : NodeId → Prop)
    (piece : NodeId → Piece) : Prop where
  stands : stage.Stands w
  subset : ∀ id ∈ mounted, id ∈ stage.nodes
  nodup : mounted.Nodup
  surface : ∃ surface, w.hosts.get? stage.host = some (.surface surface) ∧
    surface.markup = mosaic (mounted.map piece)
  fits : ∀ id ∈ mounted, stage.Fits id (piece id)
  shows : ∀ id ∈ mounted, ∃ form shown, stage.Shows w id form shown ∧
    (¬stale id → (piece id).content = (shown.tree w.displayOf).content)
  only : ∀ id node mounting, w.node? id = some node → node.mounting? = some mounting →
    mounting.host = stage.host → id ∈ mounted

/-! ### What is carried over -/

theorem Stands.of_carries (h : stage.Stands w) (hcarries : w.Carries skip w') :
    stage.Stands w' where
  held := fun id hid ↦ hcarries.held _ (h.held id hid)
  node := fun id hid ↦ by
    obtain ⟨node, hnode, hkind, htext, hname⟩ := h.node id hid
    obtain ⟨node', hnode', hkin, _⟩ := hcarries.nodes id node (.held (h.held id hid) hnode) hnode
    have hsame := hkin.attributes htext
    refine ⟨node', hnode', by rw [hkin.eq]; exact hkind, ?_, ?_⟩
    · rw [Node.HasTextId, hsame]
      exact htext
    · rw [Node.id, hsame]
      exact hname
  unfolds := fun id hid ↦ by
    obtain ⟨node, hnode, _⟩ := h.node id hid
    have hkept : w.Kept skip id := .held (h.held id hid) hnode
    exact hcarries.unfolds (h.unfolds id hid) hkept (h.ready id hid)
  ready := fun id hid ↦ hcarries.ready_iff.mpr (h.ready id hid)
  values := fun id hid observable hholds ↦ by
    rw [World.displayOf_congr hcarries.observables]
    exact h.values id hid observable hholds
  fresh := fun id hid hwill ↦ h.fresh id hid (hcarries.willGenerate hwill)

theorem Shows.of_carries {id form : NodeId} {shown : Outline} (h : stage.Shows w id form shown)
    (hcarries : w.Carries skip w') (hheld : .node id ∈ w.held) (hskip : ¬skip id) :
    stage.Shows w' id form shown where
  mounted := h.mounted.of_carries hcarries hheld hskip
  unfolds := by
    obtain ⟨node, _, hnode, _⟩ := World.unfolds_iff.mp h.unfolds
    exact hcarries.unfolds h.unfolds (h.mounted.kept hheld hskip hnode) h.ready
  ready := hcarries.ready_iff.mpr h.ready
  holds := h.holds
  looks := h.looks
  hides := h.hides

/-- A form that took the name of the node shows no other id of the stage. -/
theorem Shows.of_showsAs {id form : NodeId} {shown : Outline} (hid : id ∈ stage.nodes)
    (hstands : stage.Stands w) (hmounted : w'.MountedAs id stage.host form)
    (hunfolds : w'.Unfolds form shown) (hcarries : w.Carries skip w')
    (hshows : w.ShowsAs (stage.name id) (stage.outline id) shown) :
    stage.Shows w' id form shown where
  mounted := hmounted
  unfolds := hunfolds
  ready := hcarries.ready_iff.mpr hshows.ready
  holds := hshows.holds
  looks := hshows.looks
  hides := fun part hpart other hother hprints ↦ by
    rcases hshows.inside part hpart _ hprints with ⟨part', hpart', hprints'⟩ | hwill
    · exact stage.apart id hid part' hpart' other hother hprints'
    · exact hstands.fresh other hother hwill

/-- The tree of a form is safe. -/
theorem Shows.safe_tree {id form : NodeId} {shown : Outline} (h : stage.Shows w id form shown)
    (hid : id ∈ stage.nodes) (hstands : stage.Stands w) : (shown.tree w.displayOf).Safe :=
  h.unfolds.safe_tree h.ready.safe fun observable hholds ↦
    hstands.values id hid observable (h.holds observable hholds)

/-! ### The surface -/

/-- The piece of a mounted node stands where the node does in the order of mounting. -/
theorem Fits.find? {surface : Surface} {piece : NodeId → Piece} {front back : List NodeId}
    {id : NodeId} (hid : id ∈ stage.nodes)
    (hmarkup : surface.markup = mosaic ((front ++ id :: back).map piece))
    (hfits : ∀ other ∈ front ++ id :: back, stage.Fits other (piece other))
    (hnodup : (front ++ id :: back).Nodup) :
    surface.find? (stage.name id) =
      some ((piece id).located (mosaicTokens (front.map piece))
        (mosaicTokens (back.map piece))) := by
  rw [List.map_append, List.map_cons] at hmarkup
  refine Surface.find?_mosaic hmarkup (fun other hother ↦ ?_) (stage.safeId id hid) ?_
    fun other hother ↦ ?_
  · rw [← List.map_cons, ← List.map_append] at hother
    obtain ⟨node, hnode, rfl⟩ := List.mem_map.mp hother
    exact (hfits node hnode).safe
  · exact ((hfits id (by simp)).root id hid).mpr rfl
  · obtain ⟨node, hnode, rfl⟩ := List.mem_map.mp hother
    have hfit := hfits node (List.mem_append_left _ hnode)
    refine ⟨fun hprints ↦ ?_, hfit.hides id hid⟩
    have hsame : id = node := (hfit.root id hid).mp hprints
    exact (List.nodup_append.mp hnodup).2.2 node hnode id List.mem_cons_self hsame.symm

/-- A node that is not mounted anew is displayed as before. -/
theorem Displays.of_carries {mounted : List NodeId} {stale : NodeId → Prop} {piece : NodeId → Piece}
    (h : stage.Displays w mounted stale piece) (hcarries : w.Carries skip w')
    (hskip : ∀ id ∈ mounted, ¬skip id) (hhosts : w'.hosts.get? stage.host = w.hosts.get? stage.host)
    (hother : ∀ id node mounting, skip id → w'.node? id = some node →
      node.mounting? = some mounting → mounting.host ≠ stage.host) :
    stage.Displays w' mounted stale piece where
  stands := h.stands.of_carries hcarries
  subset := h.subset
  nodup := h.nodup
  surface := by
    rw [hhosts]
    exact h.surface
  fits := h.fits
  shows := fun id hid ↦ by
    obtain ⟨form, shown, hshows, hcurrent⟩ := h.shows id hid
    have hheld := h.stands.held id (h.subset id hid)
    refine ⟨form, shown, hshows.of_carries hcarries hheld (hskip id hid), ?_⟩
    rw [World.displayOf_congr hcarries.observables]
    exact hcurrent
  only := fun id node' mounting hnode' hmounting hhost ↦ by
    rcases hcarries.mountings id node' hnode' with hid | hnone | ⟨node, hnode, hsame⟩
    · exact absurd hhost (hother id node' mounting hid hnode' hmounting)
    · rw [hnone] at hmounting
      cases hmounting
    · exact h.only id node mounting hnode (hsame ▸ hmounting) hhost

theorem Displays.changeHeld {mounted : List NodeId} {stale : NodeId → Prop} {piece : NodeId → Piece}
    (h : stage.Displays w mounted stale piece) {held : List Root}
    (hheld : ∀ id ∈ stage.nodes, .node id ∈ held) :
    stage.Displays { w with held := held } mounted stale piece where
  stands :=
    { held := hheld
      node := h.stands.node
      unfolds := fun id hid ↦ (h.stands.unfolds id hid).changeHeld held
      ready := fun id hid ↦ (h.stands.ready id hid).congr (by intro registry; rfl)
      values := h.stands.values
      fresh := h.stands.fresh }
  subset := h.subset
  nodup := h.nodup
  surface := h.surface
  fits := h.fits
  shows := fun id hid ↦ by
    obtain ⟨form, shown, hshows, hcurrent⟩ := h.shows id hid
    exact ⟨form, shown, ⟨hshows.mounted, hshows.unfolds.changeHeld held,
      hshows.ready.congr (by intro registry; rfl), hshows.holds, hshows.looks, hshows.hides⟩,
      hcurrent⟩
  only := h.only

end Stage

end LiveMarkup
