import LiveMarkup.Proofs.World.Display

/-!
Drawing on a stage. A refresh of any node leaves the surface of a stage up to date but for the
nodes that were stale before, the refreshed one excepted (`Stage.Current.refresh`). Mounting a node
of the stage adds a piece that is up to date (`Stage.Current.mount`).
-/

set_option autoImplicit false
set_option relaxedAutoImplicit false

namespace LiveMarkup.Stage

variable {σ : Type} {w w' : World σ} {stage : Stage} {mounted : List NodeId}
  {stale stale' : NodeId → Prop}

/-- The surface of a stage displays the nodes mounted on it; only some may be stale. -/
def Current (stage : Stage) (w : World σ) (mounted : List NodeId) (stale : NodeId → Prop) : Prop :=
  ∃ piece, stage.Displays w mounted stale piece

theorem Displays.mono {piece : NodeId → Piece} (h : stage.Displays w mounted stale piece)
    (hstale : ∀ id ∈ mounted, stale id → stale' id) : stage.Displays w mounted stale' piece where
  stands := h.stands
  subset := h.subset
  nodup := h.nodup
  surface := h.surface
  fits := h.fits
  shows := fun id hid ↦ by
    obtain ⟨form, shown, hshows, hcurrent⟩ := h.shows id hid
    exact ⟨form, shown, hshows, fun hnot ↦ hcurrent fun hid' ↦ hnot (hstale id hid hid')⟩
  only := h.only

theorem Current.mono (h : stage.Current w mounted stale)
    (hstale : ∀ id ∈ mounted, stale id → stale' id) : stage.Current w mounted stale' := by
  obtain ⟨piece, hdisplays⟩ := h
  exact ⟨piece, hdisplays.mono hstale⟩

theorem Current.held (h : stage.Current w mounted stale) :
    ∀ id ∈ stage.nodes, .node id ∈ w.held := by
  obtain ⟨piece, hdisplays⟩ := h
  exact hdisplays.stands.held

/-- Whatever the form of a node shows inside can stand in a piece of the surface. -/
theorem Shows.safe_content {id form : NodeId} {shown : Outline} (h : stage.Shows w id form shown)
    (hid : id ∈ stage.nodes) (hstands : stage.Stands w) :
    (∀ tree ∈ (shown.tree w.displayOf).content, tree.Safe) ∧
      ∀ other ∈ stage.nodes,
        Tree.occurrences (stage.name other) (shown.tree w.displayOf).content = 0 :=
  ⟨(h.safe_tree hid hstands).content, fun other hother ↦
    Outline.occurrences_content_tree fun part hpart ↦ h.hides part hpart other hother⟩

/-- A node whose form has taken its name is displayed once its piece, old or new, holds what the
form does. The other pieces stay as they are. -/
theorem Displays.drawn {piece : NodeId → Piece} (h : stage.Displays w mounted stale piece)
    {id form : NodeId} (hid : id ∈ stage.nodes) {shown : Outline}
    (hcarries : w.Carries (· = id) w') (hshows : stage.Shows w' id form shown) {new : Piece}
    (hfits : stage.Fits id new) (hnew : new.content = (shown.tree w'.displayOf).content)
    {mounted' : List NodeId} (hmounted' : ∀ other, other ∈ mounted' ↔ other = id ∨ other ∈ mounted)
    (hnodup : mounted'.Nodup)
    (hsurface : ∃ surface, w'.hosts.get? stage.host = some (.surface surface) ∧
      surface.markup = mosaic (mounted'.map (Function.update piece id new))) :
    stage.Displays w' mounted' (fun other ↦ stale other ∧ other ≠ id)
      (Function.update piece id new) := by
  refine
    { stands := h.stands.of_carries hcarries
      subset := fun other hother ↦ ?_
      nodup := hnodup
      surface := hsurface
      fits := fun other hother ↦ ?_
      shows := fun other hother ↦ ?_
      only := fun other node' mounting hnode' hmounting hhost ↦ (hmounted' other).mpr ?_ }
  · rcases (hmounted' other).mp hother with rfl | hold
    · exact hid
    · exact h.subset other hold
  · by_cases hsame : other = id
    · subst hsame
      rwa [Function.update_self]
    · rw [Function.update_of_ne hsame]
      exact h.fits other (((hmounted' other).mp hother).resolve_left hsame)
  · by_cases hsame : other = id
    · subst hsame
      refine ⟨form, shown, hshows, fun _ ↦ ?_⟩
      rwa [Function.update_self]
    · have hold := ((hmounted' other).mp hother).resolve_left hsame
      obtain ⟨old, oldShown, hshown, hcurrent⟩ := h.shows other hold
      have hheld := h.stands.held other (h.subset other hold)
      refine ⟨old, oldShown, hshown.of_carries hcarries hheld hsame, fun hfresh ↦ ?_⟩
      rw [Function.update_of_ne hsame, World.displayOf_congr hcarries.observables]
      exact hcurrent fun hstale ↦ hfresh ⟨hstale, hsame⟩
  · rcases hcarries.mountings other node' hnode' with heq | hnone | ⟨node, hnode, hsame⟩
    · exact .inl heq
    · rw [hnone] at hmounting
      cases hmounting
    · exact .inr (h.only other node mounting hnode (hsame ▸ hmounting) hhost)

/-- A node that is mounted already is displayed once its piece is filled anew. -/
theorem Displays.redraw {piece : NodeId → Piece} (h : stage.Displays w mounted stale piece)
    {id form : NodeId} (hid : id ∈ mounted) {shown : Outline} (hcarries : w.Carries (· = id) w')
    (hmounted : w'.MountedAs id stage.host form) (hunfolds : w'.Unfolds form shown)
    (hshowsAs : w.ShowsAs (stage.name id) (stage.outline id) shown)
    (hsurface : ∃ surface, w'.hosts.get? stage.host = some (.surface surface) ∧
      surface.markup = mosaic (mounted.map
        (Function.update piece id ((piece id).filled (shown.tree w.displayOf).content)))) :
    stage.Displays w' mounted (fun other ↦ stale other ∧ other ≠ id)
      (Function.update piece id ((piece id).filled (shown.tree w.displayOf).content)) := by
  have hstage := h.subset id hid
  have hshows : stage.Shows w' id form shown :=
    .of_showsAs hstage h.stands hmounted hunfolds hcarries hshowsAs
  obtain ⟨hsafe, hhides⟩ := hshows.safe_content hstage (h.stands.of_carries hcarries)
  have hdisplay : w'.displayOf = w.displayOf := World.displayOf_congr hcarries.observables
  rw [hdisplay] at hsafe hhides
  have hfits : stage.Fits id ((piece id).filled (shown.tree w.displayOf).content) :=
    ⟨(h.fits id hid).safe.filled hsafe, (h.fits id hid).root, hhides⟩
  refine h.drawn hstage hcarries hshows hfits ?_ (fun other ↦ ?_) h.nodup hsurface
  · rw [hdisplay]
    rfl
  · exact ⟨.inr, fun hother ↦ hother.elim (fun heq ↦ heq ▸ hid) fun hold ↦ hold⟩

/-- Filling the piece of one node changes nothing else in the order of mounting. -/
theorem map_update {piece : NodeId → Piece} {front back : List NodeId} {id : NodeId}
    (hnodup : (front ++ id :: back).Nodup) (new : Piece) :
    (front ++ id :: back).map (Function.update piece id new) =
      front.map piece ++ new :: back.map piece := by
  have hsame {l : List NodeId} (hl : id ∉ l) : l.map (Function.update piece id new) = l.map piece :=
    List.map_congr_left fun other hother ↦
      Function.update_of_ne (ne_of_mem_of_not_mem hother hl) new piece
  have hmiddle : (id :: (front ++ back)).Nodup := List.perm_middle.nodup_iff.mp hnodup
  have hnot := (List.nodup_cons.mp hmiddle).1
  rw [List.map_append, List.map_cons, Function.update_self,
    hsame fun hfront ↦ hnot (List.mem_append_left _ hfront),
    hsame fun hback ↦ hnot (List.mem_append_right _ hback)]

variable [Journal σ]

/-- A mounted node of the stage is redrawn. -/
theorem Displays.refresh_mounted {piece : NodeId → Piece} (h : stage.Displays w mounted stale piece)
    {id : NodeId} (hid : id ∈ mounted) :
    ∃ w', w.refresh id = .ok w' ∧ w'.held.Perm w.held ∧ w'.observables = w.observables ∧
      stage.Current w' mounted fun other ↦ stale other ∧ other ≠ id := by
  have hstage := h.subset id hid
  have hheld := h.stands.held id hstage
  obtain ⟨node, hnode, hkind, htext, hname⟩ := h.stands.node id hstage
  obtain ⟨_, _, hold, _⟩ := h.shows id hid
  obtain ⟨same, hsame, hmounting⟩ := hold.mounted
  obtain rfl : same = node := Option.some.inj (hsame.symm.trans hnode)
  obtain ⟨form, shown, before, hredisplays, hhosts, hunfolds, hshowsAs, hrefresh⟩ :=
    World.exists_refresh hheld (h.stands.unfolds id hstage) (h.stands.ready id hstage) hnode hkind
      hmounting
  rw [hname] at hshowsAs hrefresh
  obtain ⟨surface, hsurface, hmarkup⟩ := h.surface
  let trees := (shown.tree w.displayOf).content
  have htrees : ∀ tree ∈ trees, tree.Safe := by
    refine Tree.Safe.content (hunfolds.safe_tree hshowsAs.ready.safe fun observable hholds ↦ ?_)
    exact h.stands.values id hstage observable (hshowsAs.holds observable hholds)
  let changed : Surface :=
    { surface with
      markup := mosaic (mounted.map (Function.update piece id ((piece id).filled trees))) }
  have hbefore : before.hosts.get? stage.host = some (.surface surface) := by
    rw [hhosts]
    exact hsurface
  have hset : (before.setInner stage.host (stage.name id) (Tree.markupAll trees)).2 =
      before.setSurface stage.host changed := by
    obtain ⟨front, back, hsplit⟩ := List.append_of_mem hid
    have hnodup := hsplit ▸ h.nodup
    have hfind := Fits.find? hstage (hsplit ▸ hmarkup) (hsplit ▸ h.fits) hnodup
    rw [World.setInner_surface hbefore hfind, Surface.withInner_mosaic _ _ _ htrees,
      ← map_update hnodup, ← hsplit]
  have hdrawn : World.Redisplays w (before.setSurface stage.host changed) id stage.host form :=
    hredisplays.trans hheld (.changeHosts before _ before.client) rfl
  have hshown : (before.setSurface stage.host changed).Unfolds form shown :=
    hunfolds.changeHosts _ before.client
  obtain ⟨hcarries, hperm, hmounted, hreleased⟩ := hdrawn.release hheld
  refine ⟨(before.setSurface stage.host changed).release (.node form), ?_, hperm,
    hcarries.observables, _,
    h.redraw hid hcarries hmounted (hreleased shown hshown) hshowsAs ⟨changed, ?_, rfl⟩⟩
  · rw [hrefresh]
    exact congrArg (fun w : World σ ↦ Except.ok (w.release (.node form))) hset
  · exact World.hosts_setSurface hbefore changed

/-- Whatever node is refreshed, the nodes of the stage stay displayed, and it is up to date. -/
theorem Current.refresh (h : stage.Current w mounted stale) {id : NodeId} (hid : .node id ∈ w.held)
    {node : Node} (hnode : w.node? id = some node) (hrefresh : w.refresh id = .ok w') :
    w'.held.Perm w.held ∧ w'.observables = w.observables ∧
      stage.Current w' mounted fun other ↦ stale other ∧ other ≠ id := by
  obtain ⟨piece, hdisplays⟩ := h
  by_cases hmounted : id ∈ mounted
  · obtain ⟨_, heq, hdone⟩ := hdisplays.refresh_mounted hmounted
    obtain rfl := Except.ok.inj (heq.symm.trans hrefresh)
    exact hdone
  have hne (other : NodeId) (hother : other ∈ mounted) : other ≠ id :=
    ne_of_mem_of_not_mem hother hmounted
  cases hmounting : node.mounting? with
  | none =>
    have hnone : (w.node? id).bind Node.mounting? = none := by
      rw [hnode, Option.bind_some, hmounting]
    obtain rfl := Except.ok.inj ((World.refresh_of_unmounted hnone).symm.trans hrefresh)
    exact ⟨.refl _, rfl, piece, hdisplays.mono fun other hother hstale ↦ ⟨hstale, hne other hother⟩⟩
  | some mounting =>
    -- the node is mounted on another host
    have hhost : mounting.host ≠ stage.host := fun hhost ↦
      hmounted (hdisplays.only id node mounting hnode hmounting hhost)
    obtain ⟨form, before, markup, hredisplays, hhosts, rfl⟩ :=
      World.refresh_inv hid hnode hmounting hrefresh
    obtain ⟨hosts, client, hset, hothers⟩ := before.setInner_eq mounting.host node.id markup
    obtain ⟨hcarries, hperm, hremounted, -⟩ :=
      (hredisplays.setInner hid mounting.host node.id markup).release hid
    rw [hset] at hcarries hperm hremounted ⊢
    refine ⟨hperm, hcarries.observables, piece,
      (hdisplays.of_carries hcarries hne ?_ ?_).mono fun other hother hstale ↦
      ⟨hstale, hne other hother⟩⟩
    · rw [← hhosts]
      exact hothers stage.host hhost.symm
    · rintro other node' mounting' rfl hnode' hmounting'
      obtain ⟨same, hsame, hat⟩ := hremounted
      obtain rfl := Option.some.inj (hsame.symm.trans hnode')
      obtain rfl := Option.some.inj (hat.symm.trans hmounting')
      exact hhost

/-! ### Mounting -/

omit [Journal σ] in
/-- A node whose form has taken its name is displayed once its form stands last on the surface. -/
theorem Displays.draw {piece : NodeId → Piece} (h : stage.Displays w mounted stale piece)
    {id form : NodeId} (hid : id ∈ stage.nodes) (hnew : id ∉ mounted) {shown : Outline}
    (hcarries : w.Carries (· = id) w') (hmounted : w'.MountedAs id stage.host form)
    (hunfolds : w'.Unfolds form shown)
    (hshowsAs : w.ShowsAs (stage.name id) (stage.outline id) shown)
    {surface : Surface} (hsurface : w.hosts.get? stage.host = some (.surface surface))
    (happended : w'.hosts.get? stage.host =
      some (.surface (surface.append (shown.tree w.displayOf).markup))) :
    stage.Current w' (mounted ++ [id]) stale := by
  have hstands := h.stands.of_carries hcarries
  have hshows : stage.Shows w' id form shown :=
    .of_showsAs hid h.stands hmounted hunfolds hcarries hshowsAs
  have hdisplay : w'.displayOf = w.displayOf := World.displayOf_congr hcarries.observables
  have htree := hshows.safe_tree hid hstands
  have hhides := (hshows.safe_content hid hstands).2
  rw [hdisplay] at htree hhides
  have hroot := hshowsAs.root
  obtain ⟨self, parts, _, _, rfl⟩ := World.unfolds_iff.mp hunfolds
  let new : Piece := .ofElement self.tag self.attributes.printed (Outline.trees w.displayOf parts)
  have hcontent : new.content = Outline.trees w.displayOf parts := Piece.content_ofElement ..
  have hfits : stage.Fits id new := by
    refine ⟨?_, fun name hname ↦ (hroot _).trans ⟨stage.distinct name hname id hid, ?_⟩,
      fun name hname ↦ ?_⟩
    · cases htree with
      | element htag hattributes hparts => exact ⟨htag, hattributes, by rwa [hcontent]⟩
    · rintro rfl
      rfl
    · rw [Piece.HidesNo, hcontent]
      exact hhides name hname
  have hnodup : (mounted ++ [id]).Nodup :=
    List.perm_middle.nodup_iff.mpr
      (List.nodup_cons.mpr ⟨by simpa using hnew, by simpa using h.nodup⟩)
  have hshown : new.content = ((Outline.node form self parts).tree w'.displayOf).content := by
    rw [hcontent, hdisplay]
    rfl
  have hmem (other : NodeId) : other ∈ mounted ++ [id] ↔ other = id ∨ other ∈ mounted := by
    rw [List.mem_append, List.mem_singleton, or_comm]
  obtain ⟨same, hsame, hmarkup⟩ := h.surface
  obtain rfl : same = surface := Host.surface.inj (Option.some.inj (hsame.symm.trans hsurface))
  have hpieces :
      (mounted ++ [id]).map (Function.update piece id new) = mounted.map piece ++ [new] :=
    map_update hnodup new
  have hdrawn := h.drawn hid hcarries hshows hfits hshown hmem hnodup ⟨_, happended, by
    rw [hpieces, Surface.append, hmarkup]
    exact mosaic_append_markup (mounted.map piece) htree⟩
  exact ⟨_, hdrawn.mono fun _ _ hstale ↦ hstale.1⟩

/-- A node of the stage that is not mounted yet is mounted; the reference to its form may be given
up at once. -/
theorem Current.mount (h : stage.Current w mounted stale) {id : NodeId} (hid : id ∈ stage.nodes)
    (hnew : id ∉ mounted) :
    ∃ form w', w.mount id stage.host = .ok (form, w') ∧ stage.Current w' (mounted ++ [id]) stale ∧
      stage.Current (w'.release (.node form)) (mounted ++ [id]) stale ∧
      w'.observables = w.observables := by
  obtain ⟨piece, hdisplays⟩ := h
  have hheld := hdisplays.stands.held id hid
  obtain ⟨node, hnode, hkind, htext, hname⟩ := hdisplays.stands.node id hid
  obtain ⟨surface, hsurface, _⟩ := hdisplays.surface
  obtain ⟨form, shown, before, hredisplays, hhosts, hunfolds, hshowsAs, hmount⟩ :=
    World.exists_mount hheld (hdisplays.stands.unfolds id hid) (hdisplays.stands.ready id hid) hnode
      hkind hsurface
  rw [hname] at hshowsAs
  let changed := surface.append (shown.tree w.displayOf).markup
  have hbefore : before.hosts.get? stage.host = some (.surface surface) := by
    rw [hhosts]
    exact hsurface
  have hdrawn : World.Redisplays w (before.setSurface stage.host changed) id stage.host form :=
    hredisplays.trans hheld (.changeHosts before _ before.client) rfl
  have hshown : (before.setSurface stage.host changed).Unfolds form shown :=
    hunfolds.changeHosts _ before.client
  obtain ⟨hcarries, _, hmounted, hreleased⟩ := hdrawn.release hheld
  refine ⟨form, _, hmount, ?_, ?_, hdrawn.carries.observables⟩
  · exact hdisplays.draw hid hnew hdrawn.carries hdrawn.mounted hshown hshowsAs hsurface
      (World.hosts_setSurface hbefore changed)
  · exact hdisplays.draw hid hnew hcarries hmounted (hreleased shown hshown) hshowsAs hsurface
      (World.hosts_setSurface hbefore changed)

end LiveMarkup.Stage
