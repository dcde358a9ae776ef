import LiveMarkup.Proofs.Pages.Exchange
import LiveMarkup.Proofs.Pages.Upkeep
import LiveMarkup.World.Clicking

/-!
Loading pages. The load pass adds the click callbacks of the live nodes of a registry to the
listeners of their elements (`World.exists_load`), and a page that is shown stays shown
(`World.Bears.exists_load`). Listeners belong to an id and not to the markup in which an element has
it, so that they outlive the page that they came with.
-/

set_option autoImplicit false
set_option relaxedAutoImplicit false

namespace LiveMarkup

/-- The callback that the load pass attaches for a node. A tracked node reports instead. -/
def Node.clickHandler? (node : Node) : Option Handler :=
  if node.kind = .tracked then none
  else (node.attributes.get? "onclick").bind AttrValue.callback?

theorem Node.Matches.clickHandler? {node node' : Node} (h : node.Matches node') :
    node'.clickHandler? = node.clickHandler? := by
  rw [Node.clickHandler?, h.kind, h.onclick]
  rfl

theorem Surface.hasElement_congr {surface surface' : Surface} (h : surface'.markup = surface.markup)
    (id : String) : surface'.hasElement id = surface.hasElement id := by
  rw [Surface.hasElement, Surface.find?, h]
  rfl

theorem Surface.clickListeners_attachClick {surface changed : Surface} {id : String}
    {handler : Handler} (h : surface.attachClick id handler = .ok changed) (label : String) :
    changed.clickListeners label =
      surface.clickListeners label ++ if id = label then [handler] else [] := by
  rw [Surface.attachClick] at h
  split at h
  · rw [← Except.ok.inj h, Surface.clickListeners, OrderedMap.get?_insert]
    by_cases hid : id = label
    · rw [if_pos hid, if_pos hid, hid]
      rfl
    · rw [if_neg hid, if_neg hid, List.append_nil]
      rfl
  · cases h

namespace World

variable {σ : Type} {base w w' : World σ} {id : AppId} {page : Exhibit} {host : HostId}
  {surface : Surface} {registry : RegistryId} {label : String}

/-- The click callback of a live node. -/
def clickHandler? (w : World σ) (n : NodeId) : Option Handler := (w.node? n).bind Node.clickHandler?

/-- The click callbacks of those of some nodes that have an id. -/
def clickHandlers (w : World σ) (nodes : List NodeId) (label : String) : List Handler :=
  nodes.flatMap fun n ↦ if w.idOf n = label then (w.clickHandler? n).toList else []

theorem clickHandlers_cons (w : World σ) (n : NodeId) (nodes : List NodeId) (label : String) :
    w.clickHandlers (n :: nodes) label =
      w.clickHandlers [n] label ++ w.clickHandlers nodes label := by
  rw [clickHandlers, clickHandlers, clickHandlers, ← List.flatMap_append, List.singleton_append]

theorem clickHandlers_singleton (w : World σ) (n : NodeId) (label : String) :
    w.clickHandlers [n] label = if w.idOf n = label then (w.clickHandler? n).toList else [] :=
  List.flatMap_singleton ..

/-! ### The load pass -/

/-- The click callbacks of some nodes were attached where the surface has their elements. -/
structure Attaches (host : HostId) (surface : Surface) (nodes : List NodeId) (w w' : World σ) : Prop
    where
  undisturbed : w.Undisturbed w'
  surface : ∃ changed, w'.hosts.get? host = some (.surface changed) ∧
    changed.markup = surface.markup ∧
    ∀ label, changed.clickListeners label = surface.clickListeners label ++
      if surface.hasElement label then w.clickHandlers nodes label else []

theorem Attaches.refl (hhost : w.hosts.get? host = some (.surface surface)) :
    Attaches host surface [] w w where
  undisturbed := .refl w
  surface := ⟨surface, hhost, rfl, fun label ↦ by simp [clickHandlers]⟩

variable [Journal σ] (client : Client σ)

/-- A click listener is attached to an element of a surface. -/
theorem exists_attachClick (hhost : w.hosts.get? host = some (.surface surface))
    (hfound : surface.hasElement label = true) (handler : Handler) :
    ∃ changed, w.attachClick client host label handler = .ok (.ok (), w.setSurface host changed) ∧
      changed.markup = surface.markup ∧ ∀ other, changed.clickListeners other =
        surface.clickListeners other ++ if label = other then [handler] else [] := by
  let changed : Surface :=
    { surface with
      listeners := surface.listeners.insert label (surface.clickListeners label ++ [handler]) }
  have hchanged : surface.attachClick label handler = .ok changed := if_pos hfound
  refine ⟨changed, ?_, rfl, Surface.clickListeners_attachClick hchanged⟩
  rw [attachClick, host_eq hhost]
  dsimp only
  rw [hchanged]
  rfl

omit [Journal σ] in
theorem attaches_setSurface (hhost : w.hosts.get? host = some (.surface surface)) {n : NodeId}
    {handler : Handler} (hhandler : w.clickHandler? n = some handler)
    (hfound : surface.hasElement (w.idOf n) = true) {changed : Surface}
    (hmarkup : changed.markup = surface.markup)
    (hlisteners : ∀ other, changed.clickListeners other =
      surface.clickListeners other ++ if w.idOf n = other then [handler] else []) :
    Attaches host surface [n] w (w.setSurface host changed) where
  undisturbed := by
    refine ⟨fun other shown hshown ↦ ?_, rfl⟩
    by_cases hother : host = other
    · subst hother
      exact ⟨changed, hosts_setSurface hshown changed⟩
    · refine ⟨shown, ?_⟩
      rw [setSurface, Table.get?_modify, if_neg hother, hshown]
  surface := by
    refine ⟨changed, hosts_setSurface hhost changed, hmarkup, fun other ↦ ?_⟩
    rw [hlisteners, clickHandlers_singleton]
    by_cases hsame : w.idOf n = other
    · rw [if_pos hsame, if_pos hsame, ← hsame, if_pos hfound, hhandler]
      rfl
    · rw [if_neg hsame, if_neg hsame, ite_self]

omit [Journal σ] in
theorem attaches_of_none (hhost : w.hosts.get? host = some (.surface surface)) {n : NodeId}
    (hnone : w.clickHandler? n = none) (last : σ) :
    Attaches host surface [n] w { w with client := last } where
  undisturbed := ⟨fun _ shown hshown ↦ ⟨shown, hshown⟩, rfl⟩
  surface := ⟨surface, hhost, rfl, fun label ↦ by simp [clickHandlers, hnone]⟩

/-- The callback of a node is attached, if the surface has its element. -/
theorem exists_attachAction (hhost : w.hosts.get? host = some (.surface surface)) {n : NodeId}
    (htracked : (w.node? n).map Node.kind ≠ some .tracked) :
    ∃ w', w.attachAction client n host = .ok w' ∧ Attaches host surface [n] w w' := by
  have hcallback : ((w.node? n).bind fun n ↦ n.attributes.get? "onclick").bind
      AttrValue.callback? = w.clickHandler? n := by
    rw [clickHandler?]
    cases hnode : w.node? n with
    | none => rfl
    | some node =>
      have hkind : node.kind ≠ .tracked := fun hkind ↦
        htracked (by rw [hnode, Option.map_some, hkind])
      rw [Option.bind_some, Option.bind_some, Node.clickHandler?, if_neg hkind]
  rw [attachAction, hcallback]
  cases hhandler : w.clickHandler? n with
  | none => exact ⟨w, rfl, attaches_of_none hhost hhandler w.client⟩
  | some handler =>
    dsimp only
    rw [hasElement, host_eq hhost]
    dsimp only
    by_cases hfound : surface.hasElement (w.idOf n) = true
    · obtain ⟨changed, hattach, hmarkup, hlisteners⟩ :=
        exists_attachClick client hhost hfound handler
      refine ⟨w.setSurface host changed, ?_,
        attaches_setSurface hhost hhandler hfound hmarkup hlisteners⟩
      rw [if_pos hfound, hattach]
      rfl
    · refine ⟨w, if_neg hfound, .refl w, surface, hhost, rfl, fun label ↦ ?_⟩
      rw [clickHandlers_singleton]
      by_cases hsame : w.idOf n = label
      · rw [← hsame, if_neg hfound, List.append_nil]
      · rw [if_neg hsame, ite_self, List.append_nil]

/-- A node is ready: its callback is attached, unless it is tracked. -/
theorem exists_whenReady (hhost : w.hosts.get? host = some (.surface surface)) (n : NodeId) :
    ∃ w', whenReady client host w n = .ok w' ∧ Attaches host surface [n] w w' := by
  by_cases htracked : (w.node? n).map Node.kind = some .tracked
  · obtain ⟨node, hnode, hkind⟩ := Option.map_eq_some_iff.mp htracked
    have hnone : w.clickHandler? n = none := by
      rw [clickHandler?, hnode, Option.bind_some, Node.clickHandler?, if_pos hkind]
    refine ⟨w.note (.loaded (w.idOf n) (surface.hasElement (w.idOf n))), ?_,
      attaches_of_none hhost hnone _⟩
    rw [whenReady, htracked]
    dsimp only
    rw [hasElement, host_eq hhost]
  · have haction : whenReady client host w n = w.attachAction client n host := by
      unfold whenReady
      split
      · rename_i hkind
        exact absurd hkind htracked
      · rfl
    rw [haction]
    exact exists_attachAction client hhost htracked

omit [Journal σ] in
theorem Attaches.trans {n : NodeId} {nodes : List NodeId} {between : World σ}
    (h : Attaches host surface [n] w between)
    (hrest : ∀ changed, between.hosts.get? host = some (.surface changed) →
      Attaches host changed nodes between w') : Attaches host surface (n :: nodes) w w' := by
  obtain ⟨changed, hchanged, hmarkup, hlisteners⟩ := h.surface
  obtain ⟨hsame, last, hlast, hmarkup', hlisteners'⟩ := hrest changed hchanged
  have hhandlers (label : String) :
      between.clickHandlers nodes label = w.clickHandlers nodes label := by
    rw [h.undisturbed.eq]
    rfl
  refine ⟨h.undisturbed.trans hsame, last, hlast, hmarkup'.trans hmarkup, fun label ↦ ?_⟩
  rw [hlisteners', hlisteners, hhandlers, Surface.hasElement_congr hmarkup,
    clickHandlers_cons w n nodes, List.append_assoc]
  by_cases hfound : surface.hasElement label = true
  · simp only [if_pos hfound]
  · simp only [if_neg hfound, List.append_nil]

/-- The callbacks of several nodes are attached, one after the other. -/
theorem exists_whenAllReady (hhost : w.hosts.get? host = some (.surface surface))
    (nodes : List NodeId) :
    ∃ w', nodes.foldlM (whenReady client host) w = .ok w' ∧ Attaches host surface nodes w w' := by
  induction nodes generalizing w surface with
  | nil => exact ⟨w, rfl, .refl hhost⟩
  | cons n nodes ih =>
    obtain ⟨between, hfirst, hattaches⟩ := exists_whenReady client hhost n
    obtain ⟨changed, hchanged, -⟩ := hattaches.surface
    obtain ⟨w', hrest, hlast⟩ := ih hchanged
    refine ⟨w', ?_, hattaches.trans fun other hother ↦ ?_⟩
    · rw [List.foldlM_cons, hfirst]
      exact hrest
    · obtain rfl := Host.surface.inj (Option.some.inj (hchanged.symm.trans hother))
      exact hlast

omit [Journal σ] in
theorem foldl_erase_append (nodes : List NodeId) (held : List Root) :
    nodes.foldl (fun held node ↦ held.erase (.node node)) (nodes.map .node ++ held) = held := by
  induction nodes with
  | nil => rfl
  | cons n nodes ih =>
    rw [List.map_cons, List.cons_append, List.foldl_cons, List.erase_cons_head]
    exact ih

/-- The load pass attaches the callbacks of all live nodes of a registry, and then drops what
nothing keeps alive. -/
theorem exists_load (hhost : w.hosts.get? host = some (.surface surface)) (registry : RegistryId) :
    ∃ attached, Attaches host surface (w.liveNodes registry) w attached ∧
      w.load client registry host = .ok attached.sweep := by
  let nodes := w.liveNodes registry
  obtain ⟨ready, hready, hsame, hsurface⟩ :=
    exists_whenAllReady (w := w.holdAll nodes) client hhost nodes
  have hheld : ready.held = nodes.map .node ++ w.held := by
    rw [hsame.eq]
    rfl
  refine ⟨{ ready with held := w.held }, ⟨⟨hsame.surfaces, ?_⟩, hsurface⟩, ?_⟩
  · rw [hsame.eq]
    rfl
  · show (nodes.foldlM (whenReady client host) (w.holdAll nodes) >>= _) = _
    rw [hready]
    show Except.ok (ready.releaseAll nodes) = _
    rw [releaseAll, hheld, foldl_erase_append]

/-- While a page is shown, the load pass attaches the callbacks of all live nodes of a registry, and
nothing else is different then. -/
theorem Bears.exists_load (h : Bears base id page [] w) (hvacant : base.Vacant id)
    (hhost : w.hosts.get? host = some (.surface surface)) (registry : RegistryId) :
    ∃ w', w.load client registry host = .ok w' ∧ Bears base id page [] w' ∧
      (∀ n, w'.node? n = w.node? n) ∧
      ∃ changed, w'.hosts.get? host = some (.surface changed) ∧ changed.markup = surface.markup ∧
        ∀ label, changed.clickListeners label = surface.clickListeners label ++
          if surface.hasElement label then w.clickHandlers (w.liveNodes registry) label
          else [] := by
  obtain ⟨attached, hattaches, hload⟩ := World.exists_load client hhost registry
  have hbears := h.undisturbed hvacant hattaches.undisturbed
  refine ⟨attached.sweep, hload, hbears.sweep hvacant, fun n ↦ ?_, hattaches.surface⟩
  rw [hbears.node?_sweep hvacant, hattaches.undisturbed.eq]
  rfl

end World

end LiveMarkup
