import LiveMarkup.Proofs.Content.Writing
import LiveMarkup.Proofs.Markup.Rewriting

/-!
Printer and scanner agree. Markup-safe nodes that are written onto an empty surface one after
the other are read back from it: an element is found under its id as what its node is written
as, and an id that no element prints is not found (`World.outerMarkup?_foldlM_writeTo`).
-/

set_option autoImplicit false
set_option relaxedAutoImplicit false

namespace LiveMarkup

/-! ### What a surface shows -/

/-- On a surface that shows safe trees, an element whose id is printed once is found. -/
theorem Surface.outerMarkup?_of_scan {surface : Surface} {trees : List Tree}
    (hscan : Token.scan surface.markup.toList = Tree.tokensAll trees)
    (hsafe : ∀ tree ∈ trees, tree.Safe) {id : String} (hid : SafeId id.toList)
    (honce : Tree.occurrences id trees = 1) {element : Tree}
    (helement : element ∈ Tree.elementsAll trees) (hprints : element.printsId id = true) :
    surface.outerMarkup? id = some element.markup ∧
      surface.innerMarkup? id = some element.innerMarkup := by
  obtain ⟨found, hfinds, houter, hinner⟩ := Tree.exists_finds hid hsafe honce helement hprints
  have hfind : surface.find? id = some found := by
    rw [Surface.find?, hscan]
    exact locate?_eq_some_iff.mpr hfinds
  constructor
  · rw [Surface.outerMarkup?, hfind, Option.map_some, houter, String.ofList_toList]
  · rw [Surface.innerMarkup?, hfind, Option.map_some, hinner, String.ofList_toList]

/-- On a surface that shows safe trees, an id that is not printed is not found. -/
theorem Surface.hasElement_eq_false_of_scan {surface : Surface} {trees : List Tree}
    (hscan : Token.scan surface.markup.toList = Tree.tokensAll trees)
    (hsafe : ∀ tree ∈ trees, tree.Safe) {id : String} (hid : SafeId id.toList)
    (hnone : Tree.occurrences id trees = 0) : surface.hasElement id = false := by
  rw [Surface.hasElement, Surface.find?, hscan, Tree.locate?_eq_none hid hsafe hnone]
  rfl

/-! ### Writing nodes onto a surface -/

namespace World

variable {σ : Type} [Journal σ] {w w' : World σ}

/-- Writes a node at the end of a host. -/
def writeTo (host : HostId) (w : World σ) (node : NodeId) : Except Fault (World σ) := do
  let (markup, w) ← w.write node
  return w.append host markup

/-- A node that unfolds is written at the end of a surface. -/
theorem writeTo_eq_ok {host : HostId} {surface : Surface} {node : NodeId} {outline : Outline}
    (hhost : w.hosts.get? host = some (.surface surface)) (h : w.Unfolds node outline) :
    w.writeTo host node =
      .ok ((w.recordParents (outline.tree w.displayOf).links).setSurface host
        (surface.append (outline.tree w.displayOf).markup)) := by
  have hhost' : (w.recordParents (outline.tree w.displayOf).links).hosts.get? host =
      some (.surface surface) := by rw [hosts_recordParents, hhost]
  rw [writeTo, write_eq_ok h, ← append_surface hhost']
  rfl

/-- Nodes that unfold are written onto a surface one after the other, and change only in their
parents. -/
theorem foldlM_writeTo {host : HostId} {surface : Surface} {roots : List NodeId}
    {outlines : List Outline} (hhost : w.hosts.get? host = some (.surface surface))
    (h : List.Forall₂ w.Unfolds roots outlines) :
    ∃ w' : World σ, roots.foldlM (writeTo host) w = .ok w' ∧
      w'.hosts.get? host =
        some (.surface (surface.append (Tree.markupAll (Outline.trees w.displayOf outlines)))) ∧
      w'.observables = w.observables ∧
      ∀ id, (w'.node? id).map Node.bare = (w.node? id).map Node.bare := by
  induction roots generalizing w surface outlines with
  | nil =>
    obtain rfl := List.forall₂_nil_left_iff.mp h
    refine ⟨w, rfl, ?_, rfl, fun _ ↦ rfl⟩
    rw [hhost, Surface.append, Outline.trees, Tree.markupAll, String.append_empty]
  | cons root roots ih =>
    obtain ⟨outline, outlines, hroot, hroots, rfl⟩ := List.forall₂_cons_left_iff.mp h
    let tree := outline.tree w.displayOf
    let first := (w.recordParents tree.links).setSurface host (surface.append tree.markup)
    have hsame : ∀ id, (first.node? id).map Node.bare = (w.node? id).map Node.bare :=
      fun id ↦ map_bare_of_forgetParent (w.forgetParent_recordParents tree.links id)
    have hobservables : first.observables = w.observables := observables_recordParents w tree.links
    have hfirst : first.hosts.get? host = some (.surface (surface.append tree.markup)) :=
      hosts_setSurface (by rw [hosts_recordParents, hhost]) _
    obtain ⟨w', hrun, hshown, hkept, hnodes⟩ :=
      ih hfirst (hroots.imp fun _ _ hunfolds ↦ hunfolds.of_bare hsame)
    refine ⟨w', ?_, ?_, hkept.trans hobservables, fun id ↦ (hnodes id).trans (hsame id)⟩
    · rw [List.foldlM_cons, writeTo_eq_ok hhost hroot]
      exact hrun
    · rw [hshown, displayOf_congr hobservables, Surface.append, Surface.append, Surface.append,
        Outline.trees, Tree.markupAll, String.append_assoc]

omit [Journal σ] in
/-- A node that is reached from a root stands in the trees of the roots as an element that prints
the ids of the node. -/
theorem exists_element_of_reaches {roots : List NodeId} {outlines : List Outline}
    (hunfolds : List.Forall₂ w.Unfolds roots outlines) {root id : NodeId} (hroot : root ∈ roots)
    (hid : w.Reaches root id) {node : Node} (hnode : w.node? id = some node) {printed : String}
    (hprinted : ("id", printed) ∈ node.attributes.printed) :
    ∃ part, w.Unfolds id part ∧ (part.tree w.displayOf).printsId printed = true ∧
      part.tree w.displayOf ∈ Tree.elementsAll (Outline.trees w.displayOf outlines) := by
  obtain ⟨outline, houtline, hroot'⟩ := exists_mem_of_forall₂ hunfolds hroot
  obtain ⟨part, hpart, hpartOf⟩ := hroot'.of_reaches hid
  refine ⟨part, hpartOf, ?_, ?_⟩
  · obtain ⟨shown, content, hshown, _, rfl⟩ := unfolds_iff.mp hpartOf
    obtain rfl : shown = node := Option.some.inj (hshown.symm.trans hnode)
    exact (Tree.printsId_iff printed _).mpr hprinted
  · rw [Outline.elementsAll_trees]
    exact List.mem_map_of_mem (Outline.mem_partsAll.mpr ⟨outline, houtline, hpart⟩)

/-- Markup-safe nodes are written one after the other onto an empty surface. Then an id that is
printed once, by an element of a node, is found as the markup and the content of that node, and an
id without blanks and quotes that is not printed is not found. -/
theorem outerMarkup?_foldlM_writeTo (w : World σ) (host : HostId) (surface : Surface)
    (hhost : w.hosts.get? host = some (.surface surface)) (hempty : surface.markup = "")
    (roots : List NodeId) (hsafe : ∀ root ∈ roots, w.MarkupSafe root) :
    ∃ (trees : List Tree) (w' : World σ) (shown : Surface), roots.mapM w.tree? = some trees ∧
      roots.foldlM (writeTo host) w = .ok w' ∧ w'.hosts.get? host = some (.surface shown) ∧
      (∀ root ∈ roots, ∀ id, w.Reaches root id → ∀ node printed, w.node? id = some node →
        ("id", printed) ∈ node.attributes.printed → Tree.occurrences printed trees = 1 →
        ∃ outer inner left right, w'.write id = .ok (outer, left) ∧
          w'.writeInner id = .ok (inner, right) ∧ shown.outerMarkup? printed = some outer ∧
          shown.innerMarkup? printed = some inner) ∧
      ∀ absent : String, SafeId absent.toList → Tree.occurrences absent trees = 0 →
        shown.hasElement absent = false := by
  obtain ⟨outlines, houtlines⟩ := exists_forall₂ fun root hroot ↦ (hsafe root hroot).exists_unfolds
  have hunfolds : List.Forall₂ w.Unfolds roots outlines := houtlines.imp fun _ _ ↦ And.left
  let trees := Outline.trees w.displayOf outlines
  have hmap : trees = outlines.map (Outline.tree w.displayOf) := Outline.trees_eq_map _ _
  have htrees : roots.mapM w.tree? = some trees := by
    rw [mapM_eq_some_iff, hmap, List.forall₂_map_right_iff]
    exact hunfolds.imp fun _ _ hroot ↦ tree?_eq_some_iff.mpr ⟨_, hroot, rfl⟩
  have hall : ∀ tree ∈ trees, tree.Safe := by
    intro tree htree
    rw [hmap] at htree
    obtain ⟨outline, houtline, rfl⟩ := List.mem_map.mp htree
    obtain ⟨root, _, hroot, hnodes, hvalues⟩ := exists_mem_of_forall₂ houtlines.flip houtline
    exact hroot.safe_tree hnodes hvalues
  obtain ⟨w', hrun, hshown, hobservables, hnodes⟩ := foldlM_writeTo hhost hunfolds
  have hscan : Token.scan (surface.append (Tree.markupAll trees)).markup.toList =
      Tree.tokensAll trees := by
    have hreads := Tree.reads_markupAll (fun tree htree ↦ (hall tree htree).reads) []
    rw [List.append_nil] at hreads
    rw [Surface.append, hempty, String.empty_append, hreads.scan_eq, Token.scan, List.append_nil]
  refine ⟨trees, w', _, htrees, hrun, hshown, ?_, ?_⟩
  · intro root hroot id hid node printed hnode hprinted honce
    obtain ⟨part, hpart, hprints, helement⟩ :=
      exists_element_of_reaches hunfolds hroot hid hnode hprinted
    obtain ⟨same, hsame, hnodeSafe, hids, _⟩ := (hsafe root hroot).safe id hid
    obtain rfl : same = node := Option.some.inj (hsame.symm.trans hnode)
    obtain ⟨houter, hinner⟩ := Surface.outerMarkup?_of_scan hscan hall
      (hnodeSafe.safeId hids hprinted) honce helement hprints
    have hpart' := hpart.of_bare hnodes
    refine ⟨_, _, _, _, write_eq_ok hpart', writeInner_eq_ok hpart', ?_, ?_⟩
    · rw [houter, displayOf_congr hobservables]
    · rw [hinner, displayOf_congr hobservables]
  · exact fun absent habsent hnone ↦
      Surface.hasElement_eq_false_of_scan hscan hall habsent hnone

/-! A paragraph around a text with a `<` in it, inside a `div` that has no id. -/

namespace Anonymous

def paragraph : Node where
  tag := "p"
  kind := .plain
  registry := 0
  attributes := .ofList [("id", .text "b")]
  content := [.text "1 < 2"]
  classes := []
  style := ""
  flags := ⟨0⟩

def division : Node :=
  { paragraph with tag := "div", attributes := ∅, content := [.node 0] }

def world : World (List Note) where
  nodes := (Table.empty.push paragraph).push division
  hosts := Table.empty.push (.surface {})
  client := []

theorem eq_of_contains {parent child : NodeId} (h : world.Contains parent child) :
    parent = 1 ∧ child = 0 := by
  obtain ⟨node, hparent, hchild⟩ := h
  match parent with
  | 0 =>
    obtain rfl := Option.some.inj (show some paragraph = some node from hparent)
    simp [paragraph] at hchild
  | 1 =>
    obtain rfl := Option.some.inj (show some division = some node from hparent)
    exact ⟨rfl, by simpa [division] using hchild⟩
  | _ + 2 => cases hparent

theorem eq_of_reaches {id : NodeId} (h : world.Reaches 1 id) : id = 1 ∨ id = 0 := by
  rcases Relation.ReflTransGen.cases_tail h with heq | ⟨parent, _, hstep⟩
  · exact .inl heq
  · exact .inr (eq_of_contains hstep).2

theorem markupSafe : world.MarkupSafe 1 := by
  have hunfolds : world.Unfolds 1 _ := ⟨2, rfl⟩
  refine ⟨hunfolds.acyclic, fun id hid ↦ ?_⟩
  rcases eq_of_reaches hid with rfl | rfl
  · have hsafe : division.Safe := ⟨by decide +kernel, by decide +kernel, by simp [division]⟩
    exact ⟨division, rfl, hsafe, by decide +kernel, by simp [division]⟩
  · have htext : SafeText "1 < 2".toList := by decide +kernel
    have hsafe : paragraph.Safe :=
      ⟨by decide +kernel, by decide +kernel, fun s hs ↦ by
        obtain rfl : s = "1 < 2" := by simpa [paragraph] using hs
        exact htext⟩
    exact ⟨paragraph, rfl, hsafe, by decide +kernel, by simp [paragraph]⟩

end Anonymous

/-- The paragraph is found by its id, and nothing is found by an id that nothing has. -/
theorem outerMarkup?_foldlM_writeTo_nested :
    ∃ w' shown, [1].foldlM (writeTo 0) Anonymous.world = .ok w' ∧
      w'.hosts.get? 0 = some (.surface shown) ∧
      (∃ markup w'', w'.write 0 = .ok (markup, w'') ∧ shown.outerMarkup? "b" = some markup) ∧
      shown.hasElement "z" = false := by
  have hsafe : ∀ root ∈ [1], Anonymous.world.MarkupSafe root := by
    simpa using Anonymous.markupSafe
  obtain ⟨trees, w', shown, htrees, hrun, hshown, hfound, habsent⟩ :=
    outerMarkup?_foldlM_writeTo Anonymous.world 0 {} rfl rfl [1] hsafe
  have htrees : trees = [.element 1 "div" [] [.element 0 "p" [("id", "b")] [.text "1 < 2"]]] :=
    (Option.some.inj htrees).symm
  have hbelow : Anonymous.world.Reaches 1 0 :=
    .single ⟨Anonymous.division, rfl, by simp [Anonymous.division]⟩
  obtain ⟨markup, -, w'', -, hmarkup, -, houter, -⟩ :=
    hfound 1 (by simp) 0 hbelow Anonymous.paragraph "b" rfl (by decide +kernel)
      (by rw [htrees]; rfl)
  exact ⟨w', shown, hrun, hshown, ⟨markup, w'', hmarkup, houter⟩,
    habsent "z" (by decide +kernel) (by rw [htrees]; rfl)⟩

end World

end LiveMarkup
