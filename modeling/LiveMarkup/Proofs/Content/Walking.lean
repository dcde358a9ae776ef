import LiveMarkup.Proofs.World.Carrying

/-!
The walk through a node. Writing a node goes through its content depth first and from left to
right, and through a node that occurs several times once for each place (`World.Walk`). It gives
the text of the node, put together from those of the entries of its content
(`World.ChildWrites`), and each node below remembers the last step of the walk that led to it
(`World.exists_written`).
-/

set_option autoImplicit false
set_option relaxedAutoImplicit false

namespace LiveMarkup

/-! ### Steps of a walk -/

/-- The last step of a walk to a node came from another one. -/
def LastStep (walk : List (NodeId × NodeId)) (id parent : NodeId) : Prop :=
  ∃ front later, walk = front ++ (id, parent) :: later ∧ ∀ step ∈ later, step.1 ≠ id

theorem exists_lastStep {walk : List (NodeId × NodeId)} {id : NodeId}
    (h : ∃ step ∈ walk, step.1 = id) : ∃ parent, LastStep walk id parent := by
  induction walk with
  | nil => simp at h
  | cons first walk ih =>
    by_cases hagain : ∃ step ∈ walk, step.1 = id
    · obtain ⟨parent, front, later, rfl, hlater⟩ := ih hagain
      exact ⟨parent, first :: front, later, rfl, hlater⟩
    · have hlater : ∀ step ∈ walk, step.1 ≠ id := fun step hstep heq ↦ hagain ⟨step, hstep, heq⟩
      obtain ⟨step, hstep, rfl⟩ := h
      obtain rfl := (List.mem_cons.mp hstep).resolve_right fun hmem ↦ hlater step hmem rfl
      exact ⟨step.2, [], walk, rfl, hlater⟩

/-- The attributes of a tag, callbacks left out, each as a key and a quoted value. -/
theorem attributeText_printed (attributes : Attributes) :
    Tree.attributeText attributes.printed =
      String.join ((attributes.toList.filter fun (_, value) ↦ !value.isCallback).map
        fun (key, value) ↦ " " ++ key ++ "=\"" ++ value.display ++ "\"") := by
  rw [Attributes.printed]
  induction attributes.toList with
  | nil => rfl
  | cons first rest ih =>
    obtain ⟨key, value⟩ := first
    cases hcallback : value.isCallback with
    | true => simpa [hcallback] using ih
    | false => simp [hcallback, Tree.attributeText, ih]

namespace World

variable {σ : Type} {w : World σ}

/-- The steps of a walk through content that stands in a node: each entry that is a node, with
the node that it is reached through. -/
inductive Walk (w : World σ) : NodeId → List Child → List (NodeId × NodeId) → Prop where
  | nil (parent : NodeId) : Walk w parent [] []
  /-- What is below a node comes before what stands next to it. -/
  | node {parent id : NodeId} {node : Node} {rest : List Child}
      {below later : List (NodeId × NodeId)} (hnode : w.node? id = some node)
      (hbelow : Walk w id node.content below)
      (hlater : Walk w parent rest later) :
      Walk w parent (.node id :: rest) ((id, parent) :: (below ++ later))
  | other {parent : NodeId} {child : Child} {rest : List Child} {later : List (NodeId × NodeId)}
      (hchild : child.node? = none) (hlater : Walk w parent rest later) :
      Walk w parent (child :: rest) later

/-- What an entry of content is written as: a node as it is written by itself, an observable as
the value that it has, a text or a number as it is. -/
def ChildWrites (w : World σ) : Child → String → Prop
  | .node id, text => ∃ written, w.write id = .ok (text, written)
  | .state observable, text => text = (w.observable observable).value.display
  | .text s, text => text = s
  | .number n, text => text = n.text

/-! ### Where a walk leads -/

theorem transGen_contains_iff {id : NodeId} {node : Node} (hnode : w.node? id = some node)
    (m : NodeId) : Relation.TransGen w.Contains id m ↔
      ∃ child, .node child ∈ node.content ∧ w.Reaches child m := by
  rw [Relation.TransGen.head'_iff]
  refine exists_congr fun child ↦ and_congr_left fun _ ↦ ⟨?_, fun hchild ↦ ⟨node, hnode, hchild⟩⟩
  rintro ⟨same, hsame, hchild⟩
  rwa [Option.some.inj (hsame.symm.trans hnode)] at hchild

/-- A walk leads to the nodes in a content and to those below them. -/
theorem Walk.exists_step_iff {parent : NodeId} {content : List Child}
    {walk : List (NodeId × NodeId)} (h : w.Walk parent content walk) (m : NodeId) :
    (∃ step ∈ walk, step.1 = m) ↔ ∃ id, .node id ∈ content ∧ w.Reaches id m := by
  induction h with
  | nil => simp
  | @node parent id node rest below later hnode _ _ ihBelow ihLater =>
    have hbelow : (∃ step ∈ below, step.1 = m) ↔ Relation.TransGen w.Contains id m := by
      rw [ihBelow, transGen_contains_iff hnode]
    have hreaches : w.Reaches id m ↔ id = m ∨ Relation.TransGen w.Contains id m := by
      rw [Reaches, Relation.reflTransGen_iff_eq_or_transGen, eq_comm]
    simp only [List.mem_cons, List.mem_append, or_and_right, exists_or, exists_eq_left, hbelow,
      ihLater, Child.node.injEq, hreaches, or_assoc]
  | @other parent child rest later hchild _ ihLater =>
    have hne (id : NodeId) : Child.node id ≠ child := by
      rintro rfl
      cases hchild
    simp only [ihLater, List.mem_cons, hne, false_or]

/-- Where a walk comes from is alive, if the node that the content stands in is. -/
theorem Walk.live {parent : NodeId} {content : List Child} {walk : List (NodeId × NodeId)}
    (h : w.Walk parent content walk) (hparent : ∃ node, w.node? parent = some node) :
    ∀ step ∈ walk, ∃ node, w.node? step.2 = some node := by
  induction h with
  | nil => simp
  | node hnode _ _ ihBelow ihLater =>
    intro step hstep
    rcases List.mem_cons.mp hstep with rfl | hstep
    · exact hparent
    · rcases List.mem_append.mp hstep with hbelow | hlater
      · exact ihBelow ⟨_, hnode⟩ step hbelow
      · exact ihLater hparent step hlater
  | other _ _ ihLater => exact ihLater hparent

mutual

/-- The links of the tree of a node are the steps of the walk through it. -/
theorem Unfolds.walk (display : ObservableId → String) : (outline : Outline) → {id : NodeId} →
    {node : Node} → w.Unfolds id outline → w.node? id = some node →
      w.Walk id node.content (outline.tree display).links
  | .node id self content, root, node, h, hnode => by
    obtain ⟨same, parts, hsame, hparts, heq⟩ := unfolds_iff.mp h
    obtain rfl : same = node := Option.some.inj (hsame.symm.trans hnode)
    obtain ⟨rfl, -, rfl⟩ := Outline.node.inj heq
    exact walk_linksBelow display content id hparts
  | .leaf child, root, node, h, hnode => by
    obtain ⟨_, _, _, _, heq⟩ := unfolds_iff.mp h
    cases heq

theorem walk_linksBelow (display : ObservableId → String) : (outlines : List Outline) →
    (parent : NodeId) → {content : List Child} → List.Forall₂ w.ChildUnfolds content outlines →
      w.Walk parent content (Tree.linksBelow parent (Outline.trees display outlines))
  | [], parent, content, h => by
    cases h
    exact .nil parent
  | outline :: outlines, parent, content, h => by
    obtain ⟨child, rest, hchild, hrest, rfl⟩ := List.forall₂_cons_right_iff.mp h
    have hlater := walk_linksBelow display outlines parent hrest
    cases child with
    | node id =>
      obtain ⟨node, parts, hnode, -, rfl⟩ := unfolds_iff.mp hchild
      exact .node hnode (Unfolds.walk display _ hchild hnode) hlater
    | state =>
      obtain rfl := hchild
      exact .other rfl hlater
    | text =>
      obtain rfl := hchild
      exact .other rfl hlater
    | number =>
      obtain rfl := hchild
      exact .other rfl hlater

end

/-! ### What nodes remember of a walk -/

theorem node?_recordParents_of_forall {links : List (NodeId × NodeId)} {m : NodeId}
    (h : ∀ link ∈ links, link.1 ≠ m) : (w.recordParents links).node? m = w.node? m := by
  induction links generalizing w with
  | nil => rfl
  | cons link links ih =>
    have hfirst : link.1 ≠ m := h link List.mem_cons_self
    have hlater : ∀ other ∈ links, other.1 ≠ m :=
      fun other hother ↦ h other (List.mem_cons_of_mem link hother)
    exact (ih hlater).trans ((node?_modifyNode ..).trans (if_neg hfirst))

/-- Of all the parents that are recorded for a node, the last one stays. -/
theorem node?_recordParents_of_lastStep {links : List (NodeId × NodeId)} {m parent : NodeId}
    (h : LastStep links m parent) {node : Node} (hnode : w.node? m = some node) :
    (w.recordParents links).node? m = some { node with parent? := some parent } := by
  obtain ⟨front, later, rfl, hlater⟩ := h
  have hsplit : w.recordParents (front ++ (m, parent) :: later) =
      ((w.recordParents front).modifyNode m fun node ↦
        { node with parent? := some parent }).recordParents later :=
    List.foldl_append
  obtain ⟨before, hbefore, hforget⟩ := Option.map_eq_some_iff.mp
    ((w.forgetParent_recordParents front m).trans (congrArg (Option.map Node.forgetParent) hnode))
  rw [hsplit, node?_recordParents_of_forall hlater, node?_modifyNode, if_pos rfl, hbefore,
    Option.map_some, Node.eq_of_forgetParent hforget]

theorem parent?_eq_some_of_node? {m parent : NodeId} {node above : Node}
    (hnode : w.node? m = some node) (hparent : node.parent? = some parent)
    (habove : w.node? parent = some above) : w.parent? m = some parent := by
  have hcontains : w.nodes.contains parent = true := by
    rw [← Table.isSome_get?]
    exact Option.isSome_of_eq_some habove
  rw [parent?, hnode, Option.bind_some, hparent, Option.filter_some, if_pos hcontains]

theorem contains_recordParents (w : World σ) (links : List (NodeId × NodeId)) (m : NodeId) :
    (w.recordParents links).nodes.contains m = w.nodes.contains m := by
  have hsome := congrArg Option.isSome (w.forgetParent_recordParents links m)
  rw [Option.isSome_map, Option.isSome_map] at hsome
  rw [← Table.isSome_get?, ← Table.isSome_get?]
  exact hsome

theorem parent?_recordParents_of_forall {links : List (NodeId × NodeId)} {m : NodeId}
    (h : ∀ link ∈ links, link.1 ≠ m) : (w.recordParents links).parent? m = w.parent? m := by
  have hcontains : (w.recordParents links).nodes.contains = w.nodes.contains :=
    funext (w.contains_recordParents links)
  rw [parent?, parent?, node?_recordParents_of_forall h, hcontains]

theorem parent?_recordParents_of_lastStep {links : List (NodeId × NodeId)} {m parent : NodeId}
    (h : LastStep links m parent) {node above : Node} (hnode : w.node? m = some node)
    (habove : w.node? parent = some above) :
    (w.recordParents links).parent? m = some parent := by
  obtain ⟨above', habove', -⟩ := Option.map_eq_some_iff.mp
    ((w.forgetParent_recordParents links parent).trans
      (congrArg (Option.map Node.forgetParent) habove))
  exact parent?_eq_some_of_node? (node?_recordParents_of_lastStep h hnode) rfl habove'

/-! ### Texts -/

theorem childWrites_of_childUnfolds {child : Child} {part : Outline}
    (h : w.ChildUnfolds child part) :
    w.ChildWrites child (part.tree w.displayOf).markup := by
  cases child with
  | node id => exact ⟨_, write_eq_ok h⟩
  | state =>
    obtain rfl := h
    rfl
  | text =>
    obtain rfl := h
    rfl
  | number =>
    obtain rfl := h
    rfl

theorem markup_element (id : NodeId) (tag : String) (attributes : List (String × String))
    (content : List Tree) :
    (Tree.element id tag attributes content).markup = "<" ++ tag ++ Tree.attributeText attributes ++
      if content = [] then "/>" else ">" ++ Tree.markupAll content ++ "</" ++ tag ++ ">" := by
  cases content with
  | nil => rw [Tree.markup, if_pos rfl]
  | cons first rest =>
    rw [Tree.markup, if_neg (List.cons_ne_nil first rest), Tree.markupAll]
    simp only [String.append_assoc]

theorem markupAll_trees (display : ObservableId → String) (outlines : List Outline) :
    Tree.markupAll (Outline.trees display outlines) =
      String.join (outlines.map fun outline ↦ (outline.tree display).markup) := by
  induction outlines with
  | nil => rfl
  | cons outline outlines ih =>
    rw [Outline.trees, Tree.markupAll, ih, List.map_cons, String.join_cons]

/-- Serialization. A node below which no node holds itself, all of them being alive, is written:
its tag with its attributes in order, callbacks left out; and, unless there is no content, what
the entries of its content are written as, in order, and a closing tag. The texts of the content
alone are what is inside. Afterwards a node that stands below remembers the node through whose
content the walk led to it last; all other nodes, the one that was written included, remember
what they did, and nothing else has changed. -/
theorem exists_written {id : NodeId} {node : Node} (hnode : w.node? id = some node)
    (hacyclic : w.Acyclic id) (hlive : w.Live id) :
    ∃ texts walk written, List.Forall₂ w.ChildWrites node.content texts ∧
      w.Walk id node.content walk ∧
      w.write id = .ok ("<" ++ node.tag ++
        String.join ((node.attributes.toList.filter fun (_, value) ↦ !value.isCallback).map
          fun (key, value) ↦ " " ++ key ++ "=\"" ++ value.display ++ "\"") ++
        (if node.content = [] then "/>"
          else ">" ++ String.join texts ++ "</" ++ node.tag ++ ">"), written) ∧
      w.writeInner id = .ok (String.join texts, written) ∧
      (∀ m, Relation.TransGen w.Contains id m →
        ∃ parent, LastStep walk m parent ∧ written.parent? m = some parent) ∧
      (∀ m, ¬Relation.TransGen w.Contains id m → written.parent? m = w.parent? m) ∧
      written.parent? id = w.parent? id ∧
      written = { w with nodes := written.nodes } ∧ written.nodes.next = w.nodes.next ∧
      ∀ m, (written.node? m).map Node.forgetParent = (w.node? m).map Node.forgetParent := by
  obtain ⟨outline, houtline⟩ := exists_unfolds hacyclic hlive
  have hunfolds : w.Unfolds id outline := ⟨_, houtline⟩
  obtain ⟨_, parts, hsame, hparts, rfl⟩ := unfolds_iff.mp hunfolds
  obtain rfl := Option.some.inj (hnode.symm.trans hsame)
  let content := Outline.trees w.displayOf parts
  let links := Tree.linksBelow id content
  let texts := parts.map fun part ↦ (part.tree w.displayOf).markup
  have hwalk : w.Walk id node.content links := walk_linksBelow w.displayOf parts id hparts
  have hsteps (m : NodeId) : (∃ step ∈ links, step.1 = m) ↔ Relation.TransGen w.Contains id m :=
    (hwalk.exists_step_iff m).trans (transGen_contains_iff hnode m).symm
  have hrest (m : NodeId) (hm : ¬Relation.TransGen w.Contains id m) :
      (w.recordParents links).parent? m = w.parent? m :=
    parent?_recordParents_of_forall fun step hstep heq ↦ hm ((hsteps m).mp ⟨step, hstep, heq⟩)
  have htexts : Tree.markupAll content = String.join texts := markupAll_trees w.displayOf parts
  have hempty : content = [] ↔ node.content = [] := by
    have hlength : content.length = node.content.length := by
      rw [hparts.length_eq]
      have htrees := congrArg List.length (Outline.trees_eq_map w.displayOf parts)
      exact htrees.trans (List.length_map _)
    rw [← List.length_eq_zero_iff, hlength, List.length_eq_zero_iff]
  refine ⟨texts, links, w.recordParents links, ?_, hwalk, ?_, ?_, fun m hm ↦ ?_, hrest,
    hrest id (hacyclic id .refl), ?_, ?_, w.forgetParent_recordParents links⟩
  · rw [List.forall₂_map_right_iff]
    exact hparts.imp fun _ _ ↦ childWrites_of_childUnfolds
  · rw [write_eq_ok hunfolds, Outline.tree, markup_element, ← attributeText_printed, ← htexts]
    simp only [content, hempty]
    rfl
  · rw [writeInner_eq_ok hunfolds, ← htexts]
    rfl
  · obtain ⟨parent, hlast⟩ := exists_lastStep ((hsteps m).mpr hm)
    have hstep : (m, parent) ∈ links := by
      obtain ⟨front, later, hsplit, -⟩ := hlast
      exact hsplit ▸ List.mem_append_right front List.mem_cons_self
    obtain ⟨below, hbelow⟩ := hlive m hm.to_reflTransGen
    obtain ⟨above, habove⟩ := hwalk.live ⟨node, hnode⟩ (m, parent) hstep
    exact ⟨parent, hlast, parent?_recordParents_of_lastStep hlast hbelow habove⟩
  · obtain ⟨nodes, heq, -⟩ := w.recordParents_eq links
    rw [heq]
  · obtain ⟨nodes, heq, hnext, -⟩ := w.recordParents_eq links
    rw [heq]
    exact hnext

/-- A paragraph that stands in a section, and once more in a `div` behind it. -/
theorem exists_written_shared :
    let paragraph : Node :=
      { tag := "p", kind := .plain, registry := 0, attributes := ∅, content := [.text "x"]
        classes := [], style := "", flags := ⟨0⟩ }
    let box : Node := { paragraph with tag := "div", content := [.node 0, .state 0] }
    let outer : Node :=
      { paragraph with
        tag := "section", content := [.node 0, .node 1]
        attributes := .ofList [("onclick", .callback 0), ("title", .text "a")] }
    let w : World (List Note) :=
      { nodes := ((Table.empty.push paragraph).push box).push outer
        observables := Table.empty.push { value := .text "7" }, client := [] }
    ∃ walk written, w.write 2 =
        .ok ("<section title=\"a\"><p>x</p><div><p>x</p>7</div></section>", written) ∧
      w.Walk 2 outer.content walk ∧ LastStep walk 0 1 ∧ written.parent? 0 = some 1 ∧
      written.parent? 2 = none := by
  intro paragraph box outer w
  have hunfolds : w.Unfolds 2 _ := ⟨3, rfl⟩
  let tree : Tree :=
    .element 2 "section" [("title", "a")]
      [.element 0 "p" [] [.text "x"],
        .element 1 "div" [] [.element 0 "p" [] [.text "x"], .text "7"]]
  have htree : w.tree? 2 = some tree := by rfl
  have hrun : w.write 2 = .ok (tree.markup, w.recordParents tree.links) := by
    rw [write, traverse, htree]
    rfl
  have houter : w.node? 2 = some outer := rfl
  obtain ⟨texts, walk, written, -, hwalk, hwrite, -, hbelow, -, hroot, -⟩ :=
    exists_written houter hunfolds.acyclic hunfolds.live
  obtain ⟨-, rfl⟩ := Prod.mk.inj (Except.ok.inj (hwrite.symm.trans hrun))
  have hparent : (w.recordParents tree.links).parent? 0 = some 1 := by decide +kernel
  obtain ⟨parent, hlast, hlater⟩ := hbelow 0 (.single ⟨outer, rfl, by simp [outer]⟩)
  obtain rfl := Option.some.inj (hlater.symm.trans hparent)
  have hmarkup : tree.markup = "<section title=\"a\"><p>x</p><div><p>x</p>7</div></section>" := by
    decide +kernel
  exact ⟨walk, _, hmarkup ▸ hrun, hwalk, hlast, hparent, hroot⟩

end World

end LiveMarkup
