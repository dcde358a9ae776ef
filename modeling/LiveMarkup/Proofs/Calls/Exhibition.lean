import LiveMarkup.Proofs.Calls.Tending
import LiveMarkup.Proofs.Style.Presenting

/-!
A surface always shows the current state. Nodes are mounted on an empty surface, each once, and
subscribed to the observables that they show, before they are mounted or after; then observables are
mutated, by the client or by callbacks in the middle of a pass (`Act`). Whenever the client is not
acting, the element of each mounted node holds what its form holds now
(`World.showsNow_of_perform`).
-/

set_option autoImplicit false
set_option relaxedAutoImplicit false

namespace LiveMarkup

/-- What a client does that displays nodes on one host. -/
inductive Act (σ : Type) where
  | subscribe (target : Target) (observable : ObservableId)
  /-- Mounts a node; the reference to the form may be kept. -/
  | mount (node : NodeId) (keepsForm : Bool)
  | run (program : Program σ)

/-- The node that is mounted, if one is. -/
def Act.node? {σ : Type} : Act σ → Option NodeId
  | .mount node _ => some node
  | .subscribe _ _ | .run _ => none

theorem Act.filterMap_node?_cons {σ : Type} (act : Act σ) (acts : List (Act σ)) :
    (act :: acts).filterMap Act.node? = act.node?.toList ++ acts.filterMap Act.node? := by
  rw [List.filterMap_cons]
  cases act.node? <;> rfl

namespace World

variable {σ : Type} {w w' : World σ}

/-- An observable stands in the content of a node or below it. -/
def HoldsBelow (w : World σ) (root : NodeId) (observable : ObservableId) : Prop :=
  ∃ id node, w.Reaches root id ∧ w.node? id = some node ∧ .state observable ∈ node.content

/-- Nodes that can be displayed on a surface which is empty and on which nothing is mounted. -/
structure CanExhibit (w : World σ) (host : HostId) (nodes : List NodeId) : Prop where
  empty : ∃ surface, w.hosts.get? host = some (.surface surface) ∧ surface.markup = ""
  unused : ∀ id node mounting, w.node? id = some node → node.mounting? = some mounting →
    mounting.host ≠ host
  held : ∀ id ∈ nodes, .node id ∈ w.held
  builtIn : ∀ id ∈ nodes, ∀ node, w.node? id = some node → node.kind.IsBuiltIn
  safe : ∀ id ∈ nodes, w.MarkupSafe id
  /-- Ids are texts, and neither presentations nor generated ids have quotes. -/
  presented : ∀ root ∈ nodes, ∀ id node, w.Reaches root id → w.node? id = some node →
    node.HasTextId ∧ node.IsStyled ∧ NoQuote (w.registry node.registry).config.idStem
  /-- Different nodes have different ids. -/
  distinct : ∀ root ∈ nodes, ∀ root' ∈ nodes, ∀ id id', w.Reaches root id → w.Reaches root' id' →
    w.idOf id = w.idOf id' → id = id'
  /-- No id of a mounted node has the form of those that are still generated. -/
  fresh : ∀ id ∈ nodes, ¬w.WillGenerate (w.idOf id)
  /-- No mounted node stands below another. -/
  apart : ∀ root ∈ nodes, ∀ id ∈ nodes, w.Reaches root id → id = root

/-- Acts are allowed if their programs do nothing but mutate observables, and if by the time that a
program runs the nodes that are mounted are subscribed to all that they show. Nodes may be
subscribed before they are mounted, also before the first of the acts. -/
def Allows (w : World σ) (acts : List (Act σ)) : Prop :=
  ∀ before program after, acts = before ++ .run program :: after → program.OnlyMutates ∧
    ∀ node ∈ before.filterMap Act.node?, ∀ observable, w.HoldsBelow node observable →
      .subscribe (.node node) observable ∈ before ∨
        .node node ∈ (w.observable observable).subscribers

/-- A surface shows a mounted node as it is now: inside the element with its id stands what is
inside its form, written anew, and the form looks like the node. -/
def ShowsNow (w : World σ) (surface : Surface) (id : NodeId) : Prop :=
  ∃ form tree outline, w.rendered? id = some form ∧ w.tree? form = some tree ∧
    (w.writeInner form).map Prod.fst = .ok tree.innerMarkup ∧
    surface.innerMarkup? (w.idOf id) = some tree.innerMarkup ∧
    w.Unfolds id outline ∧ Looks w.displayOf outline tree

/-! ### From nodes to a stage -/

/-- What a node unfolds to. -/
def outlineOf (w : World σ) (id : NodeId) : Outline :=
  (w.outlineWithin? (w.nodes.size + 1) id).getD (.leaf (.text ""))

theorem unfolds_outlineOf {id : NodeId} (h : w.MarkupSafe id) : w.Unfolds id (w.outlineOf id) := by
  obtain ⟨outline, houtline⟩ := exists_unfolds h.acyclic h.live
  rw [outlineOf, houtline, Option.getD_some]
  exact ⟨_, houtline⟩

/-- What stands inside an outline is what a node strictly below unfolds to. -/
theorem Unfolds.exists_below {root : NodeId} {outline : Outline} (h : w.Unfolds root outline)
    {part : Outline} (hpart : part ∈ outline.inside) :
    ∃ id, Relation.TransGen w.Contains root id ∧ w.Unfolds id part := by
  obtain ⟨node, content, hnode, hcontent, rfl⟩ := unfolds_iff.mp h
  obtain ⟨first, hfirst, hin⟩ := Outline.mem_inside_iff.mp hpart
  obtain ⟨child, hchild, hunfolds⟩ := exists_mem_of_forall₂ hcontent.flip hfirst
  cases child with
  | node id =>
    obtain ⟨below, hbelow, hshown⟩ := Unfolds.exists_reaches hunfolds part hin
    exact ⟨below, .head' ⟨node, hnode, hchild⟩ hbelow, hshown⟩
  | state => rw [show first = _ from hunfolds] at hin; cases hin
  | text => rw [show first = _ from hunfolds] at hin; cases hin
  | number => rw [show first = _ from hunfolds] at hin; cases hin

theorem Unfolds.exists_node {id below : NodeId} {self : Node} {content : List Outline}
    (h : w.Unfolds below (.node id self content)) :
    below = id ∧ ∃ node, w.node? id = some node ∧ self = node.bare := by
  obtain ⟨node, _, hnode, _, heq⟩ := unfolds_iff.mp h
  obtain ⟨rfl, rfl, -⟩ := Outline.node.inj heq
  exact ⟨rfl, node, hnode, rfl⟩

/-- The nodes of a stage are enrolled at first for what they are subscribed to. -/
def enrolled (w : World σ) (id : NodeId) (observable : ObservableId) : Prop :=
  .node id ∈ (w.observable observable).subscribers

namespace CanExhibit

variable {host : HostId} {nodes : List NodeId}

theorem ready (h : w.CanExhibit host nodes) {root : NodeId} (hroot : root ∈ nodes) :
    w.Ready (w.outlineOf root) := by
  intro id self content hpart
  have hunfolds := unfolds_outlineOf (h.safe root hroot)
  obtain ⟨below, hbelow, hshown⟩ := hunfolds.exists_reaches _ hpart
  obtain ⟨rfl, node, hnode, rfl⟩ := hshown.exists_node
  obtain ⟨htext, hstyled, hstem⟩ := h.presented root hroot below node hbelow hnode
  have hsafe := ((h.safe root hroot).safeAt_of_mem hunfolds hpart).1
  exact ⟨hsafe, htext, fun hkind ↦
    ⟨hstyled.classes, hstyled.noQuote_style (Node.safe_bare_iff.mp hsafe) hkind⟩, hstem⟩

/-- The id that a node below prints at the root of what it unfolds to is its own. -/
theorem idOf_of_printsId (h : w.CanExhibit host nodes) {root id : NodeId} (hroot : root ∈ nodes)
    (hid : w.Reaches root id) {part : Outline} (hpart : w.Unfolds id part) {name : String}
    (hprints : PrintsId part name) : name = w.idOf id := by
  obtain ⟨node, content, hnode, _, rfl⟩ := unfolds_iff.mp hpart
  obtain ⟨⟨s, hs⟩, _⟩ := h.presented root hroot id node hid hnode
  rw [idOf_eq hnode, Node.id, Attributes.id_eq_of_text hs]
  exact (Attributes.mem_printed_id_iff hs).mp hprints

/-- The stage for the nodes. -/
def stage (h : w.CanExhibit host nodes) : Stage where
  host := host
  nodes := nodes
  outline := w.outlineOf
  name := w.idOf
  safeId := fun id hid ↦ by
    obtain ⟨node, hnode, hsafe, hids, _⟩ := (h.safe id hid).safe id .refl
    obtain ⟨⟨s, hs⟩, _⟩ := h.presented id hid id node .refl hnode
    refine hsafe.safeId hids ((Attributes.mem_printed_id_iff hs).mpr ?_)
    rw [idOf_eq hnode, Node.id, Attributes.id_eq_of_text hs]
  distinct := fun id hid other hother heq ↦ h.distinct id hid other hother id other .refl .refl heq
  apart := fun id hid part hpart other hother hprints ↦ by
    have hunfolds := unfolds_outlineOf (h.safe id hid)
    obtain ⟨below, hbelow, hshown⟩ := hunfolds.exists_below hpart
    have hname := h.idOf_of_printsId hid hbelow.to_reflTransGen hshown hprints
    obtain rfl : other = below :=
      h.distinct other hother id hid other below .refl hbelow.to_reflTransGen hname
    obtain rfl := h.apart id hid other hother hbelow.to_reflTransGen
    exact hunfolds.acyclic other .refl hbelow

theorem stands (h : w.CanExhibit host nodes) : h.stage.Stands w where
  held := h.held
  node := fun id hid ↦ by
    obtain ⟨node, hnode, _⟩ := (h.safe id hid).safe id .refl
    exact ⟨node, hnode, h.builtIn id hid node hnode, (h.presented id hid id node .refl hnode).1,
      (idOf_eq hnode).symm⟩
  unfolds := fun id hid ↦ unfolds_outlineOf (h.safe id hid)
  ready := fun id hid ↦ h.ready hid
  values := fun id hid observable hholds ↦ by
    obtain ⟨self, below, content, hpart, hstate⟩ := hholds
    exact
      ((h.safe id hid).safeAt_of_mem (unfolds_outlineOf (h.safe id hid)) hpart).2 observable hstate
  fresh := h.fresh

/-- Before anything is mounted the stage is empty and up to date. -/
theorem tended (h : w.CanExhibit host nodes) :
    h.stage.Tended w.enrolled w [] fun _ ↦ False where
  current := by
    obtain ⟨surface, hsurface, hmarkup⟩ := h.empty
    have hmosaic : mosaic [] = "" := rfl
    exact ⟨fun _ ↦ .ofElement "" [] [],
      { stands := h.stands
        subset := List.nil_subset nodes
        nodup := List.nodup_nil
        surface := ⟨surface, hsurface, hmarkup.trans hmosaic.symm⟩
        fits := fun _ hid ↦ absurd hid List.not_mem_nil
        shows := fun _ hid ↦ absurd hid List.not_mem_nil
        only := fun id node mounting hnode hmounting hhost ↦
          absurd hhost (h.unused id node mounting hnode hmounting) }⟩
  subscribed := fun id _ observable henrolled o ho ↦ by
    rw [World.enrolled, World.observable, ho] at henrolled
    exact henrolled

theorem holdsBelow (h : w.CanExhibit host nodes) {root : NodeId} (hroot : root ∈ nodes)
    {observable : ObservableId} (hholds : (w.outlineOf root).Holds observable) :
    w.HoldsBelow root observable := by
  obtain ⟨id, self, content, hpart, hstate⟩ := hholds
  obtain ⟨below, hbelow, hshown⟩ := (unfolds_outlineOf (h.safe root hroot)).exists_reaches _ hpart
  obtain ⟨rfl, node, hnode, rfl⟩ := hshown.exists_node
  exact ⟨below, node, hbelow, hnode, hstate⟩

end CanExhibit

variable [Journal σ]

/-- Performs an act on a host. -/
def perform (client : Client σ) (host : HostId) (w : World σ) : Act σ → Except Fault (World σ)
  | .subscribe target observable => return w.subscribe observable target
  | .mount node keepsForm => do
    let (form, w) ← w.mount node host
    return if keepsForm then w else w.release (.node form)
  | .run program => program.run client w

end World

/-! ### Performing -/

namespace Stage

variable {σ : Type} {w w' : World σ} {stage : Stage} {enrolled : NodeId → ObservableId → Prop}
  {mounted : List NodeId}

/-- Acts with programs that only mutate, each of which runs when the mounted nodes are enrolled for
all that they hold. -/
def Allows (stage : Stage) (enrolled : NodeId → ObservableId → Prop) (mounted : List NodeId)
    (acts : List (Act σ)) : Prop :=
  ∀ before program after, acts = before ++ .run program :: after → program.OnlyMutates ∧
    stage.Covers (fun id observable ↦ enrolled id observable ∨
      .subscribe (.node id) observable ∈ before) (mounted ++ before.filterMap Act.node?)

theorem Allows.head {program : Program σ} {acts : List (Act σ)}
    (h : stage.Allows enrolled mounted (.run program :: acts)) :
    program.OnlyMutates ∧ stage.Covers enrolled mounted := by
  obtain ⟨honly, hcovers⟩ := h [] program acts rfl
  rw [List.filterMap_nil, List.append_nil] at hcovers
  exact ⟨honly, fun id hid observable hholds ↦
    (hcovers id hid observable hholds).resolve_right List.not_mem_nil⟩

theorem Allows.tail {act : Act σ} {acts : List (Act σ)}
    (h : stage.Allows enrolled mounted (act :: acts)) :
    stage.Allows (fun id observable ↦ enrolled id observable ∨
      act = .subscribe (.node id) observable) (mounted ++ act.node?.toList) acts := by
  intro before program after hsplit
  obtain ⟨honly, hcovers⟩ := h (act :: before) program after (by rw [hsplit]; rfl)
  rw [Act.filterMap_node?_cons, ← List.append_assoc] at hcovers
  refine ⟨honly, fun id hid observable hholds ↦ ?_⟩
  rcases hcovers id hid observable hholds with hold | hsubscribed
  · exact .inl (.inl hold)
  · rcases List.mem_cons.mp hsubscribed with heq | hlater
    · exact .inl (.inr heq.symm)
    · exact .inr hlater

variable [Journal σ] {react : Call → World σ → Program σ}

/-- An act leaves nothing stale. -/
theorem Tended.perform (hreact : ∀ call w, (react call w).OnlyMutates) {depth : Nat}
    {act : Act σ} {acts : List (Act σ)} (h : stage.Tended enrolled w mounted fun _ ↦ False)
    (hnode : ∀ id, act.node? = some id → id ∈ stage.nodes ∧ id ∉ mounted)
    (hallows : stage.Allows enrolled mounted (act :: acts))
    (hrun : w.perform (Client.answering react depth) stage.host act = .ok w') :
    stage.Tended (fun id observable ↦ enrolled id observable ∨
      act = .subscribe (.node id) observable) w' (mounted ++ act.node?.toList) fun _ ↦ False := by
  cases act with
  | subscribe target observable =>
    obtain rfl : w.subscribe observable target = w' := Except.ok.inj hrun
    obtain ⟨hcurrent, hsubscribed⟩ := h.subscribe target observable
    show stage.Tended _ _ (mounted ++ []) _
    rw [List.append_nil]
    refine ⟨hcurrent, fun id hid other henrolled ↦ hsubscribed id hid other ?_⟩
    exact henrolled.imp_right fun heq ↦ Act.subscribe.inj heq
  | mount node keepsForm =>
    obtain ⟨hstage, hnew⟩ := hnode node rfl
    obtain ⟨⟨form, drawn⟩, hmount, hrest⟩ := bind_eq_ok.mp hrun
    obtain ⟨_, _, heq, hkept, hreleased, hobservables⟩ := h.current.mount hstage hnew
    obtain ⟨rfl, rfl⟩ := Prod.mk.inj (Except.ok.inj (hmount.symm.trans heq))
    obtain rfl : (if keepsForm then drawn else drawn.release (.node form)) = w' :=
      Except.ok.inj hrest
    refine ⟨?_, fun id hid observable henrolled o ho ↦ ?_⟩
    · cases keepsForm with
      | true => exact hkept
      | false => exact hreleased
    · refine h.subscribed id hid observable (henrolled.resolve_right fun heq ↦ by cases heq) o ?_
      rw [← hobservables]
      cases keepsForm with
      | true => exact ho
      | false => exact ho
  | run program =>
    obtain ⟨honly, hcovers⟩ := hallows.head
    obtain ⟨hcurrent, hsubscribed⟩ :=
      (h.run (stage.keeps_answering hcovers hreact depth) hcovers honly hrun).2
    show stage.Tended _ _ (mounted ++ []) _
    rw [List.append_nil]
    exact ⟨hcurrent, fun id hid observable henrolled ↦
      hsubscribed id hid observable (henrolled.resolve_right fun heq ↦ by cases heq)⟩

/-- A whole run of acts leaves nothing stale. -/
theorem Tended.performAll (hreact : ∀ call w, (react call w).OnlyMutates) {depth : Nat}
    {acts : List (Act σ)} (h : stage.Tended enrolled w mounted fun _ ↦ False)
    (hnodes : ∀ id ∈ acts.filterMap Act.node?, id ∈ stage.nodes)
    (hnodup : (mounted ++ acts.filterMap Act.node?).Nodup)
    (hallows : stage.Allows enrolled mounted acts)
    (hrun : acts.foldlM (World.perform (Client.answering react depth) stage.host) w = .ok w') :
    stage.Current w' (mounted ++ acts.filterMap Act.node?) fun _ ↦ False := by
  induction acts generalizing w mounted enrolled with
  | nil =>
    obtain rfl : w = w' := by simpa [pure, Except.pure] using hrun
    rw [List.filterMap_nil, List.append_nil]
    exact h.current
  | cons act acts ih =>
    rw [List.foldlM_cons] at hrun
    obtain ⟨first, hfirst, hrest⟩ := bind_eq_ok.mp hrun
    rw [Act.filterMap_node?_cons] at hnodes hnodup ⊢
    rw [← List.append_assoc] at hnodup ⊢
    refine ih (h.perform hreact (fun id hid ↦ ⟨?_, fun hmem ↦ ?_⟩) hallows hfirst)
      (fun id hid ↦ hnodes id (List.mem_append_right _ hid)) hnodup hallows.tail hrest
    · exact hnodes id (List.mem_append_left _ (by rw [hid]; exact List.mem_cons_self))
    · have hfront := (List.nodup_append.mp hnodup).1
      rw [hid] at hfront
      exact (List.nodup_append.mp hfront).2.2 id hmem id List.mem_cons_self rfl

/-! ### What the surface shows -/

omit [Journal σ] in
/-- The element of a mounted node that is not stale holds what its form holds now. -/
theorem Displays.showsNow {stale : NodeId → Prop} {piece : NodeId → Piece}
    (h : stage.Displays w mounted stale piece) {id : NodeId} (hid : id ∈ mounted)
    (hfresh : ¬stale id)
    {surface : Surface} (hmarkup : surface.markup = mosaic (mounted.map piece)) :
    w.ShowsNow surface id ∧ surface.outerMarkup? (w.idOf id) = some (mosaic [piece id]) := by
  have hstage := h.subset id hid
  obtain ⟨form, shown, hshows, hcurrent⟩ := h.shows id hid
  obtain ⟨node, hnode, _, _, hname⟩ := h.stands.node id hstage
  have hidOf : w.idOf id = stage.name id := (World.idOf_eq hnode).trans hname
  obtain ⟨front, back, hsplit⟩ := List.append_of_mem hid
  have hfind := Fits.find? hstage (hsplit ▸ hmarkup) (hsplit ▸ h.fits) (hsplit ▸ h.nodup)
  rw [← hidOf] at hfind
  have htree : w.tree? form = some (shown.tree w.displayOf) :=
    World.tree?_eq_some_iff.mpr ⟨shown, hshows.unfolds, rfl⟩
  have hwrite : (w.writeInner form).map Prod.fst = .ok (shown.tree w.displayOf).innerMarkup := by
    rw [World.writeInner_eq_ok hshows.unfolds]
    rfl
  refine ⟨⟨form, _, _, hshows.mounted.rendered?, htree, hwrite, ?_, h.stands.unfolds id hstage,
    hshows.looks _⟩, Surface.outerMarkup?_of_located hfind⟩
  rw [Surface.innerMarkup?_of_located hfind (h.fits id hid).safe, hcurrent hfresh]
  rfl

end Stage

/-- Let nodes that can be displayed be mounted on an empty surface, each once, and be subscribed to
the observables that they show before one is mutated; let observables be mutated in between, also by
callbacks in the middle of a pass, any number of times and however deep the mutations nest. When the
client is done, the surface consists of one element for each mounted node, in the order of mounting,
and inside it stands what the form of the node holds now. -/
theorem World.showsNow_of_perform {σ : Type} [Journal σ] {react : Call → World σ → Program σ}
    (hreact : ∀ call w, (react call w).OnlyMutates) (depth : Nat) {host : HostId}
    {acts : List (Act σ)} {w w' : World σ} (hnodup : (acts.filterMap Act.node?).Nodup)
    (hw : w.CanExhibit host (acts.filterMap Act.node?)) (hacts : w.Allows acts)
    (hrun : acts.foldlM (World.perform (Client.answering react depth) host) w = .ok w') :
    ∃ surface, w'.hosts.get? host = some (.surface surface) ∧
      (∀ id ∈ acts.filterMap Act.node?, w'.ShowsNow surface id) ∧
      surface.markup = String.join ((acts.filterMap Act.node?).map fun id ↦
        (surface.outerMarkup? (w'.idOf id)).getD "") := by
  have hallows : hw.stage.Allows w.enrolled [] acts := fun before program after hsplit ↦ by
    obtain ⟨honly, hsubscribed⟩ := hacts before program after hsplit
    refine ⟨honly, fun id hid observable hholds ↦ ?_⟩
    have hid' : id ∈ acts.filterMap Act.node? := by
      rw [hsplit, List.filterMap_append]
      exact List.mem_append_left _ hid
    exact (hsubscribed id hid observable (hw.holdsBelow hid' hholds)).symm
  obtain ⟨piece, hdisplays⟩ := hw.tended.performAll hreact (fun _ ↦ id) hnodup hallows hrun
  rw [List.nil_append] at hdisplays
  obtain ⟨surface, hsurface, hmarkup⟩ := hdisplays.surface
  refine ⟨surface, hsurface, fun id hid ↦ (hdisplays.showsNow hid not_false hmarkup).1, ?_⟩
  rw [hmarkup, mosaic_eq_join, List.map_map]
  refine congrArg String.join (List.map_congr_left fun id hid ↦ ?_)
  rw [(hdisplays.showsNow hid not_false hmarkup).2]
  rfl

/-! A container with a paragraph in it, and a plain node. Whenever the observable of the paragraph
is mutated, a listener mutates that of the plain node. -/

namespace Panel

/-- The paragraph, in the container. -/
def paragraph : Node where
  tag := "Text"
  kind := .text
  registry := 0
  attributes := .ofList [("id", .text "t")]
  content := [.state 0]
  classes := []
  style := ""
  flags := ⟨0⟩

def container : Node where
  tag := "Layout"
  kind := .layout
  registry := 0
  attributes := .ofList [("id", .text "a")]
  content := [.node 0]
  classes := []
  style := ""
  flags := ⟨0⟩

def plain : Node where
  tag := "b"
  kind := .plain
  registry := 0
  attributes := .ofList [("id", .text "b")]
  content := [.state 1]
  classes := []
  style := ""
  flags := ⟨0⟩

def world : World (List Note) where
  nodes := ((Table.empty.push paragraph).push container).push plain
  observables := (Table.empty.push
    (Observable.register .mutate 7 { value := .text "1" })).push { value := .text "off" }
  registries := Table.empty.push {}
  hosts := Table.empty.push (.surface {})
  held := [.node 1, .node 2]
  client := []

/-- Each call is answered by a mutation of what the plain node shows. -/
def react (_ : Call) (_ : World (List Note)) : Program (List Note) :=
  .mutate 1 (.set (.text "on")) fun _ ↦ .done

/-- The container is subscribed before it is mounted, and the plain node after. -/
def acts : List (Act (List Note)) :=
  [.subscribe (.node 1) 0, .mount 1 false, .mount 2 true, .subscribe (.node 2) 1,
    .run (.mutate 0 (.set (.text "2")) fun _ ↦ .done)]

theorem onlyMutates_react (call : Call) (w : World (List Note)) : (react call w).OnlyMutates := by
  have hon : SafeText "on".toList := by decide +kernel
  exact ⟨hon, fun _ ↦ trivial⟩

theorem eq_of_node? {id : NodeId} {node : Node} (h : world.node? id = some node) :
    id = 0 ∧ node = paragraph ∨ id = 1 ∧ node = container ∨ id = 2 ∧ node = plain := by
  match id with
  | 0 => exact .inl ⟨rfl, (Option.some.inj h).symm⟩
  | 1 => exact .inr (.inl ⟨rfl, (Option.some.inj h).symm⟩)
  | 2 => exact .inr (.inr ⟨rfl, (Option.some.inj h).symm⟩)
  | id + 3 => cases h

theorem eq_of_contains {parent child : NodeId} (h : world.Contains parent child) :
    parent = 1 ∧ child = 0 := by
  obtain ⟨node, hparent, hchild⟩ := h
  rcases eq_of_node? hparent with ⟨-, rfl⟩ | ⟨rfl, rfl⟩ | ⟨-, rfl⟩
  · simp [paragraph] at hchild
  · exact ⟨rfl, by simpa [container] using hchild⟩
  · simp [plain] at hchild

theorem eq_of_reaches {root id : NodeId} (h : world.Reaches root id) :
    id = root ∨ root = 1 ∧ id = 0 := by
  rcases Relation.ReflTransGen.cases_head h with heq | ⟨next, hstep, hrest⟩
  · exact .inl heq.symm
  · obtain ⟨rfl, rfl⟩ := eq_of_contains hstep
    rcases Relation.ReflTransGen.cases_head hrest with heq | ⟨_, hlater, _⟩
    · exact .inr ⟨rfl, heq.symm⟩
    · exact absurd (eq_of_contains hlater).1 (by decide)

theorem safeAt {id : NodeId} {node : Node} (h : world.node? id = some node) : world.SafeAt id := by
  have hvalue : ∀ observable ∈ [0, 1], SafeText (world.displayOf observable).toList := by
    decide +kernel
  refine ⟨node, h, ?_⟩
  rcases eq_of_node? h with ⟨-, rfl⟩ | ⟨-, rfl⟩ | ⟨-, rfl⟩
  · refine ⟨⟨by decide +kernel, by decide +kernel, by simp [paragraph]⟩,
      by decide +kernel, fun observable hmem ↦ ?_⟩
    exact hvalue observable (by simp_all [paragraph])
  · exact ⟨⟨by decide +kernel, by decide +kernel, by simp [container]⟩,
      by decide +kernel, by simp [container]⟩
  · refine ⟨⟨by decide +kernel, by decide +kernel, by simp [plain]⟩,
      by decide +kernel, fun observable hmem ↦ ?_⟩
    exact hvalue observable (by simp_all [plain])

theorem markupSafe {id : NodeId} (hid : id ∈ [1, 2]) : world.MarkupSafe id := by
  obtain ⟨outline, hunfolds⟩ : ∃ outline, world.Unfolds id outline := by
    rcases List.mem_pair.mp hid with rfl | rfl
    · exact ⟨_, 2, rfl⟩
    · exact ⟨_, 1, rfl⟩
  refine ⟨hunfolds.acyclic, fun below hbelow ↦ ?_⟩
  obtain ⟨node, hnode⟩ := hunfolds.live below hbelow
  exact safeAt hnode

theorem config_eq (registry : RegistryId) : (world.registry registry).config = {} := by
  match registry with
  | 0 => rfl
  | registry + 1 => rfl

theorem idOf_inj :
    ∀ id ∈ [0, 1, 2], ∀ id' ∈ [0, 1, 2], world.idOf id = world.idOf id' → id = id' := by
  decide +kernel

theorem presented {id : NodeId} {node : Node} (h : world.node? id = some node) :
    node.HasTextId ∧ node.IsStyled ∧ NoQuote (world.registry node.registry).config.idStem := by
  have hstem (registry : RegistryId) : NoQuote (world.registry registry).config.idStem := by
    rw [config_eq]
    decide +kernel
  rcases eq_of_node? h with ⟨-, rfl⟩ | ⟨-, rfl⟩ | ⟨-, rfl⟩
  · exact ⟨⟨"t", rfl⟩, ⟨by simp [paragraph], "", by decide +kernel⟩, hstem 0⟩
  · exact ⟨⟨"a", rfl⟩, ⟨by simp [container], "", by decide +kernel⟩, hstem 0⟩
  · exact ⟨⟨"b", rfl⟩, ⟨by simp [plain], "", by decide +kernel⟩, hstem 0⟩

theorem not_willGenerate {id : NodeId} (hid : id ∈ [1, 2]) :
    ¬world.WillGenerate (world.idOf id) := by
  rintro ⟨registry, count, -, heq⟩
  rw [config_eq] at heq
  have hfirst := congrArg (fun s : String ↦ s.toList.head?) heq
  rw [String.toList_append] at hfirst
  rcases List.mem_pair.mp hid with rfl | rfl
  · exact absurd (show "a".toList.head? = some 'v' from hfirst) (by decide +kernel)
  · exact absurd (show "b".toList.head? = some 'v' from hfirst) (by decide +kernel)

theorem canExhibit : world.CanExhibit 0 [1, 2] where
  empty := ⟨{}, rfl, rfl⟩
  unused := fun id node mounting h hmounting ↦ by
    rcases eq_of_node? h with ⟨-, rfl⟩ | ⟨-, rfl⟩ | ⟨-, rfl⟩ <;> cases hmounting
  held := by decide
  builtIn := fun id hid node h ↦ by
    rcases eq_of_node? h with ⟨-, rfl⟩ | ⟨-, rfl⟩ | ⟨-, rfl⟩ <;>
      simp [Kind.IsBuiltIn, paragraph, container, plain]
  safe := fun id hid ↦ markupSafe hid
  presented := fun _ _ _ _ _ h ↦ presented h
  distinct := fun root hroot root' hroot' id id' hid hid' heq ↦ by
    have hbelow {root id : NodeId} (hroot : root ∈ [1, 2]) (hid : world.Reaches root id) :
        id ∈ [0, 1, 2] := by
      rcases eq_of_reaches hid with rfl | ⟨-, rfl⟩
      · exact List.mem_cons_of_mem 0 hroot
      · exact List.mem_cons_self
    exact idOf_inj id (hbelow hroot hid) id' (hbelow hroot' hid') heq
  fresh := fun id hid ↦ not_willGenerate hid
  apart := fun root hroot id hid h ↦ by
    rcases eq_of_reaches h with heq | ⟨-, rfl⟩
    · exact heq
    · simp at hid

theorem eq_of_holdsBelow {root : NodeId} {observable : ObservableId}
    (h : world.HoldsBelow root observable) (hroot : root ∈ [1, 2]) : observable = root - 1 := by
  obtain ⟨id, node, hid, hnode, hstate⟩ := h
  rcases eq_of_node? hnode with ⟨rfl, rfl⟩ | ⟨rfl, rfl⟩ | ⟨rfl, rfl⟩
  · obtain rfl : observable = 0 := by simpa [paragraph] using hstate
    rcases eq_of_reaches hid with rfl | ⟨rfl, -⟩
    · exact absurd hroot (by decide)
    · rfl
  · simp [container] at hstate
  · obtain rfl : observable = 1 := by simpa [plain] using hstate
    rcases eq_of_reaches hid with rfl | ⟨-, hzero⟩
    · rfl
    · cases hzero

/-- The one program runs when both nodes are mounted and subscribed. -/
theorem allows_acts : world.Allows acts := by
  intro before program after hsplit
  have htwo : SafeText "2".toList := by decide +kernel
  match before with
  | [] | [_] | [_, _] | [_, _, _] => simp [acts] at hsplit
  | [_, _, _, _] =>
    simp only [acts, List.cons_append, List.nil_append, List.cons.injEq, Act.run.injEq] at hsplit
    obtain ⟨rfl, rfl, rfl, rfl, rfl, -⟩ := hsplit
    refine ⟨⟨htwo, fun _ ↦ trivial⟩, fun node hnode observable hholds ↦ .inl ?_⟩
    obtain rfl := eq_of_holdsBelow hholds hnode
    rcases List.mem_pair.mp hnode with rfl | rfl <;> simp
  | _ :: _ :: _ :: _ :: _ :: _ => simp [acts] at hsplit

theorem exists_perform :
    ∃ w', acts.foldlM (World.perform (Client.answering react 1) 0) world = .ok w' := by
  have hok :
      (acts.foldlM (World.perform (Client.answering react 1) 0) world).toOption.isSome = true := by
    decide +kernel
  cases hresult : acts.foldlM (World.perform (Client.answering react 1) 0) world with
  | ok w' => exact ⟨w', rfl⟩
  | error fault => rw [hresult] at hok; cases hok

end Panel

/-- Both nodes of the panel are shown as they are now. -/
theorem World.showsNow_of_perform_nested :
    ∃ w' surface,
      Panel.acts.foldlM (World.perform (Client.answering Panel.react 1) 0) Panel.world = .ok w' ∧
        w'.hosts.get? 0 = some (.surface surface) ∧
          w'.ShowsNow surface 1 ∧ w'.ShowsNow surface 2 := by
  obtain ⟨w', hrun⟩ := Panel.exists_perform
  obtain ⟨surface, hsurface, hshows, -⟩ :=
    World.showsNow_of_perform Panel.onlyMutates_react 1 (by decide) Panel.canExhibit
      Panel.allows_acts hrun
  exact ⟨w', surface, hrun, hsurface, hshows 1 (by decide), hshows 2 (by decide)⟩

end LiveMarkup
