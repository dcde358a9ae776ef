import LiveMarkup.Proofs.World.Settling

/-!
What a node is rendered as. A container is rendered as a `div` around its content, in which every
layout stands in its own rendered form (`World.RendersAs`, `World.Composes`); these relations look
at the nodes that there were before, and list the forms in the order in which they are created. A
run of `World.render` creates these forms and nothing else, under consecutive numbers and with the
next ids of their registries (`World.Registers`).
-/

set_option autoImplicit false
set_option relaxedAutoImplicit false

namespace LiveMarkup

/-! ### Rendered forms -/

/-- What the `div` of a container shows before its id: the classes of the node, and its style unless
there is none. -/
def layoutEntries (node : Node) : List (String × AttrValue) :=
  ("class", .text (" ".intercalate node.classes)) ::
    if node.style.isEmpty then [] else [("style", .text node.style)]

/-- A form of a node as it is created: plain, in the registry of the node, and with an id behind its
other attributes. -/
structure Node.IsFormOf (node : Node) (tag : String) (attributes : List (String × AttrValue))
    (content : List Child) (form : Node) : Prop where
  tag : form.tag = tag
  kind : form.kind = .plain
  registry : form.registry = node.registry
  attributes : form.attributes.toList = attributes ++ [("id", .text form.id)]
  content : form.content = content
  unmounted : form.mounting? = none

namespace World

variable {σ : Type} {w w' w'' v v' : World σ}

mutual

/-- A node is rendered as another one, or as itself, for which some forms are created. -/
inductive RendersAs (w : World σ) : NodeId → NodeId → List (Nat × Node) → Prop where
  | itself {id : NodeId} {node : Node} (hnode : w.node? id = some node)
      (hkind : node.kind.rendersAsItself = true) : RendersAs w id id []
  /-- The forms for the content are created first. -/
  | container {id form : NodeId} {node new : Node} {content : List Child}
      {forms : List (Nat × Node)} (hnode : w.node? id = some node)
      (hkind : node.kind = .layout ∨ node.kind = .flexLayout ∨ node.kind = .boxed)
      (hcontent : Composes w node.content content forms)
      (hnew : node.IsFormOf "div" (layoutEntries node) content new) :
      RendersAs w id form (forms ++ [(form, new)])
  /-- The content of a text is not looked at. -/
  | paragraph {id form : NodeId} {node new : Node} (hnode : w.node? id = some node)
      (hkind : node.kind = .text) (hnew : node.IsFormOf "p" [] node.content new) :
      RendersAs w id form [(form, new)]
  | heading {id form : NodeId} {node new : Node} (hnode : w.node? id = some node)
      (hkind : node.kind = .greeting) (hnew : node.IsFormOf "h1" [] (greetingContent node) new) :
      RendersAs w id form [(form, new)]

/-- A content is laid out: each layout is replaced by what it is rendered as, from left to right,
and all other entries are kept. -/
inductive Composes (w : World σ) : List Child → List Child → List (Nat × Node) → Prop where
  | nil : Composes w [] [] []
  | layout {id form : NodeId} {node : Node} {rest rest' : List Child}
      {forms later : List (Nat × Node)} (hnode : w.node? id = some node)
      (hlayout : node.kind.isLayout = true) (hform : RendersAs w id form forms)
      (hrest : Composes w rest rest' later) :
      Composes w (.node id :: rest) (.node form :: rest') (forms ++ later)
  | other {child : Child} {rest rest' : List Child} {later : List (Nat × Node)}
      (hother : ∀ id node, child = .node id → w.node? id = some node → node.kind.isLayout = false)
      (hrest : Composes w rest rest' later) : Composes w (child :: rest) (child :: rest') later

end

/-- How a node is rendered is told by its kind. -/
theorem RendersAs.by_kind {id form : NodeId} {node : Node} {forms : List (Nat × Node)}
    (h : w.RendersAs id form forms) (hnode : w.node? id = some node) :
    match node.kind with
    | .layout | .flexLayout | .boxed => ∃ content below new, w.Composes node.content content below ∧
        node.IsFormOf "div" (layoutEntries node) content new ∧ forms = below ++ [(form, new)]
    | .text => ∃ new, node.IsFormOf "p" [] node.content new ∧ forms = [(form, new)]
    | .greeting => ∃ new, node.IsFormOf "h1" [] (greetingContent node) new ∧ forms = [(form, new)]
    | .plain | .badge | .tracked | .panel => form = id ∧ forms = [] := by
  cases h with
  | itself hsame hkind =>
    obtain rfl := Option.some.inj (hnode.symm.trans hsame)
    cases hcase : node.kind <;> rw [hcase] at hkind <;> first | exact ⟨rfl, rfl⟩ | cases hkind
  | container hsame hkind hcontent hnew =>
    obtain rfl := Option.some.inj (hnode.symm.trans hsame)
    rcases hkind with hkind | hkind | hkind <;> rw [hkind] <;>
      exact ⟨_, _, _, hcontent, hnew, rfl⟩
  | paragraph hsame hkind hnew =>
    obtain rfl := Option.some.inj (hnode.symm.trans hsame)
    rw [hkind]
    exact ⟨_, hnew, rfl⟩
  | heading hsame hkind hnew =>
    obtain rfl := Option.some.inj (hnode.symm.trans hsame)
    rw [hkind]
    exact ⟨_, hnew, rfl⟩

theorem Composes.length_eq {content content' : List Child} {forms : List (Nat × Node)}
    (h : w.Composes content content' forms) : content'.length = content.length := by
  induction content generalizing content' forms with
  | nil =>
    cases h
    rfl
  | cons child content ih =>
    cases h with
    | layout _ _ _ hrest => rw [List.length_cons, List.length_cons, ih hrest]
    | other _ hrest => rw [List.length_cons, List.length_cons, ih hrest]

/-! ### Registered forms -/

/-- Some of the forms are in a registry. -/
def formsIn (registry : RegistryId) (forms : List (Nat × Node)) : List (Nat × Node) :=
  forms.filter fun form ↦ form.2.registry = registry

/-- The ids that a registry generates next. -/
def nextIds (registry : Registry) (count : Nat) : List String :=
  (List.range' registry.generated count).map fun number ↦
    registry.config.idStem ++ toString number

/-- The id of a node is one that its registry generates. -/
def IsNamed (w : World σ) (node : Node) : Prop :=
  ∃ count : Nat, node.id = (w.registry node.registry).config.idStem ++ toString count

/-- Forms were created one after the other: they have the next numbers, are counted in their
registries, and have the next ids of these. -/
structure Registers (forms : List (Nat × Node)) (w w' : World σ) : Prop where
  numbers : forms.map Prod.fst = List.range' w.nodes.next forms.length
  next : w'.nodes.next = w.nodes.next + forms.length
  present : ∀ form ∈ forms, w'.node? form.1 = some form.2
  contains : ∀ r, w'.registries.contains r = w.registries.contains r
  config : ∀ r, (w'.registry r).config = (w.registry r).config
  sheet : ∀ r, (w'.registry r).sheet = (w.registry r).sheet
  created : ∀ r, w.registries.contains r = true →
    (w'.registry r).created = (w.registry r).created + (formsIn r forms).length
  generated : ∀ r, w.registries.contains r = true →
    (w'.registry r).generated = (w.registry r).generated + (formsIn r forms).length
  ids : ∀ r, w.registries.contains r = true →
    (formsIn r forms).map (fun form ↦ form.2.id) = nextIds (w.registry r) (formsIn r forms).length
  named : ∀ form ∈ forms, w.IsNamed form.2

namespace Registers

variable {forms forms' : List (Nat × Node)}

theorem nil (hnext : w'.nodes.next = w.nodes.next) (hregistries : w'.registries = w.registries) :
    Registers [] w w' := by
  have hregistry (r : RegistryId) : w'.registry r = w.registry r := by
    rw [World.registry, World.registry, hregistries]
  exact
    { numbers := rfl
      next := hnext
      present := by simp
      contains := fun r ↦ by rw [hregistries]
      config := fun r ↦ by rw [hregistry]
      sheet := fun r ↦ by rw [hregistry]
      created := fun r _ ↦ by rw [hregistry]; rfl
      generated := fun r _ ↦ by rw [hregistry]; rfl
      ids := fun _ _ ↦ rfl
      named := by simp }

theorem fresh (h : Registers forms w w') {form : Nat × Node} (hform : form ∈ forms) :
    w.Fresh w' form.1 := by
  have hnumber : form.1 ∈ List.range' w.nodes.next forms.length :=
    h.numbers ▸ List.mem_map_of_mem hform
  rw [List.mem_range'_1, ← h.next] at hnumber
  exact hnumber

theorem mem_of_fresh (h : Registers forms w w') {n : Nat} (hn : w.Fresh w' n) :
    n ∈ forms.map Prod.fst := by
  rw [h.numbers, List.mem_range'_1, ← h.next]
  exact hn

theorem trans (h : Registers forms w w') (h' : Registers forms' w' w'')
    (hkept : ∀ n, w.Fresh w' n → w''.node? n = w'.node? n) :
    Registers (forms ++ forms') w w'' := by
  have hformsIn (r : RegistryId) :
      formsIn r (forms ++ forms') = formsIn r forms ++ formsIn r forms' :=
    List.filter_append ..
  refine
    { numbers := ?_
      next := ?_
      present := fun form hform ↦ ?_
      contains := fun r ↦ (h'.contains r).trans (h.contains r)
      config := fun r ↦ (h'.config r).trans (h.config r)
      sheet := fun r ↦ (h'.sheet r).trans (h.sheet r)
      created := fun r hr ↦ ?_
      generated := fun r hr ↦ ?_
      ids := fun r hr ↦ ?_
      named := fun form hform ↦ ?_ }
  · rw [List.map_append, h.numbers, h'.numbers, h.next, List.length_append, List.range'_append_1]
  · rw [h'.next, h.next, List.length_append, Nat.add_assoc]
  · rcases List.mem_append.mp hform with hfirst | hlater
    · rw [hkept form.1 (h.fresh hfirst), h.present form hfirst]
    · exact h'.present form hlater
  · rw [h'.created r ((h.contains r).trans hr), h.created r hr, hformsIn, List.length_append,
      Nat.add_assoc]
  · rw [h'.generated r ((h.contains r).trans hr), h.generated r hr, hformsIn, List.length_append,
      Nat.add_assoc]
  · rw [hformsIn, List.map_append, h.ids r hr, h'.ids r ((h.contains r).trans hr), nextIds, nextIds,
      nextIds, h.generated r hr, h.config r, ← List.map_append, List.range'_append_1,
      List.length_append]
  · rcases List.mem_append.mp hform with hfirst | hlater
    · exact h.named form hfirst
    · obtain ⟨count, hid⟩ := h'.named form hlater
      exact ⟨count, h.config form.2.registry ▸ hid⟩

theorem id_freshPlain (w : World σ) (registry : RegistryId) (tag : String) (attributes : Attributes)
    (content : List Child) :
    (w.freshPlain registry tag attributes content).id = (w.registry registry).nextId :=
  Node.id_takeId { w.freshPlain registry tag attributes content with attributes := attributes } _

/-- A plain node with a generated id is a form that is created. -/
theorem added (w : World σ) (registry : RegistryId) (tag : String) (attributes : Attributes)
    (content : List Child) :
    Registers [(w.nodes.next, w.freshPlain registry tag attributes content)] w
      (w.added (w.freshPlain registry tag attributes content) false) := by
  let form := w.freshPlain registry tag attributes content
  have hself (r : RegistryId) (hr : registry = r) :
      formsIn r [(w.nodes.next, form)] = [(w.nodes.next, form)] :=
    List.filter_cons_of_pos (decide_eq_true hr)
  have hother (r : RegistryId) (hr : registry ≠ r) : formsIn r [(w.nodes.next, form)] = [] :=
    List.filter_cons_of_neg fun h ↦ hr (of_decide_eq_true h)
  have hadded (r : RegistryId) : (w.added form false).registry r =
      if registry = r ∧ w.registries.contains r = true then
        Registry.register (w.nodes.push form).idSet.contains w.nodes.next (w.registry r).countId
      else w.registry r := registry_added w form false r
  refine
    { numbers := rfl
      next := rfl
      present := fun other hform ↦ ?_
      contains := contains_added w form false
      config := fun r ↦ ?_
      sheet := fun r ↦ ?_
      created := fun r hr ↦ ?_
      generated := fun r hr ↦ ?_
      ids := fun r hr ↦ ?_
      named := fun other hform ↦ ?_ }
  · obtain rfl := List.mem_singleton.mp hform
    rw [node?_added, if_pos rfl]
  · rw [hadded]
    split <;> rfl
  · rw [hadded]
    split <;> rfl
  · by_cases hsame : registry = r
    · rw [hadded, if_pos ⟨hsame, hr⟩, hself r hsame]
      rfl
    · rw [hadded, if_neg fun h ↦ hsame h.1, hother r hsame]
      rfl
  · by_cases hsame : registry = r
    · rw [hadded, if_pos ⟨hsame, hr⟩, hself r hsame]
      rfl
    · rw [hadded, if_neg fun h ↦ hsame h.1, hother r hsame]
      rfl
  · by_cases hsame : registry = r
    · rw [hself r hsame, List.map_singleton, id_freshPlain, hsame]
      rfl
    · rw [hother r hsame]
      rfl
  · obtain rfl := List.mem_singleton.mp hform
    exact ⟨_, id_freshPlain w registry tag attributes content⟩

end Registers

/-! ### Running -/

theorem toList_layoutAttributes (node : Node) :
    (layoutAttributes node).toList = layoutEntries node := by
  unfold layoutAttributes layoutEntries
  split <;> rfl

/-- A plain node with a generated id is a form of a node in the same registry. -/
theorem isFormOf_freshPlain (w : World σ) (node : Node) (tag : String) {attributes : Attributes}
    (hid : attributes.contains "id" = false) (content : List Child) :
    node.IsFormOf tag attributes.toList content
      (w.freshPlain node.registry tag attributes content) where
  tag := rfl
  kind := rfl
  registry := rfl
  attributes := by
    rw [Registers.id_freshPlain]
    exact OrderedMap.toList_insert_of_contains hid
  content := rfl
  unmounted := rfl

section Running

variable [Journal σ] {skip kept : NodeId → Prop} {depth : Nat} {id form : NodeId} {part : Outline}
  {parts : List Outline} {content content' : List Child} {held : List NodeId}

theorem drawn_of_run (hpart : v.outlineWithin? depth id = some part)
    (hsupports : v.Supports skip kept)
    (hkept : ∀ n ∈ part.ids, kept n) (hrun : renderWithin depth v id = .ok (form, v')) :
    Drawn skip kept (fun _ ↦ True) id part form [] v v' := by
  obtain ⟨form', last, hrun', hdrawn⟩ := drawsNodes (fun _ ↦ True) depth skip kept v id part hpart
    hsupports hkept fun _ _ _ _ ↦ trivial
  obtain ⟨rfl, rfl⟩ := Prod.mk.inj (Except.ok.inj (hrun'.symm.trans hrun))
  exact hdrawn

theorem laidOut_of_run
    (hparts : List.Forall₂
      (fun child part ↦ childOutline? (v.outlineWithin? depth) child = some part) content parts)
    (hsupports : v.Supports skip kept) (hkept : ∀ part ∈ parts, ∀ n ∈ part.ids, kept n)
    (hrun : renderLayouts (renderWithin depth) v content = .ok (content', held, v')) :
    LaidOut skip kept (Among parts) (fun _ ↦ True) (Outline.formsAll parts) content' held v v' := by
  obtain ⟨content'', held', last, hrun', hlaid⟩ := exists_laidOut
    (drawsNodes (fun _ ↦ True) depth) hparts hsupports hkept fun _ _ _ _ _ _ ↦ trivial
  obtain ⟨rfl, heq⟩ := Prod.mk.inj (Except.ok.inj (hrun'.symm.trans hrun))
  obtain ⟨rfl, rfl⟩ := Prod.mk.inj heq
  exact hlaid

/-- What rendering nodes to a depth does, told by a world `w` in which the nodes are as they are
when they are rendered. -/
def RendersAsWithin (w : World σ) (depth : Nat) : Prop :=
  ∀ (skip kept : NodeId → Prop) (v v' : World σ) (id form : NodeId) (part : Outline),
    w.outlineWithin? depth id = some part → (∀ n ∈ part.ids, v.node? n = w.node? n) →
    v.Supports skip kept → (∀ n ∈ part.ids, kept n) → renderWithin depth v id = .ok (form, v') →
    ∃ forms, w.RendersAs id form forms ∧ Registers forms v v'

/-- A content that was laid out is composed of what its layouts are rendered as. -/
theorem exists_composes (hrender : w.RendersAsWithin depth)
    (hparts : List.Forall₂
      (fun child part ↦ childOutline? (w.outlineWithin? depth) child = some part) content parts)
    (hsame : ∀ part ∈ parts, ∀ n ∈ part.ids, v.node? n = w.node? n)
    (hsupports : v.Supports skip kept) (hkept : ∀ part ∈ parts, ∀ n ∈ part.ids, kept n)
    (hrun : renderLayouts (renderWithin depth) v content = .ok (content', held, v')) :
    ∃ forms, w.Composes content content' forms ∧ Registers forms v v' := by
  induction content generalizing v kept parts content' held with
  | nil =>
    obtain ⟨rfl, -, rfl⟩ : [] = content' ∧ [] = held ∧ v = v' := by
      simpa [renderLayouts] using hrun
    exact ⟨[], .nil, .nil rfl rfl⟩
  | cons child content ih =>
    obtain ⟨part, parts, hpart, hrest, rfl⟩ := List.forall₂_cons_left_iff.mp hparts
    have hpartSame := hsame part List.mem_cons_self
    have hpartKept := hkept part List.mem_cons_self
    have hunfolds : w.ChildUnfolds child part := childUnfolds_iff.mpr ⟨depth, hpart⟩
    rw [renderLayouts] at hrun
    cases hlayout : child.node?.filter fun id ↦ (v.node? id).any fun node ↦ node.kind.isLayout with
    | none =>
      rw [hlayout] at hrun
      obtain ⟨⟨rest', held', last⟩, hlater, heq⟩ := bind_eq_ok.mp hrun
      obtain ⟨rfl, rfl, rfl⟩ : child :: rest' = content' ∧ held' = held ∧ last = v' := by
        simpa [pure, Except.pure] using heq
      obtain ⟨forms, hcomposes, hregisters⟩ := ih hrest
        (fun part hpart ↦ hsame part (List.mem_cons_of_mem _ hpart)) hsupports
        (fun part hpart ↦ hkept part (List.mem_cons_of_mem _ hpart)) hlater
      refine ⟨forms, .other (fun id node hchild hnode ↦ ?_) hcomposes, hregisters⟩
      subst hchild
      have hnow : v.node? id = some node := (hpartSame id hunfolds.mem_ids).trans hnode
      simpa [Child.node?, hnow] using hlayout
    | some id =>
      obtain ⟨hid, hany⟩ := Option.filter_eq_some_iff.mp hlayout
      obtain rfl : child = .node id := by cases child <;> simp_all [Child.node?]
      obtain ⟨node, hnow, hkind⟩ := (Option.any_eq_true _ _).mp hany
      have hnode : w.node? id = some node := (hpartSame id hunfolds.mem_ids).symm.trans hnow
      rw [hlayout] at hrun
      obtain ⟨⟨form, first⟩, hform, hrun⟩ := bind_eq_ok.mp hrun
      obtain ⟨⟨rest', held', last⟩, hlater, heq⟩ := bind_eq_ok.mp hrun
      obtain ⟨rfl, rfl, rfl⟩ :
          .node form :: rest' = content' ∧ form :: held' = held ∧ last = v' := by
        simpa [pure, Except.pure] using heq
      obtain ⟨forms, hrenders, hfirst⟩ :=
        hrender skip kept v first id form part hpart hpartSame hsupports hpartKept hform
      have hdrawn :=
        drawn_of_run (outlineWithin?_of_nodes hpart hpartSame) hsupports hpartKept hform
      have hrestSame : ∀ part ∈ parts, ∀ n ∈ part.ids, first.node? n = w.node? n :=
        fun part hpart n hn ↦
          (hdrawn.grows.nodes n (hkept part (List.mem_cons_of_mem _ hpart) n hn)).trans
            (hsame part (List.mem_cons_of_mem _ hpart) n hn)
      have hrestKept : ∀ part ∈ parts, ∀ n ∈ part.ids, kept n ∨ v.Fresh first n :=
        fun part hpart n hn ↦ .inl (hkept part (List.mem_cons_of_mem _ hpart) n hn)
      obtain ⟨later, hcomposes, hregisters⟩ :=
        ih hrest hrestSame hdrawn.grows.supports hrestKept hlater
      have hlaid := laidOut_of_run
        (forall₂_imp_of_mem hrest fun child _ part hpart ↦ childOutline?_mono fun id _ hdepth ↦
          outlineWithin?_of_nodes hdepth (hrestSame part hpart))
        hdrawn.grows.supports hrestKept hlater
      exact ⟨forms ++ later, .layout hnode hkind hrenders hcomposes,
        hfirst.trans hregisters fun n hn ↦ hlaid.grows.nodes n (.inr hn)⟩

/-- A container is rendered as a `div` around its content as it was composed. -/
theorem exists_container {node : Node} (hrender : w.RendersAsWithin depth)
    (hforms : (Outline.node id node.bare parts).forms = Outline.formsAll parts + 1)
    (hparts : List.Forall₂
      (fun child part ↦ childOutline? (w.outlineWithin? depth) child = some part)
      node.content parts)
    (hsame : ∀ part ∈ parts, ∀ n ∈ part.ids, v.node? n = w.node? n)
    (hsupports : v.Supports skip kept) (hkept : ∀ part ∈ parts, ∀ n ∈ part.ids, kept n)
    (hrun : renderContainer (renderWithin depth) v node = .ok (form, v')) :
    ∃ content forms new, w.Composes node.content content forms ∧
      node.IsFormOf "div" (layoutEntries node) content new ∧
      Registers (forms ++ [(form, new)]) v v' := by
  obtain ⟨⟨content, held, laid⟩, hlaidRun, heq⟩ := bind_eq_ok.mp hrun
  obtain ⟨forms, hcomposes, hregisters⟩ :=
    exists_composes hrender hparts hsame hsupports hkept hlaidRun
  have hlaid := laidOut_of_run
    (forall₂_imp_of_mem hparts fun child _ part hpart ↦ childOutline?_mono fun id _ hdepth ↦
      outlineWithin?_of_nodes hdepth (hsame part hpart)) hsupports hkept hlaidRun
  let new := laid.freshPlain node.registry "div" (layoutAttributes node) content
  let created := laid.added new false
  have hnew : node.IsFormOf "div" (layoutEntries node) content new := by
    rw [← toList_layoutAttributes]
    exact isFormOf_freshPlain laid node "div" (contains_id_layoutAttributes node) content
  have hcreated : Registers (forms ++ [(laid.nodes.next, new)]) v created :=
    hregisters.trans (.added laid node.registry "div" (layoutAttributes node) content) fun n hn ↦
      hlaid.grows.supports.node?_added (.inr hn) new false
  have hresult : ((laid.createPlain node.registry "div" (layoutAttributes node) content).1,
      (laid.createPlain node.registry "div" (layoutAttributes node) content).2.releaseAll held) =
      (form, v') := Except.ok.inj heq
  rw [createPlain_eq _ _ _ (contains_id_layoutAttributes node)] at hresult
  obtain ⟨rfl, rfl⟩ := Prod.mk.inj hresult
  have hdrawn : Drawn skip kept (fun _ ↦ True) id (.node id node.bare parts) laid.nodes.next held v
      created :=
    hlaid.added (fun _ hn ↦ Outline.mem_inner_iff.mpr hn) hforms trivial "div"
      (onclick_layoutAttributes node)
  have hform : created.node? laid.nodes.next = some new :=
    hcreated.present _ (List.mem_append_right _ List.mem_cons_self)
  have hfresh : v.Fresh created laid.nodes.next :=
    hcreated.fresh (List.mem_append_right _ List.mem_cons_self)
  have hreleased : Registers [] created (created.releaseAll held) := .nil (next_sweep _) rfl
  refine ⟨content, forms, new, hcomposes, hnew, ?_⟩
  rw [← List.append_nil (forms ++ [(laid.nodes.next, new)])]
  exact hcreated.trans hreleased fun n hn ↦
    hdrawn.grows.node?_releaseAll hdrawn.held (.inr hfresh) hform hlaid.forms_mem (.inr hn)

/-- A node is rendered, to a depth that its outline needs, as what the nodes below it tell. -/
theorem rendersAsWithin (w : World σ) (depth : Nat) : w.RendersAsWithin depth := by
  induction depth with
  | zero =>
    intro _ _ _ _ _ _ _ hdepth
    cases hdepth
  | succ depth ih =>
    intro skip kept v v' id form part hdepth hsame hsupports hkept hrun
    obtain ⟨node, parts, hnode, hparts, rfl⟩ := outlineWithin?_succ_iff.mp hdepth
    have hself : id ∈ (Outline.node id node.bare parts).ids := List.mem_cons_self
    have hbelow (part : Outline) (hpart : part ∈ parts) (n : NodeId) (hn : n ∈ part.ids) :
        n ∈ (Outline.node id node.bare parts).ids :=
      Outline.inner_subset_ids (Outline.mem_inner_iff.mpr ⟨part, hpart, hn⟩)
    rw [renderWithin, (hsame id hself).trans hnode] at hrun
    dsimp only at hrun
    have hcontainer (hkind : node.kind = .layout ∨ node.kind = .flexLayout ∨ node.kind = .boxed)
        (hforms : (Outline.node id node.bare parts).forms = Outline.formsAll parts + 1)
        (hrun : renderContainer (renderWithin depth) v node = .ok (form, v')) :
        ∃ forms, w.RendersAs id form forms ∧ Registers forms v v' := by
      obtain ⟨content, forms, new, hcomposes, hnew, hregisters⟩ := exists_container ih hforms hparts
        (fun part hpart n hn ↦ hsame n (hbelow part hpart n hn)) hsupports
        (fun part hpart n hn ↦ hkept n (hbelow part hpart n hn)) hrun
      exact ⟨_, .container hnode hkind hcomposes hnew, hregisters⟩
    have hplain (tag : String) (content : List Child)
        (hrun : v.createPlain node.registry tag ∅ content = (form, v')) :
        ∃ new, node.IsFormOf tag [] content new ∧ Registers [(form, new)] v v' := by
      rw [createPlain_eq _ _ _ rfl] at hrun
      obtain ⟨rfl, rfl⟩ := Prod.mk.inj hrun
      have hnoId : (∅ : Attributes).contains "id" = false := rfl
      have hnew : node.IsFormOf tag [] content (v.freshPlain node.registry tag ∅ content) :=
        isFormOf_freshPlain v node tag hnoId content
      exact ⟨_, hnew, .added v node.registry tag ∅ content⟩
    have hitself (hkind : node.kind.rendersAsItself = true)
        (hrun : (id, v.hold (.node id)) = (form, v')) :
        ∃ forms, w.RendersAs id form forms ∧ Registers forms v v' := by
      obtain ⟨rfl, rfl⟩ := Prod.mk.inj hrun
      exact ⟨[], .itself hnode hkind, .nil rfl rfl⟩
    cases hkind : node.kind with
    | layout | flexLayout | boxed =>
      rw [hkind] at hrun
      exact hcontainer (by simp [hkind]) (by simp [Outline.forms, Node.bare, hkind]) hrun
    | text =>
      rw [hkind] at hrun
      obtain ⟨new, hnew, hregisters⟩ := hplain "p" node.content (Except.ok.inj hrun)
      exact ⟨_, .paragraph hnode hkind hnew, hregisters⟩
    | greeting =>
      rw [hkind] at hrun
      obtain ⟨new, hnew, hregisters⟩ := hplain "h1" (greetingContent node) (Except.ok.inj hrun)
      exact ⟨_, .heading hnode hkind hnew, hregisters⟩
    | plain | badge | tracked | panel =>
      rw [hkind] at hrun
      exact hitself (by rw [hkind]; rfl) (Except.ok.inj hrun)

/-- A node that unfolds is rendered as what the nodes below it tell; these forms are all that is
new. -/
theorem exists_rendersAs {outline : Outline} (registries : RegistryId → Prop)
    (hunfolds : w.Unfolds id outline) (hsupports : w.Supports skip kept)
    (hkept : ∀ n ∈ outline.ids, kept n)
    (hregistries : ∀ n self content, .node n self content ∈ outline.parts →
      registries self.registry) :
    ∃ form w' forms, w.render id = .ok (form, w') ∧
      Drawn skip kept registries id outline form [] w w' ∧ w.RendersAs id form forms ∧
      Registers forms w w' := by
  obtain ⟨form, w', hrender, hdrawn⟩ := exists_drawn hunfolds hsupports hkept hregistries
  obtain ⟨forms, hrenders, hregisters⟩ := w.rendersAsWithin w.depthLimit skip kept w w' id form
    outline hunfolds.outlineWithin? (fun _ _ ↦ rfl) hsupports hkept hrender
  exact ⟨form, w', forms, hrender, hdrawn, hrenders, hregisters⟩

end Running

/-! ### Sound worlds -/

/-- What is below a live node of a sound world is alive. -/
theorem Sound.live_of_node? (h : w.Sound) {id : NodeId} {node : Node}
    (hnode : w.node? id = some node) :
    w.Live id := by
  intro below hbelow
  induction hbelow with
  | refl => exact ⟨node, hnode⟩
  | tail _ hstep _ =>
    obtain ⟨owner, howner, hmem⟩ := hstep
    exact (h.live _).mp (.inr ⟨_, owner, howner, .inl hmem⟩)

/-- The live nodes of a sound world support one another. -/
theorem Sound.supports (h : w.Sound) :
    w.Supports (fun _ ↦ False) fun n ↦ ∃ node, w.node? n = some node := by
  intro n hn
  refine ⟨hn, ((h.live n).mpr hn).imp_right ?_⟩
  rintro ⟨parent, owner, howner, howns⟩
  exact ⟨parent, ⟨owner, howner⟩, owner, howner, howns⟩

/-- A registry lists the new forms behind the nodes that it listed. -/
theorem Registers.liveNodes_eq {forms : List (Nat × Node)} (h : Registers forms w w')
    (hlisting : w.Listing) (hlisting' : w'.Listing)
    (hpast : ∀ n : Nat, n < w.nodes.next → w'.node? n = w.node? n) (r : RegistryId) :
    w'.liveNodes r = w.liveNodes r ++ (formsIn r forms).map Prod.fst := by
  have hbounded : ∀ n ∈ w.liveNodes r, n < w.nodes.next :=
    fun n hn ↦ hlisting.bounded r n (List.mem_filter.mp hn).1
  have hforms : ((formsIn r forms).map Prod.fst).Sublist (List.range' w.nodes.next forms.length) :=
    h.numbers ▸ List.filter_sublist.map Prod.fst
  have hincreasing : (w.liveNodes r ++ (formsIn r forms).map Prod.fst).Pairwise (· < ·) := by
    refine List.pairwise_append.mpr ⟨(hlisting.increasing r).filter _,
      (List.pairwise_lt_range' _).sublist hforms, fun n hn m hm ↦ ?_⟩
    exact Nat.lt_of_lt_of_le (hbounded n hn) (List.mem_range'_1.mp (hforms.subset hm)).1
  have hmem (n : Nat) :
      n ∈ w'.liveNodes r ↔ n ∈ w.liveNodes r ++ (formsIn r forms).map Prod.fst := by
    rw [hlisting'.mem_liveNodes_iff, List.mem_append, hlisting.mem_liveNodes_iff]
    constructor
    · rintro ⟨node, hnode, hregistry⟩
      by_cases hold : n < w.nodes.next
      · exact .inl ⟨node, (hpast n hold).symm.trans hnode, hregistry⟩
      · obtain ⟨form, hform, rfl⟩ := List.mem_map.mp
          (h.mem_of_fresh ⟨Nat.le_of_not_lt hold, lt_next_of_node? hnode⟩)
        obtain rfl := Option.some.inj ((h.present form hform).symm.trans hnode)
        exact .inr (List.mem_map_of_mem (List.mem_filter.mpr ⟨hform, decide_eq_true hregistry⟩))
    · rintro (⟨node, hnode, hregistry⟩ | hnew)
      · exact ⟨node, (hpast n (lt_next_of_node? hnode)).trans hnode, hregistry⟩
      · obtain ⟨form, hform, rfl⟩ := List.mem_map.mp hnew
        obtain ⟨hmem, hregistry⟩ := List.mem_filter.mp hform
        exact ⟨form.2, h.present form hmem, of_decide_eq_true hregistry⟩
  exact ((hlisting'.increasing r).filter _).eq_of_mem_iff hincreasing hmem

/-- Layout rendering. In a sound world a container from which down no node holds itself is rendered
as a new `div`. It has, in this order, the classes of the node, its style unless there is none, and
a generated id; and as many entries as the node, which are the entries of the node, each layout
among them replaced by what it is rendered as in turn. One node is registered for each layout that
is rendered, the inner ones first; they have consecutive numbers and ids, and are listed behind the
nodes of their registries. Nothing about the nodes that there were changes. -/
theorem exists_render_composes [Journal σ] (hsound : w.Sound) {id : NodeId} {node : Node}
    (hnode : w.node? id = some node) (hkind : node.kind = .layout ∨ node.kind = .flexLayout)
    (hacyclic : w.Acyclic id) :
    ∃ form new content forms w', w.render id = .ok (form, w') ∧ w'.node? form = some new ∧
      node.IsFormOf "div" (layoutEntries node) content new ∧
      content.length = node.content.length ∧ w.Composes node.content content forms ∧
      Registers (forms ++ [(form, new)]) w w' ∧
      (∀ r, w'.liveNodes r =
        w.liveNodes r ++ (formsIn r (forms ++ [(form, new)])).map Prod.fst) ∧
      (∀ n : Nat, n < w.nodes.next → w'.node? n = w.node? n) ∧
      w'.held.Perm (.node form :: w.held) ∧ w'.hosts = w.hosts ∧ w'.observables = w.observables ∧
      w'.client = w.client := by
  have hlive := hsound.live_of_node? hnode
  obtain ⟨part, hdepth⟩ := exists_unfolds hacyclic hlive
  have hunfolds : w.Unfolds id part := ⟨_, hdepth⟩
  have hkept : ∀ n ∈ part.ids, ∃ node, w.node? n = some node :=
    fun n hn ↦ hlive n (hunfolds.mem_ids_iff.mp hn)
  have hregistries : ∀ n self content, .node n self content ∈ part.parts →
      w.registries.contains self.registry = true := by
    intro n self content hpart
    obtain ⟨found, hfound, rfl⟩ := Option.map_eq_some_iff.mp (hunfolds.bare_of_mem hpart)
    exact hsound.listing.exists_registry n found hfound
  obtain ⟨form, w', forms, hrun, hdrawn, hrenders, hregisters⟩ :=
    exists_rendersAs (fun r ↦ w.registries.contains r = true) hunfolds hsound.supports hkept
      hregistries
  have hpast (n : Nat) (hn : n < w.nodes.next) : w'.node? n = w.node? n := by
    cases hnow : w.node? n with
    | some found => exact (hdrawn.grows.nodes n ⟨found, hnow⟩).trans hnow
    | none =>
      refine Option.eq_none_iff_forall_ne_some.mpr fun found hfound ↦ ?_
      rw [hdrawn.grows.past n found hn hfound] at hnow
      cases hnow
  have hcontainer := hrenders.by_kind hnode
  obtain ⟨content, below, new, hcontent, hnew, rfl⟩ : ∃ content below new,
      w.Composes node.content content below ∧
        node.IsFormOf "div" (layoutEntries node) content new ∧ forms = below ++ [(form, new)] := by
    rcases hkind with hkind | hkind <;> rwa [hkind] at hcontainer
  exact ⟨form, new, content, below, w', hrun,
    hregisters.present _ (List.mem_append_right _ List.mem_cons_self), hnew, hcontent.length_eq,
    hcontent, hregisters,
    hregisters.liveNodes_eq hsound.listing
      (hdrawn.grows.listing (fun _ hr ↦ hr) hsound.listing) hpast,
    hpast, hdrawn.held, hdrawn.grows.hosts, hdrawn.grows.observables, hdrawn.grows.client⟩

/-! A layout around a flexible one and a text, which stands in the flexible one too, so that it is
rendered twice. -/

namespace Columns

def text : Node where
  tag := "Text"
  kind := .text
  registry := 0
  attributes := ∅
  content := [.text "x"]
  classes := []
  style := ""
  flags := ⟨0⟩

def column : Node :=
  { text with tag := "FlexLayout", kind := .flexLayout, classes := ["flex"], content := [.node 0] }

def layout : Node :=
  { text with
    tag := "Layout", kind := .layout, classes := ["a", "b"], style := "color:red;"
    content := [.text "y", .node 1, .node 0] }

def world : World (List Note) where
  nodes := ((Table.empty.push text).push column).push layout
  registries := Table.empty.push { entries := [0, 1, 2], created := 3, generated := 3 }
  held := [.node 2]
  client := []

theorem eq_of_node? {n : NodeId} {node : Node} (h : world.node? n = some node) :
    n = 0 ∧ node = text ∨ n = 1 ∧ node = column ∨ n = 2 ∧ node = layout := by
  match n with
  | 0 => exact .inl ⟨rfl, (Option.some.inj h).symm⟩
  | 1 => exact .inr (.inl ⟨rfl, (Option.some.inj h).symm⟩)
  | 2 => exact .inr (.inr ⟨rfl, (Option.some.inj h).symm⟩)
  | n + 3 => cases h

theorem entries_eq (r : RegistryId) :
    r = 0 ∧ (world.registry r).entries = [0, 1, 2] ∨ (world.registry r).entries = [] := by
  match r with
  | 0 => exact .inl ⟨rfl, rfl⟩
  | r + 1 => exact .inr rfl

theorem listing : world.Listing where
  exists_registry := fun n node h ↦ by
    rcases eq_of_node? h with ⟨-, rfl⟩ | ⟨-, rfl⟩ | ⟨-, rfl⟩ <;> rfl
  listed := fun n node h ↦ by
    rcases eq_of_node? h with ⟨rfl, rfl⟩ | ⟨rfl, rfl⟩ | ⟨rfl, rfl⟩ <;> decide +kernel
  increasing := fun r ↦ by
    rcases entries_eq r with ⟨-, hr⟩ | hr <;> rw [hr] <;> decide
  bounded := fun r n hn ↦ by
    rcases entries_eq r with ⟨-, hr⟩ | hr
    · have hlt : ∀ m ∈ [0, 1, 2], m < 3 := by decide
      exact hlt n (hr ▸ hn)
    · rw [hr] at hn
      cases hn
  registry := fun r n hn node h ↦ by
    rcases entries_eq r with ⟨rfl, -⟩ | hr
    · rcases eq_of_node? h with ⟨-, rfl⟩ | ⟨-, rfl⟩ | ⟨-, rfl⟩ <;> rfl
    · rw [hr] at hn
      cases hn

theorem sound : world.Sound := by
  refine ⟨listing, fun n ↦ ⟨?_, ?_⟩⟩
  · rintro ((hheld | ⟨app, _, -, happ, -⟩) | ⟨parent, owner, howner, hmem | ⟨-, hwrapper⟩⟩)
    · obtain rfl : n = 2 := by simpa [world] using hheld
      exact ⟨layout, rfl⟩
    · cases happ
    · rcases eq_of_node? howner with ⟨-, rfl⟩ | ⟨-, rfl⟩ | ⟨-, rfl⟩
      · simp [text] at hmem
      · obtain rfl : n = 0 := by simpa [column] using hmem
        exact ⟨text, rfl⟩
      · obtain rfl | rfl : n = 1 ∨ n = 0 := by simpa [layout] using hmem
        · exact ⟨column, rfl⟩
        · exact ⟨text, rfl⟩
    · rcases eq_of_node? howner with ⟨-, rfl⟩ | ⟨-, rfl⟩ | ⟨-, rfl⟩ <;> cases hwrapper
  · rintro ⟨node, h⟩
    rcases eq_of_node? h with ⟨rfl, -⟩ | ⟨rfl, -⟩ | ⟨rfl, -⟩
    · exact .inr ⟨1, column, rfl, .inl (by simp [column])⟩
    · exact .inr ⟨2, layout, rfl, .inl (by simp [layout])⟩
    · exact .inl (.inl (by simp [world]))

/-- Four forms are created, of which the last is that of the layout. -/
theorem of_render {form : NodeId} {w' : World (List Note)}
    (hrun : world.render 2 = .ok (form, w')) :
    form = 6 ∧ w'.liveNodes 0 = [0, 1, 2, 3, 4, 5, 6] ∧
      (w'.node? 6).map (fun new ↦ (new.attributes.toList, new.content)) =
        some ([("class", .text "a b"), ("style", .text "color:red;"), ("id", .text "v-6")],
          [.text "y", .node 4, .node 5]) := by
  have hdone : (world.render 2).toOption.any (fun result ↦
      result.1 = 6 ∧ result.2.liveNodes 0 = [0, 1, 2, 3, 4, 5, 6] ∧
        (result.2.node? 6).map (fun new ↦ (new.attributes.toList, new.content)) =
          some ([("class", .text "a b"), ("style", .text "color:red;"), ("id", .text "v-6")],
            [.text "y", .node 4, .node 5])) = true := by
    decide +kernel
  rw [hrun] at hdone
  exact of_decide_eq_true hdone

end Columns

/-- The form of the layout holds the forms of the column and the text; the column is as it was. -/
theorem exists_render_composes_nested :
    ∃ new w', Columns.world.render 2 = .ok (6, w') ∧ w'.node? 6 = some new ∧
      new.attributes.toList =
        [("class", .text "a b"), ("style", .text "color:red;"), ("id", .text "v-6")] ∧
      new.content = [.text "y", .node 4, .node 5] ∧ w'.liveNodes 0 = [0, 1, 2, 3, 4, 5, 6] ∧
      w'.node? 1 = some Columns.column := by
  have hunfolds : Columns.world.Unfolds 2 _ := ⟨3, rfl⟩
  have hlayout : Columns.world.node? 2 = some Columns.layout := rfl
  obtain ⟨form, new, content, forms, w', hrun, hform, hnew, -, -, -, -, hpast, -⟩ :=
    exists_render_composes Columns.sound hlayout (.inl rfl) hunfolds.acyclic
  obtain ⟨rfl, hlisted, hshown⟩ := Columns.of_render hrun
  rw [hform] at hshown
  obtain ⟨hattributes, hcontent⟩ := Prod.mk.inj (Option.some.inj hshown)
  exact ⟨new, w', hrun, hform, hattributes, hcontent, hlisted, hpast 1 (by decide)⟩

end World

end LiveMarkup
