import LiveMarkup.Proofs.Identity.Runs
import Mathlib.Data.List.Sort

/-!
Which nodes share an id. After every run that starts without nodes, nodes of one registry that show
the same id stand for the same node, if it was created without an id of its own and if no explicit
id that is in use looks like a generated one (`World.Runs.origin_eq_of_id_eq`); otherwise the two
may meet (`World.exists_id_eq_of_create`). If the explicit ids in use are also pairwise distinct,
then a mounted node shares its id with its form, which is younger, and a lookup by id finds every
node that is no form of another (`World.Runs.aliasing`). The ids of nodes that are gone do not
matter, and may be used again.
-/

set_option autoImplicit false
set_option relaxedAutoImplicit false

namespace LiveMarkup.World

variable {σ : Type} {w w₀ : World σ} {deeds : List Deed}

/-! ### What the invariant says about ids -/

/-- A node whose id is shown: it is alive, or one that stands for it is. -/
def IsShown (w : World σ) (deeds : List Deed) (source : NodeId) : Prop :=
  ∃ n node, w.node? n = some node ∧ origin deeds n = source

/-- No id that is shown was given explicitly and is one that its registry may generate. -/
def AvoidsGenerated (w : World σ) (deeds : List Deed) : Prop :=
  ∀ (registry : RegistryId) (n : NodeId) (count : Nat), w.IsShown deeds n →
    .names registry n ((w.registry registry).config.idStem ++ toString count) ∉ deeds

/-- The explicit ids of a registry that are shown are pairwise distinct. -/
def NamesApart (w : World σ) (deeds : List Deed) : Prop :=
  ∀ (registry : RegistryId) (id : String) (n m : NodeId), w.IsShown deeds n → w.IsShown deeds m →
    .names registry n id ∈ deeds → .names registry m id ∈ deeds → n = m

namespace Ledger

theorem not_names_of_hasGenerated (hforms : w.AvoidsGenerated deeds) {registry : RegistryId}
    {id : String} (h : w.HasGenerated registry id) {n : NodeId} (hn : w.IsShown deeds n) :
    .names registry n id ∉ deeds := by
  obtain ⟨count, -, rfl⟩ := h
  exact hforms registry n count hn

/-- A node that shares the id of a node whose origin was created without one shares its origin. -/
theorem origin_eq (h : Ledger deeds w) (hforms : w.AvoidsGenerated deeds) {n m : NodeId}
    {node other : Node} (hnode : w.node? n = some node) (hother : w.node? m = some other)
    (hregistry : other.registry = node.registry) (hunnamed : Unnamed deeds (origin deeds n))
    (hid : other.id = node.id) : origin deeds m = origin deeds n := by
  rcases h.attests n node hnode with hnamed | ⟨-, hgenerated⟩
  · exact absurd hnamed (hunnamed _ _)
  · rcases h.attests m other hother with hnamed | ⟨hunnamed', -⟩
    · rw [hregistry, hid] at hnamed
      exact absurd hnamed (not_names_of_hasGenerated hforms hgenerated ⟨m, other, hother, rfl⟩)
    · exact h.distinct m n other node hother hnode hregistry hunnamed' hunnamed hid

/-- Nodes that share an id share their origin, if the explicit ids are distinct. -/
theorem origin_eq_of_namesApart (h : Ledger deeds w) (hforms : w.AvoidsGenerated deeds)
    (hapart : w.NamesApart deeds) {n m : NodeId} {node other : Node}
    (hnode : w.node? n = some node) (hother : w.node? m = some other)
    (hregistry : other.registry = node.registry) (hid : other.id = node.id) :
    origin deeds m = origin deeds n := by
  rcases h.attests n node hnode with hnamed | ⟨hunnamed, -⟩
  · rcases h.attests m other hother with hnamed' | ⟨-, hgenerated⟩
    · rw [hregistry, hid] at hnamed'
      exact hapart _ _ _ _ ⟨m, other, hother, rfl⟩ ⟨n, node, hnode, rfl⟩ hnamed' hnamed
    · rw [hregistry, hid] at hgenerated
      exact absurd hnamed (not_names_of_hasGenerated hforms hgenerated ⟨n, node, hnode, rfl⟩)
  · exact h.origin_eq hforms hnode hother hregistry hunnamed hid

/-- A lookup by id finds a node that shares its id with younger nodes only. -/
theorem find?_eq_some (h : Ledger deeds w) {n : NodeId} {node : Node}
    (hnode : w.node? n = some node)
    (hyounger : ∀ m other, w.node? m = some other → other.registry = node.registry →
      other.id = node.id → n ≤ m) : w.find? node.registry node.id = some n := by
  obtain ⟨front, back, hentries⟩ := List.append_of_mem (h.listed n node hnode)
  have hincreasing := h.increasing node.registry
  rw [hentries] at hincreasing
  rw [find?, liveNodes, List.find?_filter, List.find?_eq_some_iff_append]
  refine ⟨by simp [contains_of_node? hnode, idOf_eq hnode], front, back, hentries, fun m hm ↦ ?_⟩
  have hlt : m < n := (List.pairwise_append.mp hincreasing).2.2 m hm n List.mem_cons_self
  cases hother : w.node? m with
  | none =>
    have hdead : w.nodes.contains m = false := by
      rw [← Table.isSome_get?, show w.nodes.get? m = none from hother]
      rfl
    simp [hdead]
  | some other =>
    have hmem : m ∈ (w.registry node.registry).entries := by
      rw [hentries]
      exact List.mem_append_left _ hm
    have hne : other.id ≠ node.id := fun hid ↦ Nat.not_le_of_lt hlt
      (hyounger m other hother (h.registry _ m hmem other hother) hid)
    simp [idOf_eq hother, hne]

/-- Of two nodes that a registry lists, the older one stands first. -/
theorem pair_sublist (h : Ledger deeds w) {r : RegistryId} {n m : NodeId}
    (hn : n ∈ (w.registry r).entries) (hm : m ∈ (w.registry r).entries) (hlt : n < m) :
    [n, m].Sublist (w.registry r).entries := by
  have hpair : [n, m].Pairwise (· < ·) := List.pairwise_pair.mpr hlt
  have hsubset : [n, m] ⊆ (w.registry r).entries := by
    simp [hn, hm]
  exact List.sublist_of_subperm_of_pairwise
    (List.subperm_of_subset (hpair.imp Nat.ne_of_lt) hsubset) hpair (h.increasing r)

/-- A mounted node shares its id with its form; it is its own form, or stands before it in its
registry. -/
theorem exists_rendered? (h : Ledger deeds w) {n : NodeId} {node : Node}
    (hnode : w.node? n = some node) (hmounted : node.isMounted = true) :
    ∃ form, w.rendered? n = some form ∧ w.idOf form = w.idOf n ∧
      (form = n ↔ node.kind.rendersAsItself = true) ∧
        (form ≠ n → [n, form].Sublist (w.registry node.registry).entries) := by
  obtain ⟨⟨host, displayed⟩, hmounting⟩ := Option.isSome_iff_exists.mp hmounted
  have hdisplayed := h.mounted n node _ hnode hmounting
  cases displayed with
  | itself =>
    have hrendered : w.rendered? n = some n := by
      rw [rendered?, hnode, Option.bind_some, hmounting, Option.map_some]
    exact ⟨n, hrendered, rfl, ⟨fun _ ↦ hdisplayed, fun _ ↦ rfl⟩, fun hne ↦ absurd rfl hne⟩
  | wrapper form =>
    have hrendered : w.rendered? n = some form := by
      rw [rendered?, hnode, Option.bind_some, hmounting, Option.map_some]
    obtain ⟨hkind, hlt, -, shown, hshown, hid, hregistry⟩ := hdisplayed
    have hlisted := h.listed form shown hshown
    rw [hregistry] at hlisted
    refine ⟨form, hrendered, by rw [idOf_eq hshown, idOf_eq hnode, hid], ?_, fun _ ↦ ?_⟩
    · simp [hkind, Nat.ne_of_gt hlt]
    · exact h.pair_sublist (h.listed n node hnode) hlisted hlt

end Ledger

/-! ### A layout that is mounted twice -/

theorem exists_ok_of_any {ε α : Type} {result : Except ε α} {p : α → Bool}
    (h : result.toOption.any p = true) : ∃ value, result = .ok value ∧ p value = true := by
  cases result with
  | error => cases h
  | ok value => exact ⟨value, rfl, h⟩

namespace Remounting

/-- A world with a registry, an observable and a surface, and without nodes. -/
def bare : World (List Note) :=
  { registries := Table.empty.push {}
    observables := Table.empty.push { value := .text "off" }
    hosts := Table.empty.push (.surface {})
    client := [] }

/-- A plain node with an id of its own. -/
def sketch : World (List Note) := (bare.create 0 .plain "i" (.ofList [("id", .text "x")]) []).2

/-- Another one with the same id, after the first is gone. -/
def picture : World (List Note) :=
  ((sketch.release (.node 0)).create 0 .plain "b" (.ofList [("id", .text "x")]) []).2

/-- A layout around it, without an id of its own. -/
def framed : World (List Note) := (picture.create 0 .layout "Layout" ∅ [.node 1]).2

/-- The layout is mounted, mounted again while its first form is kept, and refreshed. -/
def redrawn : Except Fault ((NodeId × World (List Note)) × (NodeId × World (List Note)) ×
    World (List Note)) := do
  let first ← framed.mount 2 0
  let second ← first.2.mount 2 0
  let again ← second.2.refresh 2
  return (first, second, again)

/-- What is done to ids. -/
def history : List Deed :=
  [.names 0 0 "x", .names 0 1 "x", .displays 2 3, .displays 2 4, .displays 2 5]

/-- Each call is answered by a mutation. -/
def react (_ : Call) (_ : World (List Note)) : Program (List Note) :=
  .mutate 0 (.set (.text "on")) fun _ ↦ .done

theorem passes_react (call : Call) (w : World (List Note)) : (react call w).Passes Leads :=
  fun _ ↦ trivial

theorem entries_bare (r : RegistryId) : (bare.registry r).entries = [] := by
  cases r <;> rfl

theorem names_mem_history {registry : RegistryId} {n : NodeId} {id : String} :
    .names registry n id ∈ history ↔ registry = 0 ∧ (n = 0 ∨ n = 1) ∧ id = "x" := by
  simp only [history, List.mem_cons, Deed.names.injEq, List.not_mem_nil, reduceCtorEq, or_false,
    ← and_or_left, ← or_and_right]

/-- An id that starts like no generated one is none. -/
theorem avoidsGenerated {w : World (List Note)} (hstem : (w.registry 0).config.idStem = "v-") :
    w.AvoidsGenerated history := by
  intro registry n count _ hmem
  obtain ⟨rfl, -, hid⟩ := names_mem_history.mp hmem
  have hfirst := congrArg (fun id : String ↦ id.toList.head?) hid
  simp [hstem] at hfirst

/-- Of the two nodes with the same id, the first is gone, and nothing stands for it. -/
theorem namesApart {w : World (List Note)} (hgone : w.node? 0 = none) : w.NamesApart history := by
  have hsecond {n : NodeId} {registry : RegistryId} {id : String} (hshown : w.IsShown history n)
      (hmem : .names registry n id ∈ history) : n = 1 := by
    obtain ⟨m, node, hnode, rfl⟩ := hshown
    refine (names_mem_history.mp hmem).2.1.resolve_left fun horigin ↦ ?_
    by_cases hform : m = 3 ∨ m = 4 ∨ m = 5
    · rcases hform with rfl | rfl | rfl <;> exact absurd horigin (by decide)
    · have hself : origin history m = m :=
        origin_eq_self_of_displays fun source hdisplays ↦ by simp_all [history]
      rw [← hself, horigin, hgone] at hnode
      cases hnode
  intro registry id n m hn hm hnamed hnamed'
  rw [hsecond hn hnamed, hsecond hm hnamed']

/-- The layout and all its forms are alive and show the id that was generated for the layout; the
first of the two nodes that were given the same id is gone. -/
theorem exists_runs : ∃ w, Runs bare history w ∧ (w.registry 0).config.idStem = "v-" ∧
    w.node? 0 = none ∧ w.Handles 2 ∧ w.rendered? 2 = some 5 ∧
      (∃ node, w.node? 2 = some node ∧ node.kind = .layout ∧ node.isMounted = true) ∧
      ∀ n ∈ [2, 3, 4, 5], ∃ node, w.node? n = some node ∧ node.id = "v-0" ∧ node.registry = 0 := by
  have hdone : redrawn.toOption.any (fun result ↦
      result.1.1 = 3 ∧ result.2.1.1 = 4 ∧ result.2.2.rendered? 2 = some 5 ∧
        (.node 2 ∈ result.1.2.held ∧ result.1.2.nodes.contains 2 = true) ∧
        (.node 2 ∈ result.2.1.2.held ∧ result.2.1.2.nodes.contains 2 = true) ∧
        (.node 2 ∈ result.2.2.held ∧ result.2.2.nodes.contains 2 = true) ∧
        (result.2.2.registry 0).config.idStem = "v-" ∧ (result.2.2.node? 0).isNone = true ∧
        (result.2.2.node? 2).map (fun node ↦ (node.kind, node.isMounted)) = some (.layout, true) ∧
        ∀ n ∈ [2, 3, 4, 5], (result.2.2.node? n).map (fun node ↦ (node.id, node.registry)) =
          some ("v-0", 0)) = true := by
    decide +kernel
  obtain ⟨result, hredrawn, hfacts⟩ := exists_ok_of_any hdone
  obtain ⟨⟨form, once⟩, hfirst, hredrawn⟩ := bind_eq_ok.mp hredrawn
  obtain ⟨⟨form', twice⟩, hsecond, hredrawn⟩ := bind_eq_ok.mp hredrawn
  obtain ⟨again, hthird, hredrawn⟩ := bind_eq_ok.mp hredrawn
  obtain rfl := Except.ok.inj hredrawn
  obtain ⟨rfl, rfl, hrendered, honce, htwice, hagain, hstem, hgone, hlayout, hshown⟩ :=
    of_decide_eq_true hfacts
  have hshowing : again.showing 2 = [.displays 2 5] := by
    rw [showing, hrendered]
    rfl
  have hsketch : Step bare [.names 0 0 "x"] sketch :=
    .create rfl .plain "i" (.ofList [("id", .text "x")]) []
  have hpicture : Step (sketch.release (.node 0)) [.names 0 1 "x"] picture :=
    .create rfl .plain "b" (.ofList [("id", .text "x")]) []
  have hframed : Step picture [] framed := .create rfl .layout "Layout" ∅ [.node 1]
  have hmounted : Step framed [.displays 2 3] once := .mount ⟨by decide, by decide⟩ hfirst
  have hremounted : Step once [.displays 2 4] twice := .mount ⟨honce.1, honce.2⟩ hsecond
  have hrefreshed : Step twice [.displays 2 5] again :=
    hshowing ▸ .refresh ⟨htwice.1, htwice.2⟩ hthird
  have hcreated := (((Runs.of_step hsketch).step (.release sketch (.node 0))).step hpicture).step
    hframed
  refine ⟨again, ((hcreated.step hmounted).step hremounted).step hrefreshed, hstem,
    Option.isNone_iff_eq_none.mp hgone, ⟨hagain.1, hagain.2⟩, hrendered, ?_, fun n hn ↦ ?_⟩
  · obtain ⟨node, hnode, hpair⟩ := Option.map_eq_some_iff.mp hlayout
    exact ⟨node, hnode, Prod.mk.inj hpair⟩
  · obtain ⟨node, hnode, hpair⟩ := Option.map_eq_some_iff.mp (hshown n hn)
    exact ⟨node, hnode, Prod.mk.inj hpair⟩

end Remounting

/-! ### What holds after every run -/

section Runs

variable [Journal σ]

/-- Whatever was done since there were no nodes: as long as no explicit id that is shown looks like
a generated one, a node that was created without an id, or stands for one that was, shares its id
with no node of its registry but those that stand for the same node, because a node was displayed as
them. -/
theorem Runs.origin_eq_of_id_eq (hnodes : ∀ n, w₀.node? n = none)
    (hentries : ∀ r, (w₀.registry r).entries = []) (hrun : Runs w₀ deeds w)
    (hforms : w.AvoidsGenerated deeds) {n m : NodeId} {node other : Node}
    (hnode : w.node? n = some node) (hother : w.node? m = some other)
    (hregistry : other.registry = node.registry) (hunnamed : Unnamed deeds (origin deeds n))
    (hid : other.id = node.id) : origin deeds m = origin deeds n := by
  have h : Ledger deeds w := hrun.ledger (.nil hnodes hentries)
  exact h.origin_eq hforms hnode hother hregistry hunnamed hid

/-- The first form of the layout, which is kept, still stands for it. -/
theorem Runs.origin_eq_of_id_eq_remounting :
    ∃ w node other, Runs Remounting.bare Remounting.history w ∧ w.node? 2 = some node ∧
      w.node? 3 = some other ∧ other.id = node.id ∧
        origin Remounting.history 3 = origin Remounting.history 2 := by
  obtain ⟨w, hrun, hstem, -, -, -, -, hshown⟩ := Remounting.exists_runs
  obtain ⟨node, hnode, hid, hregistry⟩ := hshown 2 (by simp)
  obtain ⟨other, hother, hid', hregistry'⟩ := hshown 3 (by simp)
  have hunnamed : Unnamed Remounting.history (origin Remounting.history 2) := by
    rw [show origin Remounting.history 2 = 2 by decide]
    intro registry id hmem
    exact absurd (Remounting.names_mem_history.mp hmem).2.1 (by decide)
  refine ⟨w, node, other, hrun, hnode, hother, hid'.trans hid.symm, ?_⟩
  exact Runs.origin_eq_of_id_eq (fun _ ↦ rfl) Remounting.entries_bare hrun
    (Remounting.avoidsGenerated hstem) hnode hother (hregistry'.trans hregistry.symm) hunnamed
    (hid'.trans hid.symm)

/-- Two live nodes of a registry may show the same id although nothing was displayed, and one of
them was created without an id: the other one was created before with the id that is generated
next. -/
theorem exists_id_eq_of_create :
    ∃ (w : World (List Note)) (deeds : List Deed) (node other : Node),
      Runs Remounting.bare deeds w ∧ w.node? 0 = some other ∧ w.node? 1 = some node ∧
        other.registry = node.registry ∧ other.id = node.id ∧ Unnamed deeds 1 ∧
          ∀ source form, .displays source form ∉ deeds := by
  let named := (Remounting.bare.create 0 .plain "a" (.ofList [("id", .text "v-0")]) []).2
  let both := (named.create 0 .plain "b" ∅ []).2
  have hnamed : Step Remounting.bare [.names 0 0 "v-0"] named :=
    .create rfl .plain "a" (.ofList [("id", .text "v-0")]) []
  have hboth : Step named [] both := .create rfl .plain "b" ∅ []
  have hshown : ∀ n ∈ [0, 1],
      (both.node? n).map (fun node ↦ (node.id, node.registry)) = some ("v-0", 0) := by
    decide +kernel
  obtain ⟨other, hother, hfacts⟩ := Option.map_eq_some_iff.mp (hshown 0 (by simp))
  obtain ⟨node, hnode, hfacts'⟩ := Option.map_eq_some_iff.mp (hshown 1 (by simp))
  obtain ⟨hid, hregistry⟩ := Prod.mk.inj (hfacts.trans hfacts'.symm)
  exact ⟨both, _, node, other, (Runs.of_step hnamed).step hboth, hother, hnode, hregistry, hid,
    by simp [Unnamed], by simp⟩

/-- Whatever was done since there were no nodes: as long as the explicit ids that are shown are
pairwise distinct and none of them looks like a generated one,

- a mounted node of a kind of the library shares its id with what it was displayed as, which is the
  node itself if it is plain and otherwise a node that was registered later;
- mounting and refreshing a node changes the id of no node but the form;
- a lookup by its id finds each node that was not displayed as a form of another node;
- a mutation of an observable only goes on with such a run, provided that callbacks do. -/
theorem Runs.aliasing (hnodes : ∀ n, w₀.node? n = none)
    (hentries : ∀ r, (w₀.registry r).entries = []) (hrun : Runs w₀ deeds w)
    (hapart : w.NamesApart deeds) (hforms : w.AvoidsGenerated deeds) :
    (∀ n node, w.node? n = some node → node.kind.IsBuiltIn → node.isMounted = true →
      ∃ form, w.rendered? n = some form ∧ w.idOf form = w.idOf n ∧
        (form = n ↔ node.kind = .plain) ∧
          (form ≠ n → [n, form].Sublist (w.registry node.registry).entries)) ∧
      (∀ n, w.Handles n →
        (∀ host form w', w.mount n host = .ok (form, w') → KeepsIds (some form) w w') ∧
          ∀ w', w.refresh n = .ok w' → KeepsIds (w'.rendered? n) w w') ∧
        (∀ n node, w.node? n = some node → (∀ source, .displays source n ∈ deeds → source = n) →
          w.find? node.registry node.id = some n) ∧
          ∀ client : Client σ,
            (∀ call between w', client.call call between = .ok w' → between.Leads w') →
              ∀ observable mutation w', w.mutate client observable mutation = .ok w' →
                ∃ more, Runs w₀ (deeds ++ more) w' := by
  have h : Ledger deeds w := hrun.ledger (.nil hnodes hentries)
  refine ⟨fun n node hnode hkind hmounted ↦ ?_, fun n hhandles ↦ ?_,
    fun n node hnode hsource ↦ ?_, fun client hclient observable mutation w' hmutate ↦ ?_⟩
  · rw [← hkind.rendersAsItself_iff]
    exact h.exists_rendered? hnode hmounted
  · obtain ⟨node, hnode⟩ := exists_node? hhandles.live
    exact ⟨fun host form w' hmount ↦ (mount_ledger h hhandles.held hnode hmount).2,
      fun w' hrefresh ↦ (refresh_ledger h hhandles.held hnode hrefresh).2⟩
  · have horigin : origin deeds n = n := origin_eq_self_of_displays hsource
    refine h.find?_eq_some hnode fun m other hother hregistry hid ↦ ?_
    have hsame := h.origin_eq_of_namesApart hforms hapart hnode hother hregistry hid
    rw [horigin] at hsame
    exact hsame ▸ h.origin_le m other hother
  · obtain ⟨more, hmore⟩ := Leads.passage.mutate hclient hmutate
    exact ⟨more, hrun.trans hmore⟩

/-- The layout shares its id with three forms: the last is what it is displayed as and was
registered later, but a lookup finds the layout. The node inside shows the id of one that is
gone. -/
theorem Runs.aliasing_remounting :
    ∃ w node, Runs Remounting.bare Remounting.history w ∧ w.node? 2 = some node ∧
      (∀ form ∈ [3, 4, 5], w.idOf form = node.id) ∧ w.rendered? 2 = some 5 ∧
        [2, 5].Sublist (w.registry 0).entries ∧ w.find? 0 node.id = some 2 ∧
          (∀ w', w.refresh 2 = .ok w' → KeepsIds (w'.rendered? 2) w w') ∧
            ∀ value w', w.mutate (.answering Remounting.react 1) 0 (.set value) = .ok w' →
              ∃ more, Runs Remounting.bare (Remounting.history ++ more) w' := by
  obtain ⟨w, hrun, hstem, hgone, hhandles, hrendered, ⟨node, hnode, hkind, hmounted⟩, hshown⟩ :=
    Remounting.exists_runs
  obtain ⟨_, hnode', hid, hregistry⟩ := hshown 2 (by simp)
  obtain rfl := Option.some.inj (hnode.symm.trans hnode')
  obtain ⟨hdisplayed, hkeeps, hfind, hmutated⟩ := Runs.aliasing (fun _ ↦ rfl)
    Remounting.entries_bare hrun (Remounting.namesApart hgone) (Remounting.avoidsGenerated hstem)
  obtain ⟨form, hform, -, -, hlater⟩ := hdisplayed 2 node hnode (.inr (.inl hkind)) hmounted
  obtain rfl := Option.some.inj (hrendered.symm.trans hform)
  rw [hregistry] at hlater
  have hfound : w.find? node.registry node.id = some 2 :=
    hfind 2 node hnode fun source hmem ↦ by simp [Remounting.history] at hmem
  rw [hregistry] at hfound
  refine ⟨w, node, hrun, hnode, fun form hform ↦ ?_, hrendered, hlater (by decide), hfound,
    (hkeeps 2 hhandles).2,
    fun value ↦ hmutated _ (Leads.passage.answering Remounting.passes_react 1) 0 _⟩
  obtain ⟨shown, hshown, hid', -⟩ := hshown form (List.mem_cons_of_mem _ hform)
  rw [idOf_eq hshown, hid', hid]

end Runs

end LiveMarkup.World
