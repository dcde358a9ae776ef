import LiveMarkup.Proofs.Calls.Operating

/-!
How registries keep count. A registry drops entries that are gone only when a node is created in
it, while nodes die at any time. Its list is compared with all creations that there ever were
(`World.Census`): in every run of creations, in this registry and in others, and of anything that
creates no node (`World.CensusRun`), the live entries of the list are the live ones of the nodes
that were created in the registry, in the order of creation. All that the library can be asked to
do is such a run if what the client answers is (`World.liveNodes_eq_of_censusRun`).
-/

set_option autoImplicit false
set_option relaxedAutoImplicit false

namespace LiveMarkup

/-- A node that was created, and the registry that it was created in. -/
structure Birth where
  registry : RegistryId
  node : NodeId
  deriving DecidableEq

/-- The nodes that were created in a registry, in order. -/
def bornIn (r : RegistryId) (births : List Birth) : List NodeId :=
  (births.filter fun birth ↦ birth.registry == r).map Birth.node

theorem bornIn_append (r : RegistryId) (births more : List Birth) :
    bornIn r (births ++ more) = bornIn r births ++ bornIn r more := by
  rw [bornIn, List.filter_append, List.map_append, bornIn, bornIn]

theorem bornIn_singleton (r : RegistryId) (birth : Birth) :
    bornIn r [birth] = if birth.registry = r then [birth.node] else [] := by
  by_cases h : birth.registry = r <;> simp [bornIn, h]

namespace Table

variable {α : Type} (t : Table α) (a : α)

theorem contains_push_next : (t.push a).contains t.next = true := by
  rw [contains_iff, ids_push]
  exact List.mem_append_right _ List.mem_cons_self

/-- Rows that were numbered before are there as before when a row is added. -/
theorem filter_contains_push {list : List Nat} (h : ∀ i ∈ list, i < t.next) :
    list.filter (t.push a).contains = list.filter t.contains := by
  refine List.filter_congr fun i hi ↦ ?_
  rw [Bool.eq_iff_iff, contains_iff, contains_iff, ids_push, List.mem_append, List.mem_singleton,
    or_iff_left (Nat.ne_of_lt (h i hi))]

end Table

namespace World

variable {σ : Type} {w w' w'' : World σ} {births more : List Birth} {r : RegistryId}

/-! ### Runs -/

/-- A single thing that happens to nodes, and the creations that it is. -/
inductive CensusStep : World σ → List Birth → World σ → Prop where
  /-- A node is created, and listed in its registry; what its component does then comes later. -/
  | added (w : World σ) (node : Node) (named : Bool) :
      CensusStep w [⟨node.registry, w.nodes.next⟩] (w.added node named)
  /-- Anything that creates no node: nodes change and die, ids are generated, registries are new. -/
  | aside {w w' : World σ} (hnext : w'.nodes.next = w.nodes.next)
      (hlive : ∀ n, w'.nodes.contains n = true → w.nodes.contains n = true)
      (hregistries : w.ListsAlike w') : CensusStep w [] w'

/-- One step after the other, and the creations that they are. -/
inductive CensusRun : World σ → List Birth → World σ → Prop where
  | refl (w : World σ) : CensusRun w [] w
  | step {w between w' : World σ} {births more : List Birth} (hrun : CensusRun w births between)
      (hstep : CensusStep between more w') : CensusRun w (births ++ more) w'

namespace CensusRun

theorem of_step (hstep : CensusStep w more w') : CensusRun w more w' := by
  have hrun := (CensusRun.refl w).step hstep
  rwa [List.nil_append] at hrun

theorem trans (h : CensusRun w births w') (h' : CensusRun w' more w'') :
    CensusRun w (births ++ more) w'' := by
  induction h' with
  | refl => rwa [List.append_nil]
  | step _ hstep ih =>
    rw [← List.append_assoc]
    exact ih.step hstep

end CensusRun

/-- There is a run from one world to another. -/
def Counts (w w' : World σ) : Prop := ∃ births, CensusRun w births w'

theorem Counts.of_step (hstep : CensusStep w more w') : w.Counts w' := ⟨more, .of_step hstep⟩

/-- Whatever the library does to nodes, it is a run. -/
theorem Counts.conduct : Conduct (Counts (σ := σ)) where
  refl w := ⟨[], .refl w⟩
  trans := by
    rintro w w' w'' ⟨births, hrun⟩ ⟨more, hrun'⟩
    exact ⟨births ++ more, hrun.trans hrun'⟩
  added w node named := .of_step (.added w node named)
  modifyNode w id f := by
    refine .of_step (.aside rfl (fun n hn ↦ ?_) (listsAlike_of_eq rfl))
    rwa [modifyNode, Table.contains_modify] at hn
  sweep w := by
    refine .of_step (.aside (next_sweep w) (fun n hn ↦ ?_) (listsAlike_of_eq rfl))
    obtain ⟨node, hnode⟩ := exists_node? hn
    exact contains_of_node? (node?_of_sweep hnode)
  outside hnodes _ hregistries := by
    refine .of_step (.aside (by rw [hnodes]) (fun n hn ↦ ?_) hregistries)
    rwa [hnodes] at hn

/-! ### The list and the creations -/

/-- The list of a registry agrees with the creations in it: it has all nodes that are alive, in the
order of creation. -/
structure Census (r : RegistryId) (births : List Birth) (w : World σ) : Prop where
  contains : w.registries.contains r = true
  entries : (w.registry r).entries.Sublist (bornIn r births)
  live : w.liveNodes r = (bornIn r births).filter w.nodes.contains
  created : (w.registry r).created = (bornIn r births).length
  increasing : (bornIn r births).Pairwise (· < ·)
  below : ∀ n ∈ bornIn r births, n < w.nodes.next

namespace Census

theorem nodup (h : Census r births w) : (bornIn r births).Nodup :=
  h.increasing.imp Nat.ne_of_lt

theorem entries_below (h : Census r births w) :
    ∀ n ∈ (w.registry r).entries, n < w.nodes.next :=
  fun n hn ↦ h.below n (h.entries.subset hn)

/-- A registry that is new lists nothing. -/
theorem start (w : World σ) (config : Config) :
    Census w.registries.next [] (w.addRegistry config) := by
  have hnew : (w.addRegistry config).registry w.registries.next = { config := config } := by
    rw [World.registry, addRegistry, Table.get?_push, if_pos rfl, Option.getD_some]
  refine ⟨?_, ?_, ?_, ?_, List.Pairwise.nil, fun n hn ↦ absurd hn List.not_mem_nil⟩
  · exact w.registries.contains_push_next _
  · rw [hnew]
    exact List.Sublist.refl _
  · rw [liveNodes, hnew]
    rfl
  · rw [hnew]
    rfl

/-- The list of a registry right after a node was created in it. -/
theorem entries_added (h : Census r births w) {node : Node} (hnode : node.registry = r)
    (named : Bool) :
    ((w.added node named).registry r).entries = w.liveNodes r ++ [w.nodes.next] := by
  have halive : (w.nodes.push node).idSet.contains = (w.nodes.push node).contains :=
    funext (w.nodes.push node).contains_idSet
  rw [registry_added, if_pos ⟨hnode, h.contains⟩, liveNodes,
    ← w.nodes.filter_contains_push node h.entries_below, ← halive]
  cases named <;> rfl

/-- All of that list is alive. -/
theorem liveNodes_added (h : Census r births w) {node : Node} (hnode : node.registry = r)
    (named : Bool) : (w.added node named).liveNodes r = w.liveNodes r ++ [w.nodes.next] := by
  have hbelow : ∀ n ∈ w.liveNodes r, n < w.nodes.next :=
    fun n hn ↦ h.entries_below n (List.mem_filter.mp hn).1
  rw [liveNodes, h.entries_added hnode, nodes_added, List.filter_append,
    w.nodes.filter_contains_push node hbelow, List.filter_singleton, w.nodes.contains_push_next,
    cond_true, liveNodes, List.filter_filter]
  simp only [Bool.and_self]

/-- The node is counted where it was created. -/
theorem added_self (h : Census r births w) {node : Node} (hnode : node.registry = r)
    (named : Bool) : Census r (births ++ [⟨node.registry, w.nodes.next⟩]) (w.added node named) := by
  have hborn : bornIn r (births ++ [⟨node.registry, w.nodes.next⟩]) =
      bornIn r births ++ [w.nodes.next] := by
    rw [bornIn_append, bornIn_singleton, if_pos hnode]
  have hcreated : ((w.added node named).registry r).created = (w.registry r).created + 1 := by
    rw [registry_added, if_pos ⟨hnode, h.contains⟩]
    cases named <;> rfl
  refine ⟨(contains_added ..).trans h.contains, ?_, ?_, ?_, ?_, ?_⟩
  · rw [h.entries_added hnode, hborn]
    exact (List.filter_sublist.trans h.entries).append (List.Sublist.refl _)
  · rw [h.liveNodes_added hnode, hborn, nodes_added, List.filter_append,
      w.nodes.filter_contains_push node h.below, ← h.live, List.filter_singleton,
      w.nodes.contains_push_next, cond_true]
  · rw [hcreated, hborn, h.created, List.length_append, List.length_singleton]
  · rw [hborn, List.pairwise_append]
    refine ⟨h.increasing, List.pairwise_singleton _ _, fun n hn last hlast ↦ ?_⟩
    rw [List.mem_singleton.mp hlast]
    exact h.below n hn
  · intro n hn
    rw [hborn, List.mem_append, List.mem_singleton] at hn
    rcases hn with hold | rfl
    · exact Nat.lt_succ_of_lt (h.below n hold)
    · exact Nat.lt_succ_self _

/-- A registry is as it was when a node is created in another one. -/
theorem registry_added_of_ne {node : Node} (hnode : node.registry ≠ r) (named : Bool) :
    (w.added node named).registry r = w.registry r := by
  rw [registry_added, if_neg fun h ↦ hnode h.1]

theorem liveNodes_added_of_ne (h : Census r births w) {node : Node} (hnode : node.registry ≠ r)
    (named : Bool) : (w.added node named).liveNodes r = w.liveNodes r := by
  rw [liveNodes, registry_added_of_ne hnode, nodes_added,
    w.nodes.filter_contains_push node h.entries_below, liveNodes]

theorem added_other (h : Census r births w) {node : Node} (hnode : node.registry ≠ r)
    (named : Bool) : Census r (births ++ [⟨node.registry, w.nodes.next⟩]) (w.added node named) := by
  have hborn : bornIn r (births ++ [⟨node.registry, w.nodes.next⟩]) = bornIn r births := by
    rw [bornIn_append, bornIn_singleton, if_neg hnode, List.append_nil]
  refine ⟨(contains_added ..).trans h.contains, ?_, ?_, ?_, ?_, ?_⟩
  · rw [registry_added_of_ne hnode, hborn]
    exact h.entries
  · rw [h.liveNodes_added_of_ne hnode, hborn, nodes_added,
      w.nodes.filter_contains_push node h.below, h.live]
  · rw [registry_added_of_ne hnode, hborn, h.created]
  · rw [hborn]
    exact h.increasing
  · intro n hn
    exact Nat.lt_succ_of_lt (h.below n (hborn ▸ hn))

/-- Nodes may die: their entries stay in the list, and count no longer. -/
theorem aside (h : Census r births w) (hnext : w'.nodes.next = w.nodes.next)
    (hlive : ∀ n, w'.nodes.contains n = true → w.nodes.contains n = true)
    (hregistries : w.ListsAlike w') : Census r births w' := by
  obtain ⟨hcontains, hentries, hcreated⟩ := hregistries r h.contains
  have hfilter (list : List NodeId) :
      list.filter w'.nodes.contains = (list.filter w.nodes.contains).filter w'.nodes.contains := by
    rw [List.filter_filter]
    refine List.filter_congr fun n _ ↦ ?_
    cases hn : w'.nodes.contains n with
    | false => rfl
    | true => rw [hlive n hn, Bool.and_true]
  refine ⟨hcontains, hentries ▸ h.entries, ?_, hcreated.trans h.created, h.increasing,
    fun n hn ↦ hnext ▸ h.below n hn⟩
  rw [liveNodes, hentries, hfilter, hfilter (bornIn r births), ← h.live]
  rfl

theorem step (h : Census r births w) (hstep : CensusStep w more w') :
    Census r (births ++ more) w' := by
  cases hstep with
  | added node named =>
    by_cases hnode : node.registry = r
    · exact h.added_self hnode named
    · exact h.added_other hnode named
  | aside hnext hlive hregistries =>
    rw [List.append_nil]
    exact h.aside hnext hlive hregistries

/-- In a run the list goes on to agree with the creations. -/
theorem run (h : Census r births w) (hrun : CensusRun w more w') :
    Census r (births ++ more) w' := by
  induction hrun with
  | refl => rwa [List.append_nil]
  | step _ hstep ih =>
    rw [← List.append_assoc]
    exact ih.step hstep

end Census

/-! ### Creations -/

/-- A registry lists the nodes that were alive and one more, and all of them are alive. -/
def JustListed (w w' : World σ) (r : RegistryId) (n : NodeId) : Prop :=
  (w'.registry r).entries = w.liveNodes r ++ [n] ∧
    ∀ entry ∈ (w'.registry r).entries, w'.nodes.contains entry = true

theorem Census.justListed (h : Census r births w) {node : Node} (hnode : node.registry = r)
    (named : Bool) : w.JustListed (w.added node named) r w.nodes.next := by
  refine ⟨h.entries_added hnode named, fun n hn ↦ ?_⟩
  rw [h.entries_added hnode, ← h.liveNodes_added hnode named] at hn
  exact (List.mem_filter.mp hn).2

variable [Journal σ]

/-- What a component does with a node that was just created is no matter for registries. -/
theorem afterCreation_alike (w : World σ) (id : NodeId) :
    (w.afterCreation id).registries = w.registries ∧
      (w.afterCreation id).nodes.contains = w.nodes.contains := by
  have hmodified (f : Node → Node) : (w.modifyNode id f).nodes.contains = w.nodes.contains :=
    funext fun n ↦ Table.contains_modify ..
  unfold World.afterCreation
  split
  · split
    · exact ⟨rfl, hmodified _⟩
    · exact ⟨rfl, hmodified _⟩
    · exact ⟨rfl, rfl⟩
    · exact ⟨rfl, rfl⟩
  · exact ⟨rfl, rfl⟩

/-- A creation is an addition, as far as registries are concerned. -/
theorem exists_added_alike (w : World σ) (registry : RegistryId) (kind : Kind) (tag : String)
    (attributes : Attributes) (content : List Child) :
    ∃ (node : Node) (named : Bool), node.registry = registry ∧
      (w.create registry kind tag attributes content).1 = w.nodes.next ∧
      (∀ r, (w.create registry kind tag attributes content).2.registry r =
        (w.added node named).registry r) ∧
      (w.create registry kind tag attributes content).2.nodes.contains =
        (w.added node named).nodes.contains := by
  obtain ⟨node, -, hregistry, -, -, -, -, -, hcreate⟩ :=
    w.exists_create registry kind tag attributes content
  refine ⟨node, attributes.contains "id", hregistry, by rw [hcreate], fun r ↦ ?_, ?_⟩
  · rw [hcreate, World.registry, (afterCreation_alike _ _).1]
    rfl
  · rw [hcreate, (afterCreation_alike _ _).2]

/-- In every run from the moment when a registry is new, its live nodes are those of the nodes
created in it that are alive, each once and in the order of creation; it counts the creations; right
after a creation it lists no node that is gone, and the new one last, before its component acts and
after; a creation in another registry is no matter for it. Every operation of the library continues
the run, if the answers of the client are runs. -/
theorem liveNodes_eq_of_censusRun {w₀ : World σ} {config : Config}
    (hrun : CensusRun (w₀.addRegistry config) births w) :
    let r := w₀.registries.next
    (w.liveNodes r = (bornIn r births).filter w.nodes.contains ∧ (bornIn r births).Nodup ∧
        w.population r = (w.liveNodes r).length ∧
        (w.registry r).created = (bornIn r births).length) ∧
      (∀ (node : Node) (named : Bool), node.registry = r →
        w.JustListed (w.added node named) r w.nodes.next) ∧
      (∀ kind tag attributes content,
        w.JustListed (w.create r kind tag attributes content).2 r
          (w.create r kind tag attributes content).1) ∧
      (∀ other, other ≠ r → ∀ kind tag attributes content,
        (w.create other kind tag attributes content).2.registry r = w.registry r ∧
          (w.create other kind tag attributes content).2.liveNodes r = w.liveNodes r) ∧
      ∀ client : Client σ, (∀ call w w', client.call call w = .ok w' → w.Counts w') →
        (∀ renderer registry w content? w',
          client.page renderer registry w = .ok (content?, w') → w.Counts w') →
        ∀ w', Operates client w w' →
          ∃ more, CensusRun (w₀.addRegistry config) (births ++ more) w' := by
  intro r
  have h : Census r births w := (Census.start w₀ config).run hrun
  refine ⟨⟨h.live, h.nodup, w.population_eq r, h.created⟩,
    fun node named hnode ↦ h.justListed hnode named, ?_, ?_, ?_⟩
  · intro kind tag attributes content
    obtain ⟨node, named, hnode, hid, hregistry, hcontains⟩ :=
      w.exists_added_alike r kind tag attributes content
    rw [JustListed, hid, hregistry, hcontains]
    exact h.justListed hnode named
  · intro other hother kind tag attributes content
    obtain ⟨node, named, rfl, -, hregistry, hcontains⟩ :=
      w.exists_added_alike other kind tag attributes content
    rw [liveNodes, hregistry, hcontains]
    exact ⟨Census.registry_added_of_ne hother named, h.liveNodes_added_of_ne hother named⟩
  · intro client hcall hpage w' hoperates
    obtain ⟨more, hmore⟩ := Counts.conduct.operates hcall hpage hoperates
    exact ⟨more, hrun.trans hmore⟩

/-! ### A run with nested creations -/

/-- A client whose callbacks create nodes in the second registry. -/
def breeder : Client (List Note) where
  call _ w := .ok (w.createPlain 1 "li" ∅ []).2
  page _ registry w :=
    .ok (some (w.createPlain registry "p" ∅ []).1, (w.createPlain registry "p" ∅ []).2)

/-- A world with a registry and an observable that a callback listens to. -/
def nursery : World (List Note) :=
  (({ client := [] } : World (List Note)).addRegistry {}).addObservable
    { value := .number 0, emitter := ({} : Emitter Handler).register "mutate" 7 }

/-- In a second registry a layout is created around another one, with a node of the first registry
in between. -/
def housed : World (List Note) :=
  let w := ((nursery.addRegistry {}).create 1 .layout "Layout" ∅ [.text "a"]).2
  let w := (w.createPlain 0 "b" ∅ []).2
  (w.create 1 .layout "Layout" ∅ [.node 0]).2

/-- The outer layout was rendered, and its form was given up. -/
def thinned : Except Fault (World (List Note)) := do
  let (form, w) ← housed.render 2
  return w.release (.node form)

theorem liveNodes_eq_of_censusRun_thinned : ∃ (births : List Birth) (w w' : World (List Note)),
    thinned = .ok w ∧ CensusRun (nursery.addRegistry {}) births w ∧
      (bornIn 1 births).length = 4 ∧ (bornIn 1 births).filter w.nodes.contains = [0, 2] ∧
      ((w.createPlain 1 "i" ∅ []).2.registry 1).entries = [0, 2, 5] ∧
      (w.createPlain 0 "i" ∅ []).2.liveNodes 1 = [0, 2] ∧
      w.mutate breeder 0 (.set (.number 1)) = .ok w' ∧
      ∃ more, CensusRun (nursery.addRegistry {}) (births ++ more) w' := by
  have hfacts : (thinned.toOption.map fun w ↦ (w.liveNodes 1, (w.registry 1).created,
      w.nodes.next, (w.mutate breeder 0 (.set (.number 1))).isOk)) =
        some ([0, 2], 4, 5, true) := by
    decide +kernel
  cases hthinned : thinned with
  | error fault =>
    rw [hthinned] at hfacts
    cases hfacts
  | ok w =>
    rw [hthinned] at hfacts
    simp only [Except.toOption, Option.map_some, Option.some_inj, Prod.mk.injEq] at hfacts
    obtain ⟨hlive, hcreated, hnext, hmutated⟩ := hfacts
    have conduct : Conduct (Counts (σ := List Note)) := Counts.conduct
    have hhoused : (nursery.addRegistry {}).Counts housed :=
      conduct.trans (conduct.trans (conduct.reporting.create ..) (conduct.reporting.create ..))
        (conduct.reporting.create ..)
    obtain ⟨births, hrun⟩ : (nursery.addRegistry {}).Counts w := by
      obtain ⟨⟨form, rendered⟩, hrender, hreleased⟩ := bind_eq_ok.mp hthinned
      obtain rfl : rendered.release (.node form) = w := Except.ok.inj hreleased
      exact conduct.trans (conduct.trans hhoused (conduct.reporting.render hrender))
        (conduct.routine.release ..)
    obtain ⟨⟨hborn, -, -, hcount⟩, -, hlisted, helsewhere, hoperates⟩ :=
      liveNodes_eq_of_censusRun hrun
    cases hmutate : w.mutate breeder 0 (.set (.number 1)) with
    | error fault =>
      rw [hmutate] at hmutated
      cases hmutated
    | ok w' =>
      refine ⟨births, w, w', rfl, hrun, hcount.symm.trans hcreated, hborn.symm.trans hlive, ?_, ?_,
        hmutate, ?_⟩
      · refine (hlisted .plain "i" ∅ []).1.trans ?_
        show w.liveNodes 1 ++ [w.nodes.next] = [0, 2, 5]
        rw [hlive, hnext]
        rfl
      · exact (helsewhere 0 (by decide) .plain "i" ∅ []).2.trans hlive
      · refine hoperates breeder (fun call w w' hcall ↦ ?_)
          (fun renderer registry w content? w' hpage ↦ ?_) w' (.mutate hmutate)
        · obtain rfl := Except.ok.inj hcall
          exact conduct.reporting.create ..
        · obtain ⟨-, rfl⟩ := Prod.mk.inj (Except.ok.inj hpage)
          exact conduct.reporting.create ..

end World

end LiveMarkup
