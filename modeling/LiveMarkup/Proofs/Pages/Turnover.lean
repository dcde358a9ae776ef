import LiveMarkup.Proofs.Pages.Exchange
import LiveMarkup.Proofs.Pages.Following

/-!
Pages that are built again and again. The root of a page follows an observable, so that the page is
refreshed when the observable is mutated; a refresh of the page builds it anew. However refreshes
and mutations follow one another, nothing accumulates (`Scene.exists_turnover`): the observable has
the followers of one page and no long list of dead ones, registries have as many live nodes as after
the first rendering, and of earlier pages nothing is left. What one step keeps is `Scene.AtRest`
(`Scene.AtRest.exists_step`).
-/

set_option autoImplicit false
set_option relaxedAutoImplicit false

namespace LiveMarkup

namespace World

variable {σ : Type} {base w : World σ} {id : AppId} {page : Exhibit}

/-! ### Population -/

/-- The nodes of a registry are those that were there before; the nodes of the page and its forms
are in that of the application. -/
theorem Bears.registry_iff (h : Bears base id page [] w) {registry : RegistryId} {n : Nat} :
    (∃ node, w.node? n = some node ∧ node.registry = registry) ↔
      (∃ node, base.node? n = some node ∧ node.registry = registry) ∨
        registry = page.app.registry ∧ (n ∈ page.ids ∨ page.first ≤ n ∧ n < w.nodes.next) := by
  constructor
  · rintro ⟨node, hnode, rfl⟩
    rcases h.only n node hnode with ⟨old, hold⟩ | hn | hlow
    · obtain ⟨same, hsame, hmatches, -⟩ := h.before n old hold
      obtain rfl := Option.some.inj (hnode.symm.trans hsame)
      exact .inl ⟨old, hold, hmatches.registry.symm⟩
    · exact .inr ⟨(h.nodes n hn node hnode).1, .inl hn⟩
    · have hhigh := lt_next_of_node? hnode
      obtain ⟨form, hform, hisForm⟩ := h.forms n hlow hhigh
      obtain rfl := Option.some.inj (hnode.symm.trans hform)
      exact .inr ⟨hisForm.registry, .inr ⟨hlow, hhigh⟩⟩
  · rintro (⟨old, hold, rfl⟩ | ⟨rfl, hn | ⟨hlow, hhigh⟩⟩)
    · obtain ⟨node, hnode, hmatches, -⟩ := h.before n old hold
      exact ⟨node, hnode, hmatches.registry⟩
    · obtain ⟨node, hnode⟩ := h.live (.inr hn)
      exact ⟨node, hnode, (h.nodes n hn node hnode).1⟩
    · obtain ⟨form, hform, hisForm⟩ := h.forms n hlow hhigh
      exact ⟨form, hform, hisForm.registry⟩

/-- While a page is shown, its registry has its nodes and its forms besides what there was
before. -/
theorem Bears.population_eq (h : Bears base id page [] w) (hvacant : base.Vacant id)
    (registry : RegistryId) :
    w.population registry = base.population registry +
      if registry = page.app.registry then page.shape.ids.length + page.shape.forms else 0 := by
  obtain ⟨outline, -, hids, hshape⟩ := h.unfolds
  have hlength : page.shape.ids.length = page.ids.length := by
    rw [← hshape, Outline.length_ids_shape, hids]
  let forms := List.range' page.first page.shape.forms
  let new := if registry = page.app.registry then page.ids ++ forms else []
  have hforms (n : Nat) : n ∈ forms ↔ page.first ≤ n ∧ n < w.nodes.next := by
    rw [List.mem_range'_1, h.next]
  have hnew (n : Nat) : n ∈ new ↔
      registry = page.app.registry ∧ (n ∈ page.ids ∨ page.first ≤ n ∧ n < w.nodes.next) := by
    by_cases hsame : registry = page.app.registry
    · simp only [new, if_pos hsame, List.mem_append, hforms, hsame, true_and]
    · simp only [new, if_neg hsame, List.not_mem_nil, hsame, false_and]
  have hnodup : (base.liveNodes registry ++ new).Nodup := by
    refine List.nodup_append'.mpr ⟨hvacant.sound.listing.nodup_liveNodes _, ?_, ?_⟩
    · by_cases hsame : registry = page.app.registry
      · simp only [new, if_pos hsame]
        refine List.nodup_append'.mpr ⟨h.nodup, List.nodup_range', fun n hn hform ↦ ?_⟩
        exact absurd ((hforms n).mp hform).1 (Nat.not_le.mpr (h.lt_first n hn))
      · simp only [new, if_neg hsame, List.nodup_nil]
    · intro n hold hn
      obtain ⟨old, hold, -⟩ := hvacant.sound.listing.mem_liveNodes_iff.mp hold
      have hlt := lt_next_of_node? hold
      have hroot := h.ids page.root List.mem_cons_self
      have hfirst := h.lt_first page.root List.mem_cons_self
      rcases ((hnew n).mp hn).2 with hids | ⟨hlow, -⟩
      · exact absurd hlt (Nat.not_lt.mpr (h.ids n hids))
      · omega
  have hperm : (w.liveNodes registry).Perm (base.liveNodes registry ++ new) := by
    refine (List.perm_ext_iff_of_nodup (h.listing.nodup_liveNodes _) hnodup).mpr fun n ↦ ?_
    rw [List.mem_append, h.listing.mem_liveNodes_iff, hvacant.sound.listing.mem_liveNodes_iff, hnew]
    exact h.registry_iff
  rw [World.population_eq, hperm.length_eq, List.length_append, World.population_eq, hlength]
  refine congrArg _ ?_
  show (if _ then _ else _ : List Nat).length = _
  split
  · rw [List.length_append, List.length_range']
  · rfl

end World

/-! ### Pages that follow an observable -/

/-- A page of an application, the shape that its content is built in, and an observable that the
root of the content is subscribed to a number of times, beside others. -/
structure Scene where
  id : AppId
  app : App
  name : String
  page : Page
  shape : Outline
  observable : ObservableId
  others : List Target
  times : Nat

/-- What is done while the page is shown. -/
inductive Upkeep where
  | refresh
  | mutate (mutation : Mutation)

namespace Scene

variable {σ : Type} {scene : Scene} {client : Client σ} {base w w' built : World σ} {root : NodeId}
  {outline : Outline} {oldest oldest' : Nat}

/-- How long the list of the observable may be: as long as it is with the entries of two pages. -/
def bound (scene : Scene) : Nat := 2 * scene.times + scene.others.length

/-- Whenever it is called, the renderer of the page builds a fresh tree of the shape and subscribes
its root, to this observable so many times. -/
def Rebuilds (scene : Scene) (client : Client σ) : Prop :=
  ∀ w : World σ, w.Sound → w.registries.contains scene.app.registry = true →
    ∃ root outline built,
      client.page scene.page.renderer scene.app.registry w = .ok (some root, built) ∧
        w.Builds scene.app.registry root outline built ∧ outline.shape = scene.shape ∧
        built.observables.get? scene.observable =
          (w.observables.get? scene.observable).map
            (Observable.subscribe built.isAlive (.node root))^[scene.times]

/-- A world in which the application has a surface and the page, and shows nothing yet; so far only
the others follow the observable. -/
structure Ready (scene : Scene) (client : Client σ) (base : World σ) : Prop where
  vacant : base.Vacant scene.id
  app : base.apps.get? scene.id = some scene.app
  page : scene.app.pages.get? scene.name = some scene.page
  surface : ∃ surface, base.hosts.get? scene.app.host = some (.surface surface)
  registry : base.registries.contains scene.app.registry = true
  rebuilds : scene.Rebuilds client
  followed : ∃ observable,
    World.Followed client scene.observable scene.others scene.bound base observable
  idle : ∀ target ∈ scene.others, World.Idle client base target

/-- The page is shown, the nodes of its content are not older than some number, and its root and the
others follow the observable. -/
def AtRest (scene : Scene) (client : Client σ) (base : World σ) (oldest : Nat)
    (w : World σ) : Prop :=
  ∃ page : Exhibit, page.shape = scene.shape ∧ (∀ n : Nat, n ∈ page.ids → oldest ≤ n) ∧
    (∃ signal, page.app = { scene.app with
      mounted? := some page.root, current? := some scene.name, signal := signal }) ∧
    World.Bears base scene.id page [] w ∧
    ∃ observable, World.Followed client scene.observable
      (World.followers scene.others scene.times page.root) scene.bound w observable

theorem AtRest.mono (h : scene.AtRest client base oldest w) (hle : oldest' ≤ oldest) :
    scene.AtRest client base oldest' w := by
  obtain ⟨page, hshape, holdest, hrest⟩ := h
  exact ⟨page, hshape, fun n hn ↦ Nat.le_trans hle (holdest n hn), hrest⟩

/-- When a tree that was built is shown in place of an earlier one, its root follows the observable
in place of that. -/
theorem atRest_of_shown (hready : scene.Ready client base) {signal : PageSignal} {surface : Surface}
    (hshape : outline.shape = scene.shape)
    (hbuilds : w.Builds scene.app.registry root outline built)
    (hshown : World.Shown base scene.id
      { scene.app with mounted? := some root, current? := some scene.name, signal := signal } root
      outline surface built w')
    {earlier : List Target} {observable : Observable}
    (hfollowed : World.Followed client scene.observable (scene.others ++ earlier) scene.bound w
      observable)
    (hget : built.observables.get? scene.observable = (w.observables.get? scene.observable).map
      (Observable.subscribe built.isAlive (.node root))^[scene.times])
    (hlength : earlier.length ≤ scene.times)
    (hearlier :
      ∀ target ∈ earlier, ∃ n, target = .node n ∧ n < w.nodes.next ∧ base.node? n = none) :
    scene.AtRest client base w.nodes.next w' := by
  obtain ⟨form, first, hfirst, hbears⟩ := hshown.bears
  let page : Exhibit :=
    ⟨{ scene.app with mounted? := some root, current? := some scene.name, signal := signal }, root,
      outline.inner, outline.shape, form, first⟩
  have hnew (n : Nat) (hn : n ∈ page.ids) : w.Fresh built n :=
    ((hbuilds.ids n).mp (hbuilds.unfolds.ids_eq ▸ hn)).1
  refine ⟨page, hshape, fun n hn ↦ (hnew n hn).1, ⟨signal, rfl⟩, hbears, _,
    hfollowed.subscribe hbuilds.ages hshown.ages hshown.observables ?_ ?_ ?_ hbears.isAlive_root
      (hnew root List.mem_cons_self).2 ?_⟩
  · rw [hget, hfollowed.get, Option.map_some]
  · exact fun target htarget ↦ (hready.idle target htarget).isAlive hbears
  · intro target htarget
    obtain ⟨n, rfl, hold, hbase⟩ := hearlier target htarget
    cases halive : w'.isAlive (.node n) with
    | false => rfl
    | true =>
      obtain ⟨node, hnode⟩ :=
        Option.isSome_iff_exists.mp ((w'.nodes.isSome_get? n).trans halive)
      rcases hbears.only n node hnode with ⟨old, hold⟩ | hn | hlater
      · rw [hbase] at hold
        cases hold
      · exact absurd hold (Nat.not_lt.mpr (hnew n hn).1)
      · have hnext := hbuilds.ages.nodes.next
        exact absurd hold (Nat.not_lt.mpr (Nat.le_trans hnext (Nat.le_trans hfirst hlater)))
  · unfold bound
    omega

/-- Whatever was alive before the last refresh and still is was there before any page. -/
theorem AtRest.exists_of_older (h : scene.AtRest client base oldest w) {n : Nat} (hn : n < oldest)
    {node : Node} (hnode : w.node? n = some node) : ∃ old, base.node? n = some old := by
  obtain ⟨page, -, holdest, -, hbears, -⟩ := h
  rcases hbears.only n node hnode with hold | hids | hform
  · exact hold
  · exact absurd hn (Nat.not_lt.mpr (holdest n hids))
  · have hroot := holdest page.root List.mem_cons_self
    have hfirst := hbears.lt_first page.root List.mem_cons_self
    omega

theorem AtRest.population_eq (h : scene.AtRest client base oldest w)
    (hready : scene.Ready client base) (registry : RegistryId) :
    w.population registry = base.population registry +
      if registry = scene.app.registry then scene.shape.ids.length + scene.shape.forms else 0 := by
  obtain ⟨page, hshape, -, ⟨signal, happ⟩, hbears, -⟩ := h
  rw [hbears.population_eq hready.vacant, happ, hshape]

variable [Journal σ]

/-- The first rendering shows the page. -/
theorem Ready.exists_renderPage (h : scene.Ready client base) :
    ∃ w', base.renderPage client scene.id scene.name = .ok (true, w') ∧
      scene.AtRest client base base.nodes.next w' := by
  obtain ⟨surface, hsurface⟩ := h.surface
  obtain ⟨root, outline, built, hcall, hbuilds, hshape, hget⟩ :=
    h.rebuilds base h.vacant.sound h.registry
  obtain ⟨signal, w', hrender, hshown⟩ :=
    (h.vacant.clears h.app).exists_renderPage h.vacant h.page hcall hbuilds hsurface
  obtain ⟨observable, hfollowed⟩ := h.followed
  rw [← List.append_nil scene.others] at hfollowed
  exact ⟨w', hrender, atRest_of_shown h hshape hbuilds hshown hfollowed hget (Nat.zero_le _)
    fun _ htarget ↦ absurd htarget List.not_mem_nil⟩

/-- A refresh shows the page with content that is younger than all nodes before. -/
theorem AtRest.exists_refresh (h : scene.AtRest client base oldest w)
    (hready : scene.Ready client base) :
    oldest ≤ w.nodes.next ∧ ∃ w', w.refreshPage client scene.id = .ok (true, w') ∧
      scene.AtRest client base w.nodes.next w' := by
  obtain ⟨page, -, holdest, ⟨signal, happ⟩, hbears, observable, hfollowed⟩ := h
  obtain ⟨root, outline, built, hcall, hbuilds, hshape, hget⟩ :=
    hready.rebuilds w (hbears.sound hready.vacant) ((hbears.contains _).trans hready.registry)
  have hclears := hbears.clears hready.vacant
  obtain ⟨surface, hsurface⟩ := hbears.surface
  rw [happ] at hclears hsurface
  obtain ⟨w', hrefresh, hshown⟩ := hclears.exists_refreshPage hready.vacant rfl hready.page hcall
    hbuilds hsurface
  obtain ⟨node, hnode, -⟩ := hbears.mounted
  have hroot := World.lt_next_of_node? hnode
  refine ⟨Nat.le_trans (holdest _ List.mem_cons_self) (Nat.le_of_lt hroot), w', hrefresh,
    atRest_of_shown hready hshape hbuilds hshown hfollowed hget ?_ fun target htarget ↦ ?_⟩
  · exact Nat.le_of_eq List.length_replicate
  · refine ⟨page.root, List.eq_of_mem_replicate htarget, hroot, ?_⟩
    cases hbase : base.node? page.root with
    | none => rfl
    | some old => exact absurd rfl (hbears.ne_root hbase)

/-- A refresh of the page, or a mutation of the observable. -/
def perform (scene : Scene) (client : Client σ) (w : World σ) : Upkeep → Except Fault (World σ)
  | .refresh => do return (← w.refreshPage client scene.id).2
  | .mutate mutation => w.mutate client scene.observable mutation

theorem AtRest.exists_step (h : scene.AtRest client base oldest w)
    (hready : scene.Ready client base) (step : Upkeep) :
    ∃ w', scene.perform client w step = .ok w' ∧ scene.AtRest client base oldest w' := by
  cases step with
  | refresh =>
    obtain ⟨hle, w', hrefresh, hrest⟩ := h.exists_refresh hready
    refine ⟨w', ?_, hrest.mono hle⟩
    rw [perform, hrefresh]
    rfl
  | mutate mutation =>
    obtain ⟨page, hshape, holdest, happ, hbears, observable, hfollowed⟩ := h
    obtain ⟨w', hmutate, form, first, changed, hstill, hfollows⟩ :=
      hbears.exists_mutate hready.vacant hready.idle hfollowed mutation
    exact ⟨w', hmutate, { page with form := form, first := first }, hshape, holdest, happ, hstill,
      changed, hfollows⟩

theorem AtRest.exists_steps (h : scene.AtRest client base oldest w)
    (hready : scene.Ready client base) (steps : List Upkeep) :
    ∃ w', steps.foldlM (scene.perform client) w = .ok w' ∧
      scene.AtRest client base oldest w' := by
  induction steps generalizing w with
  | nil => exact ⟨w, rfl, h⟩
  | cons step steps ih =>
    obtain ⟨between, hstep, hbetween⟩ := h.exists_step hready step
    obtain ⟨w', hrest, hlast⟩ := ih hbetween
    refine ⟨w', ?_, hlast⟩
    rw [List.foldlM_cons, hstep]
    exact hrest

/-- However refreshes of the page and mutations of the observable follow one another after the first
rendering: all of them succeed; the observable has as many live subscribers as the root was
subscribed times and others there are, and at most the dead entries of one page besides; every
registry has as many live nodes as after the first rendering; the content that is shown is new and
built in the same shape; and of all nodes that were alive before an earlier refresh, only those are
that were there before any page was shown. -/
theorem exists_turnover (h : scene.Ready client base) :
    ∃ first, base.renderPage client scene.id scene.name = .ok (true, first) ∧
      ∀ steps : List Upkeep, ∃ last, steps.foldlM (scene.perform client) first = .ok last ∧
        last.subscriberCount scene.observable = scene.times + scene.others.length ∧
        (last.observable scene.observable).subscribers.length ≤
          2 * scene.times + scene.others.length ∧
        (∀ registry, last.population registry = first.population registry) ∧
        (∃ shown root outline, last.apps.get? scene.id = some shown ∧ shown.mounted? = some root ∧
          last.Unfolds root outline ∧ outline.shape = scene.shape ∧
          ∀ n ∈ outline.ids, base.node? n = none) ∧
        (∃ next, last.refreshPage client scene.id = .ok (true, next)) ∧
        ∀ before after earlier, steps = before ++ .refresh :: after →
          before.foldlM (scene.perform client) first = .ok earlier →
          ∀ n, (∃ node, earlier.node? n = some node) → (∃ node, last.node? n = some node) →
            ∃ node, base.node? n = some node := by
  obtain ⟨first, hrender, hfirst⟩ := h.exists_renderPage
  refine ⟨first, hrender, fun steps ↦ ?_⟩
  obtain ⟨last, hsteps, hlast⟩ := hfirst.exists_steps h steps
  have hrest := hlast
  obtain ⟨page, hshape, -, -, hbears, observable, hfollowed⟩ := hrest
  refine ⟨last, hsteps, ?_, ?_, fun registry ↦ ?_, ?_, ?_, ?_⟩
  · rw [hfollowed.subscriberCount_eq, World.followers, List.length_append, List.length_replicate,
      Nat.add_comm]
  · rw [World.observable_eq hfollowed.get]
    exact hfollowed.length_le
  · rw [hlast.population_eq h, hfirst.population_eq h]
  · obtain ⟨outline, hunfolds, hids, hsame⟩ := hbears.unfolds
    refine ⟨page.app, page.root, outline, hbears.app, hbears.content, hunfolds, hsame.trans hshape,
      fun n hn ↦ ?_⟩
    cases hold : base.node? n with
    | none => rfl
    | some old =>
      exact absurd (World.lt_next_of_node? hold) (Nat.not_lt.mpr (hbears.ids n (hids ▸ hn)))
  · obtain ⟨-, next, hrefresh, -⟩ := hlast.exists_refresh h
    exact ⟨next, hrefresh⟩
  · rintro before after earlier rfl hbefore n ⟨node, hnode⟩ ⟨node', hnode'⟩
    obtain ⟨same, hsame, hearlier⟩ := hfirst.exists_steps h before
    obtain rfl := Except.ok.inj (hbefore.symm.trans hsame)
    obtain ⟨-, refreshed, hrefresh, hrefreshed⟩ := hearlier.exists_refresh h
    obtain ⟨final, hafter, hfinal⟩ := hrefreshed.exists_steps h after
    have hrun : (before ++ .refresh :: after).foldlM (scene.perform client) first = .ok final := by
      rw [List.foldlM_append, hbefore]
      show (scene.perform client earlier .refresh >>= _) = _
      rw [perform, hrefresh]
      exact hafter
    obtain rfl := Except.ok.inj (hsteps.symm.trans hrun)
    exact hfinal.exists_of_older (World.lt_next_of_node? hnode) hnode'

namespace Clock

/-- A client whose page is a container that follows an observable twice. -/
def clock : Client (List Note) where
  call _ w := .ok w
  page _ registry w :=
    let (root, w) := w.createComponent registry .layout ∅ [.text "tick"]
    .ok (some root, (w.subscribe 0 (.node root)).subscribe 0 (.node root))

/-- An application on a surface, and an observable that a recorder follows. -/
def start : World (List Note) :=
  ((((({ client := [] } : World (List Note)).addHost (.surface {})).addRegistry {}).addRecorder 0)
    |>.addObservable { value := .number 1, subscribers := [.recorder 0] })
    |>.addApp (App.addPage { host := 0, registry := 0 } "time" ⟨0, {}⟩)

/-- The page and the observable. -/
def face : Scene where
  id := 0
  app := App.addPage { host := 0, registry := 0 } "time" ⟨0, {}⟩
  name := "time"
  page := ⟨0, {}⟩
  shape := .node 0 (Kind.blank .layout) [.leaf (.text "")]
  observable := 0
  others := [.recorder 0]
  times := 2

theorem rebuilds_face : face.Rebuilds clock := by
  intro w _ hregistry
  obtain ⟨node, built, hkind, -, -, hcreate, -, hobservables, hbuilds⟩ :=
    w.exists_builds_create hregistry .layout (by decide) Kind.layout.name ∅ [.text "tick"]
      (by decide)
  let once := built.subscribe 0 (.node w.nodes.next)
  refine ⟨w.nodes.next, _, once.subscribe 0 (.node w.nodes.next), ?_,
    (hbuilds.modifyObservable 0 _).modifyObservable 0 _, ?_, ?_⟩
  · simp only [clock, World.createComponent, hcreate]
    rfl
  · show Outline.node 0 node.kind.blank _ = _
    rw [hkind]
    rfl
  · show ((built.observables.modify 0 _).modify 0 _).get? 0 = _
    rw [Table.get?_modify, if_pos rfl, Table.get?_modify, if_pos rfl, hobservables, Option.map_map]
    rfl

theorem vacant_start : start.Vacant 0 := by
  refine .of_empty rfl (fun r ↦ ?_) (fun n ↦ ?_) List.mem_cons_self fun other app happ ↦ ?_
  · cases r <;> rfl
  · show Root.node n ∉ [.app 0, .recorder 0]
    simp
  · cases other with
    | zero => rw [← Option.some.inj happ]; rfl
    | succ other => cases happ

theorem ready_face : face.Ready clock start where
  vacant := vacant_start
  app := rfl
  page := rfl
  surface := ⟨_, rfl⟩
  registry := by decide
  rebuilds := rebuilds_face
  followed := by
    let observable : Observable := { value := .number 1, subscribers := [.recorder 0] }
    have halive : ∀ target ∈ observable.subscribers, start.isAlive target = true := by decide
    exact ⟨observable, .of_alive rfl halive (by decide) fun _ _ hhandler ↦ nomatch hhandler⟩
  idle := by
    intro target htarget
    obtain rfl := List.mem_singleton.mp htarget
    exact .recorder (by decide) rfl fun w ↦ ⟨w, rfl, .refl w⟩

end Clock

open Clock in
theorem exists_turnover_clock :
    face.Ready clock start ∧
      ∃ first last, start.renderPage clock 0 "time" = .ok (true, first) ∧
        [.refresh, .mutate (.set (.number 2)), .refresh, .mutate (.operate .increment)].foldlM
          (face.perform clock) first = .ok last ∧
        last.subscriberCount 0 = 3 ∧ (last.observable 0).subscribers.length ≤ 5 ∧
        (∀ registry, last.population registry = first.population registry) ∧
        ∀ n, (∃ node, first.node? n = some node) → (∃ node, last.node? n = some node) →
          ∃ node, start.node? n = some node := by
  obtain ⟨first, hrender, hturnover⟩ := exists_turnover ready_face
  let later : List Upkeep :=
    [.mutate (.set (.number 2)), .refresh, .mutate (.operate .increment)]
  obtain ⟨last, hrun, hcount, hlength, hpopulation, -, -, hgone⟩ := hturnover (.refresh :: later)
  exact ⟨ready_face, first, last, hrender, hrun, hcount, hlength, hpopulation,
    hgone [] later first rfl rfl⟩

end Scene

end LiveMarkup
