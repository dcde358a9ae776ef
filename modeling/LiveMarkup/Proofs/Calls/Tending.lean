import LiveMarkup.Proofs.Calls.Program
import LiveMarkup.Proofs.World.Redrawing

/-!
Mutations keep a stage up to date. Storing a value makes the subscribed nodes stale that show it,
and the refreshes that follow draw them again (`Stage.Tended.mutated`); what listeners and
recorders do meanwhile does not matter as long as they keep the stage up to date themselves, and
they do if all that they do to the world is to mutate observables (`Stage.keeps_answering`).
-/

set_option autoImplicit false
set_option relaxedAutoImplicit false

namespace LiveMarkup

namespace Stage

variable {σ : Type} {w w' : World σ} {stage : Stage} {enrolled : NodeId → ObservableId → Prop}
  {mounted : List NodeId} {stale stale' : NodeId → Prop}

/-- The surface of a stage is current but for stale nodes, and its nodes, mounted or not, are
subscribed to the observables that they are enrolled for. -/
structure Tended (stage : Stage) (enrolled : NodeId → ObservableId → Prop) (w : World σ)
    (mounted : List NodeId) (stale : NodeId → Prop) : Prop where
  current : stage.Current w mounted stale
  subscribed : ∀ id ∈ stage.nodes, ∀ observable, enrolled id observable →
    ∀ o, w.observables.get? observable = some o → .node id ∈ o.subscribers

/-- The mounted nodes are enrolled for all that they hold. -/
def Covers (stage : Stage) (enrolled : NodeId → ObservableId → Prop) (mounted : List NodeId) :
    Prop :=
  ∀ id ∈ mounted, ∀ observable, (stage.outline id).Holds observable → enrolled id observable

theorem Tended.mono (h : stage.Tended enrolled w mounted stale)
    (hstale : ∀ id ∈ mounted, stale id → stale' id) : stage.Tended enrolled w mounted stale' :=
  ⟨h.current.mono hstale, h.subscribed⟩

theorem Current.subset (h : stage.Current w mounted stale) : ∀ id ∈ mounted, id ∈ stage.nodes := by
  obtain ⟨piece, hdisplays⟩ := h
  exact hdisplays.subset

theorem Current.isAlive (h : stage.Current w mounted stale) {id : NodeId} (hid : id ∈ stage.nodes) :
    w.isAlive (.node id) = true := by
  obtain ⟨piece, hdisplays⟩ := h
  obtain ⟨node, hnode, _⟩ := hdisplays.stands.node id hid
  rw [World.isAlive, ← Table.isSome_get?]
  exact Option.isSome_of_eq_some hnode

/-! ### Holding and releasing -/

theorem Tended.hold (h : stage.Tended enrolled w mounted stale) (root : Root) :
    stage.Tended enrolled (w.hold root) mounted stale := by
  obtain ⟨piece, hdisplays⟩ := h.current
  refine ⟨⟨piece, hdisplays.changeHeld fun id hid ↦ ?_⟩, h.subscribed⟩
  exact List.mem_cons_of_mem root (hdisplays.stands.held id hid)

/-- A reference that was taken besides those of an earlier world may be given up. -/
theorem Tended.release {before : World σ} (h : stage.Tended enrolled w mounted stale) {root : Root}
    (hbefore : ∀ id ∈ stage.nodes, .node id ∈ before.held)
    (hheld : w.held.Perm (root :: before.held)) :
    (w.release root).held.Perm before.held ∧
      stage.Tended enrolled (w.release root) mounted stale := by
  have hperm : (w.held.erase root).Perm before.held := World.erase_perm hheld
  obtain ⟨piece, hdisplays⟩ := h.current
  have hdropped : stage.Displays { w with held := w.held.erase root } mounted stale piece :=
    hdisplays.changeHeld fun id hid ↦ hperm.mem_iff.mpr (hbefore id hid)
  refine ⟨hperm,
    ⟨piece, hdropped.of_carries (World.Carries.refl (fun _ ↦ False) _).sweep ?_ rfl ?_⟩,
    h.subscribed⟩
  · exact fun _ _ hfalse ↦ hfalse
  · exact fun _ _ _ hfalse ↦ hfalse.elim

/-! ### Changing observables -/

theorem displayOf_eq_of_value {observable : ObservableId}
    (h : (w'.observables.get? observable).map Observable.value =
      (w.observables.get? observable).map Observable.value) :
    w'.displayOf observable = w.displayOf observable := by
  unfold World.displayOf World.observable
  cases hold : w.observables.get? observable <;> cases hnew : w'.observables.get? observable <;>
    simp_all

/-- Observables may change as long as what is not stale shows the same. -/
theorem Current.changeObservables (h : stage.Current w mounted stale)
    (observables : Table Observable)
    (hvalues : ∀ id ∈ stage.nodes, ∀ observable, (stage.outline id).Holds observable →
      SafeText (World.displayOf { w with observables := observables } observable).toList)
    (hstale : ∀ id ∈ mounted, ¬stale' id → ¬stale id ∧
      ∀ observable, (stage.outline id).Holds observable →
        World.displayOf { w with observables := observables } observable = w.displayOf observable) :
    stage.Current { w with observables := observables } mounted stale' := by
  obtain ⟨piece, hdisplays⟩ := h
  have hunfolds {root : NodeId} {outline : Outline} (hroot : w.Unfolds root outline) :
      World.Unfolds { w with observables := observables } root outline :=
    hroot.congr fun _ _ _ hpart ↦ hroot.bare_of_mem hpart
  refine ⟨piece,
    { hdisplays with
      stands :=
        { held := hdisplays.stands.held
          node := hdisplays.stands.node
          unfolds := fun id hid ↦ hunfolds (hdisplays.stands.unfolds id hid)
          ready := fun id hid ↦ (hdisplays.stands.ready id hid).congr (by intro registry; rfl)
          values := hvalues
          fresh := hdisplays.stands.fresh }
      shows := fun id hid ↦ ?_ }⟩
  obtain ⟨form, shown, hshows, hcurrent⟩ := hdisplays.shows id hid
  refine ⟨form, shown, ⟨hshows.mounted, hunfolds hshows.unfolds,
    hshows.ready.congr (by intro registry; rfl), hshows.holds, hshows.looks, hshows.hides⟩,
    fun hfresh ↦ ?_⟩
  obtain ⟨hold, hsame⟩ := hstale id hid hfresh
  rw [hshows.unfolds.tree_congr fun observable hholds ↦
    hsame observable (hshows.holds observable hholds)]
  exact hcurrent hold

/-- An observable may lose and gain subscribers as long as it keeps the nodes of the stage. -/
theorem Tended.modifyObservable (h : stage.Tended enrolled w mounted stale)
    (observable : ObservableId) {f : Observable → Observable} (hvalue : ∀ o, (f o).value = o.value)
    (hsubscribers : ∀ id ∈ stage.nodes, ∀ o : Observable, .node id ∈ o.subscribers →
      .node id ∈ (f o).subscribers) :
    stage.Tended enrolled (w.modifyObservable observable f) mounted stale := by
  have hdisplay (other : ObservableId) :
      (w.modifyObservable observable f).displayOf other = w.displayOf other := by
    refine displayOf_eq_of_value ?_
    rw [World.modifyObservable, Table.get?_modify]
    split
    · rw [Option.map_map]
      exact congrArg (Option.map · (w.observables.get? other)) (funext hvalue)
    · rfl
  refine ⟨h.current.changeObservables _ (fun id hid other hholds ↦ ?_)
    fun id hid hfresh ↦ ⟨hfresh, fun other _ ↦ hdisplay other⟩,
    fun id hid other henrolled o ho ↦ ?_⟩
  · obtain ⟨piece, hdisplays⟩ := h.current
    show SafeText ((w.modifyObservable observable f).displayOf other).toList
    rw [hdisplay]
    exact hdisplays.stands.values id hid other hholds
  · rw [World.modifyObservable, Table.get?_modify] at ho
    split at ho
    · obtain ⟨old, hold, rfl⟩ := Option.map_eq_some_iff.mp ho
      exact hsubscribers id hid old (h.subscribed id hid other henrolled old hold)
    · exact h.subscribed id hid other henrolled o ho

/-- A target may be subscribed to an observable; if it is a node, it is enrolled then. -/
theorem Tended.subscribe (h : stage.Tended enrolled w mounted stale) (target : Target)
    (observable : ObservableId) :
    stage.Tended (fun id other ↦ enrolled id other ∨ target = .node id ∧ observable = other)
      (w.subscribe observable target) mounted stale := by
  have hkept : stage.Tended enrolled (w.subscribe observable target) mounted stale :=
    h.modifyObservable observable (fun _ ↦ rfl) fun id hid o hmem ↦
      List.mem_append_left _ (List.mem_filter.mpr ⟨hmem, h.current.isAlive hid⟩)
  refine ⟨hkept.current, fun id hid other henrolled o ho ↦ ?_⟩
  rcases henrolled with hold | ⟨rfl, rfl⟩
  · exact hkept.subscribed id hid other hold o ho
  · rw [World.subscribe, World.modifyObservable, Table.get?_modify, if_pos rfl] at ho
    obtain ⟨old, -, rfl⟩ := Option.map_eq_some_iff.mp ho
    exact List.mem_append_right _ List.mem_cons_self

theorem Tended.prune (h : stage.Tended enrolled w mounted stale) (observable : ObservableId) :
    stage.Tended enrolled (w.modifyObservable observable (Observable.prune w.isAlive)) mounted
      stale :=
  h.modifyObservable observable (fun _ ↦ rfl) fun _ hid _ hmem ↦
    List.mem_filter.mpr ⟨hmem, h.current.isAlive hid⟩

/-- A stored value makes stale what is subscribed to the observable. -/
theorem Tended.store (hcovers : stage.Covers enrolled mounted)
    (h : stage.Tended enrolled w mounted stale) (observable : ObservableId) {value : Value}
    (hvalue : SafeText value.display.toList) :
    stage.Tended enrolled (w.store observable value) mounted fun id ↦
      stale id ∨ .node id ∈ ((w.store observable value).observable observable).subscribers := by
  have hdisplay (other : ObservableId) :
      (w.store observable value).displayOf other = w.displayOf other ∨
        other = observable ∧ (∃ o, w.observables.get? observable = some o) ∧
          (w.store observable value).displayOf other = value.display := by
    unfold World.displayOf World.observable World.store World.modifyObservable
    rw [Table.get?_modify]
    split
    · rename_i heq
      subst heq
      cases ho : w.observables.get? observable with
      | none => exact .inl rfl
      | some o => exact .inr ⟨rfl, ⟨o, rfl⟩, rfl⟩
    · exact .inl rfl
  refine ⟨h.current.changeObservables _ (fun id hid other hholds ↦ ?_)
    fun id hid hfresh ↦ ⟨fun hstale ↦ hfresh (.inl hstale), fun other hholds ↦ ?_⟩,
    fun id hid other henrolled o ho ↦ ?_⟩
  · obtain ⟨piece, hdisplays⟩ := h.current
    show SafeText ((w.store observable value).displayOf other).toList
    rcases hdisplay other with hsame | ⟨_, _, hnew⟩
    · rw [hsame]
      exact hdisplays.stands.values id hid other hholds
    · rw [hnew]
      exact hvalue
  · rcases hdisplay other with hsame | ⟨rfl, ⟨o, ho⟩, _⟩
    · exact hsame
    · refine absurd (.inr ?_) hfresh
      rw [World.observable, World.store, World.modifyObservable, Table.get?_modify, if_pos rfl, ho]
      exact h.subscribed id (h.current.subset id hid) other (hcovers id hid other hholds) o ho
  · rw [World.store, World.modifyObservable, Table.get?_modify] at ho
    split at ho
    · obtain ⟨old, hold, rfl⟩ := Option.map_eq_some_iff.mp ho
      exact h.subscribed id hid other henrolled old hold
    · exact h.subscribed id hid other henrolled o ho

/-! ### Calls -/

/-- A client whose answers keep a stage up to date, whatever is stale when it is called. -/
def Keeps (stage : Stage) (enrolled : NodeId → ObservableId → Prop) (mounted : List NodeId)
    (client : Client σ) : Prop :=
  ∀ (call : Call) (w w' : World σ) (stale : NodeId → Prop),
    stage.Tended enrolled w mounted stale → client.call call w = .ok w' →
      w'.held.Perm w.held ∧ stage.Tended enrolled w' mounted stale

variable [Journal σ] {client : Client σ}

/-- A target is refreshed and not stale any more; a target that is gone is no mounted node. -/
theorem Tended.notify (hclient : stage.Keeps enrolled mounted client)
    (h : stage.Tended enrolled w mounted stale) {target : Target}
    (hrun : w.notify client target = .ok w') :
    w'.held.Perm w.held ∧
      stage.Tended enrolled w' mounted fun id ↦ stale id ∧ .node id ≠ target := by
  unfold World.notify at hrun
  cases target with
  | node id =>
    dsimp only at hrun
    split at hrun
    · rename_i hcontains
      obtain ⟨refreshed, hrefresh, hrelease⟩ := bind_eq_ok.mp hrun
      obtain rfl : refreshed.release (.node id) = w' := by simpa [pure, Except.pure] using hrelease
      obtain ⟨node, hnode⟩ := Option.isSome_iff_exists.mp ((w.nodes.isSome_get? id).trans hcontains)
      obtain ⟨hperm, hobservables, hcurrent⟩ :=
        (h.hold (.node id)).current.refresh List.mem_cons_self hnode hrefresh
      have htended :
          stage.Tended enrolled refreshed mounted fun other ↦ stale other ∧ other ≠ id := by
        refine ⟨hcurrent, ?_⟩
        rw [hobservables]
        exact h.subscribed
      obtain ⟨hreleased, hdone⟩ := htended.release h.current.held hperm
      refine ⟨hreleased, hdone.mono fun other _ hstale ↦ ⟨hstale.1, fun heq ↦ hstale.2 ?_⟩⟩
      exact Target.node.inj heq
    · rename_i hcontains
      obtain rfl : w = w' := by simpa [pure, Except.pure] using hrun
      refine ⟨.refl _, h.mono fun other hother hstale ↦ ⟨hstale, ?_⟩⟩
      rintro heq
      obtain rfl := Target.node.inj heq
      exact hcontains (h.current.isAlive (h.current.subset other hother))
  | recorder id =>
    dsimp only at hrun
    have hstays : stage.Tended enrolled w mounted fun other ↦
        stale other ∧ .node other ≠ Target.recorder id :=
      h.mono fun other _ hstale ↦ ⟨hstale, fun heq ↦ by cases heq⟩
    split at hrun
    · obtain ⟨called, hcall, hrelease⟩ := bind_eq_ok.mp hrun
      obtain rfl : called.release (.recorder id) = w' := by
        simpa [pure, Except.pure] using hrelease
      obtain ⟨hperm, htended⟩ := hclient _ _ _ _ (hstays.hold (.recorder id)) hcall
      exact htended.release h.current.held hperm
    · obtain rfl : w = w' := by simpa [pure, Except.pure] using hrun
      exact ⟨.refl _, hstays⟩

/-- After a pass over targets none of them is stale. -/
theorem Tended.notifyAll (hclient : stage.Keeps enrolled mounted client) {targets : List Target}
    (h : stage.Tended enrolled w mounted stale)
    (hrun : targets.foldlM (World.notify client) w = .ok w') :
    w'.held.Perm w.held ∧
      stage.Tended enrolled w' mounted fun id ↦ stale id ∧ .node id ∉ targets := by
  induction targets generalizing w stale with
  | nil =>
    obtain rfl : w = w' := by simpa [pure, Except.pure] using hrun
    exact ⟨.refl _, h.mono fun id _ hstale ↦ ⟨hstale, List.not_mem_nil⟩⟩
  | cons target targets ih =>
    rw [List.foldlM_cons] at hrun
    obtain ⟨first, hfirst, hrest⟩ := bind_eq_ok.mp hrun
    obtain ⟨hperm, htended⟩ := h.notify hclient hfirst
    obtain ⟨hperm', hdone⟩ := ih htended hrest
    refine ⟨hperm'.trans hperm, hdone.mono fun id _ hstale ↦ ⟨hstale.1.1, fun hmem ↦ ?_⟩⟩
    rcases List.mem_cons.mp hmem with heq | hlater
    · exact hstale.1.2 heq
    · exact hstale.2 hlater

omit [Journal σ] in
theorem Tended.announce (hclient : stage.Keeps enrolled mounted client) {listeners : List Handler}
    {value : Value} (h : stage.Tended enrolled w mounted stale)
    (hrun : w.announce client listeners value = .ok w') :
    w'.held.Perm w.held ∧ stage.Tended enrolled w' mounted stale := by
  unfold World.announce at hrun
  induction listeners generalizing w with
  | nil =>
    obtain rfl : w = w' := by simpa [pure, Except.pure] using hrun
    exact ⟨.refl _, h⟩
  | cons listener listeners ih =>
    rw [List.foldlM_cons] at hrun
    obtain ⟨first, hfirst, hrest⟩ := bind_eq_ok.mp hrun
    obtain ⟨hperm, htended⟩ := hclient _ _ _ stale h hfirst
    obtain ⟨hperm', hdone⟩ := ih htended hrest
    exact ⟨hperm'.trans hperm, hdone⟩

/-- The refreshes of a mutation draw again what is subscribed to the observable. -/
theorem Tended.mutated (hclient : stage.Keeps enrolled mounted client) {observable : ObservableId}
    (h : stage.Tended enrolled w mounted fun id ↦
      stale id ∨ .node id ∈ (w.observable observable).subscribers)
    (hrun : w.mutated client observable = .ok w') :
    w'.held.Perm w.held ∧ stage.Tended enrolled w' mounted stale := by
  obtain ⟨passed, hpass, hemit⟩ := bind_eq_ok.mp hrun
  obtain ⟨hperm, htended⟩ := (h.prune observable).notifyAll hclient hpass
  obtain ⟨hperm', hdone⟩ := htended.announce hclient hemit
  refine ⟨hperm'.trans hperm, hdone.mono fun id hid hstale ↦ hstale.1.resolve_right fun hmem ↦ ?_⟩
  refine hstale.2 ?_
  unfold World.observable World.modifyObservable at *
  rw [Table.get?_modify, if_pos rfl]
  cases ho : w.observables.get? observable with
  | none => rw [ho] at hmem; exact absurd hmem List.not_mem_nil
  | some o =>
    rw [ho] at hmem
    exact List.mem_filter.mpr ⟨hmem, h.current.isAlive (h.current.subset id hid)⟩

end Stage

/-- A mutation with a value that can be shown. Numbers always can. -/
def Mutation.Safe : Mutation → Prop
  | .set value => SafeText value.display.toList
  | .operate _ => True

namespace Stage

variable {σ : Type} [Journal σ] {w w' : World σ} {stage : Stage}
  {enrolled : NodeId → ObservableId → Prop} {mounted : List NodeId} {stale : NodeId → Prop}
  {client : Client σ}

/-- A mutation leaves stale what was stale before, and nothing else. -/
theorem Tended.mutate (hclient : stage.Keeps enrolled mounted client)
    (hcovers : stage.Covers enrolled mounted) (h : stage.Tended enrolled w mounted stale)
    {observable : ObservableId} {mutation : Mutation} (hsafe : mutation.Safe)
    (hrun : w.mutate client observable mutation = .ok w') :
    w'.held.Perm w.held ∧ stage.Tended enrolled w' mounted stale := by
  cases mutation with
  | set value =>
    obtain ⟨hperm, hdone⟩ := (h.store hcovers observable hsafe).mutated hclient hrun
    exact ⟨hperm, hdone⟩
  | operate operation =>
    obtain ⟨⟨applied, last⟩, hoperate, heq⟩ := bind_eq_ok.mp hrun
    obtain rfl : last = w' := by simpa [pure, Except.pure] using heq
    unfold World.operate at hoperate
    split at hoperate
    · obtain ⟨-, rfl⟩ : false = applied ∧ w = last := by simpa [pure, Except.pure] using hoperate
      exact ⟨.refl _, h⟩
    · rename_i n hn
      obtain ⟨mutated, hmutated, hoperate⟩ := bind_eq_ok.mp hoperate
      obtain ⟨told, hemit, heq⟩ := bind_eq_ok.mp hoperate
      obtain ⟨-, rfl⟩ : true = applied ∧ told = last := by simpa [pure, Except.pure] using heq
      have hresult : SafeText (Value.number (operation.apply n)).display.toList :=
        (operation.apply n).safeText_text
      obtain ⟨hperm, htended⟩ := (h.store hcovers observable hresult).mutated hclient hmutated
      obtain ⟨hperm', hdone⟩ := htended.announce hclient hemit
      exact ⟨hperm'.trans hperm, hdone⟩

end Stage

/-! ### Programs that only mutate -/

/-- All that a program does to the world, besides keeping books of its own, is to mutate
observables with values that can be shown. -/
def Program.OnlyMutates {σ : Type} : Program σ → Prop
  | .done => True
  | .change f next =>
    (∀ w w', f w = .ok w' → ∃ client, w' = { w with client := client }) ∧
      ∀ w, (next w).OnlyMutates
  | .mutate _ mutation next => mutation.Safe ∧ ∀ w, (next w).OnlyMutates

namespace Stage

variable {σ : Type} [Journal σ] {w w' : World σ} {stage : Stage}
  {enrolled : NodeId → ObservableId → Prop} {mounted : List NodeId} {stale : NodeId → Prop}
  {client : Client σ}

theorem Tended.run (hclient : stage.Keeps enrolled mounted client)
    (hcovers : stage.Covers enrolled mounted) {program : Program σ}
    (hprogram : program.OnlyMutates) (h : stage.Tended enrolled w mounted stale)
    (hrun : program.run client w = .ok w') :
    w'.held.Perm w.held ∧ stage.Tended enrolled w' mounted stale := by
  induction program generalizing w with
  | done =>
    obtain rfl := Except.ok.inj hrun
    exact ⟨.refl _, h⟩
  | change f next ih =>
    obtain ⟨hchange, hnext⟩ := hprogram
    obtain ⟨changed, hf, hrest⟩ := bind_eq_ok.mp hrun
    obtain ⟨books, rfl⟩ := hchange w changed hf
    have hsame : stage.Tended enrolled { w with client := books } mounted stale := by
      obtain ⟨piece, hdisplays⟩ := h.current
      have hcarries : w.Carries (fun _ ↦ False) { w with client := books } :=
        .changeHosts w w.hosts books
      exact ⟨⟨piece, hdisplays.of_carries hcarries (fun _ _ hfalse ↦ hfalse) rfl
        fun _ _ _ hfalse ↦ hfalse.elim⟩, h.subscribed⟩
    obtain ⟨hperm, hdone⟩ := ih _ (hnext _) hsame hrest
    exact ⟨hperm, hdone⟩
  | mutate observable mutation next ih =>
    obtain ⟨hsafe, hnext⟩ := hprogram
    obtain ⟨mutated, hmutate, hrest⟩ := bind_eq_ok.mp hrun
    obtain ⟨hperm, htended⟩ := h.mutate hclient hcovers hsafe hmutate
    obtain ⟨hperm', hdone⟩ := ih _ (hnext _) htended hrest
    exact ⟨hperm'.trans hperm, hdone⟩

/-- Clients whose callbacks only mutate observables keep a stage up to date, however deep the
mutations nest, if the mounted nodes are enrolled for all that they hold. -/
theorem keeps_answering (hcovers : stage.Covers enrolled mounted)
    {react : Call → World σ → Program σ} (hreact : ∀ call w, (react call w).OnlyMutates)
    (depth : Nat) : stage.Keeps enrolled mounted (Client.answering react depth) := by
  induction depth with
  | zero =>
    intro call w w' stale _ hcall
    cases hcall
  | succ depth ih =>
    intro call w w' stale h hcall
    exact h.run ih hcovers (hreact call w) hcall

end Stage

end LiveMarkup
