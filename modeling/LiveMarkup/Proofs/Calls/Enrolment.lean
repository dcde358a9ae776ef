import LiveMarkup.Proofs.Calls.Passing
import LiveMarkup.Proofs.Calls.Relaying
import LiveMarkup.Proofs.World.Aging

/-!
Who is subscribed. The list of an observable is pruned at some operations only, and its targets die
in between. It is compared with all calls that were ever made: a subscription stands unless a later
call undid it, whether or not its target is still alive (`standing`). In every run of subscribing,
unsubscribing, pruning and dying (`World.SubscriptionRun`), which mutations are part of, the live
entries of the list are the live targets of the subscriptions that stand
(`World.SubscriptionRun.liveSubscribers_eq`).
-/

set_option autoImplicit false
set_option relaxedAutoImplicit false

namespace LiveMarkup

/-! ### Calls and what stands of them -/

/-- A call that changes who is subscribed to an observable. -/
inductive Enrolment where
  | subscribe (target : Target)
  | unsubscribe (target : Target)
  deriving DecidableEq

/-- The targets of the subscriptions that no later call undid, in the order of the calls. -/
def standing : List Enrolment → List Target
  | [] => []
  | .subscribe target :: later =>
    if .unsubscribe target ∈ later then standing later else target :: standing later
  | .unsubscribe _ :: later => standing later

/-- A target was subscribed, and not unsubscribed since. -/
def Stands (calls : List Enrolment) (target : Target) : Prop :=
  ∃ earlier later, calls = earlier ++ .subscribe target :: later ∧ .unsubscribe target ∉ later

theorem standing_append_subscribe (calls : List Enrolment) (target : Target) :
    standing (calls ++ [.subscribe target]) = standing calls ++ [target] := by
  induction calls with
  | nil => rfl
  | cons call calls ih =>
    cases call with
    | unsubscribe other => exact ih
    | subscribe other =>
      have hmem : .unsubscribe other ∈ calls ++ [.subscribe target] ↔
          .unsubscribe other ∈ calls := by
        simp
      by_cases hundone : .unsubscribe other ∈ calls
      · rw [List.cons_append, standing, standing, if_pos (hmem.mpr hundone), if_pos hundone, ih]
      · rw [List.cons_append, standing, standing, if_neg (mt hmem.mp hundone), if_neg hundone, ih,
          List.cons_append]

theorem standing_append_unsubscribe (calls : List Enrolment) (target : Target) :
    standing (calls ++ [.unsubscribe target]) = (standing calls).filter (· != target) := by
  induction calls with
  | nil => rfl
  | cons call calls ih =>
    cases call with
    | unsubscribe other => exact ih
    | subscribe other =>
      have hmem : .unsubscribe other ∈ calls ++ [.unsubscribe target] ↔
          .unsubscribe other ∈ calls ∨ other = target := by
        simp
      rw [List.cons_append, standing, standing, ih]
      by_cases hundone : .unsubscribe other ∈ calls
      · rw [if_pos (hmem.mpr (.inl hundone)), if_pos hundone]
      · rw [if_neg hundone]
        by_cases hsame : other = target
        · rw [if_pos (hmem.mpr (.inr hsame)), List.filter_cons_of_neg (by simp [hsame])]
        · rw [if_neg (mt hmem.mp (not_or.mpr ⟨hundone, hsame⟩)),
            List.filter_cons_of_pos (by simp [hsame])]

theorem standing_map_subscribe (targets : List Target) :
    standing (targets.map .subscribe) = targets := by
  induction targets with
  | nil => rfl
  | cons target targets ih =>
    have hkept : Enrolment.unsubscribe target ∉ targets.map .subscribe := by simp
    rw [List.map_cons, standing, if_neg hkept, ih]

/-- The targets that stand are those whose last call was a subscription. -/
theorem mem_standing_iff {calls : List Enrolment} {target : Target} :
    target ∈ standing calls ↔ Stands calls target := by
  induction calls with
  | nil => simp [standing, Stands]
  | cons call calls ih =>
    have hcons : Stands (call :: calls) target ↔
        call = .subscribe target ∧ .unsubscribe target ∉ calls ∨ Stands calls target := by
      constructor
      · rintro ⟨earlier, later, hcalls, hlater⟩
        rcases earlier with _ | ⟨first, earlier⟩
        · obtain ⟨rfl, rfl⟩ := List.cons.inj hcalls
          exact .inl ⟨rfl, hlater⟩
        · obtain ⟨rfl, rfl⟩ := List.cons.inj hcalls
          exact .inr ⟨earlier, later, rfl, hlater⟩
      · rintro (⟨rfl, hlater⟩ | ⟨earlier, later, rfl, hlater⟩)
        · exact ⟨[], calls, rfl, hlater⟩
        · exact ⟨call :: earlier, later, rfl, hlater⟩
    rw [hcons, ← ih]
    cases call with
    | unsubscribe other => simp [standing]
    | subscribe other =>
      rw [standing]
      split
      · rename_i hundone
        constructor
        · exact .inr
        · rintro (⟨hsame, hkept⟩ | hlater)
          · obtain rfl := Enrolment.subscribe.inj hsame
            exact absurd hundone hkept
          · exact hlater
      · rename_i hkept
        rw [List.mem_cons]
        constructor
        · rintro (rfl | hlater)
          · exact .inl ⟨rfl, hkept⟩
          · exact .inr hlater
        · rintro (⟨hsame, -⟩ | hlater)
          · exact .inl (Enrolment.subscribe.inj hsame).symm
          · exact .inr hlater

namespace World

variable {σ : Type} {w w' w'' : World σ} {id : ObservableId} {calls more : List Enrolment}

/-! ### Runs -/

/-- A single thing that matters to who is subscribed to an observable, and the calls that it is. -/
inductive SubscriptionStep (id : ObservableId) : World σ → List Enrolment → World σ → Prop where
  | subscribe {w : World σ} {target : Target} (htarget : w.Knows target) :
      SubscriptionStep id w [.subscribe target] (w.subscribe id target)
  | unsubscribe (w : World σ) (target : Target) :
      SubscriptionStep id w [.unsubscribe target] (w.unsubscribe id target)
  /-- A mutation starts. -/
  | prune (w : World σ) :
      SubscriptionStep id w [] (w.modifyObservable id (Observable.prune w.isAlive))
  /-- Anything that leaves the list as it is: targets are made, live on and die. -/
  | aside {w w' : World σ}
      (hsame : (w'.observables.get? id).map Observable.subscribers =
        (w.observables.get? id).map Observable.subscribers)
      (hages : w.Ages w') : SubscriptionStep id w [] w'

/-- One step after the other, and the calls that they are. -/
inductive SubscriptionRun (id : ObservableId) : World σ → List Enrolment → World σ → Prop where
  | refl (w : World σ) : SubscriptionRun id w [] w
  | step {w between w' : World σ} {calls more : List Enrolment}
      (hrun : SubscriptionRun id w calls between) (hstep : SubscriptionStep id between more w') :
      SubscriptionRun id w (calls ++ more) w'

namespace SubscriptionRun

theorem of_step (hstep : SubscriptionStep id w more w') : SubscriptionRun id w more w' := by
  have hrun := (SubscriptionRun.refl w).step hstep
  rwa [List.nil_append] at hrun

theorem trans (h : SubscriptionRun id w calls w') (h' : SubscriptionRun id w' more w'') :
    SubscriptionRun id w (calls ++ more) w'' := by
  induction h' with
  | refl => rwa [List.append_nil]
  | step _ hstep ih =>
    rw [← List.append_assoc]
    exact ih.step hstep

end SubscriptionRun

/-- There is a run from one world to another. -/
def Enrols (id : ObservableId) (w w' : World σ) : Prop := ∃ calls, SubscriptionRun id w calls w'

namespace Enrols

theorem of_step (hstep : SubscriptionStep id w more w') : w.Enrols id w' := ⟨more, .of_step hstep⟩

theorem aside (hsame : (w'.observables.get? id).map Observable.subscribers =
      (w.observables.get? id).map Observable.subscribers) (hages : w.Ages w') : w.Enrols id w' :=
  .of_step (.aside hsame hages)

/-- All that a mutation does by itself are steps of a run, whichever observable it is of. -/
theorem passage [Journal σ] (id : ObservableId) : Passage (Enrols (σ := σ) id) where
  refl := fun w ↦ ⟨[], .refl w⟩
  trans := by
    rintro w w' w'' ⟨calls, hrun⟩ ⟨more, hrun'⟩
    exact ⟨calls ++ more, hrun.trans hrun'⟩
  changeHosts := fun w hosts ↦ .aside rfl (.of_eq rfl rfl)
  note := fun w note ↦ .aside rfl (.of_eq rfl rfl)
  holdNode := fun _ ↦ .aside rfl (.of_eq rfl rfl)
  holdRecorder := fun w id ↦ .aside rfl (.of_eq rfl rfl)
  release := fun w root ↦ .aside rfl (.release w root)
  store := fun w observable value ↦ by
    refine .aside ?_ (.of_eq rfl rfl)
    rw [store, modifyObservable, Table.get?_modify]
    split
    · rw [Option.map_map]
      rfl
    · rfl
  prune := fun w observable ↦ by
    by_cases hsame : observable = id
    · rw [hsame]
      exact .of_step (.prune w)
    · refine .aside ?_ (.of_eq rfl rfl)
      rw [modifyObservable, Table.get?_modify, if_neg hsame]
  refresh := fun {w w' _} hheld _ hrefresh ↦ by
    refine .aside ?_ (Ages.conduct.reporting.refresh hrefresh)
    rw [observables_refresh hheld hrefresh]

end Enrols

/-! ### The list and the calls -/

theorem observable_modifyObservable {observable : Observable}
    (h : w.observables.get? id = some observable) (f : Observable → Observable) :
    (w.modifyObservable id f).observables.get? id = some (f observable) := by
  rw [modifyObservable, Table.get?_modify, if_pos rfl, h, Option.map_some]

theorem observable_eq {observable : Observable} (h : w.observables.get? id = some observable) :
    w.observable id = observable := by
  rw [World.observable, h, Option.getD_some]

/-- The entries of the list that are alive are the targets that stand and are alive. -/
structure Reflects (w : World σ) (id : ObservableId) (calls : List Enrolment) : Prop where
  exists_observable : ∃ observable, w.observables.get? id = some observable
  live : w.liveSubscribers id = (standing calls).filter w.isAlive
  entries : ∀ target ∈ (w.observable id).subscribers, w.Knows target
  knows : ∀ target ∈ standing calls, w.Knows target

/-- Of targets that are known, those that are alive later are among those that were alive. -/
theorem Ages.filter_isAlive (h : w.Ages w') {targets : List Target}
    (htargets : ∀ target ∈ targets, w.Knows target) :
    targets.filter w'.isAlive = (targets.filter w.isAlive).filter w'.isAlive := by
  rw [List.filter_filter]
  refine List.filter_congr fun target htarget ↦ ?_
  cases halive : w'.isAlive target with
  | false => rfl
  | true => rw [h.isAlive (htargets target htarget) halive, Bool.and_true]

namespace Reflects

theorem filter_isAlive (h : w.Reflects id calls) {observable : Observable}
    (hget : w.observables.get? id = some observable) :
    observable.subscribers.filter w.isAlive = (standing calls).filter w.isAlive := by
  have hlive := h.live
  rwa [liveSubscribers, observable_eq hget] at hlive

theorem knows_of_mem (h : w.Reflects id calls) {observable : Observable}
    (hget : w.observables.get? id = some observable) {target : Target}
    (htarget : target ∈ observable.subscribers) : w.Knows target :=
  h.entries target (by rwa [observable_eq hget])

theorem subscribe (h : w.Reflects id calls) {target : Target} (htarget : w.Knows target) :
    (w.subscribe id target).Reflects id (calls ++ [.subscribe target]) := by
  obtain ⟨observable, hget⟩ := h.exists_observable
  have hafter := observable_modifyObservable hget (Observable.subscribe w.isAlive target)
  refine ⟨⟨_, hafter⟩, ?_, fun other hother ↦ ?_, fun other hother ↦ ?_⟩
  · rw [World.liveSubscribers, World.subscribe, observable_eq hafter, standing_append_subscribe]
    show (observable.subscribers.filter w.isAlive ++ [target]).filter w.isAlive =
      (standing calls ++ [target]).filter w.isAlive
    rw [List.filter_append, List.filter_append, List.filter_filter, ← h.filter_isAlive hget]
    simp only [Bool.and_self]
  · rw [World.subscribe, observable_eq hafter] at hother
    rcases List.mem_append.mp hother with hold | hnew
    · exact h.knows_of_mem hget (List.mem_filter.mp hold).1
    · rw [List.mem_singleton.mp hnew]
      exact htarget
  · rw [standing_append_subscribe] at hother
    rcases List.mem_append.mp hother with hold | hnew
    · exact h.knows other hold
    · rw [List.mem_singleton.mp hnew]
      exact htarget

theorem unsubscribe (h : w.Reflects id calls) (target : Target) :
    (w.unsubscribe id target).Reflects id (calls ++ [.unsubscribe target]) := by
  obtain ⟨observable, hget⟩ := h.exists_observable
  have hafter := observable_modifyObservable hget (Observable.unsubscribe target)
  refine ⟨⟨_, hafter⟩, ?_, fun other hother ↦ ?_, fun other hother ↦ ?_⟩
  · rw [World.liveSubscribers, World.unsubscribe, observable_eq hafter, standing_append_unsubscribe]
    show (observable.subscribers.filter (· != target)).filter w.isAlive =
      ((standing calls).filter (· != target)).filter w.isAlive
    rw [List.filter_comm, h.filter_isAlive hget, List.filter_comm]
  · rw [World.unsubscribe, observable_eq hafter] at hother
    exact h.knows_of_mem hget (List.mem_filter.mp hother).1
  · rw [standing_append_unsubscribe] at hother
    exact h.knows other (List.mem_filter.mp hother).1

theorem prune (h : w.Reflects id calls) :
    (w.modifyObservable id (Observable.prune w.isAlive)).Reflects id calls := by
  obtain ⟨observable, hget⟩ := h.exists_observable
  have hafter := observable_modifyObservable hget (Observable.prune w.isAlive)
  refine ⟨⟨_, hafter⟩, ?_, fun other hother ↦ ?_, h.knows⟩
  · rw [World.liveSubscribers, observable_eq hafter]
    show (observable.subscribers.filter w.isAlive).filter w.isAlive = _
    rw [List.filter_filter]
    simp only [Bool.and_self]
    exact h.filter_isAlive hget
  · rw [observable_eq hafter] at hother
    exact h.knows_of_mem hget (List.mem_filter.mp hother).1

/-- Targets may die: their entries and their subscriptions stop counting at once. -/
theorem aside (h : w.Reflects id calls)
    (hsame : (w'.observables.get? id).map Observable.subscribers =
      (w.observables.get? id).map Observable.subscribers)
    (hages : w.Ages w') : w'.Reflects id calls := by
  obtain ⟨observable, hget⟩ := h.exists_observable
  rw [hget] at hsame
  obtain ⟨later, hlater, hsubscribers⟩ := Option.map_eq_some_iff.mp hsame
  have hentries (target : Target) (htarget : target ∈ observable.subscribers) : w.Knows target :=
    h.knows_of_mem hget htarget
  refine ⟨⟨later, hlater⟩, ?_, fun target htarget ↦ ?_,
    fun target htarget ↦ hages.knows (h.knows target htarget)⟩
  · rw [World.liveSubscribers, observable_eq hlater]
    show later.subscribers.filter w'.isAlive = _
    rw [hsubscribers, hages.filter_isAlive hentries, hages.filter_isAlive h.knows,
      h.filter_isAlive hget]
  · rw [observable_eq hlater, hsubscribers] at htarget
    exact hages.knows (hentries target htarget)

theorem step (h : w.Reflects id calls) (hstep : SubscriptionStep id w more w') :
    w'.Reflects id (calls ++ more) := by
  cases hstep with
  | subscribe htarget => exact h.subscribe htarget
  | unsubscribe target => exact h.unsubscribe target
  | prune =>
    rw [List.append_nil]
    exact h.prune
  | aside hsame hages =>
    rw [List.append_nil]
    exact h.aside hsame hages

/-- In a run the live entries of the list remain the live targets that stand. -/
theorem run (h : w.Reflects id calls) (hrun : SubscriptionRun id w more w') :
    w'.Reflects id (calls ++ more) := by
  induction hrun with
  | refl => rwa [List.append_nil]
  | step _ hstep ih =>
    rw [← List.append_assoc]
    exact ih.step hstep

end Reflects

/-- The targets that an observable is created with stand as if they had been subscribed. -/
theorem reflects_addObservable (w : World σ) {observable : Observable}
    (hgiven : ∀ target ∈ observable.subscribers, w.Knows target) :
    (w.addObservable observable).Reflects w.observables.next
      (observable.subscribers.map .subscribe) := by
  have hget : (w.addObservable observable).observables.get? w.observables.next =
      some observable := by
    rw [addObservable, Table.get?_push, if_pos rfl]
  refine ⟨⟨observable, hget⟩, ?_, ?_, ?_⟩
  · rw [liveSubscribers, observable_eq hget, standing_map_subscribe]
    rfl
  · rw [observable_eq hget]
    exact hgiven
  · rw [standing_map_subscribe]
    exact hgiven

/-! ### Mutations of the observable -/

/-- When a mutation starts to call, its list holds the live entries and nothing else. -/
theorem subscribers_stored (h : ∃ observable, w.observables.get? id = some observable)
    (value : Value) :
    ((w.stored id value).observable id).subscribers = w.liveSubscribers id := by
  obtain ⟨observable, hget⟩ := h
  have hstored : (w.store id value).observables.get? id = some { observable with value := value } :=
    observable_modifyObservable hget _
  have hpruned := observable_modifyObservable hstored
    (Observable.prune (w.store id value).isAlive)
  rw [stored, observable_eq hpruned, liveSubscribers, observable_eq hget]
  rfl

end World

/-- What a mutation writes down is an episode of its own between the worlds before and after it. -/
theorem Traced.exists_episode_of_mutate {σ : Type} [Journal σ] {call : Call → World σ → Traced σ}
    (hcall : Obey call) {w w' : World σ} {observable : ObservableId} {mutation : Mutation}
    {log : List (Moment σ)} (hrun : mutate call w observable mutation = .ok (log, w')) :
    ∃ turns, log = (Episode.mk observable mutation w turns w').moments ∧
      (Episode.mk observable mutation w turns w').Follows := by
  obtain ⟨episode, rfl, hobeys⟩ := exists_episode hcall hrun
  obtain ⟨inner, -, hlog⟩ := between_eq_ok.mp hrun
  obtain ⟨hfollows, -⟩ := hobeys
  obtain ⟨observable', mutation', before, turns, after⟩ := episode
  rw [Episode.moments, List.cons_append, List.cons_append] at hlog
  obtain ⟨hfirst, hrest⟩ := List.cons.inj hlog
  obtain ⟨rfl, rfl, rfl⟩ := Moment.mutates.inj hfirst
  obtain ⟨-, hlast⟩ := List.append_inj' hrest rfl
  obtain rfl := Moment.finishes.inj (List.cons.inj hlast).1
  exact ⟨turns, rfl, hfollows⟩

namespace World

variable {σ : Type} [Journal σ] {w w' w'' : World σ} {id : ObservableId}

/-- A mutation that stores a value refreshes the live entries of the list, each in its turn unless
it died before it. -/
theorem exists_refreshes_of_mutate (h : ∃ observable, w.observables.get? id = some observable)
    {react : Call → World σ → Program σ} {depth : Nat} {mutation : Mutation} {value : Value}
    (hvalue : mutation.newValue? (w.observable id).value = some value)
    (hrun : w.mutate (Client.answering react depth) id mutation = .ok w') :
    ∃ log refreshes calls refreshed,
      Traced.mutate (Traced.answering react depth) w id mutation = .ok (log, w') ∧
        log = (Episode.mk id mutation w (refreshes ++ calls) w').moments ∧
        InTurn Refreshes (w.stored id value) (w.liveSubscribers id) refreshes refreshed ∧
        Emits id refreshed mutation.events calls w' := by
  rw [← Traced.world_mutate (Traced.world_answering react depth)] at hrun
  obtain ⟨log, htraced⟩ := Traced.world_eq_ok.mp hrun
  obtain ⟨turns, hlog, hfollows⟩ :=
    Traced.exists_episode_of_mutate (Traced.obey_answering react depth) htraced
  cases hfollows with
  | @applied _ _ _ refreshed _ stored refreshes calls hstored hrefreshes hcalls =>
    obtain rfl : stored = value := Option.some.inj (hstored.symm.trans hvalue)
    rw [subscribers_stored h] at hrefreshes
    exact ⟨log, refreshes, calls, refreshed, htraced, hlog, hrefreshes, hcalls⟩
  | refused hnone => cases hnone.symm.trans hvalue

/-- However subscribing, unsubscribing, mutations and deaths follow one another since an observable
was created with some targets: the live entries of its list are the live ones of the targets that
stand, in the order of the calls and as often as they were subscribed. They are what is counted,
all that is in the list when a mutation has pruned it, and what this mutation refreshes. A live
target that is unsubscribed was subscribed exactly if it stands, and goes with all its entries.
After a live target was subscribed all entries are alive. What a mutation and the callbacks do that
it leads to is part of the run. -/
theorem SubscriptionRun.liveSubscribers_eq {observable : Observable}
    (hgiven : ∀ target ∈ observable.subscribers, w.Knows target) {calls : List Enrolment}
    (hrun : SubscriptionRun w.observables.next (w.addObservable observable) calls w') :
    let id := w.observables.next
    let made := observable.subscribers.map .subscribe ++ calls
    let live := (standing made).filter w'.isAlive
    w'.liveSubscribers id = live ∧ w'.subscriberCount id = live.length ∧
      (∀ value, ((w'.stored id value).observable id).subscribers = live ∧
        ∀ entry ∈ live, (w'.stored id value).isAlive entry = true) ∧
      (∀ react depth mutation value w'',
        mutation.newValue? (w'.observable id).value = some value →
        w'.mutate (Client.answering react depth) id mutation = .ok w'' →
          (∃ log refreshes later refreshed,
            Traced.mutate (Traced.answering react depth) w' id mutation = .ok (log, w'') ∧
              log = (Episode.mk id mutation w' (refreshes ++ later) w'').moments ∧
              InTurn Refreshes (w'.stored id value) live refreshes refreshed ∧
              Emits id refreshed mutation.events later w'') ∧
          ((∀ call w, (react call w).Passes (Enrols id)) →
            ∃ more, SubscriptionRun id (w.addObservable observable) (calls ++ more) w'')) ∧
      ∀ target, w'.isAlive target = true →
        ((w'.observable id).isSubscribed target = true ↔ Stands made target) ∧
        target ∉ ((w'.unsubscribe id target).observable id).subscribers ∧
        (w'.unsubscribe id target).liveSubscribers id = live.filter (· != target) ∧
        ((w'.subscribe id target).observable id).subscribers = live ++ [target] ∧
        ∀ entry ∈ ((w'.subscribe id target).observable id).subscribers,
          (w'.subscribe id target).isAlive entry = true := by
  intro id made live
  have hreflects : w'.Reflects id made := (reflects_addObservable w hgiven).run hrun
  obtain ⟨shown, hget⟩ := hreflects.exists_observable
  have hraw : shown.subscribers.filter w'.isAlive = live := hreflects.filter_isAlive hget
  refine ⟨hreflects.live, congrArg List.length hreflects.live, fun value ↦ ⟨?_, ?_⟩, ?_, ?_⟩
  · exact (subscribers_stored ⟨shown, hget⟩ value).trans hreflects.live
  · intro entry hentry
    exact (List.mem_filter.mp hentry).2
  · intro react depth mutation value w'' hvalue hmutate
    constructor
    · obtain ⟨log, refreshes, later, refreshed, htraced, hlog, hrefreshes, hcalls⟩ :=
        exists_refreshes_of_mutate ⟨shown, hget⟩ hvalue hmutate
      rw [hreflects.live] at hrefreshes
      exact ⟨log, refreshes, later, refreshed, htraced, hlog, hrefreshes, hcalls⟩
    · intro hreact
      have hpassage := Enrols.passage (σ := σ) id
      obtain ⟨more, hmore⟩ := hpassage.mutate (hpassage.answering hreact depth) hmutate
      exact ⟨more, hrun.trans hmore⟩
  · intro target halive
    have hunsubscribed := observable_modifyObservable hget (Observable.unsubscribe target)
    have hsubscribed := observable_modifyObservable hget (Observable.subscribe w'.isAlive target)
    have hentries : ((w'.subscribe id target).observable id).subscribers = live ++ [target] := by
      rw [World.subscribe, observable_eq hsubscribed, ← hraw]
      rfl
    refine ⟨?_, ?_, ?_, hentries, ?_⟩
    · rw [← mem_standing_iff, observable_eq hget, Observable.isSubscribed, List.contains_iff_mem]
      -- the target is alive, so that it is in the list exactly if it is among the live entries
      have hmem : target ∈ shown.subscribers.filter w'.isAlive ↔
          target ∈ (standing made).filter w'.isAlive := by
        rw [hraw]
      simpa [List.mem_filter, halive] using hmem
    · rw [World.unsubscribe, observable_eq hunsubscribed]
      simp [Observable.unsubscribe]
    · rw [World.liveSubscribers, World.unsubscribe, observable_eq hunsubscribed, ← hraw]
      exact List.filter_comm _ _ _
    · intro entry hentry
      rw [hentries] at hentry
      rcases List.mem_append.mp hentry with hlive | hlast
      · exact (List.mem_filter.mp hlive).2
      · rw [List.mem_singleton.mp hlast]
        exact halive

/-! Recorders 0 and 1 are subscribed, the former twice. Then 2 is subscribed, 0 is unsubscribed and
subscribed again, 2 is subscribed again, and 1 dies. When 2 is refreshed, it drops 0. -/

namespace Dismissal

def react : Call → World (List Note) → Program (List Note)
  | .act 2, _ => .change (fun w ↦ .ok (w.release (.recorder 0))) fun _ ↦ .done
  | _, _ => .done

/-- The world before there is an observable. -/
def bare : World (List Note) where
  recorders := ((Table.empty.push 0).push 1).push 2
  held := [.recorder 0, .recorder 1, .recorder 2]
  client := []

def observable : Observable where
  value := .number 1
  subscribers := [.recorder 0, .recorder 1, .recorder 0]

def calls : List Enrolment :=
  [.subscribe (.recorder 2), .unsubscribe (.recorder 0), .subscribe (.recorder 0),
    .subscribe (.recorder 2)]

/-- The world after the calls and the death. -/
def world : World (List Note) :=
  (((((bare.addObservable observable).subscribe 0 (.recorder 2)).unsubscribe 0
    (.recorder 0)).subscribe 0 (.recorder 0)).subscribe 0 (.recorder 2)).release (.recorder 1)

theorem passes_react (call : Call) (w : World (List Note)) : (react call w).Passes (Enrols 0) := by
  have hdone : (Program.done : Program (List Note)).Passes (Enrols 0) := trivial
  unfold react
  split
  · refine ⟨fun w w' hchange ↦ ?_, fun _ ↦ hdone⟩
    rw [← Except.ok.inj hchange]
    exact .aside rfl (.release w (.recorder 0))
  · exact hdone

theorem knows : ∀ target ∈ observable.subscribers, bare.Knows target := by
  simp [observable, bare, Knows, Table.push]

theorem subscriptionRun : SubscriptionRun 0 (bare.addObservable observable) calls world := by
  have hknows (id : RecorderId) (hid : id < 3) (observables : Table Observable) :
      Knows { bare with observables := observables } (.recorder id) := hid
  exact (((((SubscriptionRun.refl (bare.addObservable observable)).step
    (.subscribe (hknows 2 (by decide) _))).step (.unsubscribe _ (.recorder 0))).step
    (.subscribe (hknows 0 (by decide) _))).step (.subscribe (hknows 2 (by decide) _))).step
    (.aside rfl (.release _ (.recorder 1)))

theorem standing_eq : (standing (observable.subscribers.map .subscribe ++ calls)).filter
    world.isAlive = [.recorder 2, .recorder 0, .recorder 2] := by
  decide +kernel

/-- Recorder 2 has both its turns, and 0 has none. -/
theorem exists_traced : ∃ log w',
    Traced.mutate (Traced.answering react 1) world 0 (.set (.number 2)) = .ok (log, w') ∧
      log.filterMap Moment.callee? = [.target (.recorder 2), .target (.recorder 2)] := by
  have hcallees : (Traced.mutate (Traced.answering react 1) world 0 (.set (.number 2))).toOption.map
      (fun result ↦ result.1.filterMap Moment.callee?) =
        some [.target (.recorder 2), .target (.recorder 2)] := by
    decide +kernel
  cases hresult : Traced.mutate (Traced.answering react 1) world 0 (.set (.number 2)) with
  | error fault =>
    rw [hresult] at hcallees
    cases hcallees
  | ok result =>
    rw [hresult] at hcallees
    exact ⟨result.1, result.2, rfl, Option.some.inj hcallees⟩

end Dismissal

/-- The entry of the recorder that died is still there, and does not count; the one that dies in the
middle of the pass has no turn. -/
theorem SubscriptionRun.liveSubscribers_eq_dying :
    (∀ target ∈ Dismissal.observable.subscribers, Dismissal.bare.Knows target) ∧
      SubscriptionRun 0 (Dismissal.bare.addObservable Dismissal.observable) Dismissal.calls
        Dismissal.world ∧
      (Dismissal.world.observable 0).subscribers =
        [.recorder 1, .recorder 2, .recorder 0, .recorder 2] ∧
      Dismissal.world.liveSubscribers 0 = [.recorder 2, .recorder 0, .recorder 2] ∧
      Dismissal.world.subscriberCount 0 = 3 ∧
      (Dismissal.world.unsubscribe 0 (.recorder 2)).liveSubscribers 0 = [.recorder 0] ∧
      ∃ w' log refreshes later refreshed more,
        Dismissal.world.mutate (Client.answering Dismissal.react 1) 0 (.set (.number 2)) =
          .ok w' ∧
        Traced.mutate (Traced.answering Dismissal.react 1) Dismissal.world 0 (.set (.number 2)) =
          .ok (log, w') ∧
        log =
          (Episode.mk 0 (.set (.number 2)) Dismissal.world (refreshes ++ later) w').moments ∧
        InTurn Refreshes (Dismissal.world.stored 0 (.number 2))
          [.recorder 2, .recorder 0, .recorder 2] refreshes refreshed ∧
        log.filterMap Moment.callee? = [.target (.recorder 2), .target (.recorder 2)] ∧
        SubscriptionRun 0 (Dismissal.bare.addObservable Dismissal.observable)
          (Dismissal.calls ++ more) w' := by
  obtain ⟨hlive, hcount, -, hmutation, htarget⟩ :=
    SubscriptionRun.liveSubscribers_eq Dismissal.knows Dismissal.subscriptionRun
  have hstanding := Dismissal.standing_eq
  obtain ⟨-, -, hrest, -⟩ := htarget (.recorder 2) (by decide +kernel)
  rw [hstanding] at hrest
  obtain ⟨log, w', htraced, hcallees⟩ := Dismissal.exists_traced
  have hmutate : Dismissal.world.mutate (Client.answering Dismissal.react 1) 0
      (.set (.number 2)) = .ok w' := by
    rw [← Traced.world_mutate (Traced.world_answering Dismissal.react 1), htraced]
    rfl
  obtain ⟨⟨log', refreshes, later, refreshed, htraced', hlog, hrefreshes, -⟩, hmore⟩ :=
    hmutation Dismissal.react 1 (.set (.number 2)) (.number 2) w' rfl hmutate
  obtain ⟨more, hmore⟩ := hmore Dismissal.passes_react
  obtain ⟨rfl, -⟩ := Prod.mk.inj (Except.ok.inj (htraced.symm.trans htraced'))
  rw [hstanding] at hrefreshes
  exact ⟨Dismissal.knows, Dismissal.subscriptionRun, by decide +kernel, hlive.trans hstanding,
    hcount.trans (congrArg List.length hstanding), hrest, w', log, refreshes, later, refreshed,
    more, hmutate, htraced, hlog, hrefreshes, hcallees, hmore⟩

end World

end LiveMarkup
