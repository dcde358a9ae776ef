import LiveMarkup.Proofs.Calls.Protocol
import LiveMarkup.Proofs.World.Refreshing

/-!
The values that listeners are told. Only mutations store values: from one moment of a run to the
next, every observable keeps its value, but for what a mutation that starts stores in it
(`Moment.Chain`). A mutation reads the value that it announces when the calls before are over, so
that its listeners are told the value that was stored last (`lastStored`): its own, unless a
mutation nested in an earlier call stored another in the same observable (`Program.run_relays`). A
mutation during whose calls nothing is stored in its observable tells its own value
(`Episode.Relays.tellsOwn`); not every mutation does (`Program.not_forall_tellsOwn`).
-/

set_option autoImplicit false
set_option relaxedAutoImplicit false

namespace LiveMarkup

variable {σ α : Type}

/-! ### Values that are kept -/

/-- Every observable is still there and has the value that it had. -/
def World.KeepsValues (w w' : World σ) : Prop :=
  ∀ id observable, w.observables.get? id = some observable →
    ∃ observable', w'.observables.get? id = some observable' ∧
      observable'.value = observable.value

namespace World.KeepsValues

variable {w w' w'' : World σ}

theorem refl (w : World σ) : w.KeepsValues w := fun _ observable hget ↦ ⟨observable, hget, rfl⟩

theorem trans (h : w.KeepsValues w') (h' : w'.KeepsValues w'') : w.KeepsValues w'' := by
  intro id observable hget
  obtain ⟨between, hbetween, hvalue⟩ := h id observable hget
  obtain ⟨last, hlast, hvalue'⟩ := h' id between hbetween
  exact ⟨last, hlast, hvalue'.trans hvalue⟩

theorem of_eq (h : w'.observables = w.observables) : w.KeepsValues w' :=
  fun _ observable hget ↦ ⟨observable, by rw [h, hget], rfl⟩

end World.KeepsValues

/-! ### What is stored at a moment -/

namespace Moment

/-- The world at a moment. -/
def world : Moment σ → World σ
  | .mutates _ _ w => w
  | .calls _ w => w
  | .returns w => w
  | .skips _ w => w
  | .finishes w => w

/-- The value that is stored in an observable at a moment, if one is. -/
def stored? (observable : ObservableId) : Moment σ → Option Value
  | .mutates mutated mutation w =>
    if mutated = observable then mutation.newValue? (w.observable mutated).value else none
  | _ => none

/-- The world right after a moment: a mutation that starts has stored its value. -/
def after : Moment σ → World σ
  | .mutates mutated mutation w =>
    match mutation.newValue? (w.observable mutated).value with
    | some value => w.stored mutated value
    | none => w
  | moment => moment.world

/-- From one moment to the next, observables keep the values that they have right after it. -/
def Chain : World σ → List (Moment σ) → World σ → Prop
  | w, [], w' => w.KeepsValues w'
  | w, moment :: rest, w' => w.KeepsValues moment.world ∧ Chain moment.after rest w'

end Moment

/-- The value that was stored last in an observable that had a value before. -/
def lastStored (observable : ObservableId) (value : Value) (log : List (Moment σ)) : Value :=
  (log.filterMap (Moment.stored? observable)).getLastD value

theorem lastStored_cons (observable : ObservableId) (value : Value) (moment : Moment σ)
    (log : List (Moment σ)) :
    lastStored observable value (moment :: log) =
      lastStored observable ((moment.stored? observable).getD value) log := by
  unfold lastStored
  cases hstored : moment.stored? observable with
  | none => rw [List.filterMap_cons_none hstored, Option.getD_none]
  | some stored => rw [List.filterMap_cons_some hstored, List.getLastD_cons, Option.getD_some]

/-- An observable in which nothing is stored has the value that it had before. -/
theorem lastStored_eq_self {observable : ObservableId} {log : List (Moment σ)}
    (h : ∀ moment ∈ log, moment.stored? observable = none) (value : Value) :
    lastStored observable value log = value := by
  rw [lastStored, List.filterMap_eq_nil_iff.mpr h]
  rfl

theorem World.get?_stored {w : World σ} {id : ObservableId} {observable : Observable}
    (h : w.observables.get? id = some observable) (value : Value) :
    ∃ observable', (w.stored id value).observables.get? id = some observable' ∧
      observable'.value = value := by
  refine ⟨Observable.prune (w.store id value).isAlive { observable with value := value }, ?_, rfl⟩
  rw [stored, modifyObservable, Table.get?_modify, if_pos rfl, store, modifyObservable,
    Table.get?_modify, if_pos rfl, h]
  rfl

theorem World.get?_stored_of_ne {w : World σ} {id other : ObservableId} (h : id ≠ other)
    (value : Value) : (w.stored id value).observables.get? other = w.observables.get? other := by
  rw [stored, modifyObservable, Table.get?_modify, if_neg h, store, modifyObservable,
    Table.get?_modify, if_neg h]

/-- Right after a moment an observable has the value that is stored then, or the one before. -/
theorem Moment.exists_after (moment : Moment σ) {id : ObservableId} {observable : Observable}
    (h : moment.world.observables.get? id = some observable) :
    ∃ observable', moment.after.observables.get? id = some observable' ∧
      observable'.value = (moment.stored? id).getD observable.value := by
  cases moment with
  | mutates mutated mutation w =>
    change w.observables.get? id = some observable at h
    cases hnew : mutation.newValue? (w.observable mutated).value with
    | none =>
      simp only [after, stored?, hnew, ite_self, Option.getD_none]
      exact ⟨observable, h, rfl⟩
    | some value =>
      simp only [after, stored?, hnew]
      by_cases hsame : mutated = id
      · subst hsame
        rw [if_pos rfl, Option.getD_some]
        exact World.get?_stored h value
      · rw [if_neg hsame, Option.getD_none, World.get?_stored_of_ne hsame]
        exact ⟨observable, h, rfl⟩
  | calls => exact ⟨observable, h, rfl⟩
  | returns => exact ⟨observable, h, rfl⟩
  | skips => exact ⟨observable, h, rfl⟩
  | finishes => exact ⟨observable, h, rfl⟩

namespace Moment.Chain

variable {w w' w'' : World σ} {log later : List (Moment σ)}

theorem of_keepsValues (h : w.KeepsValues w') (hchain : Chain w' log w'') : Chain w log w'' := by
  cases log with
  | nil => exact h.trans hchain
  | cons moment rest => exact ⟨h.trans hchain.1, hchain.2⟩

theorem append (h : Chain w log w') (h' : Chain w' later w'') : Chain w (log ++ later) w'' := by
  induction log generalizing w with
  | nil => exact h'.of_keepsValues h
  | cons moment rest ih => exact ⟨h.1, ih h.2⟩

/-- A chain can be taken apart at each of its moments. -/
theorem split {moment : Moment σ} (h : Chain w (log ++ moment :: later) w') :
    Chain w log moment.world ∧ Chain moment.after later w' := by
  induction log generalizing w with
  | nil => exact h
  | cons first rest ih =>
    obtain ⟨hfirst, hrest⟩ := h
    exact ⟨⟨hfirst, (ih hrest).1⟩, (ih hrest).2⟩

/-- At the end of a chain an observable has the value that was stored last. -/
theorem exists_last (h : Chain w log w') {id : ObservableId} {observable : Observable}
    (hget : w.observables.get? id = some observable) :
    ∃ observable', w'.observables.get? id = some observable' ∧
      observable'.value = lastStored id observable.value log := by
  induction log generalizing w observable with
  | nil => exact h id observable hget
  | cons moment rest ih =>
    obtain ⟨before, hbefore, hvalue⟩ := h.1 id observable hget
    obtain ⟨after, hafter, hvalue'⟩ := moment.exists_after hbefore
    obtain ⟨last, hlast, hvalue''⟩ := ih h.2 hafter
    refine ⟨last, hlast, ?_⟩
    rw [hvalue'', lastStored_cons, hvalue', hvalue]

end Moment.Chain

/-! ### Runs store nothing besides -/

/-- A refresh changes no observable. -/
theorem World.observables_refresh [Journal σ] {w w' : World σ} {id : NodeId}
    (hid : .node id ∈ w.held) (h : w.refresh id = .ok w') : w'.observables = w.observables := by
  cases hmounting : (w.node? id).bind Node.mounting? with
  | none =>
    rw [refresh_of_unmounted hmounting] at h
    rw [← Except.ok.inj h]
  | some mounting =>
    obtain ⟨node, hnode, hmounting⟩ := Option.bind_eq_some_iff.mp hmounting
    obtain ⟨form, shown, markup, hshown, -, rfl⟩ := refresh_inv hid hnode hmounting h
    obtain ⟨hosts, client, hset, -⟩ := shown.setInner_eq mounting.host node.id markup
    rw [hset]
    exact hshown.carries.observables

/-- What a program does between its mutations changes no value. -/
def Program.KeepsValues : Program σ → Prop
  | .done => True
  | .change f next => (∀ w w', f w = .ok w' → w.KeepsValues w') ∧ ∀ w, (next w).KeepsValues
  | .mutate _ _ next => ∀ w, (next w).KeepsValues

/-- One chain after another is a chain. -/
theorem Moment.Chain.reading : Traced.Reading (Moment.Chain (σ := σ)) := ⟨.refl, append⟩

namespace Traced

/-- The call of a callee chains if its run does: nothing is stored when it starts or returns. -/
theorem chain_turn {w : World σ} {run : Traced σ} (h : Holds Moment.Chain w run)
    (callee : Callee) : Holds Moment.Chain w (turn callee w run) :=
  Moment.Chain.reading.between ⟨.refl w, .refl w⟩ h fun w' ↦ ⟨.refl w', .refl w'⟩

section Calls

variable {call : Call → World σ → Traced σ} (hcall : ∀ c w, Holds Moment.Chain w (call c w))

include hcall

theorem chain_emit (w : World σ) (observable : ObservableId) (event : Event) :
    Holds Moment.Chain w (emit call w observable event) :=
  Moment.Chain.reading.each (fun w _ ↦ chain_turn (hcall _ w) _) _ w

variable [Journal σ]

theorem chain_notify (w : World σ) (target : Target) :
    Holds Moment.Chain w (notify call w target) := by
  have hskip : Holds Moment.Chain w (skip target w) := by
    rintro _ _ ⟨⟩
    exact ⟨.refl w, .refl w⟩
  unfold notify
  cases target with
  | node id =>
    dsimp only
    split
    · have hrefresh : Holds Moment.Chain w (silently ((w.hold (.node id)).refresh id)) :=
        .silently fun w' h ↦
          .of_eq (World.observables_refresh (w := w.hold (.node id)) List.mem_cons_self h)
      refine chain_turn (Moment.Chain.reading.andThen hrefresh fun between ↦ ?_) _
      rintro _ _ ⟨⟩
      exact .of_eq rfl
    · exact hskip
  | recorder id =>
    dsimp only
    split
    · rename_i handler _
      have hkept : w.KeepsValues (w.hold (.recorder id)) := .of_eq rfl
      have hanswer : Holds Moment.Chain w (call (.act handler) (w.hold (.recorder id))) :=
        fun log w' hrun ↦ (hcall _ _ log w' hrun).of_keepsValues hkept
      refine chain_turn (Moment.Chain.reading.andThen hanswer fun between ↦ ?_) _
      rintro _ _ ⟨⟩
      exact .of_eq rfl
    · exact hskip

/-- The calls of a mutation that has stored its value chain from then on. -/
theorem chain_mutated (w : World σ) (observable : ObservableId) (value : Value) :
    Holds Moment.Chain (w.stored observable value)
      (mutated call (w.store observable value) observable) :=
  Moment.Chain.reading.andThen (Moment.Chain.reading.each (chain_notify hcall) _ _) fun between ↦
    chain_emit hcall between observable .mutate

theorem chain_mutate (w : World σ) (observable : ObservableId) (mutation : Mutation) :
    Holds Moment.Chain w (mutate call w observable mutation) := by
  refine Moment.Chain.reading.between ⟨.refl w, .refl _⟩ ?_ fun w' ↦ ⟨.refl w', .refl w'⟩
  cases mutation with
  | set value => exact chain_mutated hcall w observable value
  | operate operation =>
    dsimp only
    cases hnumber : (w.observable observable).value.number? with
    | none =>
      have hafter : (Moment.mutates observable (.operate operation) w).after = w := by
        simp only [Moment.after, Mutation.newValue?, hnumber, Option.map_none]
      rw [hafter]
      exact Moment.Chain.reading.nothing w
    | some n =>
      have hafter : (Moment.mutates observable (.operate operation) w).after =
          w.stored observable (.number (operation.apply n)) := by
        simp only [Moment.after, Mutation.newValue?, hnumber, Option.map_some]
      rw [hafter]
      exact Moment.Chain.reading.andThen (chain_mutated hcall w observable _) fun between ↦
        chain_emit hcall between observable operation.event

end Calls

end Traced

/-- A program that changes no value besides its mutations writes down a chain. -/
theorem Program.chain_traced [Journal σ] {call : Call → World σ → Traced σ}
    (hcall : ∀ c w, Traced.Holds Moment.Chain w (call c w)) {program : Program σ}
    (h : program.KeepsValues) (w : World σ) :
    Traced.Holds Moment.Chain w (program.traced call w) := by
  induction program generalizing w with
  | done => exact Moment.Chain.reading.nothing w
  | change f next ih =>
    exact Moment.Chain.reading.andThen (.silently (h.1 w)) fun between ↦
      ih between (h.2 between) between
  | mutate observable mutation next ih =>
    exact Moment.Chain.reading.andThen (Traced.chain_mutate hcall w observable mutation)
      fun between ↦ ih between (h between) between

theorem Traced.chain_answering [Journal σ] {react : Call → World σ → Program σ}
    (hreact : ∀ c w, (react c w).KeepsValues) (depth : Nat) (c : Call) (w : World σ) :
    Holds Moment.Chain w (answering react depth c w) := by
  induction depth generalizing c w with
  | zero => exact fun _ _ hrun ↦ by cases hrun
  | succ depth ih => exact (react c w).chain_traced ih (hreact c w) w

/-! ### Episodes within episodes -/

/-- An episode is another or is nested in it. -/
inductive Episode.Within : Episode σ → Episode σ → Prop where
  | refl (episode : Episode σ) : Within episode episode
  | inner {nested inner episode : Episode σ} {turn : Turn σ} (hturn : turn ∈ episode.turns)
      (hinner : inner ∈ turn.inner) (hwithin : Within nested inner) : Within nested episode

theorem Episode.Obeys.follows {nested episode : Episode σ} (h : episode.Obeys)
    (hwithin : nested.Within episode) : nested.Follows := by
  induction hwithin with
  | refl =>
    cases h with
    | mk hfollows => exact hfollows
  | inner hturn hinner _ ih =>
    cases h with
    | mk _ hnested => exact ih (hnested _ hturn _ hinner)

theorem Episode.allMoments_eq (episodes : List (Episode σ)) :
    allMoments episodes = (episodes.map moments).flatten := by
  induction episodes with
  | nil => rw [allMoments, List.map_nil, List.flatten_nil]
  | cons episode rest ih => rw [allMoments, ih, List.map_cons, List.flatten_cons]

theorem Turn.allMoments_eq (turns : List (Turn σ)) :
    allMoments turns = (turns.map moments).flatten := by
  induction turns with
  | nil => rw [allMoments, List.map_nil, List.flatten_nil]
  | cons turn rest ih => rw [allMoments, ih, List.map_cons, List.flatten_cons]

theorem Episode.moments_infix {episode : Episode σ} {episodes : List (Episode σ)}
    (h : episode ∈ episodes) : episode.moments <:+: Episode.allMoments episodes := by
  rw [allMoments_eq]
  exact List.infix_of_mem_flatten (List.mem_map_of_mem h)

theorem Turn.moments_infix {turn : Turn σ} {turns : List (Turn σ)} (h : turn ∈ turns) :
    turn.moments <:+: Turn.allMoments turns := by
  rw [allMoments_eq]
  exact List.infix_of_mem_flatten (List.mem_map_of_mem h)

theorem Turn.inner_infix (turn : Turn σ) : Episode.allMoments turn.inner <:+: turn.moments := by
  cases turn with
  | call callee before inner after =>
    rw [moments]
    exact ⟨[.calls callee before], [.returns after], by simp [Turn.inner]⟩
  | skip target before =>
    rw [Turn.inner, Episode.allMoments]
    exact List.nil_infix

theorem Episode.turns_infix (episode : Episode σ) :
    Turn.allMoments episode.turns <:+: episode.moments := by
  obtain ⟨observable, mutation, before, turns, after⟩ := episode
  rw [moments]
  exact ⟨[.mutates observable mutation before], [.finishes after], by simp [Episode.turns]⟩

/-- What a nested episode writes down is part of what the outer one does. -/
theorem Episode.Within.moments_infix {nested episode : Episode σ} (h : nested.Within episode) :
    nested.moments <:+: episode.moments := by
  induction h with
  | refl => exact List.infix_rfl
  | inner hturn hinner _ ih =>
    exact (ih.trans (Episode.moments_infix hinner)).trans
      (((Turn.inner_infix _).trans (Turn.moments_infix hturn)).trans (Episode.turns_infix _))

/-! ### What listeners are told -/

/-- The world when a turn is over. -/
def Turn.after : Turn σ → World σ
  | .call _ _ _ after => after
  | .skip _ w => w

/-- The last thing that a turn writes down is the world when it is over. -/
theorem Turn.exists_last (turn : Turn σ) :
    ∃ front last, turn.moments = front ++ [last] ∧ last.world = turn.after ∧
      last.after = turn.after := by
  cases turn with
  | call callee before inner after =>
    exact ⟨.calls callee before :: Episode.allMoments inner, .returns after, by rw [moments], rfl,
      rfl⟩
  | skip target w => exact ⟨[], .skips target w, by rw [moments, List.nil_append], rfl, rfl⟩

/-- A chain of turns, one after the other, can be taken apart where the last of them is over. -/
theorem InTurn.chain {takes : World σ → α → Turn σ → World σ → Prop}
    (htakes : ∀ {w a turn w'}, takes w a turn w' → turn.after = w') {w w' last : World σ}
    {list : List α} {turns : List (Turn σ)} {rest : List (Moment σ)}
    (h : InTurn takes w list turns w')
    (hchain : Moment.Chain w (Turn.allMoments turns ++ rest) last) :
    Moment.Chain w (Turn.allMoments turns) w' ∧ Moment.Chain w' rest last := by
  induction h with
  | nil =>
    rw [Turn.allMoments] at hchain ⊢
    exact ⟨.refl _, hchain⟩
  | @cons w between w' a others turn turns hfirst _ ih =>
    obtain ⟨front, moment, hmoments, hworld, hafter⟩ := turn.exists_last
    rw [htakes hfirst] at hworld hafter
    rw [Turn.allMoments, hmoments, List.append_assoc, List.append_assoc, List.singleton_append]
      at hchain
    obtain ⟨hbefore, hlater⟩ := hchain.split
    rw [hworld] at hbefore
    rw [hafter] at hlater
    obtain ⟨hturns, hrest⟩ := ih hlater
    refine ⟨?_, hrest⟩
    have hturn : Moment.Chain w (front ++ [moment]) between := by
      refine hbefore.append ⟨?_, ?_⟩
      · rw [hworld]
        exact .refl between
      · rw [hafter]
        exact .refl between
    rw [Turn.allMoments, hmoments]
    exact hturn.append hturns

/-- Events of an observable are emitted after some turns, and each of their listeners is told the
value that was stored last in the turns before the event, or else the given one. -/
inductive Relays (observable : ObservableId) (value : Value) :
    List (Turn σ) → World σ → List Event → List (Turn σ) → World σ → Prop where
  | nil {earlier : List (Turn σ)} {w : World σ} : Relays observable value earlier w [] [] w
  | cons {earlier turns later : List (Turn σ)} {w between w' : World σ} {event : Event}
      {rest : List Event}
      (hfirst : InTurn (Tells (lastStored observable value (Turn.allMoments earlier))) w
        ((w.observable observable).listeners event) turns between)
      (hrest : Relays observable value (earlier ++ turns) between rest later w') :
      Relays observable value earlier w (event :: rest) (turns ++ later) w'

/-- In a mutation of an observable that exists, the listeners of each event are told the value that
the mutation stores, or the last one that a nested mutation stored in the observable before. -/
def Episode.Relays : Episode σ → Prop
  | .mk observable mutation before turns after =>
    ∀ value, before.observables.contains observable = true →
      mutation.newValue? (before.observable observable).value = some value →
        ∃ refreshes refreshed calls, turns = refreshes ++ calls ∧
          InTurn LiveMarkup.Refreshes (before.stored observable value)
            ((before.stored observable value).observable observable).subscribers refreshes
            refreshed ∧
          LiveMarkup.Relays observable value refreshes refreshed mutation.events calls after

/-- What is emitted is what was stored last. -/
theorem Emits.relays {observable : ObservableId} {value : Value} {start w w' : World σ}
    {found : Observable} (hget : start.observables.get? observable = some found)
    (hvalue : found.value = value) {events : List Event} {earlier turns : List (Turn σ)}
    (h : Emits observable w events turns w')
    (hearlier : Moment.Chain start (Turn.allMoments earlier) w)
    (hturns : Moment.Chain w (Turn.allMoments turns) w') :
    Relays observable value earlier w events turns w' := by
  induction h generalizing earlier with
  | nil => exact .nil
  | @cons w between w' event rest turns later hfirst _ ih =>
    obtain ⟨found', hget', hvalue'⟩ := hearlier.exists_last hget
    have htold : (w.observable observable).value =
        lastStored observable value (Turn.allMoments earlier) := by
      rw [World.observable, hget', Option.getD_some, hvalue', hvalue]
    rw [htold] at hfirst
    rw [Turn.allMoments_append] at hturns
    obtain ⟨hnow, hlater⟩ := hfirst.chain (by rintro _ _ _ _ ⟨⟩; rfl) hturns
    refine .cons hfirst (ih ?_ hlater)
    rw [Turn.allMoments_append]
    exact hearlier.append hnow

/-- The turns of an episode that stands in a chain are a chain. -/
theorem Episode.chain_turns {observable : ObservableId} {mutation : Mutation}
    {w before after w' : World σ} {turns : List (Turn σ)} {log : List (Moment σ)}
    (h : (Episode.mk observable mutation before turns after).moments <:+: log)
    (hchain : Moment.Chain w log w') :
    Moment.Chain (Moment.mutates observable mutation before).after (Turn.allMoments turns)
      after := by
  obtain ⟨front, back, rfl⟩ := h
  simp only [moments, List.append_assoc, List.cons_append, List.nil_append] at hchain
  exact hchain.split.2.split.1

/-- An episode of a chain relays if it follows the protocol. -/
theorem Episode.Follows.relays {episode : Episode σ} (h : episode.Follows) {w w' : World σ}
    {log : List (Moment σ)} (hpart : episode.moments <:+: log) (hchain : Moment.Chain w log w') :
    episode.Relays := by
  cases h with
  | @applied observable mutation before refreshed after value refreshes calls hvalue hrefreshes
      hcalls =>
    intro value' hexists hvalue'
    obtain rfl : value = value' := Option.some.inj (hvalue.symm.trans hvalue')
    refine ⟨refreshes, refreshed, calls, rfl, hrefreshes, ?_⟩
    have hturns := Episode.chain_turns hpart hchain
    have hstored : (Moment.mutates observable mutation before).after =
        before.stored observable value := by
      simp only [Moment.after, hvalue]
    rw [hstored, Turn.allMoments_append] at hturns
    have htakes {w w' : World σ} {target : Target} {turn : Turn σ}
        (h : LiveMarkup.Refreshes w target turn w') : turn.after = w' := by
      cases h <;> rfl
    obtain ⟨hfirst, hlater⟩ := hrefreshes.chain htakes hturns
    rw [← Table.isSome_get?] at hexists
    obtain ⟨found, hfound⟩ := Option.isSome_iff_exists.mp hexists
    obtain ⟨found', hget, hnew⟩ := World.get?_stored hfound value
    exact hcalls.relays hget hnew hfirst hlater
  | refused hvalue =>
    intro value _ hvalue'
    rw [hvalue] at hvalue'
    cases hvalue'

/-- Whatever a program and the callbacks that it leads to do, provided that they change values by
mutations only: if the program ends, then in all mutations of its run, the outer ones and the nested
ones, the listeners are told the value of the mutation itself, or the last one that a mutation
nested in an earlier turn stored in the same observable. -/
theorem Program.run_relays [Journal σ] {react : Call → World σ → Program σ}
    (hreact : ∀ call w, (react call w).KeepsValues) (depth : Nat) {program : Program σ}
    (hprogram : program.KeepsValues) {w w' : World σ}
    (hrun : program.run (Client.answering react depth) w = .ok w') :
    ∃ log episodes, program.traced (Traced.answering react depth) w = .ok (log, w') ∧
      log = Episode.allMoments episodes ∧
        ∀ episode ∈ episodes, ∀ nested : Episode σ, nested.Within episode → nested.Relays := by
  rw [← program.world_traced (Traced.world_answering react depth)] at hrun
  obtain ⟨log, htraced⟩ := Traced.world_eq_ok.mp hrun
  obtain ⟨episodes, hlog, hobey⟩ :=
    program.exists_episodes (Traced.obey_answering react depth) htraced
  have hchain : Moment.Chain w log w' :=
    Program.chain_traced (Traced.chain_answering hreact depth) hprogram w log w' htraced
  refine ⟨log, episodes, htraced, hlog, fun episode hepisode nested hwithin ↦ ?_⟩
  refine ((hobey episode hepisode).follows hwithin).relays ?_ hchain
  rw [hlog]
  exact hwithin.moments_infix.trans (Episode.moments_infix hepisode)

/-- The listeners of a mutation are told the value that the mutation stores. -/
def Episode.TellsOwn : Episode σ → Prop
  | .mk observable mutation before turns _ =>
    ∀ value, mutation.newValue? (before.observable observable).value = some value →
      ∀ listener told w inner w', .call (.listener listener told) w inner w' ∈ turns → told = value

theorem InTurn.exists_takes {takes : World σ → α → Turn σ → World σ → Prop} {w w' : World σ}
    {list : List α} {turns : List (Turn σ)} (h : InTurn takes w list turns w') {turn : Turn σ}
    (hturn : turn ∈ turns) : ∃ before a after, takes before a turn after := by
  induction h with
  | nil => cases hturn
  | cons hfirst _ ih =>
    rcases List.mem_cons.mp hturn with rfl | hrest
    · exact ⟨_, _, _, hfirst⟩
    · exact ih hrest

/-- What listeners are told is the given value as long as nothing is stored. -/
theorem Relays.told_eq {observable : ObservableId} {value : Value} {earlier turns : List (Turn σ)}
    {w w' : World σ} {events : List Event}
    (h : LiveMarkup.Relays observable value earlier w events turns w')
    (hstored : ∀ moment ∈ Turn.allMoments (earlier ++ turns), moment.stored? observable = none)
    {listener : Handler} {told : Value} {before after : World σ} {inner : List (Episode σ)}
    (hturn : .call (.listener listener told) before inner after ∈ turns) : told = value := by
  induction h with
  | nil => cases hturn
  | cons hfirst _ ih =>
    rw [← List.append_assoc] at hstored
    rcases List.mem_append.mp hturn with hnow | hlater
    · obtain ⟨_, _, _, htells⟩ := hfirst.exists_takes hnow
      cases htells
      refine lastStored_eq_self (fun moment hmoment ↦ hstored moment ?_) value
      rw [List.append_assoc, Turn.allMoments_append]
      exact List.mem_append_left _ hmoment
    · exact ih hstored hlater

/-- A mutation in whose turns nothing is stored in its observable tells its own value. -/
theorem Episode.Relays.tellsOwn {observable : ObservableId} {mutation : Mutation}
    {before after : World σ} {turns : List (Turn σ)}
    (h : (Episode.mk observable mutation before turns after).Relays)
    (hexists : before.observables.contains observable = true)
    (hstored : ∀ moment ∈ Turn.allMoments turns, moment.stored? observable = none) :
    (Episode.mk observable mutation before turns after).TellsOwn := by
  intro value hvalue listener told w inner w' hturn
  obtain ⟨refreshes, refreshed, calls, rfl, hrefreshes, hcalls⟩ := h value hexists hvalue
  rcases List.mem_append.mp hturn with hrefresh | hcall
  · obtain ⟨_, _, _, htakes⟩ := hrefreshes.exists_takes hrefresh
    cases htakes
  · exact hcalls.told_eq hstored hcall

/-! ### A switch that is turned off whenever it is turned on -/

namespace Switch

/-- Recorder 0 turns the switch off if it is on. -/
def react : Call → World (List Note) → Program (List Note)
  | .act 0, w =>
    match (w.observable 0).value with
    | .flag true => .mutate 0 (.set (.flag false)) fun _ ↦ .done
    | _ => .done
  | _, _ => .done

/-- The switch is off, recorder 0 is subscribed to it, and listener 10 hears of mutations. -/
def world : World (List Note) where
  recorders := Table.empty.push 0
  held := [.recorder 0]
  observables :=
    let switch : Observable := { value := .flag false, subscribers := [.recorder 0] }
    Table.empty.push (switch.register .mutate 10)
  client := []

/-- The switch is turned on. -/
def turnOn : Program (List Note) := .mutate 0 (.set (.flag true)) fun _ ↦ .done

theorem keepsValues_react (call : Call) (w : World (List Note)) : (react call w).KeepsValues := by
  unfold react
  split
  · split <;> simp [Program.KeepsValues]
  · simp [Program.KeepsValues]

theorem keepsValues_turnOn : turnOn.KeepsValues := fun _ ↦ trivial

/-- The recorder turns the switch off before the listener hears that it was turned on. -/
theorem exists_episode_turnOn :
    ∃ w' before refresh between after last,
      turnOn.traced (Traced.answering react 2) world =
        .ok (Episode.moments (.mk 0 (.set (.flag true)) before
          [refresh, .call (.listener 10 (.flag false)) between [] after] last), w') := by
  obtain ⟨w', w₀, w₁, w₂, w₃, w₄, w₅, w₆, w₇, w₈, w₉, w₁₀, w₁₁, hrun⟩ :
      ∃ w' w₀ w₁ w₂ w₃ w₄ w₅ w₆ w₇ w₈ w₉ w₁₀ w₁₁,
        turnOn.traced (Traced.answering react 2) world =
          .ok ([.mutates 0 (.set (.flag true)) w₀, .calls (.target (.recorder 0)) w₁,
            .mutates 0 (.set (.flag false)) w₂, .calls (.target (.recorder 0)) w₃, .returns w₄,
            .calls (.listener 10 (.flag false)) w₅, .returns w₆, .finishes w₇, .returns w₈,
            .calls (.listener 10 (.flag false)) w₉, .returns w₁₀, .finishes w₁₁], w') :=
    ⟨_, _, _, _, _, _, _, _, _, _, _, _, _, rfl⟩
  let nested : Episode (List Note) :=
    .mk 0 (.set (.flag false)) w₂
      [.call (.target (.recorder 0)) w₃ [] w₄, .call (.listener 10 (.flag false)) w₅ [] w₆] w₇
  refine ⟨w', w₀, .call (.target (.recorder 0)) w₁ [nested] w₈, w₉, w₁₀, w₁₁, ?_⟩
  simp only [nested, Episode.moments, Turn.allMoments, Turn.moments, Episode.allMoments]
  exact hrun

end Switch

/-- The switch is turned on and, nested, off. -/
theorem Program.run_relays_switch :
    ∃ w' log episodes,
      Switch.turnOn.run (Client.answering Switch.react 2) Switch.world = .ok w' ∧
        Switch.turnOn.traced (Traced.answering Switch.react 2) Switch.world = .ok (log, w') ∧
          log = Episode.allMoments episodes ∧
            ∀ episode ∈ episodes, ∀ nested : Episode (List Note), nested.Within episode →
              nested.Relays := by
  obtain ⟨w', _, _, _, _, _, htraced⟩ := Switch.exists_episode_turnOn
  have hrun : Switch.turnOn.run (Client.answering Switch.react 2) Switch.world = .ok w' := by
    rw [← Program.world_traced (Traced.world_answering Switch.react 2), htraced]
    rfl
  obtain ⟨log, episodes, htraced', hlog, hrelays⟩ :=
    Program.run_relays Switch.keepsValues_react 2 Switch.keepsValues_turnOn hrun
  exact ⟨w', log, episodes, hrun, htraced', hlog, hrelays⟩

/-- A mutation need not tell its own value: the listener hears from the mutation that turns the
switch on that it is off. -/
theorem Program.not_forall_tellsOwn :
    ¬∀ (react : Call → World (List Note) → Program (List Note)) (depth : Nat)
      (program : Program (List Note)) (w w' : World (List Note)) (episode : Episode (List Note)),
      (∀ call w, (react call w).KeepsValues) → program.KeepsValues →
        program.traced (Traced.answering react depth) w = .ok (episode.moments, w') →
          episode.TellsOwn := by
  intro h
  obtain ⟨w', before, refresh, between, after, last, htraced⟩ := Switch.exists_episode_turnOn
  have htells := h Switch.react 2 Switch.turnOn Switch.world w' _ Switch.keepsValues_react
    Switch.keepsValues_turnOn htraced
  have htold : Value.flag false = Value.flag true :=
    htells (.flag true) rfl 10 (.flag false) between [] after (by simp)
  simp at htold

end LiveMarkup
