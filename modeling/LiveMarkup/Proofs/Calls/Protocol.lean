import LiveMarkup.Proofs.Calls.Tracing

/-!
The protocol of a mutation, however calls nest. What is written down in a run is read as a list of
episodes: mutations with the turns of those that they called, each of which consists of the episodes
of the mutations that it made in its turn (`Episode`, `Turn`). In each episode, the outer ones and
the nested ones, the calls follow the protocol (`Episode.Follows`): the targets that were subscribed
when the new value was stored and dead entries were pruned, each refreshed in its turn unless it
died before it; then the listeners of `mutate` that were registered when the last target had its
turn; then, after an arithmetic operation, the listeners of that operation that were registered when
the last listener of `mutate` had returned. Every run that ends is read in this way
(`Program.run_obeys`).
-/

set_option autoImplicit false
set_option relaxedAutoImplicit false

namespace LiveMarkup

variable {σ α : Type}

/-! ### Reading what is written down -/

mutual

/-- A mutation of an observable with the turns of those that it called, between two worlds. -/
inductive Episode (σ : Type) where
  | mk (observable : ObservableId) (mutation : Mutation) (before : World σ) (turns : List (Turn σ))
    (after : World σ)

/-- The turn of one that a mutation calls. -/
inductive Turn (σ : Type) where
  /-- It was called, and made these mutations before it returned. -/
  | call (callee : Callee) (before : World σ) (inner : List (Episode σ)) (after : World σ)
  /-- It was dead. -/
  | skip (target : Target) (before : World σ)

end

mutual

/-- What an episode writes down. -/
def Episode.moments : Episode σ → List (Moment σ)
  | .mk observable mutation before turns after =>
    .mutates observable mutation before :: Turn.allMoments turns ++ [.finishes after]

/-- What a turn writes down. -/
def Turn.moments : Turn σ → List (Moment σ)
  | .call callee before inner after =>
    .calls callee before :: Episode.allMoments inner ++ [.returns after]
  | .skip target before => [.skips target before]

/-- What several episodes write down, one after the other. -/
def Episode.allMoments : List (Episode σ) → List (Moment σ)
  | [] => []
  | episode :: rest => episode.moments ++ Episode.allMoments rest

/-- What several turns write down, one after the other. -/
def Turn.allMoments : List (Turn σ) → List (Moment σ)
  | [] => []
  | turn :: rest => turn.moments ++ Turn.allMoments rest

end

theorem Turn.allMoments_append (turns later : List (Turn σ)) :
    Turn.allMoments (turns ++ later) = Turn.allMoments turns ++ Turn.allMoments later := by
  induction turns with
  | nil => rw [Turn.allMoments, List.nil_append, List.nil_append]
  | cons turn rest ih => rw [List.cons_append, allMoments, ih, allMoments, List.append_assoc]

mutual

/-- What is written down can be read in one way only: where an episode starts, it is known where it
ends, and so for turns. -/
theorem Episode.eq_of_moments_append :
    ∀ {episode episode' : Episode σ} {rest rest' : List (Moment σ)},
    episode.moments ++ rest = episode'.moments ++ rest' → episode = episode' ∧ rest = rest'
  | .mk _ _ _ _ _, .mk _ _ _ _ _, _, _, h => by
    simp only [Episode.moments, List.cons_append, List.append_assoc, List.nil_append,
      List.cons.injEq,
      Moment.mutates.injEq] at h
    obtain ⟨⟨rfl, rfl, rfl⟩, hturns⟩ := h
    obtain ⟨rfl, rfl, rfl⟩ := Turn.eq_of_allMoments_append hturns
    exact ⟨rfl, rfl⟩

theorem Turn.eq_of_moments_append : ∀ {turn turn' : Turn σ} {rest rest' : List (Moment σ)},
    turn.moments ++ rest = turn'.moments ++ rest' → turn = turn' ∧ rest = rest'
  | .call _ _ _ _, .call _ _ _ _, _, _, h => by
    simp only [Turn.moments, List.cons_append, List.append_assoc, List.nil_append, List.cons.injEq,
      Moment.calls.injEq] at h
    obtain ⟨⟨rfl, rfl⟩, hinner⟩ := h
    obtain ⟨rfl, rfl, rfl⟩ := Episode.eq_of_allMoments_append hinner
    exact ⟨rfl, rfl⟩
  | .skip _ _, .skip _ _, _, _, h => by simpa [Turn.moments, and_assoc] using h
  | .call _ _ _ _, .skip _ _, _, _, h => by simp [Turn.moments] at h
  | .skip _ _, .call _ _ _ _, _, _, h => by simp [Turn.moments] at h

/-- The episodes of a turn end where it returns. -/
theorem Episode.eq_of_allMoments_append : ∀ {episodes episodes' : List (Episode σ)}
    {w w' : World σ} {rest rest' : List (Moment σ)},
    Episode.allMoments episodes ++ .returns w :: rest =
        Episode.allMoments episodes' ++ .returns w' :: rest' →
      episodes = episodes' ∧ w = w' ∧ rest = rest'
  | [], [], _, _, _, _, h => by simpa [Episode.allMoments] using h
  | episode :: later, episode' :: later', _, _, _, _, h => by
    rw [Episode.allMoments, Episode.allMoments, List.append_assoc, List.append_assoc] at h
    obtain ⟨rfl, hlater⟩ := Episode.eq_of_moments_append h
    obtain ⟨rfl, rfl, rfl⟩ := Episode.eq_of_allMoments_append hlater
    exact ⟨rfl, rfl, rfl⟩
  | [], .mk _ _ _ _ _ :: _, _, _, _, _, h => by simp [Episode.allMoments, Episode.moments] at h
  | .mk _ _ _ _ _ :: _, [], _, _, _, _, h => by simp [Episode.allMoments, Episode.moments] at h

/-- The turns of an episode end where it is finished. -/
theorem Turn.eq_of_allMoments_append : ∀ {turns turns' : List (Turn σ)} {w w' : World σ}
    {rest rest' : List (Moment σ)},
    Turn.allMoments turns ++ .finishes w :: rest = Turn.allMoments turns' ++ .finishes w' :: rest' →
      turns = turns' ∧ w = w' ∧ rest = rest'
  | [], [], _, _, _, _, h => by simpa [Turn.allMoments] using h
  | turn :: later, turn' :: later', _, _, _, _, h => by
    rw [Turn.allMoments, Turn.allMoments, List.append_assoc, List.append_assoc] at h
    obtain ⟨rfl, hlater⟩ := Turn.eq_of_moments_append h
    obtain ⟨rfl, rfl, rfl⟩ := Turn.eq_of_allMoments_append hlater
    exact ⟨rfl, rfl, rfl⟩
  | [], turn :: _, _, _, _, _, h => by cases turn <;> simp [Turn.allMoments, Turn.moments] at h
  | turn :: _, [], _, _, _, _, h => by cases turn <;> simp [Turn.allMoments, Turn.moments] at h

end

/-- What is written down tells the episodes. -/
theorem Episode.allMoments_injective {episodes episodes' : List (Episode σ)} (w : World σ)
    (h : allMoments episodes = allMoments episodes') : episodes = episodes' := by
  have hended : allMoments episodes ++ [.returns w] = allMoments episodes' ++ [.returns w] := by
    rw [h]
  exact (eq_of_allMoments_append hended).1

/-- The mutations that were made in a turn. -/
def Turn.inner : Turn σ → List (Episode σ)
  | .call _ _ inner _ => inner
  | .skip _ _ => []

/-! ### The protocol -/

/-- The value that a mutation stores. An operation stores nothing if the value is no number. -/
def Mutation.newValue? (old : Value) : Mutation → Option Value
  | .set value => some value
  | .operate operation => old.number?.map fun n ↦ .number (operation.apply n)

/-- The events that a mutation emits, in order. -/
def Mutation.events : Mutation → List Event
  | .set _ => [.mutate]
  | .operate operation => [.mutate, operation.event]

/-- The turn of a target: it is refreshed if it is alive when its turn comes. -/
inductive Refreshes : World σ → Target → Turn σ → World σ → Prop where
  | alive {w w' : World σ} {target : Target} {inner : List (Episode σ)}
      (halive : w.isAlive target = true) : Refreshes w target (.call (.target target) w inner w') w'
  | dead {w : World σ} {target : Target} (hdead : w.isAlive target = false) :
      Refreshes w target (.skip target w) w

/-- The turn of a listener: it is told a value. -/
inductive Tells (value : Value) : World σ → Handler → Turn σ → World σ → Prop where
  | told {w w' : World σ} {listener : Handler} {inner : List (Episode σ)} :
      Tells value w listener (.call (.listener listener value) w inner w') w'

/-- All of a list have their turns, one after the other and once for each time they are listed. -/
inductive InTurn (takes : World σ → α → Turn σ → World σ → Prop) :
    World σ → List α → List (Turn σ) → World σ → Prop where
  | nil {w : World σ} : InTurn takes w [] [] w
  | cons {w between w' : World σ} {a : α} {rest : List α} {turn : Turn σ} {turns : List (Turn σ)}
      (hfirst : takes w a turn between) (hrest : InTurn takes between rest turns w') :
      InTurn takes w (a :: rest) (turn :: turns) w'

/-- Events of an observable are emitted, one after the other. The listeners of an event are those
that are registered when the calls for the event before are over. -/
inductive Emits (observable : ObservableId) :
    World σ → List Event → List (Turn σ) → World σ → Prop where
  | nil {w : World σ} : Emits observable w [] [] w
  | cons {w between w' : World σ} {event : Event} {rest : List Event} {turns later : List (Turn σ)}
      (hfirst : InTurn (Tells (w.observable observable).value) w
        ((w.observable observable).listeners event) turns between)
      (hrest : Emits observable between rest later w') :
      Emits observable w (event :: rest) (turns ++ later) w'

/-- The world in which a mutation starts to call: the new value is stored, and the entries of dead
subscribers are gone. -/
def World.stored (w : World σ) (observable : ObservableId) (value : Value) : World σ :=
  (w.store observable value).modifyObservable observable
    (Observable.prune (w.store observable value).isAlive)

/-- The calls of a mutation follow the protocol: the subscribers of the moment when the value is
stored have their turns, and then the listeners of its events. A mutation that stores nothing calls
nobody. -/
inductive Episode.Follows : Episode σ → Prop where
  | applied {observable : ObservableId} {mutation : Mutation} {before refreshed after : World σ}
      {value : Value} {refreshes calls : List (Turn σ)}
      (hvalue : mutation.newValue? (before.observable observable).value = some value)
      (hrefreshes : InTurn Refreshes (before.stored observable value)
        ((before.stored observable value).observable observable).subscribers refreshes refreshed)
      (hcalls : Emits observable refreshed mutation.events calls after) :
      Follows (.mk observable mutation before (refreshes ++ calls) after)
  | refused {observable : ObservableId} {mutation : Mutation} {before : World σ}
      (hvalue : mutation.newValue? (before.observable observable).value = none) :
      Follows (.mk observable mutation before [] before)

/-- The turns of an episode. -/
def Episode.turns : Episode σ → List (Turn σ)
  | .mk _ _ _ turns _ => turns

/-- An episode and all episodes nested in it follow the protocol. -/
inductive Episode.Obeys : Episode σ → Prop where
  | mk {episode : Episode σ} (hfollows : episode.Follows)
      (hnested : ∀ turn ∈ episode.turns, ∀ nested ∈ turn.inner, Obeys nested) : Obeys episode

/-- All episodes of a turn obey. -/
def Turn.Obeys (turn : Turn σ) : Prop := ∀ episode ∈ turn.inner, episode.Obeys

/-! ### Taking runs apart -/

namespace Traced

theorem world_eq_ok {run : Traced σ} {w : World σ} :
    run.world = .ok w ↔ ∃ log, run = .ok (log, w) := by
  rcases run with fault | ⟨log, last⟩
  · simp [world, Except.map]
  · simp [world, Except.map]

theorem silently_eq_ok {run : Except Fault (World σ)} {log : List (Moment σ)} {w : World σ} :
    silently run = .ok (log, w) ↔ run = .ok w ∧ log = [] := by
  cases run <;> simp [silently, Except.map, eq_comm, and_comm]

theorem andThen_eq_ok {run : Traced σ} {next : World σ → Traced σ} {log : List (Moment σ)}
    {w' : World σ} :
    run.andThen next = .ok (log, w') ↔
      ∃ earlier w later, run = .ok (earlier, w) ∧ next w = .ok (later, w') ∧
        log = earlier ++ later := by
  rcases run with fault | ⟨earlier, w⟩
  · simp [andThen, Except.bind]
  · cases hnext : next w with
    | error fault => simp [andThen, Except.bind, Except.map, hnext]
    | ok result =>
      obtain ⟨later, last⟩ := result
      simp [andThen, Except.bind, Except.map, hnext, eq_comm, and_comm]

theorem between_eq_ok {first : Moment σ} {run : Traced σ} {last : World σ → Moment σ}
    {log : List (Moment σ)} {w : World σ} :
    between first run last = .ok (log, w) ↔
      ∃ inner, run = .ok (inner, w) ∧ log = first :: inner ++ [last w] := by
  rcases run with fault | ⟨inner, w⟩
  · simp [between, Except.map]
  · constructor
    · intro h
      obtain ⟨rfl, rfl⟩ := Prod.mk.inj (Except.ok.inj h)
      exact ⟨inner, rfl, rfl⟩
    · rintro ⟨_, hrun, rfl⟩
      obtain ⟨rfl, rfl⟩ := Prod.mk.inj (Except.ok.inj hrun)
      rfl

/-- A relation between the world at the start of a run, what the run writes down and the world at
its end, which one run after the other keeps up. -/
structure Reading (R : World σ → List (Moment σ) → World σ → Prop) : Prop where
  nil : ∀ w, R w [] w
  append : ∀ {w between w' earlier later}, R w earlier between → R between later w' →
    R w (earlier ++ later) w'

/-- However a run from a world ends, the relation holds. -/
def Holds (R : World σ → List (Moment σ) → World σ → Prop) (w : World σ) (run : Traced σ) : Prop :=
  ∀ log w', run = .ok (log, w') → R w log w'

section

variable {R : World σ → List (Moment σ) → World σ → Prop} {w : World σ}

theorem Holds.silently {run : Except Fault (World σ)} (h : ∀ w', run = .ok w' → R w [] w') :
    Holds R w (Traced.silently run) := by
  intro log w' hrun
  obtain ⟨hend, rfl⟩ := silently_eq_ok.mp hrun
  exact h w' hend

namespace Reading

variable (h : Reading R)

include h

theorem nothing (w : World σ) : Holds R w (Traced.nothing w) := by
  rintro _ _ ⟨⟩
  exact h.nil w

theorem andThen {run : Traced σ} {next : World σ → Traced σ} (hrun : Holds R w run)
    (hnext : ∀ between, Holds R between (next between)) : Holds R w (run.andThen next) := by
  intro log w' hboth
  obtain ⟨earlier, between, later, hfirst, hrest, rfl⟩ := andThen_eq_ok.mp hboth
  exact h.append (hrun earlier between hfirst) (hnext between later w' hrest)

theorem each {step : World σ → α → Traced σ} (hstep : ∀ w a, Holds R w (step w a)) (list : List α)
    (w : World σ) : Holds R w (Traced.each step list w) := by
  induction list generalizing w with
  | nil => exact h.nothing w
  | cons a rest ih => exact h.andThen (hstep w a) ih

/-- A run between two moments may start from another world, which the first one leads to. -/
theorem between {start : World σ} {first : Moment σ} {run : Traced σ} {last : World σ → Moment σ}
    (hfirst : R w [first] start) (hrun : Holds R start run) (hlast : ∀ w', R w' [last w'] w') :
    Holds R w (Traced.between first run last) := by
  intro log w' hboth
  obtain ⟨inner, hinner, rfl⟩ := between_eq_ok.mp hboth
  show R w ([first] ++ (inner ++ [last w'])) w'
  exact h.append hfirst (h.append (hrun inner w' hinner) (hlast w'))

end Reading

end

end Traced

/-! ### Runs obey -/

/-- Answers that consist of episodes, all of which obey. -/
def Traced.Obey (call : Call → World σ → Traced σ) : Prop :=
  ∀ c w log w', call c w = .ok (log, w') →
    ∃ episodes, log = Episode.allMoments episodes ∧ ∀ episode ∈ episodes, episode.Obeys

namespace Traced

/-- A list of steps writes down the turns that the steps write down. -/
theorem exists_inTurn {takes : World σ → α → Turn σ → World σ → Prop}
    {step : World σ → α → Traced σ} {list : List α} {w w' : World σ} {log : List (Moment σ)}
    (hrun : each step list w = .ok (log, w'))
    (hstep : ∀ {w a log w'}, step w a = .ok (log, w') →
      ∃ turn, log = turn.moments ∧ takes w a turn w' ∧ turn.Obeys) :
    ∃ turns, log = Turn.allMoments turns ∧ InTurn takes w list turns w' ∧
      ∀ turn ∈ turns, turn.Obeys := by
  induction list generalizing w log with
  | nil =>
    obtain ⟨rfl, rfl⟩ := Prod.mk.inj (Except.ok.inj hrun)
    exact ⟨[], by rw [Turn.allMoments], .nil, by simp⟩
  | cons a rest ih =>
    obtain ⟨first, between, later, hfirst, hrest, rfl⟩ := andThen_eq_ok.mp hrun
    obtain ⟨turn, rfl, htakes, hobeys⟩ := hstep hfirst
    obtain ⟨turns, rfl, hturns, hall⟩ := ih hrest
    exact ⟨turn :: turns, by rw [Turn.allMoments], .cons htakes hturns,
      List.forall_mem_cons.mpr ⟨hobeys, hall⟩⟩

section Calls

variable {call : Call → World σ → Traced σ} (hcall : Obey call)

include hcall

theorem exists_tells {w w' : World σ} {value : Value} {listener : Handler} {log : List (Moment σ)}
    (hrun : tell call value w listener = .ok (log, w')) :
    ∃ turn, log = turn.moments ∧ Tells value w listener turn w' ∧ turn.Obeys := by
  obtain ⟨inner, hinner, rfl⟩ := between_eq_ok.mp hrun
  obtain ⟨episodes, rfl, hobey⟩ := hcall _ _ _ _ hinner
  exact ⟨.call (.listener listener value) w episodes w', by rw [Turn.moments], .told, hobey⟩

theorem exists_emits {w w' : World σ} {observable : ObservableId} {event : Event}
    {log : List (Moment σ)} (hrun : emit call w observable event = .ok (log, w')) :
    ∃ turns, log = Turn.allMoments turns ∧
      InTurn (Tells (w.observable observable).value) w
        ((w.observable observable).listeners event) turns w' ∧
      ∀ turn ∈ turns, turn.Obeys :=
  exists_inTurn hrun (exists_tells hcall)

variable [Journal σ]

theorem exists_refreshes {w w' : World σ} {target : Target} {log : List (Moment σ)}
    (hrun : notify call w target = .ok (log, w')) :
    ∃ turn, log = turn.moments ∧ Refreshes w target turn w' ∧ turn.Obeys := by
  unfold notify at hrun
  cases target with
  | node id =>
    dsimp only at hrun
    split at hrun
    · rename_i halive
      obtain ⟨inner, hinner, rfl⟩ := between_eq_ok.mp hrun
      obtain ⟨_, refreshed, _, hrefresh, hrelease, rfl⟩ := andThen_eq_ok.mp hinner
      obtain ⟨-, rfl⟩ := silently_eq_ok.mp hrefresh
      obtain ⟨rfl, rfl⟩ := Prod.mk.inj (Except.ok.inj hrelease)
      exact ⟨.call (.target (.node id)) w [] _, by rw [Turn.moments, Episode.allMoments]; rfl,
        .alive halive, by simp [Turn.Obeys, Turn.inner]⟩
    · rename_i hdead
      obtain ⟨rfl, rfl⟩ := Prod.mk.inj (Except.ok.inj hrun)
      exact ⟨.skip (.node id) w, by rw [Turn.moments], .dead (Bool.eq_false_iff.mpr hdead),
        by simp [Turn.Obeys, Turn.inner]⟩
  | recorder id =>
    dsimp only at hrun
    split at hrun
    · rename_i handler hhandler
      have halive : w.isAlive (.recorder id) = true := by
        rw [World.isAlive, ← Table.isSome_get?, hhandler]
        rfl
      obtain ⟨inner, hinner, rfl⟩ := between_eq_ok.mp hrun
      obtain ⟨_, called, _, hanswer, hrelease, rfl⟩ := andThen_eq_ok.mp hinner
      obtain ⟨episodes, rfl, hobey⟩ := hcall _ _ _ _ hanswer
      obtain ⟨rfl, rfl⟩ := Prod.mk.inj (Except.ok.inj hrelease)
      exact ⟨.call (.target (.recorder id)) w episodes _,
        by rw [Turn.moments, List.append_nil], .alive halive, hobey⟩
    · rename_i hhandler
      have hdead : w.isAlive (.recorder id) = false := by
        rw [World.isAlive, ← Table.isSome_get?, hhandler]
        rfl
      obtain ⟨rfl, rfl⟩ := Prod.mk.inj (Except.ok.inj hrun)
      exact ⟨.skip (.recorder id) w, by rw [Turn.moments], .dead hdead,
        by simp [Turn.Obeys, Turn.inner]⟩

/-- The subscribers have their turns, and then the listeners of `mutate`. -/
theorem exists_mutated {w w' : World σ} {observable : ObservableId} {log : List (Moment σ)}
    (hrun : mutated call w observable = .ok (log, w')) :
    let pruned := w.modifyObservable observable (Observable.prune w.isAlive)
    ∃ refreshes refreshed turns, log = Turn.allMoments (refreshes ++ turns) ∧
      InTurn Refreshes pruned (pruned.observable observable).subscribers refreshes refreshed ∧
      InTurn (Tells (refreshed.observable observable).value) refreshed
        ((refreshed.observable observable).listeners .mutate) turns w' ∧
      ∀ turn ∈ refreshes ++ turns, turn.Obeys := by
  unfold mutated at hrun
  obtain ⟨earlier, refreshed, later, hpass, hemit, rfl⟩ := andThen_eq_ok.mp hrun
  obtain ⟨refreshes, rfl, hrefreshes, hobey⟩ :=
    exists_inTurn hpass (exists_refreshes hcall)
  obtain ⟨turns, rfl, hturns, hobey'⟩ := exists_emits hcall hemit
  exact ⟨refreshes, refreshed, turns, (Turn.allMoments_append _ _).symm, hrefreshes, hturns,
    List.forall_mem_append.mpr ⟨hobey, hobey'⟩⟩

/-- A mutation writes down an episode that obeys. -/
theorem exists_episode {w w' : World σ} {observable : ObservableId} {mutation : Mutation}
    {log : List (Moment σ)} (hrun : mutate call w observable mutation = .ok (log, w')) :
    ∃ episode : Episode σ, log = episode.moments ∧ episode.Obeys := by
  obtain ⟨inner, hinner, rfl⟩ := between_eq_ok.mp hrun
  cases mutation with
  | set value =>
    obtain ⟨refreshes, refreshed, turns, rfl, hrefreshes, hturns, hobey⟩ :=
      exists_mutated hcall hinner
    have hemits : Emits observable refreshed (Mutation.set value).events turns w' := by
      simpa [Mutation.events] using Emits.cons hturns .nil
    exact ⟨.mk observable (.set value) w (refreshes ++ turns) w', by rw [Episode.moments],
      .mk (.applied rfl hrefreshes hemits) hobey⟩
  | operate operation =>
    dsimp only at hinner
    split at hinner
    · rename_i hnumber
      obtain ⟨rfl, rfl⟩ := Prod.mk.inj (Except.ok.inj hinner)
      exact ⟨.mk observable (.operate operation) w [] w, by rw [Episode.moments, Turn.allMoments],
        .mk (.refused (by rw [Mutation.newValue?, hnumber]; rfl)) (by simp [Episode.turns])⟩
    · rename_i n hnumber
      obtain ⟨_, announced, _, hmutated, hemit, rfl⟩ := andThen_eq_ok.mp hinner
      obtain ⟨refreshes, refreshed, turns, rfl, hrefreshes, hturns, hobey⟩ :=
        exists_mutated hcall hmutated
      obtain ⟨echoes, rfl, hechoes, hobey'⟩ := exists_emits hcall hemit
      have hemits : Emits observable refreshed (Mutation.operate operation).events
          (turns ++ echoes) w' := by
        simpa [Mutation.events] using Emits.cons hturns (.cons hechoes .nil)
      refine ⟨.mk observable (.operate operation) w (refreshes ++ (turns ++ echoes)) w', ?_,
        .mk (.applied (by rw [Mutation.newValue?, hnumber]; rfl) hrefreshes hemits) ?_⟩
      · rw [Episode.moments, ← List.append_assoc, Turn.allMoments_append _ echoes]
      · rw [Episode.turns, ← List.append_assoc]
        exact List.forall_mem_append.mpr ⟨hobey, hobey'⟩

end Calls

end Traced

variable [Journal σ]

/-- A program writes down episodes that obey, if the answers to calls do. -/
theorem Program.exists_episodes {call : Call → World σ → Traced σ} (hcall : Traced.Obey call)
    (program : Program σ) {w w' : World σ} {log : List (Moment σ)}
    (hrun : program.traced call w = .ok (log, w')) :
    ∃ episodes, log = Episode.allMoments episodes ∧ ∀ episode ∈ episodes, episode.Obeys := by
  induction program generalizing w log with
  | done =>
    obtain ⟨rfl, rfl⟩ := Prod.mk.inj (Except.ok.inj hrun)
    exact ⟨[], by rw [Episode.allMoments], by simp⟩
  | change f next ih =>
    obtain ⟨_, changed, later, hchange, hnext, rfl⟩ := Traced.andThen_eq_ok.mp hrun
    obtain ⟨-, rfl⟩ := Traced.silently_eq_ok.mp hchange
    exact ih changed hnext
  | mutate observable mutation next ih =>
    obtain ⟨_, mutated, later, hmutate, hnext, rfl⟩ := Traced.andThen_eq_ok.mp hrun
    obtain ⟨episode, rfl, hobeys⟩ := Traced.exists_episode hcall hmutate
    obtain ⟨episodes, rfl, hall⟩ := ih mutated hnext
    exact ⟨episode :: episodes, by rw [Episode.allMoments],
      List.forall_mem_cons.mpr ⟨hobeys, hall⟩⟩

/-- Answers obey, however deep calls nest. -/
theorem Traced.obey_answering (react : Call → World σ → Program σ) (depth : Nat) :
    Obey (answering react depth) := by
  induction depth with
  | zero => exact fun _ _ _ _ hrun ↦ absurd hrun (by simp [answering])
  | succ depth ih => exact fun c w _ _ hrun ↦ (react c w).exists_episodes ih hrun

/-- Whatever a program and the callbacks that it leads to do, and however their calls nest: if the
program ends, then all that happens in its run is a list of mutations that follow the protocol, as
do all mutations that are made in the turns of their callees, each before the turn is over. -/
theorem Program.run_obeys (react : Call → World σ → Program σ) (depth : Nat) (program : Program σ)
    {w w' : World σ} (hrun : program.run (Client.answering react depth) w = .ok w') :
    ∃ log episodes, program.traced (Traced.answering react depth) w = .ok (log, w') ∧
      (∀ others, log = Episode.allMoments others ↔ others = episodes) ∧
        ∀ episode ∈ episodes, episode.Obeys := by
  rw [← program.world_traced (Traced.world_answering react depth)] at hrun
  obtain ⟨log, htraced⟩ := Traced.world_eq_ok.mp hrun
  obtain ⟨episodes, hlog, hobey⟩ :=
    program.exists_episodes (Traced.obey_answering react depth) htraced
  refine ⟨log, episodes, htraced, fun others ↦ ⟨fun hothers ↦ ?_, fun heq ↦ ?_⟩, hobey⟩
  · exact Episode.allMoments_injective w (hothers.symm.trans hlog)
  · rw [heq, hlog]

/-- An increment during which the first subscriber unsubscribes the second, drops the third, adds a
fourth and a listener, and mutates another observable: the second still has its turn, the third has
not, the fourth is refreshed for the other observable only, and the listener is called. -/
theorem Program.run_obeys_nested :
    let react : Call → World (List Note) → Program (List Note)
      | .act 0, _ =>
        .change (fun w ↦ .ok <| (((w.unsubscribe 0 (.recorder 1)).release (.recorder 2)).subscribe 0
          (.recorder 3)).modifyObservable 0 (Observable.register .mutate 11)) fun _ ↦
            .mutate 1 (.set (.text "on")) fun _ ↦ .done
      | _, _ => .done
    let first : Observable :=
      { value := .number 1, subscribers := [.recorder 0, .recorder 1, .recorder 2] }
    let w : World (List Note) :=
      { recorders := (((Table.empty.push 0).push 1).push 2).push 3
        held := [.recorder 0, .recorder 1, .recorder 2, .recorder 3]
        observables :=
          (Table.empty.push ((first.register .mutate 10).register .increment 12)).push
            { value := .text "off", subscribers := [.recorder 3] }
        client := [] }
    let program : Program (List Note) := .mutate 0 (.operate .increment) fun _ ↦ .done
    ∃ w' log episodes, program.run (Client.answering react 2) w = .ok w' ∧
      program.traced (Traced.answering react 2) w = .ok (log, w') ∧
        log.filterMap Moment.callee? =
          [.target (.recorder 0), .target (.recorder 3), .target (.recorder 1),
            .listener 10 (.number 2), .listener 11 (.number 2), .listener 12 (.number 2)] ∧
        (∀ others, log = Episode.allMoments others ↔ others = episodes) ∧
          ∀ episode ∈ episodes, episode.Obeys := by
  intro react first w program
  have hcallees : (program.traced (Traced.answering react 2) w).toOption.map
      (fun result ↦ result.1.filterMap Moment.callee?) =
        some [.target (.recorder 0), .target (.recorder 3), .target (.recorder 1),
          .listener 10 (.number 2), .listener 11 (.number 2), .listener 12 (.number 2)] := by
    decide +kernel
  cases hresult : program.traced (Traced.answering react 2) w with
  | error fault =>
    rw [hresult] at hcallees
    cases hcallees
  | ok result =>
    obtain ⟨log, w'⟩ := result
    have hrun : program.run (Client.answering react 2) w = .ok w' := by
      rw [← program.world_traced (Traced.world_answering react 2), hresult]
      rfl
    obtain ⟨log', episodes, htraced, hreads, hobey⟩ := Program.run_obeys react 2 program hrun
    obtain ⟨rfl, -⟩ := Prod.mk.inj (Except.ok.inj (hresult.symm.trans htraced))
    rw [hresult] at hcallees
    exact ⟨w', log, episodes, hrun, rfl, Option.some.inj hcallees, hreads, hobey⟩

end LiveMarkup
