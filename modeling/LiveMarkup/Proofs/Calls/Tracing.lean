import LiveMarkup.Proofs.Calls.Program
import LiveMarkup.Proofs.World.Rendering

/-!
Runs that write down what happens. Whenever a mutation starts or is finished, and whenever one that
it calls is about to be called, has returned or is skipped, this is written down with the world of
that moment (`Moment`), in the order in which it happens. Mutations and programs are run as before
(`Program.world_traced`): what is written down has no effect on the run.
-/

set_option autoImplicit false
set_option relaxedAutoImplicit false

namespace LiveMarkup

/-- Whom a mutation calls. -/
inductive Callee where
  | target (target : Target)
  | listener (handler : Handler) (value : Value)
  deriving DecidableEq

/-- Something that happens in a run, and the world at that moment. -/
inductive Moment (σ : Type) where
  /-- A mutation is about to start. -/
  | mutates (observable : ObservableId) (mutation : Mutation) (w : World σ)
  /-- A callee is about to be called. -/
  | calls (callee : Callee) (w : World σ)
  /-- The call is over. -/
  | returns (w : World σ)
  /-- A target is not refreshed since it is dead. -/
  | skips (target : Target) (w : World σ)
  /-- The mutation is over. -/
  | finishes (w : World σ)

/-- Who is about to be called at a moment. -/
def Moment.callee? {σ : Type} : Moment σ → Option Callee
  | .calls callee _ => some callee
  | _ => none

/-- A run with what it wrote down, in order. -/
abbrev Traced (σ : Type) := Except Fault (List (Moment σ) × World σ)

namespace Traced

variable {σ α : Type}

/-- The run without what it wrote down. -/
def world (run : Traced σ) : Except Fault (World σ) := run.map Prod.snd

/-- Nothing is done. -/
def nothing (w : World σ) : Traced σ := .ok ([], w)

/-- Something happens without being written down. -/
def silently (run : Except Fault (World σ)) : Traced σ := run.map fun w ↦ ([], w)

/-- Two runs, one after the other. -/
def andThen (run : Traced σ) (next : World σ → Traced σ) : Traced σ :=
  Except.bind run fun (earlier, w) ↦ (next w).map fun (later, w) ↦ (earlier ++ later, w)

/-- A run between two moments. -/
def between (first : Moment σ) (run : Traced σ) (last : World σ → Moment σ) : Traced σ :=
  run.map fun (inner, w) ↦ (first :: inner ++ [last w], w)

/-- One run for each element of a list. -/
def each (step : World σ → α → Traced σ) : List α → World σ → Traced σ
  | [], w => nothing w
  | a :: rest, w => (step w a).andThen (each step rest)

/-- The call of a callee. -/
def turn (callee : Callee) (w : World σ) (run : Traced σ) : Traced σ :=
  between (.calls callee w) run .returns

/-- A target that is dead. -/
def skip (target : Target) (w : World σ) : Traced σ := .ok ([.skips target w], w)

section

variable [Journal σ]

/-- Refreshes a target if it is alive, keeping it alive meanwhile. -/
def notify (call : Call → World σ → Traced σ) (w : World σ) (target : Target) : Traced σ :=
  match target with
  | .node id =>
    if w.nodes.contains id then
      turn (.target target) w <| (silently ((w.hold (.node id)).refresh id)).andThen fun w ↦
        nothing (w.release (.node id))
    else skip target w
  | .recorder id =>
    match w.recorders.get? id with
    | some handler =>
      turn (.target target) w <| (call (.act handler) (w.hold (.recorder id))).andThen fun w ↦
        nothing (w.release (.recorder id))
    | none => skip target w

/-- Tells a value to a listener. -/
def tell (call : Call → World σ → Traced σ) (value : Value) (w : World σ) (listener : Handler) :
    Traced σ :=
  turn (.listener listener value) w (call (.listen listener value) w)

/-- Tells the listeners of an event the value that the observable has now. -/
def emit (call : Call → World σ → Traced σ) (w : World σ) (observable : ObservableId)
    (event : Event) : Traced σ :=
  each (tell call (w.observable observable).value) ((w.observable observable).listeners event) w

/-- Refreshes the targets of an observable and announces the mutation. -/
def mutated (call : Call → World σ → Traced σ) (w : World σ) (observable : ObservableId) :
    Traced σ :=
  let w := w.modifyObservable observable (Observable.prune w.isAlive)
  (each (notify call) (w.observable observable).subscribers w).andThen fun w ↦
    emit call w observable .mutate

/-- Mutates an observable. -/
def mutate (call : Call → World σ → Traced σ) (w : World σ) (observable : ObservableId)
    (mutation : Mutation) : Traced σ :=
  between (.mutates observable mutation w)
    (match mutation with
    | .set value => mutated call (w.store observable value) observable
    | .operate operation =>
      match (w.observable observable).value.number? with
      | none => nothing w
      | some n =>
        (mutated call (w.store observable (.number (operation.apply n))) observable).andThen
          fun w ↦ emit call w observable operation.event)
    .finishes

end

end Traced

variable {σ : Type} [Journal σ]

/-- Runs a program. -/
def Program.traced (call : Call → World σ → Traced σ) : Program σ → World σ → Traced σ
  | .done, w => .nothing w
  | .change f next, w => (Traced.silently (f w)).andThen fun w ↦ (next w).traced call w
  | .mutate observable mutation next, w =>
    (Traced.mutate call w observable mutation).andThen fun w ↦ (next w).traced call w

/-- Answers calls with programs, in which calls nest less than `depth` deep. -/
def Traced.answering (react : Call → World σ → Program σ) : Nat → Call → World σ → Traced σ
  | 0, _, _ => .error .endless
  | depth + 1, call, w => (react call w).traced (answering react depth) w

/-! ### What is written down has no effect -/

namespace Traced

section

variable {σ α : Type}

@[simp]
theorem world_nothing (w : World σ) : (nothing w).world = .ok w := rfl

@[simp]
theorem world_silently (run : Except Fault (World σ)) : (silently run).world = run := by
  cases run <;> rfl

@[simp]
theorem world_andThen (run : Traced σ) (next : World σ → Traced σ) :
    (run.andThen next).world = run.world >>= fun w ↦ (next w).world := by
  rcases run with fault | ⟨earlier, w⟩
  · rfl
  · show ((next w).map fun later ↦ (earlier ++ later.1, later.2)).map Prod.snd = (next w).world
    cases next w <;> rfl

@[simp]
theorem world_between (first : Moment σ) (run : Traced σ) (last : World σ → Moment σ) :
    (between first run last).world = run.world := by
  cases run <;> rfl

@[simp]
theorem world_turn (callee : Callee) (w : World σ) (run : Traced σ) :
    (turn callee w run).world = run.world :=
  world_between _ _ _

theorem world_each (step : World σ → α → Traced σ) (list : List α) (w : World σ) :
    (each step list w).world = list.foldlM (fun w a ↦ (step w a).world) w := by
  induction list generalizing w with
  | nil => rfl
  | cons a rest ih =>
    rw [each, world_andThen, List.foldlM_cons]
    simp only [ih]

end

variable {client : Client σ} {call : Call → World σ → Traced σ}
  (hcall : ∀ c w, (call c w).world = client.call c w)

include hcall

theorem world_notify (w : World σ) (target : Target) :
    (notify call w target).world = w.notify client target := by
  unfold notify World.notify
  cases target with
  | node id =>
    dsimp only
    split
    · simp [pure, Except.pure]
    · rfl
  | recorder id =>
    dsimp only
    cases w.recorders.get? id with
    | none => rfl
    | some handler => simp [hcall, pure, Except.pure]

omit [Journal σ] in
theorem world_emit (w : World σ) (observable : ObservableId) (event : Event) :
    (emit call w observable event).world = w.emit client observable event := by
  unfold emit World.emit World.announce
  rw [world_each]
  simp only [tell, world_turn, hcall]

theorem world_mutated (w : World σ) (observable : ObservableId) :
    (mutated call w observable).world = w.mutated client observable := by
  unfold mutated World.mutated
  rw [world_andThen, world_each]
  simp only [world_notify hcall, world_emit hcall]

theorem world_mutate (w : World σ) (observable : ObservableId) (mutation : Mutation) :
    (mutate call w observable mutation).world = w.mutate client observable mutation := by
  unfold mutate World.mutate
  rw [world_between]
  cases mutation with
  | set value => exact world_mutated hcall _ observable
  | operate operation =>
    dsimp only
    unfold World.operate
    cases (w.observable observable).value.number? with
    | none => rfl
    | some n =>
      rw [world_andThen, world_mutated hcall]
      simp [world_emit hcall]

end Traced

theorem Program.world_traced {client : Client σ} {call : Call → World σ → Traced σ}
    (hcall : ∀ c w, (call c w).world = client.call c w) (program : Program σ) (w : World σ) :
    (program.traced call w).world = program.run client w := by
  induction program generalizing w with
  | done => rfl
  | change f next ih =>
    rw [traced, run, Traced.world_andThen, Traced.world_silently]
    simp only [ih]
  | mutate observable mutation next ih =>
    rw [traced, run, Traced.world_andThen, Traced.world_mutate hcall]
    simp only [ih]

theorem Traced.world_answering (react : Call → World σ → Program σ) (depth : Nat) (c : Call)
    (w : World σ) :
    (answering react depth c w).world = (Client.answering react depth).call c w := by
  induction depth generalizing c w with
  | zero => rfl
  | succ depth ih => exact (react c w).world_traced ih w

end LiveMarkup
