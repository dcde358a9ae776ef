import LiveMarkup.Proofs.Calls.Operating
import LiveMarkup.Proofs.Calls.Protocol

/-!
The calls of a run, as the client sees them. A client may keep a record of its calls beside the rest
of its state, and enter each call there before it answers it (`recording`). After a run it finds
there the calls that were written down, in their order (`Program.calls_of_run`): the log of a run
tells what the run does, and not only where it ends.
-/

set_option autoImplicit false
set_option relaxedAutoImplicit false

namespace LiveMarkup

variable {σ : Type}

/-- Notes are taken beside the record of calls. -/
instance [Journal σ] : Journal (σ × List Call) :=
  ⟨fun note state ↦ (Journal.note note state.1, state.2)⟩

namespace World

variable {w w' : World (σ × List Call)}

/-- The calls that the client has entered in its record. -/
def calls (w : World (σ × List Call)) : List Call := w.client.2

/-- A call is entered in the record. -/
def enter (w : World (σ × List Call)) (call : Call) : World (σ × List Call) :=
  { w with client := (w.client.1, w.calls ++ [call]) }

/-- The record is left alone. -/
def KeepsCalls (w w' : World (σ × List Call)) : Prop := w'.calls = w.calls

theorem KeepsCalls.reporting [Journal σ] : Reporting (KeepsCalls (σ := σ)) where
  refl _ := rfl
  trans first second := second.trans first
  added _ _ named _ := by
    unfold KeepsCalls World.added
    cases named <;> rfl
  retouch _ _ _ _ := rfl
  takeId _ _ _ _ := rfl
  sweep _ := rfl
  outside _ _ _ hclient := congrArg Prod.snd hclient
  note _ _ := rfl

end World

/-- The call that a moment is the start of, if it is one of the client. -/
def Moment.call? : Moment (σ × List Call) → Option Call
  | .calls (.target (.recorder id)) w => (w.recorders.get? id).map .act
  | .calls (.listener listener value) _ => some (.listen listener value)
  | _ => none

/-- Each call is entered in the record before it is answered. -/
def recording (react : Call → World (σ × List Call) → Program (σ × List Call)) (call : Call)
    (_ : World (σ × List Call)) : Program (σ × List Call) :=
  .change (fun w ↦ .ok (w.enter call)) (react call)

namespace Traced

/-- The record has grown by the calls that were written down. -/
def Enters (w : World (σ × List Call)) (log : List (Moment (σ × List Call)))
    (w' : World (σ × List Call)) : Prop :=
  w'.calls = w.calls ++ log.filterMap Moment.call?

theorem Enters.of_keepsCalls {w w' : World (σ × List Call)} (h : w.KeepsCalls w') :
    Enters w [] w' := by
  rw [Enters, h, List.filterMap_nil, List.append_nil]

theorem Enters.reading : Reading (Enters (σ := σ)) where
  nil _ := .of_keepsCalls rfl
  append h h' := by rw [Enters, h', h, List.filterMap_append, List.append_assoc]

section Calls

variable {call : Call → World (σ × List Call) → Traced (σ × List Call)}
  (hcall : ∀ c w, Holds Enters (w.enter c) (call c w))

include hcall

theorem enters_tell (value : Value) (w : World (σ × List Call)) (listener : Handler) :
    Holds Enters w (tell call value w listener) := by
  have hstart : Enters w [.calls (.listener listener value) w]
      (w.enter (.listen listener value)) := rfl
  exact Enters.reading.between hstart (hcall _ w) fun _ ↦ .of_keepsCalls rfl

theorem enters_emit (w : World (σ × List Call)) (observable : ObservableId) (event : Event) :
    Holds Enters w (emit call w observable event) :=
  Enters.reading.each (enters_tell hcall _) _ w

variable [Journal σ]

theorem enters_notify (w : World (σ × List Call)) (target : Target) :
    Holds Enters w (notify call w target) := by
  have hskip : Holds Enters w (skip target w) := by
    rintro _ _ ⟨⟩
    exact .of_keepsCalls rfl
  have hrelease (root : Root) (between : World (σ × List Call)) :
      Holds Enters between (nothing (between.release root)) := by
    rintro _ _ ⟨⟩
    exact .of_keepsCalls rfl
  unfold notify
  cases target with
  | node id =>
    dsimp only
    split
    · have hrefresh : Holds Enters w (silently ((w.hold (.node id)).refresh id)) :=
        .silently fun w' hrun ↦
          .of_keepsCalls (World.KeepsCalls.reporting.refresh (w := w.hold (.node id)) hrun)
      exact Enters.reading.between (.of_keepsCalls rfl)
        (Enters.reading.andThen hrefresh (hrelease _)) fun _ ↦ .of_keepsCalls rfl
    · exact hskip
  | recorder id =>
    dsimp only
    split
    · rename_i handler hhandler
      have hanswer := Enters.reading.andThen (hcall (.act handler) (w.hold (.recorder id)))
        (hrelease (.recorder id))
      refine Enters.reading.between ?_ hanswer fun _ ↦ .of_keepsCalls rfl
      rw [Enters, List.filterMap_cons, Moment.call?, hhandler]
      rfl
    · exact hskip

theorem enters_mutated (w : World (σ × List Call)) (observable : ObservableId) :
    Holds Enters w (mutated call w observable) :=
  Enters.reading.andThen (Enters.reading.each (enters_notify hcall) _ _) fun between ↦
    enters_emit hcall between observable .mutate

theorem enters_mutate (w : World (σ × List Call)) (observable : ObservableId)
    (mutation : Mutation) : Holds Enters w (mutate call w observable mutation) := by
  have hstart : Enters w [.mutates observable mutation w] w := .of_keepsCalls rfl
  refine Enters.reading.between hstart ?_ fun _ ↦ .of_keepsCalls rfl
  cases mutation with
  | set value => exact enters_mutated hcall (w.store observable value) observable
  | operate operation =>
    dsimp only
    split
    · exact Enters.reading.nothing w
    · exact Enters.reading.andThen (enters_mutated hcall (w.store observable _) observable)
        fun between ↦ enters_emit hcall between observable operation.event

end Calls

end Traced

variable [Journal σ] {react : Call → World (σ × List Call) → Program (σ × List Call)}

/-- A program that leaves the record alone between its mutations. -/
theorem Program.enters_traced {call : Call → World (σ × List Call) → Traced (σ × List Call)}
    (hcall : ∀ c w, Traced.Holds Traced.Enters (w.enter c) (call c w))
    {program : Program (σ × List Call)} (h : program.Passes World.KeepsCalls)
    (w : World (σ × List Call)) : Traced.Holds Traced.Enters w (program.traced call w) := by
  have hreading : Traced.Reading (Traced.Enters (σ := σ)) := Traced.Enters.reading
  induction program generalizing w with
  | done => exact hreading.nothing w
  | change f next ih =>
    exact hreading.andThen (.silently fun w' hchange ↦ .of_keepsCalls (h.1 w w' hchange))
      fun between ↦ ih between (h.2 between) between
  | mutate observable mutation next ih =>
    exact hreading.andThen (Traced.enters_mutate hcall w observable mutation) fun between ↦
      ih between (h between) between

theorem Traced.enters_answering (hreact : ∀ c w, (react c w).Passes World.KeepsCalls)
    (depth : Nat) (c : Call) (w : World (σ × List Call)) :
    Holds Enters (w.enter c) (answering (recording react) depth c w) := by
  induction depth generalizing c w with
  | zero => exact fun _ _ hrun ↦ by cases hrun
  | succ depth ih =>
    intro log w' hrun
    rw [answering, recording, Program.traced] at hrun
    obtain ⟨_, entered, later, hchange, hanswer, rfl⟩ := andThen_eq_ok.mp hrun
    obtain ⟨hentered, rfl⟩ := silently_eq_ok.mp hchange
    obtain rfl := Except.ok.inj hentered
    exact (react c _).enters_traced ih (hreact c _) _ later w' hanswer

/-- A client that records its calls finds in its own state the calls that are written down, if
nothing else that it does touches the record. -/
theorem Program.calls_of_run (hreact : ∀ c w, (react c w).Passes World.KeepsCalls) (depth : Nat)
    {program : Program (σ × List Call)} (hprogram : program.Passes World.KeepsCalls)
    {w w' : World (σ × List Call)}
    (hrun : program.run (Client.answering (recording react) depth) w = .ok w') :
    ∃ log, program.traced (Traced.answering (recording react) depth) w = .ok (log, w') ∧
      w'.calls = w.calls ++ log.filterMap Moment.call? := by
  rw [← program.world_traced (Traced.world_answering (recording react) depth)] at hrun
  obtain ⟨log, htraced⟩ := Traced.world_eq_ok.mp hrun
  have hanswers := Traced.enters_answering hreact depth
  exact ⟨log, htraced, program.enters_traced hanswers hprogram w log w' htraced⟩

end LiveMarkup
