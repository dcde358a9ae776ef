import LiveMarkup.Proofs.Calls.Program
import LiveMarkup.Proofs.World.Rendering
import LiveMarkup.World.Clicking

/-!
What holds from the start of a mutation or a click to its end. A relation between worlds that is
kept up by the single things that these do (`World.Passage`), and by the answers to the calls that
they make, holds between the worlds before and after every mutation (`World.Passage.mutate`) and
every click (`World.Passage.click`), and before and after every program (`Program.Passes.run`),
however deep calls nest (`World.Passage.answering`).
-/

set_option autoImplicit false
set_option relaxedAutoImplicit false

namespace LiveMarkup

variable {σ α : Type} [Journal σ] {R : World σ → World σ → Prop}

namespace World

/-- A relation that holds between the worlds before and after each single thing that a mutation or a
click does besides making calls. -/
structure Passage (R : World σ → World σ → Prop) : Prop where
  refl : ∀ w, R w w
  trans : ∀ {w w' w''}, R w w' → R w' w'' → R w w''
  changeHosts : ∀ (w : World σ) hosts, R w { w with hosts := hosts }
  /-- Something is reported to the client. -/
  note : ∀ (w : World σ) note, R w (w.note note)
  holdNode : ∀ {w id}, w.nodes.contains id = true → R w (w.hold (.node id))
  holdRecorder : ∀ w id, R w (w.hold (.recorder id))
  release : ∀ w root, R w (w.release root)
  store : ∀ w observable value, R w (w.store observable value)
  prune : ∀ w observable, R w (w.modifyObservable observable (Observable.prune w.isAlive))
  refresh : ∀ {w w' id}, .node id ∈ w.held → w.nodes.contains id = true →
    w.refresh id = .ok w' → R w w'

namespace Passage

variable {w w' : World σ}

theorem foldlM (h : Passage R) {step : World σ → α → Except Fault (World σ)} {list : List α}
    (hstep : ∀ w a w', step w a = .ok w' → R w w') (hrun : list.foldlM step w = .ok w') :
    R w w' := by
  induction list generalizing w with
  | nil =>
    obtain rfl : w = w' := Except.ok.inj hrun
    exact h.refl w
  | cons a list ih =>
    rw [List.foldlM_cons] at hrun
    obtain ⟨between, hfirst, hrest⟩ := bind_eq_ok.mp hrun
    exact h.trans (hstep w a between hfirst) (ih hrest)

variable {client : Client σ} (h : Passage R)
  (hcall : ∀ call w w', client.call call w = .ok w' → R w w')

include h hcall

theorem notify {target : Target} (hrun : w.notify client target = .ok w') : R w w' := by
  unfold World.notify at hrun
  cases target with
  | node id =>
    dsimp only at hrun
    split at hrun
    · rename_i hlive
      obtain ⟨refreshed, hrefresh, hrun⟩ := bind_eq_ok.mp hrun
      obtain rfl : refreshed.release (.node id) = w' := Except.ok.inj hrun
      have hrefreshed := h.refresh (w := w.hold (.node id)) List.mem_cons_self hlive hrefresh
      exact h.trans (h.trans (h.holdNode hlive) hrefreshed) (h.release refreshed _)
    · obtain rfl : w = w' := Except.ok.inj hrun
      exact h.refl w
  | recorder id =>
    dsimp only at hrun
    split at hrun
    · obtain ⟨called, hanswer, hrun⟩ := bind_eq_ok.mp hrun
      obtain rfl : called.release (.recorder id) = w' := Except.ok.inj hrun
      exact h.trans (h.trans (h.holdRecorder w _) (hcall _ _ _ hanswer)) (h.release called _)
    · obtain rfl : w = w' := Except.ok.inj hrun
      exact h.refl w

theorem announce {listeners : List Handler} {value : Value}
    (hrun : w.announce client listeners value = .ok w') : R w w' :=
  h.foldlM (fun _ _ _ hanswer ↦ hcall _ _ _ hanswer) hrun

theorem emit {observable : ObservableId} {event : Event}
    (hrun : w.emit client observable event = .ok w') : R w w' :=
  h.announce hcall hrun

theorem mutated {observable : ObservableId} (hrun : w.mutated client observable = .ok w') :
    R w w' := by
  obtain ⟨refreshed, hpass, hemit⟩ := bind_eq_ok.mp hrun
  have hpassed := h.foldlM (fun _ _ _ hnotify ↦ h.notify hcall hnotify) hpass
  exact h.trans (h.trans (h.prune w observable) hpassed) (h.emit hcall hemit)

/-- A mutation with all calls that it makes. -/
theorem mutate {observable : ObservableId} {mutation : Mutation}
    (hrun : w.mutate client observable mutation = .ok w') : R w w' := by
  unfold World.mutate at hrun
  cases mutation with
  | set value => exact h.trans (h.store w observable value) (h.mutated hcall hrun)
  | operate operation =>
    obtain ⟨⟨applied, after⟩, hoperate, hrun⟩ := bind_eq_ok.mp hrun
    obtain rfl : after = w' := Except.ok.inj hrun
    unfold World.operate at hoperate
    split at hoperate
    · obtain ⟨-, rfl⟩ := Prod.mk.inj (Except.ok.inj hoperate)
      exact h.refl w
    · obtain ⟨announced, hmutated, hoperate⟩ := bind_eq_ok.mp hoperate
      obtain ⟨emitted, hemit, hoperate⟩ := bind_eq_ok.mp hoperate
      obtain ⟨-, rfl⟩ := Prod.mk.inj (Except.ok.inj hoperate)
      have hannounced := h.trans (h.store w observable _) (h.mutated hcall hmutated)
      exact h.trans hannounced (h.emit hcall hemit)

/-! ### Clicks -/

omit hcall in
theorem hasElement (w : World σ) (host : HostId) (label : String) :
    R w (w.hasElement host label).2 := by
  unfold World.hasElement
  split
  · exact h.refl w
  · exact h.note w _

theorem attachClick {host : HostId} {label : String} {handler : Handler}
    {answer : Except LookupError Unit}
    (hrun : w.attachClick client host label handler = .ok (answer, w')) : R w w' := by
  unfold World.attachClick at hrun
  split at hrun
  · split at hrun
    · obtain ⟨-, rfl⟩ := Prod.mk.inj (Except.ok.inj hrun)
      exact h.changeHosts w _
    · obtain ⟨-, rfl⟩ := Prod.mk.inj (Except.ok.inj hrun)
      exact h.refl w
  · dsimp only at hrun
    have hnoted : R w (w.note (.probeAttach label)) := h.note w _
    split at hrun
    · obtain ⟨called, hanswer, hrun⟩ := bind_eq_ok.mp hrun
      obtain ⟨-, rfl⟩ := Prod.mk.inj (Except.ok.inj hrun)
      exact h.trans hnoted (hcall _ _ _ hanswer)
    · obtain ⟨-, rfl⟩ := Prod.mk.inj (Except.ok.inj hrun)
      exact hnoted

theorem attachAction {node : NodeId} {host : HostId}
    (hrun : w.attachAction client node host = .ok w') : R w w' := by
  unfold World.attachAction at hrun
  split at hrun
  · obtain rfl : w = w' := Except.ok.inj hrun
    exact h.refl w
  · dsimp only at hrun
    split at hrun
    · obtain ⟨⟨answer, attached⟩, hattach, hrun⟩ := bind_eq_ok.mp hrun
      obtain rfl : attached = w' := Except.ok.inj hrun
      exact h.trans (h.hasElement w host _) (h.attachClick hcall hattach)
    · obtain rfl := Except.ok.inj hrun
      exact h.hasElement w host _

theorem whenReady {node : NodeId} {host : HostId}
    (hrun : World.whenReady client host w node = .ok w') : R w w' := by
  unfold World.whenReady at hrun
  split at hrun
  · obtain rfl := Except.ok.inj hrun
    exact h.trans (h.hasElement w host _) (h.note _ _)
  · exact h.attachAction hcall hrun

/-- A click with all calls that it makes. -/
theorem click {host : HostId} {label : String} {count : Nat}
    (hrun : w.click client host label = .ok (count, w')) : R w w' := by
  obtain ⟨clicked, hcalls, hrun⟩ := bind_eq_ok.mp hrun
  obtain ⟨-, rfl⟩ := Prod.mk.inj (Except.ok.inj hrun)
  exact h.foldlM (fun _ _ _ hanswer ↦ hcall _ _ _ hanswer) hcalls

end Passage

end World

/-- What a program does between its mutations keeps to a relation. -/
def Program.Passes (R : World σ → World σ → Prop) : Program σ → Prop
  | .done => True
  | .change f next => (∀ w w', f w = .ok w' → R w w') ∧ ∀ w, (next w).Passes R
  | .mutate _ _ next => ∀ w, (next w).Passes R

theorem Program.Passes.run {client : Client σ} (h : World.Passage R)
    (hcall : ∀ call w w', client.call call w = .ok w' → R w w') {program : Program σ}
    (hprogram : program.Passes R) {w w' : World σ} (hrun : program.run client w = .ok w') :
    R w w' := by
  induction program generalizing w with
  | done =>
    obtain rfl : w = w' := Except.ok.inj hrun
    exact h.refl w
  | change f next ih =>
    obtain ⟨between, hchange, hnext⟩ := bind_eq_ok.mp hrun
    exact h.trans (hprogram.1 w between hchange) (ih between (hprogram.2 between) hnext)
  | mutate observable mutation next ih =>
    obtain ⟨between, hmutate, hnext⟩ := bind_eq_ok.mp hrun
    exact h.trans (h.mutate hcall hmutate) (ih between (hprogram between) hnext)

/-- The answers of a client that answers with programs. -/
theorem World.Passage.answering (h : World.Passage R) {react : Call → World σ → Program σ}
    (hreact : ∀ call w, (react call w).Passes R) (depth : Nat) (call : Call) (w w' : World σ)
    (hrun : (Client.answering react depth).call call w = .ok w') : R w w' := by
  induction depth generalizing call w w' with
  | zero => cases hrun
  | succ depth ih => exact (hreact call w).run h ih hrun

end LiveMarkup
