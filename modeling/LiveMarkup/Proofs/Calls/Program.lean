import LiveMarkup.World.Mutation

/-!
What callbacks do. A callback changes the world and mutates observables, one after the other; what
it does next is chosen when the step before is over (`Program`). A client that answers each call
with a program answers the calls that this makes in the same way, up to a depth
(`Client.answering`). Every run that ends is one of limited depth.
-/

set_option autoImplicit false
set_option relaxedAutoImplicit false

namespace LiveMarkup

/-- A mutation of an observable. -/
inductive Mutation where
  | set (value : Value)
  | operate (operation : Operation)

/-- What a callback does, step by step. -/
inductive Program (σ : Type) where
  /-- Nothing more. -/
  | done
  /-- Something that calls nobody: subscribing, adding listeners, dropping references and so on. -/
  | change (f : World σ → Except Fault (World σ)) (next : World σ → Program σ)
  /-- A mutation, with all calls that it makes. -/
  | mutate (observable : ObservableId) (mutation : Mutation) (next : World σ → Program σ)

variable {σ : Type} [Journal σ]

/-- Mutates an observable. -/
def World.mutate (client : Client σ) (w : World σ) (observable : ObservableId) :
    Mutation → Except Fault (World σ)
  | .set value => w.set client observable value
  | .operate operation => do return (← w.operate client observable operation).2

/-- Runs a program. -/
def Program.run (client : Client σ) : Program σ → World σ → Except Fault (World σ)
  | .done, w => .ok w
  | .change f next, w => do
    let w ← f w
    (next w).run client w
  | .mutate observable mutation next, w => do
    let w ← w.mutate client observable mutation
    (next w).run client w

/-- A client that answers calls with programs, in which calls nest less than `depth` deep. Pages
are not rendered. -/
def Client.answering (react : Call → World σ → Program σ) : Nat → Client σ
  | 0 => ⟨fun _ _ ↦ .error .endless, fun _ _ w ↦ .ok (none, w)⟩
  | depth + 1 =>
    ⟨fun call w ↦ (react call w).run (answering react depth) w, fun _ _ w ↦ .ok (none, w)⟩

end LiveMarkup
