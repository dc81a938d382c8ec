import Mathlib.Data.List.Induction

/-!
# Runs of a machine and history-dependent invariants

A machine answers every input and moves to its next state. A run from an
initial state is determined by its inputs; its trace records every transition.
An invariant may speak about the whole trace that led to a state.
-/

namespace OutboxFormal.Library

/-- One step of a run. -/
structure Transition (σ ι ο : Type) where
  before : σ
  input : ι
  output : ο
  after : σ

/-- A deterministic machine with inputs `ι` and answers `ο`. -/
structure Machine (σ ι ο : Type) where
  step : ι → σ → ο × σ

namespace Machine

variable {σ ι ο : Type} (machine : Machine σ ι ο)

/-- The transition an input causes. -/
def transition (state : σ) (input : ι) : Transition σ ι ο where
  before := state
  input := input
  output := (machine.step input state).1
  after := (machine.step input state).2

/-- The state after a list of inputs. -/
def final : σ → List ι → σ
  | state, [] => state
  | state, input :: rest => final (machine.step input state).2 rest

/-- The transitions of a list of inputs. -/
def trace : σ → List ι → List (Transition σ ι ο)
  | _, [] => []
  | state, input :: rest =>
    machine.transition state input :: trace (machine.step input state).2 rest

theorem final_append_singleton (state : σ) (inputs : List ι) (input : ι) :
    machine.final state (inputs ++ [input]) =
      (machine.step input (machine.final state inputs)).2 := by
  induction inputs generalizing state with
  | nil => rfl
  | cons head rest ih => exact ih (machine.step head state).2

theorem trace_append_singleton (state : σ) (inputs : List ι) (input : ι) :
    machine.trace state (inputs ++ [input]) =
      machine.trace state inputs ++ [machine.transition (machine.final state inputs) input] := by
  induction inputs generalizing state with
  | nil => rfl
  | cons head rest ih =>
    change _ :: machine.trace _ (rest ++ [input]) = _ :: (machine.trace _ rest ++ _)
    rw [ih]
    rfl

theorem trace_inputs (state : σ) (inputs : List ι) :
    (machine.trace state inputs).map Transition.input = inputs := by
  induction inputs generalizing state with
  | nil => rfl
  | cons head rest ih => exact congrArg (head :: ·) (ih (machine.step head state).2)

/-- What holds initially and is preserved by every transition holds of every
run, together with the trace of that run. -/
theorem invariant (holds : σ → List (Transition σ ι ο) → Prop) (initial : σ)
    (start : holds initial [])
    (preserved : ∀ state trace input, holds state trace →
      holds (machine.step input state).2 (trace ++ [machine.transition state input]))
    (inputs : List ι) :
    holds (machine.final initial inputs) (machine.trace initial inputs) := by
  -- Induction on the run, adding inputs at its end.
  induction inputs using List.reverseRecOn with
  | nil => exact start
  | append_singleton inputs input ih =>
    rw [final_append_singleton, trace_append_singleton]
    exact preserved _ _ _ ih

end Machine

end OutboxFormal.Library
