import Mathlib.Logic.Basic

/-!
# Programs with effects, and monitors

A program returns, unwinds its thread, or performs an effect and continues with
the answer. The history of a thread is what it performed so far, the latest
event first. A monitor condenses the history into a state, says which effects
the state allows next and which answers the thread may expect. `wp` is the
weakest condition on the state under which a program performs only allowed
effects and ends as required.
-/

namespace OutboxFormal.Library

/-- `ε` are the effects and `ρ effect` the answers to one. -/
inductive Program {ε : Type} (ρ : ε → Type) (α : Type) where
  | ret (value : α)
  | goexit
  | call (effect : ε) (resume : ρ effect → Program ρ α)

namespace Program

variable {ε : Type} {ρ : ε → Type} {α β : Type}

protected def bind : Program ρ α → (α → Program ρ β) → Program ρ β
  | .ret value, next => next value
  | .goexit, _ => .goexit
  | .call effect resume, next => .call effect fun answer => (resume answer).bind next

instance : Monad (Program ρ) where
  pure := .ret
  bind := .bind

/-- Perform one effect and return its answer. -/
def perform (effect : ε) : Program ρ (ρ effect) := .call effect .ret

/-- A deferred call: `returned` runs after a normal return, `unwound` while the
thread unwinds. -/
def onExit (returned unwound : Program ρ Unit) : Program ρ α → Program ρ α
  | .ret value => returned.bind fun _ => .ret value
  | .goexit => unwound.bind fun _ => .goexit
  | .call effect resume => .call effect fun answer => onExit returned unwound (resume answer)

/-- The program performs only effects of one kind, and does not unwind. -/
def Only (kind : ε → Prop) : Program ρ α → Prop
  | .ret _ => True
  | .goexit => False
  | .call effect resume => kind effect ∧ ∀ answer, Only kind (resume answer)

variable {kind : ε → Prop}

@[simp]
theorem only_pure {value : α} : Only kind (pure value : Program ρ α) := trivial

theorem only_perform {effect : ε} (isKind : kind effect) :
    Only kind (perform effect : Program ρ (ρ effect)) := ⟨isKind, fun _ => trivial⟩

theorem only_bind {program : Program ρ α} {next : α → Program ρ β}
    (first : Only kind program) (second : ∀ value, Only kind (next value)) :
    Only kind (program >>= next) := by
  induction program with
  | ret value => exact second value
  | goexit => cases first
  | call effect resume ih => exact ⟨first.1, fun answer => ih answer (first.2 answer)⟩

/-- One effect, then the rest. -/
theorem only_step {effect : ε} {next : ρ effect → Program ρ α} (isKind : kind effect)
    (rest : ∀ answer, Only kind (next answer)) : Only kind (perform effect >>= next) :=
  ⟨isKind, rest⟩

/-- A call that may fail, and what follows it either way. -/
theorem only_try {program : Program ρ (Option α)} {next : Option α → Program ρ β}
    (first : Only kind program) (failed : ∀ error, Only kind (next (some error)))
    (succeeded : Only kind (next none)) : Only kind (program >>= next) := by
  refine only_bind first fun failure => ?_
  cases failure with
  | some error => exact failed error
  | none => exact succeeded

theorem only_onExit {program : Program ρ α} {returned unwound : Program ρ Unit}
    (first : Only kind program) (last : Only kind returned) :
    Only kind (onExit returned unwound program) := by
  induction program with
  | ret value => exact only_bind last fun _ => trivial
  | goexit => cases first
  | call effect resume ih => exact ⟨first.1, fun answer => ih answer (first.2 answer)⟩

end Program

/-- An effect with its answer. -/
structure Event {ε : Type} (ρ : ε → Type) where
  effect : ε
  answer : ρ effect

/-- What a thread performed, latest first. -/
abbrev History {ε : Type} (ρ : ε → Type) := List (Event ρ)

/-! ## Monitors -/

/-- A monitor with states `σ`. -/
structure Monitor {ε : Type} (ρ : ε → Type) (σ : Type) where
  start : σ
  next : σ → (effect : ε) → ρ effect → σ
  allowed : σ → ε → Prop
  expects : σ → (effect : ε) → ρ effect → Prop

namespace Monitor

variable {ε : Type} {ρ : ε → Type} {σ α β : Type}

/-- The state after a history. -/
def state (monitor : Monitor ρ σ) : History ρ → σ
  | [] => monitor.start
  | event :: earlier => monitor.next (monitor.state earlier) event.effect event.answer

/-- The program performs only allowed effects as long as its answers are
expected; it returns into `returns` and unwinds into `unwinds`. -/
def wp (monitor : Monitor ρ σ) : Program ρ α → (α → σ → Prop) → (σ → Prop) → σ → Prop
  | .ret value, returns, _, state => returns value state
  | .goexit, _, unwinds, state => unwinds state
  | .call effect resume, returns, unwinds, state =>
    monitor.allowed state effect ∧ ∀ answer, monitor.expects state effect answer →
      monitor.wp (resume answer) returns unwinds (monitor.next state effect answer)

variable {monitor : Monitor ρ σ} {returns : α → σ → Prop} {unwinds : σ → Prop} {state : σ}

@[simp]
theorem wp_pure {value : α} :
    monitor.wp (pure value) returns unwinds state ↔ returns value state := Iff.rfl

theorem wp_bind_program {program : Program ρ α} {next : α → Program ρ β}
    {returns : β → σ → Prop} :
    monitor.wp (program.bind next) returns unwinds state ↔
      monitor.wp program (fun value middle => monitor.wp (next value) returns unwinds middle)
        unwinds state := by
  induction program generalizing state with
  | ret value => exact Iff.rfl
  | goexit => exact Iff.rfl
  | call effect resume ih =>
    exact and_congr_right fun _ => forall_congr' fun answer =>
      imp_congr_right fun _ => ih answer

@[simp]
theorem wp_bind {program : Program ρ α} {next : α → Program ρ β} {returns : β → σ → Prop} :
    monitor.wp (program >>= next) returns unwinds state ↔
      monitor.wp program (fun value middle => monitor.wp (next value) returns unwinds middle)
        unwinds state := wp_bind_program

/-- One effect, then the rest. -/
theorem wp_step {effect : ε} {next : ρ effect → Program ρ α}
    (allowed : monitor.allowed state effect)
    (meets : ∀ answer, monitor.expects state effect answer →
      monitor.wp (next answer) returns unwinds (monitor.next state effect answer)) :
    monitor.wp (.perform effect >>= next) returns unwinds state :=
  ⟨allowed, meets⟩

/-- The rule for deferred calls. -/
theorem wp_onExit {program : Program ρ α} {returned unwound : Program ρ Unit} :
    monitor.wp (Program.onExit returned unwound program) returns unwinds state ↔
      monitor.wp program
        (fun value middle => monitor.wp returned (fun _ last => returns value last) unwinds middle)
        (fun middle => monitor.wp unwound (fun _ last => unwinds last) unwinds middle) state := by
  induction program generalizing state with
  | ret value => exact wp_bind_program
  | goexit => exact wp_bind_program
  | call effect resume ih =>
    exact and_congr_right fun _ => forall_congr' fun answer =>
      imp_congr_right fun _ => ih answer

/-- The rule of consequence. -/
theorem wp_mono {program : Program ρ α} {returns' : α → σ → Prop} {unwinds' : σ → Prop}
    (meets : monitor.wp program returns unwinds state)
    (weakens : ∀ value last, returns value last → returns' value last)
    (weakensUnwind : ∀ last, unwinds last → unwinds' last) :
    monitor.wp program returns' unwinds' state := by
  induction program generalizing state with
  | ret value => exact weakens value state meets
  | goexit => exact weakensUnwind state meets
  | call effect resume ih =>
    exact ⟨meets.1, fun answer expected => ih answer (meets.2 answer expected)⟩

/-- The rule of sequence. -/
theorem wp_imp {program : Program ρ α} {returns' : α → σ → Prop}
    (meets : monitor.wp program returns unwinds state)
    (weakens : ∀ value last, returns value last → returns' value last) :
    monitor.wp program returns' unwinds state :=
  wp_mono meets weakens fun _ unwound => unwound

theorem wp_seq {program : Program ρ α} {next : α → Program ρ β} {returns' : β → σ → Prop}
    (first : monitor.wp program returns unwinds state)
    (second : ∀ value last, returns value last → monitor.wp (next value) returns' unwinds last) :
    monitor.wp (program >>= next) returns' unwinds state :=
  wp_bind.mpr (wp_imp first second)

/-- A program whose effects are always allowed and keep a preorder on states
ends in a state above the first one. -/
theorem wp_only {kind : ε → Prop} {keeps : σ → σ → Prop} (refl : ∀ before, keeps before before)
    (trans : ∀ first second third, keeps first second → keeps second third → keeps first third)
    (allowed : ∀ before effect, kind effect → monitor.allowed before effect)
    (step : ∀ before effect answer, kind effect → keeps before (monitor.next before effect answer))
    {program : Program ρ α} (only : program.Only kind)
    (meets : ∀ value last, keeps state last → returns value last) :
    monitor.wp program returns unwinds state := by
  induction program generalizing state with
  | ret value => exact meets value state (refl state)
  | goexit => cases only
  | call effect resume ih =>
    refine ⟨allowed state effect only.1, fun answer _ => ih answer (only.2 answer) ?_⟩
    intro value last kept
    exact meets value last (trans _ _ _ (step state effect answer only.1) kept)

end Monitor

end OutboxFormal.Library
