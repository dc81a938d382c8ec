import OutboxFormal.Library.Concurrency

/-!
# Observers beside a monitor

An observer reads the states of a monitor and keeps states of its own. A program
is checked against the observer alone over the answers the monitor expects, and
the two verdicts combine. A lawful history performed allowed effects only;
under supervision the history of every thread is lawful.
What remains of a program after some of its events says what a call that has
begun may still do.
-/

namespace OutboxFormal.Library

variable {ε ι ω σ τ α β : Type} {ρ : ε → Type}

/-- States `τ` beside the states `σ` of a monitor. -/
structure Observer {ε : Type} (ρ : ε → Type) (σ τ : Type) where
  start : τ
  next : σ → τ → (effect : ε) → ρ effect → τ
  allowed : σ → τ → ε → Prop

/-! ## Two verdicts on one program -/

namespace Monitor

/-- The verdicts of both. -/
def observed (monitor : Monitor ρ σ) (observer : Observer ρ σ τ) : Monitor ρ (σ × τ) where
  start := (monitor.start, observer.start)
  next state effect answer :=
    (monitor.next state.1 effect answer, observer.next state.1 state.2 effect answer)
  allowed state effect :=
    monitor.allowed state.1 effect ∧ observer.allowed state.1 state.2 effect
  expects state effect answer := monitor.expects state.1 effect answer

variable {monitor : Monitor ρ σ} {observer : Observer ρ σ τ} {program : Program ρ α}
variable {returns : α → σ → Prop} {unwinds : σ → Prop}
variable {returns' : α → σ × τ → Prop} {unwinds' : σ × τ → Prop} {state : σ} {beyond : τ}

/-- The monitor's own verdict on an observed program. -/
theorem wp_of_observed
    (both : (monitor.observed observer).wp program (fun value last => returns value last.1)
      (fun last => unwinds last.1) (state, beyond)) : monitor.wp program returns unwinds state := by
  induction program generalizing state beyond with
  | ret value => exact both
  | goexit => exact both
  | call effect resume ih =>
    exact ⟨both.1.1, fun answer expected => ih answer (both.2 answer expected)⟩

/-- The state some events lead to, the latest first. -/
def advance (monitor : Monitor ρ σ) (state : σ) (events : History ρ) : σ :=
  events.foldr (fun event before => monitor.next before event.effect event.answer) state

/-! ## Lawful histories -/

/-- Every effect was allowed when it was performed. -/
def Lawful (monitor : Monitor ρ σ) : History ρ → Prop
  | [] => True
  | event :: earlier =>
    Lawful monitor earlier ∧ monitor.allowed (monitor.state earlier) event.effect

theorem Lawful.allowed {later earlier : History ρ} {event : Event ρ}
    (lawful : monitor.Lawful (later ++ event :: earlier)) :
    monitor.allowed (monitor.state earlier) event.effect := by
  induction later with
  | nil => exact lawful.2
  | cons last later ih => exact ih lawful.1

end Monitor

/-- Supervised threads have lawful histories. -/
theorem Supervision.lawful {semantics : Semantics ι ω ρ} {monitor : ι → Monitor ρ σ}
    {holds : ω → List (ι × History ρ) → Prop} (supervision : Supervision semantics monitor holds) :
    Supervision semantics monitor fun world pasts =>
      holds world pasts ∧ ∀ past ∈ pasts, (monitor past.1).Lawful past.2 where
  spawns := supervision.spawns
  performs world pasts index role history effect answer after kept found allowed performs := by
    obtain ⟨expected, next⟩ := supervision.performs world pasts index role history effect answer
      after kept.1 found allowed performs
    refine ⟨expected, next, fun past member => ?_⟩
    rcases List.mem_append.mp member with member | child
    · rcases List.mem_or_eq_of_mem_set member with member | rfl
      · exact kept.2 past member
      · exact ⟨kept.2 _ (List.mem_of_getElem? found), allowed⟩
    · obtain ⟨started, -, rfl⟩ := List.mem_map.mp child
      trivial
  moves world pasts after kept moves := ⟨supervision.moves _ _ _ kept.1 moves, kept.2⟩

/-! ## The rest of a program -/

namespace Program

/-- What remains of a program after events, the latest first. -/
inductive After (program : Program ρ α) : History ρ → Program ρ α → Prop where
  | start : After program [] program
  | event {history : History ρ} {effect : ε} {resume : ρ effect → Program ρ α}
      (answer : ρ effect) (before : After program history (.call effect resume)) :
      After program (⟨effect, answer⟩ :: history) (resume answer)

/-- The rest of a watched program is watched from where its events lead. -/
theorem After.wp {monitor : Monitor ρ σ} {program rest : Program ρ α} {events : History ρ}
    {returns : α → σ → Prop} {unwinds : σ → Prop} {state : σ}
    (after : program.After events rest) (meets : monitor.wp program returns unwinds state)
    (expected : ∀ event ∈ events, ∀ before, monitor.expects before event.effect event.answer) :
    monitor.wp rest returns unwinds (monitor.advance state events) := by
  induction after with
  | start => exact meets
  | event answer before ih =>
    have calls := ih fun event member => expected event (List.mem_cons_of_mem _ member)
    exact calls.2 answer (expected _ List.mem_cons_self _)

/-- Programs of one kind perform events of that kind. -/
theorem After.only {kind : ε → Prop} {program rest : Program ρ α} {events : History ρ}
    (after : program.After events rest) (only : program.Only kind) :
    rest.Only kind ∧ ∀ event ∈ events, kind event.effect := by
  induction after with
  | start => exact ⟨only, nofun⟩
  | event answer before ih =>
    refine ⟨ih.1.2 answer, fun event member => ?_⟩
    rcases List.mem_cons.mp member with rfl | member
    · exact ih.1.1
    · exact ih.2 event member

end Program

end OutboxFormal.Library
