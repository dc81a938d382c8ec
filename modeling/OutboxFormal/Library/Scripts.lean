import OutboxFormal.Library.Concurrency

/-!
# Scripted runs

An executable semantics computes the world after an effect or a command of the
environment. A script schedules threads and answers their effects; a script
that runs to its end is an interleaving of the semantics.
-/

namespace OutboxFormal.Library

variable {ε ι ω κ : Type} {ρ : ε → Type}

/-- A semantics that can be run: `react` answers to effects, `command` moves the
environment. -/
structure Interpreter (semantics : Semantics ι ω ρ) (κ : Type) where
  react : Nat → ω → (effect : ε) → ρ effect → Option ω
  command : κ → ω → Option ω
  performs : ∀ {thread world effect answer after},
    react thread world effect answer = some after →
    semantics.perform thread world effect answer after
  moves : ∀ {order world after}, command order world = some after →
    semantics.environment world after

/-- One line of a script: a thread performs its next effect and is answered, or
the environment moves. -/
inductive ScriptLine (ω κ : Type) {ε : Type} (ρ : ε → Type) where
  | thread (index : Nat) (answer : ω → (effect : ε) → Option (ρ effect))
  | command (order : κ)

namespace Interpreter

variable {semantics : Semantics ι ω ρ} (interpreter : Interpreter semantics κ)

/-- The configuration after one line, if the line can be played. -/
def advance (config : Config ι ω ρ) : ScriptLine ω κ ρ → Option (Config ι ω ρ)
  | .command order =>
    (interpreter.command order config.world).map fun after => { config with world := after }
  | .thread index answers =>
    match config.threads[index]? with
    | some ⟨role, history, .call effect resume⟩ =>
      match answers config.world effect with
      | some answer =>
        match interpreter.react index config.world effect answer with
        | some after =>
          some ⟨after, config.threads.set index
            ⟨role, ⟨effect, answer⟩ :: history, resume answer⟩ ++
              (semantics.spawned effect answer).map Thread.start⟩
        | none => none
      | none => none
    | _ => none

/-- Play a whole script. -/
def play (config : Config ι ω ρ) : List (ScriptLine ω κ ρ) → Option (Config ι ω ρ)
  | [] => some config
  | line :: rest =>
    match interpreter.advance config line with
    | some after => play after rest
    | none => none

variable {interpreter} {config after : Config ι ω ρ}

theorem advance_step {line : ScriptLine ω κ ρ}
    (advances : interpreter.advance config line = some after) : semantics.Step config after := by
  obtain ⟨world, threads⟩ := config
  cases line with
  | command order =>
    obtain ⟨next, moved, rfl⟩ := Option.map_eq_some_iff.mp advances
    exact .environment (interpreter.moves moved)
  | thread index answers =>
    simp only [advance] at advances
    split at advances
    · rename_i found
      split at advances
      · split at advances
        · rename_i performed
          cases advances
          exact .thread found (interpreter.performs performed)
        · cases advances
      · cases advances
    · cases advances

/-- A script that can be played is an interleaving. -/
theorem play_reaches {script : List (ScriptLine ω κ ρ)}
    (plays : interpreter.play config script = some after) : semantics.Reaches config after := by
  induction script generalizing config with
  | nil =>
    cases plays
    exact Relation.ReflTransGen.refl
  | cons line rest ih =>
    unfold play at plays
    split at plays
    · rename_i advanced
      exact Relation.ReflTransGen.head (advance_step advanced) (ih plays)
    · cases plays

end Interpreter

end OutboxFormal.Library
