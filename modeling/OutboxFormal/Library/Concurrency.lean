import Mathlib.Data.List.Forall2
import Mathlib.Logic.Relation
import OutboxFormal.Library.Program

/-!
# Interleavings of threads over a shared world

Threads are programs with a role and a history. A step lets one thread perform
its next effect, which may start further threads, or lets the environment move
the world. The invariant rule reduces a property of every interleaving to two
kinds of facts: every thread meets the monitor of its role, and every effect a
monitor allows keeps a relation between the world and the histories.
-/

namespace OutboxFormal.Library

variable {ε ι ω σ : Type} {ρ : ε → Type}

/-- How effects and the environment move a world. -/
structure Semantics (ι ω : Type) {ε : Type} (ρ : ε → Type) where
  perform : Nat → ω → (effect : ε) → ρ effect → ω → Prop
  environment : ω → ω → Prop
  spawned : (effect : ε) → ρ effect → List (ι × Program ρ Unit)

/-- A running program with its role and what it performed so far. -/
structure Thread (ι : Type) {ε : Type} (ρ : ε → Type) where
  role : ι
  history : History ρ
  program : Program ρ Unit

/-- A thread that has performed nothing yet. -/
def Thread.start (child : ι × Program ρ Unit) : Thread ι ρ := ⟨child.1, [], child.2⟩

/-- A world with the threads that run over it. -/
structure Config (ι ω : Type) {ε : Type} (ρ : ε → Type) where
  world : ω
  threads : List (Thread ι ρ)

namespace Semantics

variable (semantics : Semantics ι ω ρ)

inductive Step : Config ι ω ρ → Config ι ω ρ → Prop where
  | thread {world after : ω} {threads : List (Thread ι ρ)} {index : Nat} {role : ι}
      {history : History ρ} {effect : ε} {resume : ρ effect → Program ρ Unit}
      {answer : ρ effect} (found : threads[index]? = some ⟨role, history, .call effect resume⟩)
      (performs : semantics.perform index world effect answer after) :
      Step ⟨world, threads⟩
        ⟨after, threads.set index ⟨role, ⟨effect, answer⟩ :: history, resume answer⟩ ++
          (semantics.spawned effect answer).map Thread.start⟩
  | environment {world after : ω} {threads : List (Thread ι ρ)}
      (moves : semantics.environment world after) : Step ⟨world, threads⟩ ⟨after, threads⟩

/-- Some interleaving leads from the first configuration to the second. -/
def Reaches : Config ι ω ρ → Config ι ω ρ → Prop := Relation.ReflTransGen semantics.Step

variable {semantics}

/-- One more effect of a thread. -/
theorem Reaches.perform {first : Config ι ω ρ} {world after : ω} {threads : List (Thread ι ρ)}
    {role : ι} {history : History ρ} {effect : ε} {resume : ρ effect → Program ρ Unit}
    {answer : ρ effect} (reached : semantics.Reaches first ⟨world, threads⟩) (index : Nat)
    (found : threads[index]? = some ⟨role, history, .call effect resume⟩)
    (performs : semantics.perform index world effect answer after) :
    semantics.Reaches first
      ⟨after, threads.set index ⟨role, ⟨effect, answer⟩ :: history, resume answer⟩ ++
        (semantics.spawned effect answer).map Thread.start⟩ :=
  reached.tail (.thread found performs)

end Semantics

/-- The thread meets the monitor of its role from now on. -/
def Thread.Watched (monitor : ι → Monitor ρ σ) (thread : Thread ι ρ) : Prop :=
  (monitor thread.role).wp thread.program (fun _ _ => True) (fun _ => True)
    ((monitor thread.role).state thread.history)

/-- Role and history, what an invariant may read of a thread. -/
def Thread.past (thread : Thread ι ρ) : ι × History ρ := (thread.role, thread.history)

/-- The entries of a list of pasts after a step of one thread: its own, an
unchanged one, or that of a thread that was started. -/
theorem getElem?_stepped {α : Type} {pasts children : List α} {index other : Nat} {new past : α}
    (found : (pasts.set index new ++ children)[other]? = some past) :
    (other = index ∧ past = new) ∨ (other ≠ index ∧ pasts[other]? = some past) ∨
      (pasts.length ≤ other ∧ past ∈ children) := by
  by_cases inside : other < pasts.length
  · rw [List.getElem?_append_left (by simpa using inside), List.getElem?_set] at found
    by_cases same : index = other
    · subst same
      simp only [if_true, inside, Option.some.injEq] at found
      exact Or.inl ⟨rfl, found.symm⟩
    · rw [if_neg same] at found
      exact Or.inr (Or.inl ⟨Ne.symm same, found⟩)
  · rw [List.getElem?_append_right (by simpa using inside)] at found
    exact Or.inr (Or.inr ⟨Nat.le_of_not_lt inside, List.mem_of_getElem? found⟩)

/-- What has to be shown of every effect for an invariant of all interleavings. -/
structure Supervision (semantics : Semantics ι ω ρ) (monitor : ι → Monitor ρ σ)
    (holds : ω → List (ι × History ρ) → Prop) : Prop where
  spawns : ∀ effect answer, ∀ child ∈ semantics.spawned effect answer,
    (Thread.start child).Watched monitor
  performs : ∀ world pasts index role history effect answer after, holds world pasts →
    pasts[index]? = some (role, history) →
    (monitor role).allowed ((monitor role).state history) effect →
    semantics.perform index world effect answer after →
    (monitor role).expects ((monitor role).state history) effect answer ∧
      holds after (pasts.set index (role, ⟨effect, answer⟩ :: history) ++
        (semantics.spawned effect answer).map fun child => (child.1, []))
  moves : ∀ world pasts after, holds world pasts → semantics.environment world after →
    holds after pasts

namespace Supervision

variable {semantics : Semantics ι ω ρ} {monitor : ι → Monitor ρ σ}
variable {holds : ω → List (ι × History ρ) → Prop}

/-- The configuration satisfies the invariant and every thread is watched. -/
structure Holds (monitor : ι → Monitor ρ σ) (holds : ω → List (ι × History ρ) → Prop)
    (config : Config ι ω ρ) : Prop where
  invariant : holds config.world (config.threads.map Thread.past)
  watched : ∀ thread ∈ config.threads, thread.Watched monitor

/-- A thread about to perform an effect: its past, and what its monitor allows. -/
theorem Holds.located {config : Config ι ω ρ} (kept : Holds monitor holds config) {index : Nat}
    {role : ι} {history : History ρ} {effect : ε} {resume : ρ effect → Program ρ Unit}
    (found : config.threads[index]? = some ⟨role, history, .call effect resume⟩) :
    (config.threads.map Thread.past)[index]? = some (role, history) ∧
      (monitor role).allowed ((monitor role).state history) effect := by
  have watches : Thread.Watched monitor ⟨role, history, .call effect resume⟩ :=
    kept.watched _ (List.mem_of_getElem? found)
  refine ⟨?_, watches.1⟩
  rw [List.getElem?_map, found]
  rfl

/-- One step of any thread keeps the invariant. -/
theorem step (supervision : Supervision semantics monitor holds)
    {config after : Config ι ω ρ} (kept : Holds monitor holds config)
    (step : semantics.Step config after) : Holds monitor holds after := by
  cases step with
  | @thread world after threads index role history effect resume answer found performs =>
    have watches : Thread.Watched monitor ⟨role, history, .call effect resume⟩ :=
      kept.watched _ (List.mem_of_getElem? found)
    obtain ⟨past, allowed⟩ := kept.located found
    obtain ⟨expected, next⟩ := supervision.performs world _ index role history effect answer
      after kept.invariant past allowed performs
    constructor
    · rw [List.map_append, List.map_set, List.map_map]
      exact next
    · intro thread member
      rcases List.mem_append.mp member with member | member
      · rcases List.mem_or_eq_of_mem_set member with member | same
        · exact kept.watched thread member
        · exact same ▸ watches.2 answer expected
      · obtain ⟨child, hchild, same⟩ := List.mem_map.mp member
        exact same ▸ supervision.spawns effect answer child hchild
  | environment moves => exact ⟨supervision.moves _ _ _ kept.invariant moves, kept.watched⟩

/-- Every interleaving keeps the invariant. -/
theorem reaches (supervision : Supervision semantics monitor holds)
    {config after : Config ι ω ρ} (start : Holds monitor holds config)
    (reaches : semantics.Reaches config after) : Holds monitor holds after := by
  induction reaches with
  | refl => exact start
  | tail _ last ih => exact supervision.step ih last

end Supervision

end OutboxFormal.Library
