import OutboxFormal.Library.Observers
import OutboxFormal.Library.Scripts

/-!
# Runs with a common record

A record lists the events of all threads in the order in which they happened,
the latest first. The recorded semantics moves the world as before and writes
every event down, so that a property may speak about the order of events of
different threads. The history of a thread is its share of the record.
-/

namespace OutboxFormal.Library

variable {ε ι ω σ κ : Type} {ρ : ε → Type}

/-- The events of a run with their threads, latest first. -/
abbrev Record {ε : Type} (ρ : ε → Type) := List (Nat × Event ρ)

/-- The events of one thread. -/
def Record.of (record : Record ρ) (thread : Nat) : History ρ :=
  (record.filter fun entry => entry.1 = thread).map Prod.snd

theorem Record.of_cons_self (record : Record ρ) (thread : Nat) (event : Event ρ) :
    Record.of ((thread, event) :: record) thread = event :: record.of thread := by
  simp [Record.of]

theorem Record.of_cons_ne {record : Record ρ} {thread other : Nat} {event : Event ρ}
    (different : other ≠ thread) :
    Record.of ((other, event) :: record) thread = record.of thread := by
  simp [Record.of, different]

/-- A thread without events has no history. -/
theorem Record.of_eq_nil {record : Record ρ} {thread : Nat}
    (absent : ∀ entry ∈ record, entry.1 ≠ thread) : record.of thread = [] := by
  rw [Record.of, List.map_eq_nil_iff, List.filter_eq_nil_iff]
  exact fun entry member same => absent entry member (of_decide_eq_true same)

/-- A condition on every event of a record and the events before it. -/
def Record.Always (step : Record ρ → Nat → Event ρ → Prop) : Record ρ → Prop
  | [] => True
  | (thread, event) :: record => step record thread event ∧ Record.Always step record

instance Record.decidableAlways {step : Record ρ → Nat → Event ρ → Prop}
    [∀ record thread event, Decidable (step record thread event)] :
    (record : Record ρ) → Decidable (record.Always step)
  | [] => .isTrue trivial
  | (thread, event) :: record =>
    let _ : Decidable (Record.Always step record) := Record.decidableAlways record
    inferInstanceAs (Decidable (step record thread event ∧ Record.Always step record))

namespace Semantics

/-- The same steps, written down. -/
def recorded (semantics : Semantics ι ω ρ) : Semantics ι (ω × Record ρ) ρ where
  perform thread before effect answer after :=
    semantics.perform thread before.1 effect answer after.1 ∧
      after.2 = (thread, ⟨effect, answer⟩) :: before.2
  environment before after := semantics.environment before.1 after.1 ∧ after.2 = before.2
  spawned := semantics.spawned

end Semantics

/-- A run that can be played can be recorded. -/
def Interpreter.recorded {semantics : Semantics ι ω ρ} (interpreter : Interpreter semantics κ) :
    Interpreter semantics.recorded κ where
  react thread before effect answer :=
    (interpreter.react thread before.1 effect answer).map fun after =>
      (after, (thread, ⟨effect, answer⟩) :: before.2)
  command order before := (interpreter.command order before.1).map fun after => (after, before.2)
  performs := by
    intro thread before effect answer after reacts
    obtain ⟨world, reached, rfl⟩ := Option.map_eq_some_iff.mp reacts
    exact ⟨interpreter.performs reached, rfl⟩
  moves := by
    intro order before after moved
    obtain ⟨world, reached, rfl⟩ := Option.map_eq_some_iff.mp moved
    exact ⟨interpreter.moves reached, rfl⟩

/-- Every thread has its share of the record as its history, and shares belong
to threads. -/
structure Recorded (record : Record ρ) (pasts : List (ι × History ρ)) : Prop where
  shares : ∀ thread past, pasts[thread]? = some past → past.2 = record.of thread
  known : ∀ entry ∈ record, entry.1 < pasts.length

/-- What has to be shown of one more event for a property of world and record,
when every thread meets the monitor of its role. -/
structure Recording (semantics : Semantics ι ω ρ) (monitor : ι → Monitor ρ σ)
    (holds : ω → Record ρ → Prop) : Prop where
  spawns : ∀ effect answer, ∀ child ∈ semantics.spawned effect answer,
    (Thread.start child).Watched monitor
  expects : ∀ role state effect answer, (monitor role).expects state effect answer
  performs : ∀ {world record thread role effect answer after}, holds world record →
    (monitor role).allowed ((monitor role).state (record.of thread)) effect →
    semantics.perform thread world effect answer after →
    holds after ((thread, ⟨effect, answer⟩) :: record)
  moves : ∀ {world record after}, holds world record → semantics.environment world after →
    holds after record

namespace Recording

variable {semantics : Semantics ι ω ρ} {monitor : ι → Monitor ρ σ} {holds : ω → Record ρ → Prop}

theorem supervision (recording : Recording semantics monitor holds) :
    Supervision semantics.recorded monitor fun before pasts =>
      Recorded before.2 pasts ∧ holds before.1 before.2 where
  spawns := recording.spawns
  performs := by
    rintro ⟨world, record⟩ pasts index role history effect answer ⟨after, written⟩ ⟨kept, held⟩
      found allowed ⟨performed, rfl⟩
    refine ⟨recording.expects role _ effect answer, ⟨?_, ?_⟩, ?_⟩
    · intro thread past past_found
      rcases getElem?_stepped past_found with ⟨rfl, rfl⟩ | ⟨different, same⟩ | ⟨outside, child⟩
      · rw [Record.of_cons_self, ← kept.shares thread _ found]
      · rw [Record.of_cons_ne (Ne.symm different)]
        exact kept.shares thread past same
      · obtain ⟨started, -, rfl⟩ := List.mem_map.mp child
        have inside := (List.getElem?_eq_some_iff.mp found).1
        rw [Record.of_cons_ne (by omega)]
        refine (Record.of_eq_nil fun entry member => ?_).symm
        have := kept.known entry member
        omega
    · intro entry member
      have inside := (List.getElem?_eq_some_iff.mp found).1
      rw [List.length_append, List.length_set]
      rcases List.mem_cons.mp member with rfl | member
      · exact Nat.lt_add_right _ inside
      · exact Nat.lt_add_right _ (kept.known entry member)
    · have share : history = record.of index := kept.shares index _ found
      rw [share] at allowed
      exact recording.performs held allowed performed
  moves := by
    rintro ⟨world, record⟩ pasts ⟨after, written⟩ ⟨kept, held⟩ ⟨moved, rfl⟩
    exact ⟨kept, recording.moves held moved⟩

/-- Every recorded run keeps the property. -/
theorem reaches (recording : Recording semantics monitor holds) {world : ω}
    {threads : List (Thread ι ρ)} (fresh : ∀ thread ∈ threads, thread.history = [])
    (watched : ∀ thread ∈ threads, thread.Watched monitor) (start : holds world [])
    {last : Config ι (ω × Record ρ) ρ}
    (reached : semantics.recorded.Reaches ⟨(world, []), threads⟩ last) :
    holds last.world.1 last.world.2 := by
  have begins : Supervision.Holds monitor (fun before pasts =>
      Recorded before.2 pasts ∧ holds before.1 before.2)
      (⟨(world, []), threads⟩ : Config ι (ω × Record ρ) ρ) := by
    refine ⟨⟨⟨?_, nofun⟩, start⟩, watched⟩
    intro thread past found
    obtain ⟨started, member, rfl⟩ := List.mem_map.mp (List.mem_of_getElem? found)
    exact fresh started member
  exact (recording.supervision.reaches begins reached).invariant.2

end Recording

end OutboxFormal.Library
