import OutboxFormal.Library.Observers
import OutboxFormal.Library.Scripts

/-!
# A value behind a mutex

Effects acquire, write or release a guarded value, or have nothing to do with
it. If every thread writes only values with an invariant, and only while it
holds the mutex, then every interleaving keeps the invariant, and a thread that
holds the mutex knows the value.
-/

namespace OutboxFormal.Library

variable {ε ι ν α : Type} {ρ : ε → Type}

/-- The program performs only effects of one kind; it may unwind. -/
def Program.Within (kind : ε → Prop) : Program ρ α → Prop
  | .ret _ | .goexit => True
  | .call effect resume => kind effect ∧ ∀ answer, Within kind (resume answer)

namespace Program

variable {kind : ε → Prop}

theorem Only.within {program : Program ρ α} (only : program.Only kind) : program.Within kind := by
  induction program with
  | ret value => trivial
  | goexit => cases only
  | call effect resume ih => exact ⟨only.1, fun answer => ih answer (only.2 answer)⟩

theorem Within.mono {other : ε → Prop} {program : Program ρ α} (within : program.Within kind)
    (weaker : ∀ effect, kind effect → other effect) : program.Within other := by
  induction program with
  | ret value => trivial
  | goexit => trivial
  | call effect resume ih =>
    exact ⟨weaker effect within.1, fun answer => ih answer (within.2 answer)⟩

end Program

/-- Effects that are allowed and keep a property of the state keep it throughout. -/
theorem Monitor.wp_within {σ : Type} {monitor : Monitor ρ σ} {kind : ε → Prop} {keeps : σ → Prop}
    (step : ∀ state effect, keeps state → kind effect → monitor.allowed state effect ∧
      ∀ answer, keeps (monitor.next state effect answer))
    {program : Program ρ α} (within : program.Within kind) {state : σ} (holds : keeps state) :
    monitor.wp program (fun _ => keeps) keeps state := by
  induction program generalizing state with
  | ret value => exact holds
  | goexit => exact holds
  | call effect resume ih =>
    obtain ⟨allowed, kept⟩ := step state effect holds within.1
    exact ⟨allowed, fun answer _ => ih answer (within.2 answer) (kept answer)⟩

/-- What an answered effect does to a guarded value. -/
inductive GuardStep (ν : Type) where
  | acquire (value : ν)
  | write (value : ν)
  | release
  | elsewhere

/-- How the effects of a program use a guarded value, and which answers the
surroundings can give. -/
structure Guard {ε : Type} (ρ : ε → Type) (ν : Type) where
  step : (effect : ε) → ρ effect → GuardStep ν
  possible : (effect : ε) → ρ effect → Prop

/-- The value and the thread that holds the mutex. -/
structure Guarded (ν : Type) where
  value : ν
  holder : Option Nat

namespace Guard

variable (guard : Guard ρ ν)

/-- The threads over the guarded value; effects elsewhere get any possible answer. -/
def semantics (ι : Type) : Semantics ι (Guarded ν) ρ where
  perform thread world effect answer after :=
    guard.possible effect answer ∧
      match guard.step effect answer with
      | .acquire value =>
        world.holder = none ∧ value = world.value ∧ after = ⟨world.value, some thread⟩
      | .write value => world.holder = some thread ∧ after = ⟨value, some thread⟩
      | .release => world.holder = some thread ∧ after = ⟨world.value, none⟩
      | .elsewhere => after = world
  environment _ _ := False
  spawned _ _ := []

/-- The value in the hands of a thread after an effect. -/
def next (held : Option ν) (effect : ε) (answer : ρ effect) : Option ν :=
  match guard.step effect answer with
  | .acquire value | .write value => some value
  | .release => none
  | .elsewhere => held

/-- The mutex is taken once, and written and released by its holder. -/
def Disciplined (invariant : ν → Prop) (held : Option ν) : GuardStep ν → Prop
  | .acquire _ => held = none
  | .write value => held.isSome = true ∧ invariant value
  | .release => held.isSome = true
  | .elsewhere => True

/-- The monitor of a client: `permits` are further duties, which depend on the
value in hand. -/
def client (invariant : ν → Prop) (permits : Option ν → ε → Prop) : Monitor ρ (Option ν) where
  start := none
  next := guard.next
  allowed held effect := permits held effect ∧ ∀ answer, guard.possible effect answer →
    Disciplined invariant held (guard.step effect answer)
  expects _ effect answer := guard.possible effect answer ∧
    ∀ value, guard.step effect answer = .acquire value → invariant value

variable {guard} {invariant : ν → Prop} {permits : Option ν → ε → Prop}

/-- The invariant holds, and exactly the holder has the value in hand. -/
def Keeps (guard : Guard ρ ν) (invariant : ν → Prop) (permits : Option ν → ε → Prop)
    (world : Guarded ν) (pasts : List (ι × History ρ)) : Prop :=
  invariant world.value ∧ ∀ index past, pasts[index]? = some past →
    (guard.client invariant permits).state past.2 =
      if world.holder = some index then some world.value else none

/-- Every interleaving of clients keeps the invariant. -/
theorem supervision :
    Supervision (guard.semantics ι) (fun _ => guard.client invariant permits)
      (guard.Keeps invariant permits) where
  spawns _ _ _ child := nomatch child
  moves _ _ _ _ moved := moved.elim
  performs world pasts index role history effect answer after kept found allowed performed := by
    obtain ⟨possible, step⟩ := performed
    have hand := kept.2 index (role, history) found
    have disciplined := allowed.2 answer possible
    have acting : (guard.client invariant permits).state (⟨effect, answer⟩ :: history) =
        guard.next ((guard.client invariant permits).state history) effect answer := rfl
    -- The other clients keep what they have in hand.
    have others : ∀ other past, (pasts.set index (role, ⟨effect, answer⟩ :: history) ++
        ((guard.semantics ι).spawned effect answer).map fun child => (child.1, []))[other]? =
          some past →
        (other = index ∧ past = (role, ⟨effect, answer⟩ :: history)) ∨
          other ≠ index ∧ pasts[other]? = some past := by
      intro other past located
      rcases getElem?_stepped located with same | different | ⟨-, child⟩
      · exact Or.inl same
      · exact Or.inr different
      · exact nomatch child
    rw [hand] at disciplined
    unfold next at acting
    rw [hand] at acting
    cases stepped : guard.step effect answer with
    | acquire value =>
      rw [stepped] at step disciplined acting
      obtain ⟨free, rfl, rfl⟩ := step
      refine ⟨⟨possible, fun value same => ?_⟩, kept.1, fun other past located => ?_⟩
      · rw [stepped] at same
        cases same
        exact kept.1
      · rcases others other past located with ⟨rfl, rfl⟩ | ⟨different, before⟩
        · simpa using acting
        · have unheld := kept.2 other past before
          rw [free] at unheld
          simpa [Ne.symm different] using unheld
    | write value =>
      rw [stepped] at step disciplined acting
      obtain ⟨holds, rfl⟩ := step
      refine ⟨⟨possible, fun value same => ?_⟩, disciplined.2, fun other past located => ?_⟩
      · rw [stepped] at same
        cases same
      · rcases others other past located with ⟨rfl, rfl⟩ | ⟨different, before⟩
        · simpa using acting
        · have unheld := kept.2 other past before
          rw [holds] at unheld
          simpa [Ne.symm different] using unheld
    | release =>
      rw [stepped] at step disciplined acting
      obtain ⟨holds, rfl⟩ := step
      refine ⟨⟨possible, fun value same => ?_⟩, kept.1, fun other past located => ?_⟩
      · rw [stepped] at same
        cases same
      · rcases others other past located with ⟨rfl, rfl⟩ | ⟨different, before⟩
        · simpa using acting
        · have unheld := kept.2 other past before
          rw [holds] at unheld
          simpa [Ne.symm different] using unheld
    | elsewhere =>
      rw [stepped] at step disciplined acting
      subst step
      refine ⟨⟨possible, fun value same => ?_⟩, kept.1, fun other past located => ?_⟩
      · rw [stepped] at same
        cases same
      · rcases others other past located with ⟨rfl, rfl⟩ | ⟨-, before⟩
        · exact acting
        · exact kept.2 other past before

/-- A guarded value can be run if its answers can be judged. -/
def interpreter (guard : Guard ρ ν) (ι : Type) [DecidableEq ν]
    (judge : (effect : ε) → ρ effect → Bool)
    (sound : ∀ effect answer, judge effect answer = true → guard.possible effect answer) :
    Interpreter (guard.semantics ι) Empty where
  react thread world effect answer :=
    if judge effect answer then
      match guard.step effect answer with
      | .acquire value =>
        if world.holder = none ∧ value = world.value then some ⟨world.value, some thread⟩ else none
      | .write value => if world.holder = some thread then some ⟨value, some thread⟩ else none
      | .release => if world.holder = some thread then some ⟨world.value, none⟩ else none
      | .elsewhere => some world
    else none
  command order := nomatch order
  performs := by
    intro thread world effect answer after reacts
    split at reacts
    · rename_i judged
      refine ⟨sound effect answer judged, ?_⟩
      cases stepped : guard.step effect answer <;> simp_all
    · cases reacts
  moves := by
    intro order
    cases order

end Guard

end OutboxFormal.Library
