import OutboxFormal.Library.Program

/-!
# From one property of states to another

A program leads from one property of a monitor's states to another if it may run
from every state with the first and returns into a state with the second. It
maintains a property if it leads from it back to it. The rules follow the shape
of the program, so that a walk through a large program needs an argument only
where its effects concern the properties. What a program returns whatever it is
answered is kept apart from what it does to the state.
-/

namespace OutboxFormal.Library

variable {ε σ α β : Type} {ρ : ε → Type}

namespace Program

/-- Whatever it is answered, the program returns only such values. -/
def Yields (post : α → Prop) : Program ρ α → Prop
  | .ret value => post value
  | .goexit => True
  | .call _ resume => ∀ answer, Yields post (resume answer)

variable {post : β → Prop}

theorem yields_bind {middle : α → Prop} {program : Program ρ α} {next : α → Program ρ β}
    (first : program.Yields middle) (second : ∀ value, middle value → (next value).Yields post) :
    (program >>= next).Yields post := by
  induction program with
  | ret value => exact second value first
  | goexit => trivial
  | call effect resume ih => exact fun answer => ih answer (first answer)

theorem yields_mono {program : Program ρ β} {weaker : β → Prop} (yields : program.Yields post)
    (weakens : ∀ value, post value → weaker value) : program.Yields weaker := by
  induction program with
  | ret value => exact weakens value yields
  | goexit => trivial
  | call effect resume ih => exact fun answer => ih answer (yields answer)

/-- What follows a program whose results do not matter. -/
theorem yields_after {program : Program ρ α} {next : α → Program ρ β}
    (rest : ∀ value, (next value).Yields post) : (program >>= next).Yields post := by
  induction program with
  | ret value => exact rest value
  | goexit => trivial
  | call effect resume ih => exact fun answer => ih answer

end Program

namespace Monitor

/-- What a program returns whatever it is answered, beside its verdict. -/
theorem wp_yields {monitor : Monitor ρ σ} {program : Program ρ α} {post : α → Prop}
    {returns : α → σ → Prop} {unwinds : σ → Prop} {state : σ} (yields : program.Yields post)
    (meets : monitor.wp program returns unwinds state) :
    monitor.wp program (fun value last => post value ∧ returns value last) unwinds state := by
  induction program generalizing state with
  | ret value => exact ⟨yields, meets⟩
  | goexit => exact meets
  | call effect resume ih =>
    exact ⟨meets.1, fun answer expected => ih answer (yields answer) (meets.2 answer expected)⟩

/-- The effect is allowed and keeps the property. -/
def KeepsOn (monitor : Monitor ρ σ) (keeps : σ → Prop) (effect : ε) : Prop :=
  ∀ state, keeps state → monitor.allowed state effect ∧
    ∀ answer, monitor.expects state effect answer → keeps (monitor.next state effect answer)

/-- From every state with the first property the program returns into one with
the second, or unwinds into `unwound`. -/
def Leads (monitor : Monitor ρ σ) (before after unwound : σ → Prop) (program : Program ρ α) :
    Prop :=
  ∀ state, before state → monitor.wp program (fun _ => after) unwound state

abbrev Maintains (monitor : Monitor ρ σ) (keeps unwound : σ → Prop) (program : Program ρ α) :
    Prop :=
  monitor.Leads keeps keeps unwound program

variable {monitor : Monitor ρ σ} {keeps before middle after unwound : σ → Prop}

theorem leads_pure (weaker : ∀ state, before state → after state) (value : α) :
    monitor.Leads before after unwound (pure value) :=
  weaker

theorem maintains_pure (value : α) : monitor.Maintains keeps unwound (pure value) :=
  leads_pure (fun _ holds => holds) value

theorem maintains_perform {effect : ε} (kept : monitor.KeepsOn keeps effect) :
    monitor.Maintains keeps unwound (.perform effect) :=
  fun state holds => kept state holds

theorem leads_bind {program : Program ρ α} {next : α → Program ρ β}
    (first : monitor.Leads before middle unwound program)
    (second : ∀ value, monitor.Leads middle after unwound (next value)) :
    monitor.Leads before after unwound (program >>= next) := by
  intro state holds
  refine wp_seq (first state holds) ?_
  exact fun value last kept => second value last kept

theorem leads_onExit {program : Program ρ α} {returned unwind : Program ρ Unit}
    (first : monitor.Leads before after unwound program)
    (last : monitor.Maintains after unwound returned)
    (lost : monitor.Maintains unwound unwound unwind) :
    monitor.Leads before after unwound (Program.onExit returned unwind program) := by
  intro state holds
  refine wp_onExit.mpr (wp_mono (first state holds) ?_ ?_)
  · exact fun _ middle kept => last middle kept
  · exact fun middle kept => lost middle kept

/-- Programs of effects that keep the property maintain it. -/
theorem maintains_only {kind : ε → Prop}
    (kept : ∀ effect, kind effect → monitor.KeepsOn keeps effect) {program : Program ρ α}
    (only : program.Only kind) :
    monitor.Maintains keeps unwound program := by
  induction program with
  | ret value => exact maintains_pure value
  | goexit => cases only
  | call effect resume ih =>
    intro state holds
    obtain ⟨allowed, next⟩ := kept effect only.1 state holds
    exact ⟨allowed, fun answer expected => ih answer (only.2 answer) _ (next answer expected)⟩

end Monitor

end OutboxFormal.Library
