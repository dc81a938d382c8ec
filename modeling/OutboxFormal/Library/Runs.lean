import OutboxFormal.Library.Observers

/-!
# Runs that return

The events of a run that returned contain an answer to every effect the program
performed. `Returns` keeps of a run only that: it is defined by recursion on the
program, so that a finished run is taken apart along the text of the program.
`run` plays a program against a table of answers.
-/

namespace OutboxFormal.Library.Program

variable {ε α β : Type} {ρ : ε → Type} {events : History ρ}

/-- With answers among the events the program returns the value. -/
def Returns (events : History ρ) : Program ρ α → α → Prop
  | .ret given, value => given = value
  | .goexit, _ => False
  | .call effect resume, value => ∃ answer, ⟨effect, answer⟩ ∈ events ∧
      Returns events (resume answer) value

theorem returns_bind {program : Program ρ α} {next : α → Program ρ β} {value : β} :
    Returns events (program >>= next) value ↔
      ∃ middle, Returns events program middle ∧ Returns events (next middle) value := by
  induction program with
  | ret given => exact ⟨fun ran => ⟨given, rfl, ran⟩, fun ⟨_, same, ran⟩ => same ▸ ran⟩
  | goexit => exact ⟨False.elim, fun ⟨_, impossible, _⟩ => impossible⟩
  | call effect resume ih =>
    constructor
    · rintro ⟨answer, asked, ran⟩
      obtain ⟨middle, first, second⟩ := (ih answer).mp ran
      exact ⟨middle, ⟨answer, asked, first⟩, second⟩
    · rintro ⟨middle, ⟨answer, asked, first⟩, second⟩
      exact ⟨answer, asked, (ih answer).mpr ⟨middle, first, second⟩⟩

theorem returns_step {effect : ε} {next : ρ effect → Program ρ α} {value : α} :
    Returns events (perform effect >>= next) value ↔
      ∃ answer, ⟨effect, answer⟩ ∈ events ∧ Returns events (next answer) value := Iff.rfl

/-- A deferred call changes nothing about what is returned. -/
theorem Returns.of_onExit {program : Program ρ α} {returned unwound : Program ρ Unit} {value : α}
    (ran : Returns events (onExit returned unwound program) value) :
    Returns events program value := by
  induction program with
  | ret given =>
    obtain ⟨_, -, same⟩ := returns_bind.mp ran
    exact same
  | goexit =>
    obtain ⟨_, -, impossible⟩ := returns_bind.mp ran
    exact impossible
  | call effect resume ih =>
    obtain ⟨answer, asked, ran⟩ := ran
    exact ⟨answer, asked, ih answer ran⟩

theorem Returns.of_after {program rest : Program ρ α} {own : History ρ} {value : α}
    (after : program.After own rest) (within : own ⊆ events) (returns : Returns events rest value) :
    Returns events program value := by
  induction after with
  | start => exact returns
  | event answer before ih =>
    exact ih (List.subset_of_cons_subset within) ⟨answer, within List.mem_cons_self, returns⟩

/-- A run that returned did so with answers among its events. -/
theorem After.returns {program : Program ρ α} {value : α}
    (after : program.After events (.ret value)) : Returns events program value :=
  .of_after after (List.Subset.refl _) rfl

/-! ## Runs against a table of answers -/

/-- Play a program; a missing answer or an unwinding thread ends without a value. -/
def run (answers : (effect : ε) → Option (ρ effect)) : Program ρ α → Option (α × History ρ)
  | .ret value => some (value, [])
  | .goexit => none
  | .call effect resume =>
    (answers effect).bind fun answer =>
      (run answers (resume answer)).map fun ended =>
        (ended.1, ended.2 ++ [⟨effect, answer⟩])

/-- The rest of a program after its first answer. -/
theorem After.prepend {effect : ε} {resume : ρ effect → Program ρ α} {answer : ρ effect}
    {rest : Program ρ α} (after : (resume answer).After events rest) :
    (.call effect resume : Program ρ α).After (events ++ [⟨effect, answer⟩]) rest := by
  induction after with
  | start => exact .event answer .start
  | event next before ih => exact .event next ih

theorem after_of_run {answers : (effect : ε) → Option (ρ effect)} {program : Program ρ α}
    {value : α} (ran : program.run answers = some (value, events)) :
    program.After events (.ret value) := by
  induction program generalizing events with
  | ret last =>
    cases ran
    exact .start
  | goexit => cases ran
  | call effect resume ih =>
    obtain ⟨answer, -, ended⟩ := Option.bind_eq_some_iff.mp ran
    obtain ⟨⟨last, later⟩, within, same⟩ := Option.map_eq_some_iff.mp ended
    cases same
    exact (ih answer within).prepend

theorem answers_of_run {answers : (effect : ε) → Option (ρ effect)} {program : Program ρ α}
    {value : α} (ran : program.run answers = some (value, events)) :
    ∀ event ∈ events, answers event.effect = some event.answer := by
  induction program generalizing events with
  | ret last =>
    cases ran
    exact nofun
  | goexit => cases ran
  | call effect resume ih =>
    obtain ⟨answer, answered, ended⟩ := Option.bind_eq_some_iff.mp ran
    obtain ⟨⟨last, later⟩, within, same⟩ := Option.map_eq_some_iff.mp ended
    cases same
    intro event member
    rcases List.mem_append.mp member with member | member
    · exact ih answer within event member
    · obtain rfl := List.mem_singleton.mp member
      exact answered

end OutboxFormal.Library.Program
