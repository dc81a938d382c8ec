import Mathlib.Data.List.Basic

/-!
# Delimited text

A word that does not contain its delimiter can be read back from the front of a
text, and so can a word behind its length. Concatenations of such words therefore
determine their parts.
-/

namespace OutboxFormal.Library

variable {α : Type}

/-- Up to the first delimiter. -/
theorem delimited_inj {delimiter : α} {first second rest rest' : List α}
    (here : delimiter ∉ first) (there : delimiter ∉ second)
    (same : first ++ delimiter :: rest = second ++ delimiter :: rest') :
    first = second ∧ rest = rest' := by
  induction first generalizing second with
  | nil =>
    cases second with
    | nil => exact ⟨rfl, (List.cons.inj same).2⟩
    | cons value others => exact absurd ((List.cons.inj same).1 ▸ List.mem_cons_self) there
  | cons value others ih =>
    cases second with
    | nil => exact absurd ((List.cons.inj same).1 ▸ List.mem_cons_self) here
    | cons value' others' =>
      obtain ⟨rfl, tails⟩ := List.cons.inj same
      obtain ⟨rfl, rest⟩ := ih (fun member => here (List.mem_cons_of_mem _ member))
        (fun member => there (List.mem_cons_of_mem _ member)) tails
      exact ⟨rfl, rest⟩

/-- A word behind its length: the length is written without the delimiter. -/
def announced (digits : Nat → List α) (delimiter : α) (word : List α) : List α :=
  digits word.length ++ delimiter :: word

theorem announced_inj {digits : Nat → List α} {delimiter : α}
    (written : ∀ first second, digits first = digits second → first = second)
    (plain : ∀ length, delimiter ∉ digits length) {first second rest rest' : List α}
    (same : announced digits delimiter first ++ rest =
      announced digits delimiter second ++ rest') :
    first = second ∧ rest = rest' := by
  simp only [announced, List.append_assoc, List.cons_append] at same
  obtain ⟨lengths, words⟩ := delimited_inj (plain _) (plain _) same
  exact List.append_inj words (written _ _ lengths)

end OutboxFormal.Library
