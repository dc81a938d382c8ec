import Mathlib.Algebra.Order.Ring.Int
import Mathlib.Data.List.Infix

/-!
# The longest prefix within a budget

A list of sized rows is cut where the running total first exceeds the budget.
A selection that always takes the first row differs from that cut only when the
first row alone exceeds the budget.
-/

namespace OutboxFormal.Library

section Prefix

variable {α : Type} (size : α → Nat) (budget : Int)

/-- The sizes of the rows together. -/
def totalSize (rows : List α) : Int := (rows.map fun row => (size row : Int)).sum

@[simp] theorem totalSize_nil : totalSize size ([] : List α) = 0 := rfl

@[simp]
theorem totalSize_cons (row : α) (rows : List α) :
    totalSize size (row :: rows) = size row + totalSize size rows := by
  simp [totalSize]

theorem totalSize_nonneg (rows : List α) : 0 ≤ totalSize size rows := by
  induction rows with
  | nil => exact le_rfl
  | cons row rest ih =>
    rw [totalSize_cons]
    omega

/-- The rows taken while `used` and their sizes stay within the budget. -/
def longestPrefix : Int → List α → List α
  | _, [] => []
  | used, row :: rest =>
    if used + size row ≤ budget then row :: longestPrefix (used + size row) rest else []

/-- The first row always, and the longest prefix within the budget if it fits. -/
def firstOrPrefix : List α → List α
  | [] => []
  | first :: rest =>
    if (size first : Int) ≤ budget then first :: longestPrefix size budget (size first) rest
    else [first]

/-- What `firstOrPrefix` is for: the longest prefix within the budget, or the
first row alone when that exceeds it. -/
structure LongestAdmissible (rows selected : List α) : Prop where
  isPrefix : selected <+: rows
  fits : ∀ first rest, rows = first :: rest → (size first : Int) ≤ budget →
    totalSize size selected ≤ budget
  longest : ∀ other, other <+: rows → totalSize size other ≤ budget → other <+: selected
  oversized : ∀ first rest, rows = first :: rest → budget < size first → selected = [first]

variable {size budget}

theorem longestPrefix_isPrefix (used : Int) (rows : List α) :
    longestPrefix size budget used rows <+: rows := by
  induction rows generalizing used with
  | nil => exact List.prefix_rfl
  | cons row rest ih =>
    unfold longestPrefix
    split
    · exact (List.prefix_cons_inj row).mpr (ih _)
    · exact List.nil_prefix

theorem totalSize_longestPrefix (size : α → Nat) {used : Int} (rows : List α)
    (within : used ≤ budget) :
    used + totalSize size (longestPrefix size budget used rows) ≤ budget := by
  induction rows generalizing used with
  | nil => simpa [longestPrefix] using within
  | cons row rest ih =>
    unfold longestPrefix
    split
    · rename_i fits
      have := ih fits
      rw [totalSize_cons]
      omega
    · simpa using within

/-- Every prefix within the budget is part of the longest one. -/
theorem isPrefix_longestPrefix {used : Int} {rows other : List α} (isPrefix : other <+: rows)
    (within : used + totalSize size other ≤ budget) :
    other <+: longestPrefix size budget used rows := by
  induction rows generalizing used other with
  | nil => exact isPrefix
  | cons row rest ih =>
    cases other with
    | nil => exact List.nil_prefix
    | cons head tail =>
      obtain ⟨rfl, shorter⟩ := List.cons_prefix_cons.mp isPrefix
      rw [totalSize_cons] at within
      have rest_nonneg := totalSize_nonneg size tail
      have fits : used + size head ≤ budget := by omega
      unfold longestPrefix
      rw [if_pos fits]
      exact (List.prefix_cons_inj head).mpr (ih shorter (by omega))

theorem firstOrPrefix_isPrefix (rows : List α) : firstOrPrefix size budget rows <+: rows := by
  cases rows with
  | nil => exact List.prefix_rfl
  | cons first rest =>
    by_cases fits : (size first : Int) ≤ budget
    · rw [firstOrPrefix, if_pos fits]
      exact (List.prefix_cons_inj first).mpr (longestPrefix_isPrefix _ rest)
    · rw [firstOrPrefix, if_neg fits]
      exact (List.prefix_cons_inj first).mpr List.nil_prefix

/-- When the first row fits, the selection is the longest prefix. -/
theorem firstOrPrefix_of_fits {first : α} {rest : List α} (fits : (size first : Int) ≤ budget) :
    firstOrPrefix size budget (first :: rest) = longestPrefix size budget 0 (first :: rest) := by
  simp [firstOrPrefix, longestPrefix, fits]

theorem firstOrPrefix_longestAdmissible (rows : List α) :
    LongestAdmissible size budget rows (firstOrPrefix size budget rows) where
  isPrefix := firstOrPrefix_isPrefix rows
  fits first rest same first_fits := by
    subst same
    have total := totalSize_longestPrefix size rest first_fits
    simpa [firstOrPrefix, first_fits] using total
  longest other isPrefix within := by
    cases rows with
    | nil => exact isPrefix
    | cons first rest =>
      by_cases fits : (size first : Int) ≤ budget
      · rw [firstOrPrefix_of_fits fits]
        exact isPrefix_longestPrefix isPrefix (by omega)
      · cases other with
        | nil => exact List.nil_prefix
        | cons head tail =>
          -- The first row alone is past the budget.
          obtain ⟨rfl, -⟩ := List.cons_prefix_cons.mp isPrefix
          have rest_nonneg := totalSize_nonneg size tail
          rw [totalSize_cons] at within
          omega
  oversized first rest same exceeds := by
    subst same
    simp [firstOrPrefix, Int.not_le.mpr exceeds]

end Prefix

end OutboxFormal.Library
