import Mathlib.Data.List.Pairwise
import Mathlib.Data.List.Perm.Subperm
import Mathlib.Data.List.Sort

/-!
# The first rows of an ordered selection

`ORDER BY … LIMIT` over rows that the order tells apart. The result does not
depend on the order in which the rows are stored, rows that follow at least
`limit` others may be left out, and so the first rows of a union may be taken
from the first rows of its parts.
-/

namespace OutboxFormal.Library

section Selection

variable {α ι : Type} {le : α → α → Prop} {limit : Nat} {rows other : List α}

/-- No two rows are tied. -/
def Separated (le : α → α → Prop) (rows : List α) : Prop :=
  rows.Pairwise fun first second => ¬ (le first second ∧ le second first)

theorem Separated.subperm (separated : Separated le rows) (part : other.Subperm rows) :
    Separated le other := by
  obtain ⟨chosen, same, sublist⟩ := part
  exact (same.pairwise_iff fun untied tied => untied ⟨tied.2, tied.1⟩).mp
    (List.Pairwise.sublist sublist separated)

/-- Tied rows of a separated list are one row. -/
theorem Separated.eq_of_tied (separated : Separated le rows) {first second : α}
    (hfirst : first ∈ rows) (hsecond : second ∈ rows) (forward : le first second)
    (backward : le second first) : first = second := by
  have symmetric : Std.Symm fun first second => ¬ (le first second ∧ le second first) :=
    ⟨fun _ _ untied tied => untied ⟨tied.2, tied.1⟩⟩
  by_contra different
  exact List.Pairwise.forall separated hfirst hsecond different ⟨forward, backward⟩

variable [DecidableRel le]

/-- `ORDER BY le LIMIT limit`. -/
def firstRows (le : α → α → Prop) [DecidableRel le] (limit : Nat) (rows : List α) : List α :=
  (rows.insertionSort le).take limit

theorem firstRows_subperm : (firstRows le limit rows).Subperm rows :=
  (List.take_sublist limit _).subperm.trans (List.perm_insertionSort le rows).subperm

theorem mem_of_mem_firstRows {row : α} (member : row ∈ firstRows le limit rows) : row ∈ rows :=
  firstRows_subperm.subset member

theorem length_firstRows : (firstRows le limit rows).length = min limit rows.length := by
  rw [firstRows, List.length_take, List.length_insertionSort]

/-- The number of rows that precede `row`. -/
def preceding (le : α → α → Prop) [DecidableRel le] (row : α) (rows : List α) : Nat :=
  rows.countP fun earlier => decide (¬ le row earlier)

variable [IsTrans α le]

theorem take_orderedInsert {row : α} (sorted : rows.Pairwise le)
    (late : limit ≤ preceding le row rows) :
    (rows.orderedInsert le row).take limit = rows.take limit := by
  induction rows generalizing limit with
  | nil =>
    have zero : limit = 0 := Nat.le_zero.mp late
    subst zero
    rfl
  | cons head rest ih =>
    obtain ⟨hhead, hrest⟩ := List.pairwise_cons.mp sorted
    by_cases before : le row head
    · -- Nothing precedes the inserted row, so nothing is selected.
      have none_precedes : preceding le row (head :: rest) = 0 := by
        refine List.countP_eq_zero.mpr fun earlier member => ?_
        rcases List.mem_cons.mp member with rfl | member
        · simpa using before
        · simpa using Trans.trans before (hhead earlier member)
      have zero : limit = 0 := Nat.le_zero.mp (none_precedes ▸ late)
      subst zero
      rfl
    · rw [List.orderedInsert_of_not_le le rest before]
      cases limit with
      | zero => rfl
      | succ limit =>
        rw [List.take_succ_cons, List.take_succ_cons, ih hrest]
        rw [preceding, List.countP_cons_of_pos (by simpa using before)] at late
        exact Nat.le_of_succ_le_succ late

variable [Std.Total le]

theorem pairwise_firstRows : (firstRows le limit rows).Pairwise le :=
  List.Pairwise.sublist (List.take_sublist _ _) (List.pairwise_insertionSort le rows)

/-- The first selected row precedes every row. -/
theorem le_of_firstRows_eq_cons {first row : α} {rest : List α}
    (selected : firstRows le limit rows = first :: rest) (member : row ∈ rows) : le first row := by
  have sorted := List.pairwise_insertionSort le rows
  rw [← List.mem_insertionSort le] at member
  unfold firstRows at selected
  cases hsorted : rows.insertionSort le with
  | nil =>
    rw [hsorted] at member
    cases member
  | cons head tail =>
    rw [hsorted] at selected sorted member
    cases limit with
    | zero => cases selected
    | succ limit =>
      cases selected
      rcases List.mem_cons.mp member with rfl | later
      · exact (total_of le row row).elim id id
      · exact (List.pairwise_cons.mp sorted).1 row later

/-- A row left out follows every selected row, and the limit was reached. -/
theorem le_of_not_mem_firstRows {row : α} (member : row ∈ rows)
    (left : row ∉ firstRows le limit rows) :
    (firstRows le limit rows).length = limit ∧
      ∀ chosen ∈ firstRows le limit rows, le chosen row := by
  have split := List.take_append_drop limit (rows.insertionSort le)
  have dropped : row ∈ (rows.insertionSort le).drop limit := by
    have sorted := (List.mem_insertionSort le).mpr member
    rw [← split] at sorted
    exact (List.mem_append.mp sorted).resolve_left left
  constructor
  · have longer := List.length_pos_of_mem dropped
    rw [List.length_drop] at longer
    rw [firstRows, List.length_take]
    omega
  · intro chosen hchosen
    have sorted := List.pairwise_insertionSort le rows
    rw [← split] at sorted
    exact (List.pairwise_append.mp sorted).2.2 chosen hchosen row dropped

/-- The selection depends on the rows only up to their stored order. -/
theorem firstRows_perm (separated : Separated le rows) (same : rows.Perm other) :
    firstRows le limit rows = firstRows le limit other := by
  have sorted : rows.insertionSort le = other.insertionSort le := by
    refine List.Perm.eq_of_pairwise ?_ (List.pairwise_insertionSort le rows)
      (List.pairwise_insertionSort le other)
      ((List.perm_insertionSort le rows).trans
        (same.trans (List.perm_insertionSort le other).symm))
    intro first second hfirst hsecond forward backward
    exact separated.eq_of_tied ((List.mem_insertionSort le).mp hfirst)
      (same.mem_iff.mpr ((List.mem_insertionSort le).mp hsecond)) forward backward
  rw [firstRows, firstRows, sorted]

/-! ## Rows that cannot be selected -/

/-- Rows that at least `limit` others precede may be left out. -/
theorem firstRows_append_late (late : List α)
    (follow : ∀ row ∈ late, limit ≤ preceding le row rows) :
    firstRows le limit (late ++ rows) = firstRows le limit rows := by
  induction late with
  | nil => rfl
  | cons row rest ih =>
    have below : limit ≤ preceding le row (rest ++ rows) := by
      rw [preceding, List.countP_append]
      exact Nat.le_trans (follow row List.mem_cons_self) (Nat.le_add_left _ _)
    rw [preceding, ← (List.perm_insertionSort le (rest ++ rows)).countP_eq] at below
    calc firstRows le limit (row :: rest ++ rows)
        = (((rest ++ rows).insertionSort le).orderedInsert le row).take limit := rfl
      _ = firstRows le limit (rest ++ rows) :=
          take_orderedInsert (List.pairwise_insertionSort le _) below
      _ = firstRows le limit rows :=
          ih fun row member => follow row (List.mem_cons_of_mem _ member)

/-! ## Unions -/

/-- One part of a union may be cut to its own first rows. -/
theorem firstRows_firstRows_append (separated : Separated le (rows ++ other)) :
    firstRows le limit (firstRows le limit rows ++ other) =
      firstRows le limit (rows ++ other) := by
  let late := (rows.insertionSort le).drop limit
  have split : firstRows le limit rows ++ late = rows.insertionSort le :=
    List.take_append_drop limit _
  have reordered : (rows ++ other).Perm (late ++ (firstRows le limit rows ++ other)) := by
    rw [← List.append_assoc]
    refine List.Perm.append_right other ?_
    exact (List.perm_insertionSort le rows).symm.trans
      (split ▸ List.perm_append_comm)
  rw [firstRows_perm separated reordered, firstRows_append_late late]
  intro row member
  have sorted := List.pairwise_insertionSort le rows
  rw [← split] at sorted
  have precede : ∀ chosen ∈ firstRows le limit rows, ¬ le row chosen := by
    intro chosen hchosen backward
    have forward := (List.pairwise_append.mp sorted).2.2 chosen hchosen row member
    have untied := separated.subperm reordered.symm.subperm
    rw [Separated, List.pairwise_append] at untied
    exact untied.2.2 row member chosen (List.mem_append_left _ hchosen) ⟨backward, forward⟩
  have longer := List.length_pos_of_mem member
  have full : (firstRows le limit rows).length = limit := by
    rw [List.length_drop] at longer
    rw [firstRows, List.length_take]
    omega
  rw [preceding, List.countP_append,
    List.countP_eq_length.mpr fun chosen hchosen => decide_eq_true (precede chosen hchosen), full]
  exact Nat.le_add_right _ _

theorem subperm_flatMap (parts : List ι) {smaller larger : ι → List α}
    (each : ∀ index, (smaller index).Subperm (larger index)) :
    (parts.flatMap smaller).Subperm (parts.flatMap larger) := by
  induction parts with
  | nil => exact List.Subperm.refl _
  | cons index rest ih => exact List.Subperm.append (each index) ih

/-- The first rows of a union are the first rows of its parts' first rows. -/
theorem firstRows_flatMap_firstRows (parts : List ι) (part : ι → List α)
    (separated : Separated le (parts.flatMap part)) :
    firstRows le limit (parts.flatMap fun index => firstRows le limit (part index)) =
      firstRows le limit (parts.flatMap part) := by
  induction parts with
  | nil => rfl
  | cons index rest ih =>
    let later := rest.flatMap part
    let cut := rest.flatMap fun index => firstRows le limit (part index)
    have whole : Separated le (part index ++ later) := separated
    have smaller : (part index ++ cut).Subperm (part index ++ later) :=
      List.Subperm.append (List.Subperm.refl _)
        (subperm_flatMap rest fun _ => firstRows_subperm)
    have partly := whole.subperm smaller
    calc firstRows le limit (firstRows le limit (part index) ++ cut)
        = firstRows le limit (part index ++ cut) := firstRows_firstRows_append partly
      _ = firstRows le limit (cut ++ part index) :=
          firstRows_perm partly List.perm_append_comm
      _ = firstRows le limit (firstRows le limit cut ++ part index) :=
          (firstRows_firstRows_append
            (partly.subperm List.perm_append_comm.subperm)).symm
      _ = firstRows le limit (firstRows le limit later ++ part index) := by
          rw [ih (whole.subperm (List.sublist_append_right _ _).subperm)]
      _ = firstRows le limit (later ++ part index) :=
          firstRows_firstRows_append (whole.subperm List.perm_append_comm.subperm)
      _ = firstRows le limit (part index ++ later) :=
          (firstRows_perm whole List.perm_append_comm).symm

end Selection

end OutboxFormal.Library
