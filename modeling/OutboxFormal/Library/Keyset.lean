import Mathlib.Order.Defs.LinearOrder
import OutboxFormal.Library.Selection

/-!
# Keyset traversal of a changing list

A page holds the first rows, by descending key, strictly below a cursor; the key
of its last row is the next cursor, and an empty page ends the traversal. Between
two pages the rows may change at will. Keys strictly descend across all pages, a
key that is present all along is visited, and if nothing is inserted below the
cursor the number of pages is bounded by the number of rows at the start.
-/

namespace OutboxFormal.Library.Keyset

variable {ρ κ : Type} [LinearOrder κ]

/-- The newest row first. -/
def Descending (key : ρ → κ) (first second : ρ) : Prop := key second ≤ key first

instance (key : ρ → κ) : DecidableRel (Descending key) := fun first second =>
  inferInstanceAs (Decidable (key second ≤ key first))

instance (key : ρ → κ) : Std.Total (Descending key) where
  total first second := le_total (key second) (key first)

instance (key : ρ → κ) : IsTrans ρ (Descending key) where
  trans _ _ _ earlier later := le_trans later earlier

/-- The key lies strictly below the cursor; no cursor is above every key. -/
def Below (cursor : Option κ) (value : κ) : Prop := ∀ bound, cursor = some bound → value < bound

instance (cursor : Option κ) : DecidablePred (Below cursor) := fun value =>
  match cursor with
  | none => isTrue fun _ same => nomatch same
  | some bound => decidable_of_iff (value < bound)
      ⟨fun less _ same => by cases same; exact less, fun below => below bound rfl⟩

/-- The rows strictly below the cursor. -/
def rest (key : ρ → κ) (cursor : Option κ) (rows : List ρ) : List ρ :=
  rows.filter fun row => decide (Below cursor (key row))

/-- One page. -/
def page (key : ρ → κ) (limit : Nat) (cursor : Option κ) (rows : List ρ) : List ρ :=
  firstRows (Descending key) limit (rest key cursor rows)

/-- The pages of a traversal; one element of `tables` is what a call sees. -/
def pages (key : ρ → κ) (limit : Nat) : Option κ → List (List ρ) → List (List ρ)
  | _, [] => []
  | cursor, rows :: later =>
    page key limit cursor rows ::
      match (page key limit cursor rows).getLast? with
      | none => []
      | some last => pages key limit (some (key last)) later

/-! ## One page -/

section Page

variable {key : ρ → κ} {limit : Nat} {cursor : Option κ} {rows : List ρ}

theorem mem_rest {row : ρ} : row ∈ rest key cursor rows ↔ row ∈ rows ∧ Below cursor (key row) := by
  rw [rest, List.mem_filter, decide_eq_true_iff]

theorem mem_page {row : ρ} (member : row ∈ page key limit cursor rows) :
    row ∈ rows ∧ Below cursor (key row) :=
  mem_rest.mp (mem_of_mem_firstRows member)

/-- Distinct keys descend strictly within a page. -/
theorem pairwise_page (distinct : (rows.map key).Nodup) :
    (page key limit cursor rows).Pairwise fun first second => key second < key first := by
  have separated : Separated (Descending key) rows :=
    (List.pairwise_map.mp distinct).imp fun different tied =>
      different (le_antisymm tied.2 tied.1)
  have untied : Separated (Descending key) (page key limit cursor rows) :=
    separated.subperm (firstRows_subperm.trans List.filter_sublist.subperm)
  refine (pairwise_firstRows.and untied).imp fun ordered => ?_
  exact lt_of_le_of_ne ordered.1 fun same => ordered.2 ⟨ordered.1, le_of_eq same.symm⟩

/-- A row below the cursor is on the page or strictly below its last row. -/
theorem mem_page_or_lt (positive : 0 < limit) (distinct : (rows.map key).Nodup) {row : ρ}
    (member : row ∈ rows) (below : Below cursor (key row)) :
    row ∈ page key limit cursor rows ∨
      ∃ last, (page key limit cursor rows).getLast? = some last ∧ key row < key last := by
  by_cases visited : row ∈ page key limit cursor rows
  · exact Or.inl visited
  · obtain ⟨full, follows⟩ := le_of_not_mem_firstRows (mem_rest.mpr ⟨member, below⟩) visited
    have nonempty : page key limit cursor rows ≠ [] := fun empty => by
      rw [← page, empty] at full
      exact absurd full (Nat.ne_of_lt positive)
    refine Or.inr ⟨_, List.getLast?_eq_some_getLast nonempty, ?_⟩
    have chosen := List.getLast_mem nonempty
    refine lt_of_le_of_ne (follows _ chosen) fun same => visited ?_
    rwa [List.inj_on_of_nodup_map distinct member (mem_page chosen).1 same]

/-- The last row of a page is its least. -/
theorem le_of_getLast? (distinct : (rows.map key).Nodup) {last row : ρ}
    (isLast : (page key limit cursor rows).getLast? = some last)
    (member : row ∈ page key limit cursor rows) : key last ≤ key row := by
  obtain ⟨earlier, split⟩ := List.getLast?_eq_some_iff.mp isLast
  have ordered := @pairwise_page ρ κ _ key limit cursor rows distinct
  rw [split] at ordered member
  rcases List.mem_append.mp member with before | same
  · exact le_of_lt ((List.pairwise_append.mp ordered).2.2 row before last List.mem_cons_self)
  · rw [List.mem_singleton.mp same]

/-- What is left below a page, together with the page, was below the cursor. -/
theorem length_rest_add_page (distinct : (rows.map key).Nodup) {last : ρ}
    (isLast : (page key limit cursor rows).getLast? = some last) :
    (rest key (some (key last)) rows).length + (page key limit cursor rows).length ≤
      (rest key cursor rows).length := by
  have rowsNodup := List.Nodup.of_map key distinct
  have lastBelow := (mem_page (List.mem_of_getLast? isLast)).2
  rw [← List.length_append]
  refine (List.subperm_of_subset (List.nodup_append.mpr ⟨rowsNodup.filter _, ?_, ?_⟩) ?_).length_le
  · exact (pairwise_page distinct).imp fun less same => ne_of_gt less (congrArg key same)
  · intro first hfirst second hsecond same
    have less := (mem_rest.mp hfirst).2 _ rfl
    rw [same] at less
    exact absurd less (not_lt.mpr (le_of_getLast? distinct isLast hsecond))
  · intro row member
    rcases List.mem_append.mp member with older | chosen
    · obtain ⟨hrow, less⟩ := mem_rest.mp older
      exact mem_rest.mpr ⟨hrow, fun bound same =>
        lt_trans (less _ rfl) (lastBelow bound same)⟩
    · exact mem_rest.mpr (mem_page chosen)

end Page

/-! ## A traversal -/

section Traversal

variable {key : ρ → κ} {limit : Nat} {cursor : Option κ} {tables : List (List ρ)}

/-- Keys strictly descend across all pages of a traversal. -/
theorem pairwise_pages (distinct : ∀ rows ∈ tables, (rows.map key).Nodup) :
    (pages key limit cursor tables).flatten.Pairwise
        (fun first second => key second < key first) ∧
      ∀ row ∈ (pages key limit cursor tables).flatten, Below cursor (key row) := by
  induction tables generalizing cursor with
  | nil => exact ⟨List.Pairwise.nil, nofun⟩
  | cons rows later ih =>
    have here := distinct rows List.mem_cons_self
    simp only [pages, List.flatten_cons]
    split
    · simp only [List.flatten_nil, List.append_nil]
      exact ⟨pairwise_page here, fun row member => (mem_page member).2⟩
    · rename_i last isLast
      obtain ⟨ordered, below⟩ := @ih (some (key last)) fun table member =>
        distinct table (List.mem_cons_of_mem _ member)
      have lastBelow := (mem_page (List.mem_of_getLast? isLast)).2
      constructor
      · refine List.pairwise_append.mpr ⟨pairwise_page here, ordered, ?_⟩
        intro first hfirst second hsecond
        exact lt_of_lt_of_le (below second hsecond _ rfl) (le_of_getLast? here isLast hfirst)
      · intro row member bound same
        rcases List.mem_append.mp member with chosen | later
        · exact (mem_page chosen).2 bound same
        · exact lt_trans (below row later _ rfl) (lastBelow bound same)

/-- A finished traversal has visited every key that was there at each call. -/
theorem mem_pages_of_present (positive : 0 < limit)
    (distinct : ∀ rows ∈ tables, (rows.map key).Nodup)
    (finished : [] ∈ pages key limit cursor tables) {value : κ} (below : Below cursor value)
    (present : ∀ rows ∈ tables.take (pages key limit cursor tables).length,
      value ∈ rows.map key) :
    value ∈ (pages key limit cursor tables).flatten.map key := by
  induction tables generalizing cursor with
  | nil => cases finished
  | cons rows later ih =>
    simp only [pages] at finished present ⊢
    obtain ⟨row, member, rfl⟩ := List.mem_map.mp
      (present rows (by rw [List.length_cons, List.take_succ_cons]; exact List.mem_cons_self))
    rw [List.flatten_cons, List.map_append]
    rcases mem_page_or_lt positive (distinct rows List.mem_cons_self) member below with
      visited | ⟨last, isLast, less⟩
    · exact List.mem_append_left _ (List.mem_map_of_mem visited)
    · refine List.mem_append_right _ ?_
      rw [isLast] at finished present ⊢
      dsimp only at finished present ⊢
      have nonempty : [] ≠ page key limit cursor rows := fun empty => by
        rw [← empty] at isLast
        cases isLast
      refine ih (fun table inside => distinct table (List.mem_cons_of_mem _ inside))
        ((List.mem_cons.mp finished).resolve_left nonempty)
        (fun bound same => by cases same; exact less) fun table inside => present table ?_
      rw [List.length_cons, List.take_succ_cons]
      exact List.mem_cons_of_mem _ inside

/-- Between two calls no row is inserted below the current cursor. -/
def Quiet (key : ρ → κ) (limit : Nat) : Option κ → List (List ρ) → Prop
  | cursor, rows :: next :: later =>
    match (page key limit cursor rows).getLast? with
    | none => True
    | some last =>
      (∀ row ∈ next, key row < key last → key row ∈ rows.map key) ∧
        Quiet key limit (some (key last)) (next :: later)
  | _, _ => True

/-- With no insertion below the cursor, a page leaves at most the other rows. -/
theorem length_rest_next {rows next : List ρ} {last : ρ} (distinct : (rows.map key).Nodup)
    (distinctNext : (next.map key).Nodup)
    (isLast : (page key limit cursor rows).getLast? = some last)
    (quiet : ∀ row ∈ next, key row < key last → key row ∈ rows.map key) :
    (rest key (some (key last)) next).length + (page key limit cursor rows).length ≤
      (rest key cursor rows).length := by
  have inherited : (rest key (some (key last)) next).length ≤
      (rest key (some (key last)) rows).length := by
    have shorter : ((rest key (some (key last)) next).map key).Subperm
        ((rest key (some (key last)) rows).map key) := by
      refine List.subperm_of_subset ((List.filter_sublist.map key).nodup distinctNext) ?_
      intro value member
      obtain ⟨row, hrow, rfl⟩ := List.mem_map.mp member
      obtain ⟨inNext, below⟩ := mem_rest.mp hrow
      obtain ⟨old, hold, same⟩ := List.mem_map.mp (quiet row inNext (below _ rfl))
      exact List.mem_map.mpr ⟨old, mem_rest.mpr ⟨hold, same ▸ below⟩, same⟩
    simpa only [List.length_map] using shorter.length_le
  exact Nat.le_trans (Nat.add_le_add_right inherited _) (length_rest_add_page distinct isLast)

/-- A quiet traversal ends after one page for each `limit` rows and an empty one. -/
theorem length_pages_le {count : Nat} {rows : List ρ} {later : List (List ρ)}
    (distinct : ∀ table ∈ rows :: later, (table.map key).Nodup)
    (quiet : Quiet key limit cursor (rows :: later))
    (enough : (rest key cursor rows).length ≤ count * limit) :
    (pages key limit cursor (rows :: later)).length ≤ count + 1 ∧
      (count ≤ later.length → [] ∈ pages key limit cursor (rows :: later)) := by
  induction count generalizing cursor rows later with
  | zero =>
    have empty : page key limit cursor rows = [] := by
      have none_left : rest key cursor rows = [] :=
        List.length_eq_zero_iff.mp (by omega)
      rw [page, none_left]
      exact List.take_nil
    simp [pages, empty]
  | succ count ih =>
    simp only [pages]
    cases isLast : (page key limit cursor rows).getLast? with
    | none =>
      rw [List.getLast?_eq_none_iff.mp isLast]
      exact ⟨Nat.le_add_left _ _, fun _ => List.mem_cons_self⟩
    | some last =>
      cases later with
      | nil => exact ⟨Nat.le_add_left _ _, fun more => absurd more (Nat.not_succ_le_zero _)⟩
      | cons next later =>
        simp only [Quiet, isLast] at quiet
        have left := length_rest_next (distinct rows List.mem_cons_self)
          (distinct next (List.mem_cons_of_mem _ List.mem_cons_self)) isLast quiet.1
        have fits : (rest key (some (key last)) next).length ≤ count * limit := by
          rw [page, length_firstRows] at left
          rw [Nat.succ_mul] at enough
          omega
        obtain ⟨short, ends⟩ := ih (fun table member =>
          distinct table (List.mem_cons_of_mem _ member)) quiet.2 fits
        exact ⟨Nat.succ_le_succ short, fun more =>
          List.mem_cons_of_mem _ (ends (Nat.le_of_succ_le_succ more))⟩

end Traversal

end OutboxFormal.Library.Keyset
