import Mathlib.Data.List.Nodup
import Mathlib.Data.List.Perm.Subperm
import Mathlib.Data.List.Pairwise

/-!
# Keyed tables and row-wise statements

A table is a list of rows in insertion order in which no two rows share a
primary key. The constraint is a field, so a table violating it cannot be
built. `UPDATE` and `DELETE` rewrite every row independently of the others:
both are instances of `alter`, and a sequence of statements fuses into one
row-wise rewrite.
-/

namespace OutboxFormal.Library

/-- The one row with a given key, where keys are distinct. -/
theorem filter_key_eq_singleton {ρ κ : Type} [DecidableEq κ] {key : ρ → κ} {rows : List ρ}
    {row : ρ} (distinct : (rows.map key).Nodup) (member : row ∈ rows) :
    (rows.filter fun other => decide (key other = key row)) = [row] := by
  induction rows with
  | nil => cases member
  | cons first rest ih =>
    rw [List.map_cons, List.nodup_cons] at distinct
    rcases List.mem_cons.mp member with rfl | later
    · have nothing : (rest.filter fun other => decide (key other = key row)) = [] := by
        rw [List.filter_eq_nil_iff]
        intro other hother same
        exact distinct.1 (List.mem_map.mpr ⟨other, hother, of_decide_eq_true same⟩)
      rw [List.filter_cons_of_pos (by simp), nothing]
    · have different : key first ≠ key row := fun same =>
        distinct.1 (List.mem_map.mpr ⟨row, later, same.symm⟩)
      rw [List.filter_cons_of_neg (by simpa using different)]
      exact ih distinct.2 later

/-- Rows in insertion order, distinct under the primary key `key`. -/
structure Table {ρ κ : Type} (key : ρ → κ) where
  rows : List ρ
  nodup : (rows.map key).Nodup

namespace Table

variable {ρ κ : Type} {key : ρ → κ}

@[ext]
theorem ext {first second : Table key} (same : first.rows = second.rows) :
    first = second := by
  cases first
  cases second
  cases same
  rfl

instance [DecidableEq ρ] : DecidableEq (Table key) := fun first second =>
  decidable_of_iff (first.rows = second.rows)
    ⟨Table.ext, fun same => congrArg Table.rows same⟩

/-- The table without rows. -/
def empty : Table key := ⟨[], List.nodup_nil⟩

@[simp]
theorem empty_rows : (empty : Table key).rows = [] := rfl

/-- Two rows with one primary key are one row. -/
theorem row_unique (table : Table key) {first second : ρ}
    (hfirst : first ∈ table.rows) (hsecond : second ∈ table.rows)
    (same : key first = key second) : first = second :=
  List.inj_on_of_nodup_map table.nodup hfirst hsecond same

/-! ## Row-wise rewriting -/

/-- A row rewrite that may drop a row but never changes its primary key. -/
def KeyPreserving (key : ρ → κ) (rewrite : ρ → Option ρ) : Prop :=
  ∀ row after, rewrite row = some after → key after = key row

theorem map_key_filterMap_sublist {rewrite : ρ → Option ρ}
    (keeps : KeyPreserving key rewrite) (rows : List ρ) :
    ((rows.filterMap rewrite).map key).Sublist (rows.map key) := by
  induction rows with
  | nil => exact List.Sublist.refl _
  | cons row rest ih =>
    cases hrow : rewrite row with
    | none =>
      simpa [List.filterMap_cons, hrow] using ih.cons (key row)
    | some after =>
      simpa [List.filterMap_cons, hrow, keeps row after hrow] using
        ih.cons_cons (key row)

/-- Apply one rewrite to every row; a row sent to `none` is deleted. -/
def alter (table : Table key) (rewrite : ρ → Option ρ)
    (keeps : KeyPreserving key rewrite) : Table key where
  rows := table.rows.filterMap rewrite
  nodup := (map_key_filterMap_sublist keeps table.rows).nodup table.nodup

@[simp]
theorem alter_rows (table : Table key) (rewrite : ρ → Option ρ)
    (keeps : KeyPreserving key rewrite) :
    (table.alter rewrite keeps).rows = table.rows.filterMap rewrite := rfl

/-- Two rewrites agreeing on the stored rows have the same effect. -/
theorem alter_congr (table : Table key) {first second : ρ → Option ρ}
    (hfirst : KeyPreserving key first) (hsecond : KeyPreserving key second)
    (agree : ∀ row ∈ table.rows, first row = second row) :
    table.alter first hfirst = table.alter second hsecond := by
  apply Table.ext
  exact List.filterMap_congr agree

theorem KeyPreserving.comp {first second : ρ → Option ρ}
    (hfirst : KeyPreserving key first) (hsecond : KeyPreserving key second) :
    KeyPreserving key (fun row => (first row).bind second) := by
  intro row after hrow
  obtain ⟨middle, hmiddle, hafter⟩ := Option.bind_eq_some_iff.mp hrow
  rw [hsecond middle after hafter, hfirst row middle hmiddle]

/-- Two successive statements are one row-wise statement. -/
theorem alter_alter (table : Table key) {first second : ρ → Option ρ}
    (hfirst : KeyPreserving key first) (hsecond : KeyPreserving key second) :
    (table.alter first hfirst).alter second hsecond =
      table.alter (fun row => (first row).bind second) (hfirst.comp hsecond) := by
  apply Table.ext
  simp [List.filterMap_filterMap]

/-- A rewrite keeping every stored row as it is changes nothing. -/
theorem alter_eq_self (table : Table key) {rewrite : ρ → Option ρ}
    (keeps : KeyPreserving key rewrite)
    (same : ∀ row ∈ table.rows, rewrite row = some row) :
    table.alter rewrite keeps = table := by
  apply Table.ext
  calc table.rows.filterMap rewrite
      = table.rows.filterMap some := List.filterMap_congr same
    _ = table.rows := List.filterMap_some

theorem mem_alter {table : Table key} {rewrite : ρ → Option ρ}
    {keeps : KeyPreserving key rewrite} {after : ρ} :
    after ∈ (table.alter rewrite keeps).rows ↔
      ∃ row ∈ table.rows, rewrite row = some after := by
  simp [List.mem_filterMap]

/-! ## `UPDATE` and `DELETE` -/

/-- The rewrite of `UPDATE … SET change WHERE selected`. -/
def updateRow (selected : ρ → Bool) (change : ρ → ρ) (row : ρ) : Option ρ :=
  some (if selected row then change row else row)

/-- The rewrite of `DELETE … WHERE selected`. -/
def deleteRow (selected : ρ → Bool) (row : ρ) : Option ρ :=
  if selected row then none else some row

theorem updateRow_keyPreserving {change : ρ → ρ}
    (keeps : ∀ row, key (change row) = key row) (selected : ρ → Bool) :
    KeyPreserving key (updateRow selected change) := by
  intro row after hrow
  cases hrow
  split
  · exact keeps row
  · rfl

theorem deleteRow_keyPreserving (selected : ρ → Bool) :
    KeyPreserving key (deleteRow selected) := by
  intro row after hrow
  unfold deleteRow at hrow
  split at hrow
  · cases hrow
  · cases hrow
    rfl

/-- `UPDATE … SET change WHERE selected`; the change never touches the key. -/
def update (table : Table key) (selected : ρ → Bool) (change : ρ → ρ)
    (keeps : ∀ row, key (change row) = key row) : Table key :=
  table.alter (updateRow selected change) (updateRow_keyPreserving keeps selected)

/-- `DELETE … WHERE selected`. -/
def delete (table : Table key) (selected : ρ → Bool) : Table key :=
  table.alter (deleteRow selected) (deleteRow_keyPreserving selected)

/-- The rows a statement with this `WHERE` clause affects. -/
def matching (table : Table key) (selected : ρ → Bool) : List ρ :=
  table.rows.filter selected

/-- Two clauses agreeing on the stored rows update the same rows. -/
theorem update_congr {table : Table key} {first second : ρ → Bool} {change : ρ → ρ}
    {keeps : ∀ row, key (change row) = key row}
    (agree : ∀ row ∈ table.rows, first row = second row) :
    table.update first change keeps = table.update second change keeps :=
  table.alter_congr _ _ fun row member => by rw [updateRow, updateRow, agree row member]

theorem mem_update {table : Table key} {selected : ρ → Bool} {change : ρ → ρ}
    {keeps : ∀ row, key (change row) = key row} {after : ρ} :
    after ∈ (table.update selected change keeps).rows ↔
      ∃ row ∈ table.rows, after = if selected row then change row else row := by
  simp only [update, mem_alter, updateRow, Option.some.injEq, eq_comm]

theorem mem_delete {table : Table key} {selected : ρ → Bool} {row : ρ} :
    row ∈ (table.delete selected).rows ↔ row ∈ table.rows ∧ selected row = false := by
  rw [delete, mem_alter]
  constructor
  · rintro ⟨before, hmember, hrow⟩
    unfold deleteRow at hrow
    split at hrow
    · cases hrow
    · rename_i hselected
      cases hrow
      exact ⟨hmember, by simpa using hselected⟩
  · rintro ⟨hmember, hselected⟩
    exact ⟨row, hmember, by simp [deleteRow, hselected]⟩

theorem mem_matching {table : Table key} {selected : ρ → Bool} {row : ρ} :
    row ∈ table.matching selected ↔ row ∈ table.rows ∧ selected row = true := by
  simp [matching]

/-- An update selecting no stored row changes nothing. -/
theorem update_eq_self {table : Table key} {selected : ρ → Bool} {change : ρ → ρ}
    {keeps : ∀ row, key (change row) = key row}
    (none : ∀ row ∈ table.rows, selected row = false) :
    table.update selected change keeps = table :=
  table.alter_eq_self _ (fun row hrow => by simp [updateRow, none row hrow])

theorem delete_rows (table : Table key) (selected : ρ → Bool) :
    (table.delete selected).rows = table.rows.filter fun row => !selected row := by
  change table.rows.filterMap (deleteRow selected) = _
  rw [← List.filterMap_eq_filter]
  refine List.filterMap_congr fun row _ => ?_
  cases hselected : selected row <;> simp [deleteRow, Option.guard, hselected]

/-! ## Affected rows -/

/-- A deletion leaves the rows of a selection disjoint from its own. -/
theorem matching_delete {table : Table key} {deleted selected : ρ → Bool}
    (disjoint : ∀ row ∈ table.rows, selected row = true → deleted row = false) :
    (table.delete deleted).matching selected = table.matching selected := by
  unfold matching
  rw [delete_rows, List.filter_filter]
  refine List.filter_congr fun row hrow => ?_
  cases hselected : selected row with
  | false => rfl
  | true => simp [disjoint row hrow hselected]

/-- Disjoint selections affect the rows of their union. -/
theorem length_matching_add {table : Table key} {first second : ρ → Bool}
    (disjoint : ∀ row ∈ table.rows, first row = true → second row = false) :
    (table.matching first).length + (table.matching second).length =
      (table.matching fun row => first row || second row).length := by
  unfold matching
  generalize table.rows = rows at disjoint
  induction rows with
  | nil => rfl
  | cons row rest ih =>
    have hrest := ih fun other hother => disjoint other (List.mem_cons_of_mem row hother)
    have hrow := disjoint row List.mem_cons_self
    cases hfirst : first row <;> cases hsecond : second row <;>
      simp_all <;> omega

theorem nodup_map_matching (table : Table key) (selected : ρ → Bool) :
    ((table.matching selected).map key).Nodup :=
  (List.filter_sublist.map key).nodup table.nodup

/-- A selection inside a list of distinct keys affects one row per key exactly
when every key has a selected row. -/
theorem length_matching_eq_iff {table : Table key} {selected : ρ → Bool} {keys : List κ}
    (nodup : keys.Nodup)
    (within : ∀ row ∈ table.rows, selected row = true → key row ∈ keys) :
    (table.matching selected).length = keys.length ↔
      ∀ wanted ∈ keys, ∃ row ∈ table.rows, key row = wanted ∧ selected row = true := by
  have subset : (table.matching selected).map key ⊆ keys := by
    intro wanted hwanted
    obtain ⟨row, hrow, hkey⟩ := List.mem_map.mp hwanted
    obtain ⟨hmember, hselected⟩ := mem_matching.mp hrow
    exact hkey ▸ within row hmember hselected
  have subperm : ((table.matching selected).map key).Subperm keys :=
    List.subperm_of_subset (table.nodup_map_matching selected) subset
  constructor
  · intro hlength wanted hwanted
    have perm : ((table.matching selected).map key).Perm keys :=
      subperm.perm_of_length_le (by rw [List.length_map]; omega)
    obtain ⟨row, hrow, hkey⟩ := List.mem_map.mp (perm.mem_iff.mpr hwanted)
    obtain ⟨hmember, hselected⟩ := mem_matching.mp hrow
    exact ⟨row, hmember, hkey, hselected⟩
  · intro every
    have perm : ((table.matching selected).map key).Perm keys := by
      rw [List.perm_ext_iff_of_nodup (table.nodup_map_matching selected) nodup]
      intro wanted
      refine ⟨fun hwanted => subset hwanted, fun hwanted => ?_⟩
      obtain ⟨row, hmember, hkey, hselected⟩ := every wanted hwanted
      exact List.mem_map.mpr ⟨row, mem_matching.mpr ⟨hmember, hselected⟩, hkey⟩
    rw [← perm.length_eq, List.length_map]

section Lookup

variable [DecidableEq κ]

/-! ## Lookup by primary key -/

/-- The row stored under a primary key. -/
def get? (table : Table key) (wanted : κ) : Option ρ :=
  table.rows.find? (fun row => key row = wanted)

theorem get?_eq_some_iff {table : Table key} {wanted : κ} {row : ρ} :
    table.get? wanted = some row ↔ row ∈ table.rows ∧ key row = wanted := by
  constructor
  · intro found
    exact ⟨List.mem_of_find?_eq_some found, by simpa using List.find?_some found⟩
  · rintro ⟨hmember, hkey⟩
    cases found : table.get? wanted with
    | none =>
      have absent := List.find?_eq_none.mp found row hmember
      simp [hkey] at absent
    | some other =>
      have hother : other ∈ table.rows := List.mem_of_find?_eq_some found
      have hsame : key other = wanted := by simpa using List.find?_some found
      rw [table.row_unique hother hmember (hsame.trans hkey.symm)]

theorem isSome_get?_of_mem {table : Table key} {wanted : κ} {row : ρ} (member : row ∈ table.rows)
    (same : key row = wanted) : (table.get? wanted).isSome = true := by
  rw [get?_eq_some_iff.mpr ⟨member, same⟩]
  rfl

theorem get?_eq_none_iff {table : Table key} {wanted : κ} :
    table.get? wanted = none ↔ ∀ row ∈ table.rows, key row ≠ wanted := by
  simp [get?, List.find?_eq_none]

@[simp]
theorem get?_empty (wanted : κ) : (empty : Table key).get? wanted = none := rfl

/-- Lookup after a row-wise statement is lookup followed by the rewrite. -/
theorem get?_alter (table : Table key) {rewrite : ρ → Option ρ}
    (keeps : KeyPreserving key rewrite) (wanted : κ) :
    (table.alter rewrite keeps).get? wanted = (table.get? wanted).bind rewrite := by
  cases found : table.get? wanted with
  | none =>
    rw [Option.bind_none, get?_eq_none_iff]
    intro after hafter
    obtain ⟨row, hrow, hrewrite⟩ := mem_alter.mp hafter
    rw [keeps row after hrewrite]
    exact get?_eq_none_iff.mp found row hrow
  | some row =>
    obtain ⟨hrow, hkey⟩ := get?_eq_some_iff.mp found
    rw [Option.bind_some]
    cases hrewrite : rewrite row with
    | some after =>
      exact get?_eq_some_iff.mpr
        ⟨mem_alter.mpr ⟨row, hrow, hrewrite⟩, (keeps row after hrewrite).trans hkey⟩
    | none =>
      rw [get?_eq_none_iff]
      intro after hafter same
      obtain ⟨other, hother, hafterEq⟩ := mem_alter.mp hafter
      have hsame : other = row := table.row_unique hother hrow
        (by rw [← keeps other after hafterEq, same, hkey])
      rw [hsame, hrewrite] at hafterEq
      cases hafterEq

theorem get?_update (table : Table key) (selected : ρ → Bool) (change : ρ → ρ)
    (keeps : ∀ row, key (change row) = key row) (wanted : κ) :
    (table.update selected change keeps).get? wanted =
      (table.get? wanted).map (fun row => if selected row then change row else row) := by
  rw [update, get?_alter]
  cases table.get? wanted <;> rfl

theorem get?_delete (table : Table key) (selected : ρ → Bool) (wanted : κ) :
    (table.delete selected).get? wanted =
      (table.get? wanted).filter (fun row => !selected row) := by
  rw [delete, get?_alter]
  cases found : table.get? wanted with
  | none => rfl
  | some row =>
    cases hselected : selected row <;>
      simp [deleteRow, hselected, Option.filter]

/-! ## `INSERT` -/

/-- `INSERT` of one row; `none` is a primary-key violation. -/
def insert? (table : Table key) (row : ρ) : Option (Table key) :=
  if fresh : key row ∈ table.rows.map key then none
  else some
    { rows := table.rows ++ [row]
      nodup := by
        rw [List.map_append, List.map_singleton]
        exact List.nodup_append.mpr ⟨table.nodup, List.nodup_singleton _, by
          intro stored hstored inserted hinserted same
          rw [List.mem_singleton] at hinserted
          exact fresh (hinserted ▸ same ▸ hstored)⟩ }

theorem insert?_eq_some_iff {table after : Table key} {row : ρ} :
    table.insert? row = some after ↔
      key row ∉ table.rows.map key ∧ after.rows = table.rows ++ [row] := by
  unfold insert?
  split
  · rename_i hpresent
    simp [hpresent]
  · rename_i hfresh
    constructor
    · intro heq
      cases heq
      exact ⟨hfresh, rfl⟩
    · rintro ⟨-, hrows⟩
      exact congrArg some (Table.ext hrows.symm)

theorem get?_insert {table after : Table key} {row : ρ}
    (inserted : table.insert? row = some after) (wanted : κ) :
    after.get? wanted = if key row = wanted then some row else table.get? wanted := by
  obtain ⟨hfresh, hrows⟩ := insert?_eq_some_iff.mp inserted
  split
  · rename_i hkey
    exact get?_eq_some_iff.mpr ⟨by simp [hrows], hkey⟩
  · rename_i hkey
    unfold get?
    rw [hrows, List.find?_append]
    cases table.rows.find? (fun stored => key stored = wanted) with
    | some stored => rfl
    | none => simp [hkey]

/-- Store one row, replacing the row stored under its key. -/
def upsert (table : Table key) (row : ρ) : Table key where
  rows :=
    if key row ∈ table.rows.map key then
      table.rows.map fun stored => if key stored = key row then row else stored
    else table.rows ++ [row]
  nodup := by
    split
    · rw [List.map_map]
      refine (List.map_congr_left fun stored _ => ?_) ▸ table.nodup
      rw [Function.comp_apply]
      split <;> simp_all
    · rename_i hfresh
      rw [List.map_append, List.map_singleton]
      exact List.nodup_append.mpr ⟨table.nodup, List.nodup_singleton _, by
        intro stored hstored inserted hinserted same
        rw [List.mem_singleton] at hinserted
        exact hfresh (hinserted ▸ same ▸ hstored)⟩

theorem mem_upsert {table : Table key} {row entry : ρ} :
    entry ∈ (table.upsert row).rows ↔
      entry = row ∨ entry ∈ table.rows ∧ key entry ≠ key row := by
  unfold upsert
  dsimp only
  split
  · rename_i hpresent
    obtain ⟨old, hold, hkey⟩ := List.mem_map.mp hpresent
    rw [List.mem_map]
    constructor
    · rintro ⟨stored, hstored, rfl⟩
      split
      · exact Or.inl rfl
      · rename_i hother
        exact Or.inr ⟨hstored, hother⟩
    · rintro (rfl | ⟨hentry, hother⟩)
      · exact ⟨old, hold, by simp [hkey]⟩
      · exact ⟨entry, hentry, by simp [hother]⟩
  · rename_i hfresh
    rw [List.mem_append, List.mem_singleton]
    constructor
    · rintro (hentry | rfl)
      · exact Or.inr ⟨hentry, fun same => hfresh (same ▸ List.mem_map_of_mem hentry)⟩
      · exact Or.inl rfl
    · rintro (rfl | ⟨hentry, -⟩)
      · exact Or.inr rfl
      · exact Or.inl hentry

theorem keys_upsert (table : Table key) (row : ρ) :
    (table.upsert row).rows.map key =
      if key row ∈ table.rows.map key then table.rows.map key
      else table.rows.map key ++ [key row] := by
  unfold upsert
  dsimp only
  split
  · rw [List.map_map]
    refine List.map_congr_left fun stored _ => ?_
    rw [Function.comp_apply]
    split <;> simp_all
  · rw [List.map_append, List.map_singleton]

/-! ## Statements on single rows -/

/-- A rewrite of the row stored under one key. -/
def atKey (key : ρ → κ) (wanted : κ) (rewrite : ρ → Option ρ) (row : ρ) : Option ρ :=
  if key row = wanted then rewrite row else some row

theorem atKey_keyPreserving {wanted : κ} {rewrite : ρ → Option ρ}
    (keeps : KeyPreserving key rewrite) : KeyPreserving key (atKey key wanted rewrite) := by
  intro row after hrow
  unfold atKey at hrow
  split at hrow
  · exact keeps row after hrow
  · cases hrow
    rfl

section Each

variable {ι : Type} (target : ι → κ) (effect : ι → ρ → Option ρ)

/-- The effect of the item that targets a row, if there is one. -/
def eachRow (key : ρ → κ) (items : List ι) (row : ρ) : Option ρ :=
  match items.find? (fun item => target item = key row) with
  | none => some row
  | some item => effect item row

theorem eachRow_keyPreserving (keeps : ∀ item, KeyPreserving key (effect item))
    (items : List ι) : KeyPreserving key (eachRow target effect key items) := by
  intro row after hrow
  unfold eachRow at hrow
  split at hrow
  · cases hrow
    rfl
  · exact keeps _ row after hrow

/-- Statements on distinct single rows, one after the other, are one row-wise
statement. -/
theorem foldl_alter_atKey (keeps : ∀ item, KeyPreserving key (effect item)) (items : List ι)
    (distinct : (items.map target).Nodup) (table : Table key) :
    items.foldl (fun before item =>
        before.alter (atKey key (target item) (effect item)) (atKey_keyPreserving (keeps item)))
        table =
      table.alter (eachRow target effect key items)
        (eachRow_keyPreserving target effect keeps items) := by
  induction items generalizing table with
  | nil => exact (table.alter_eq_self _ fun _ _ => rfl).symm
  | cons item rest ih =>
    rw [List.map_cons, List.nodup_cons] at distinct
    rw [List.foldl_cons, ih distinct.2, alter_alter]
    refine table.alter_congr _ _ fun row _ => ?_
    by_cases hrow : key row = target item
    · -- The later items target other rows.
      have later : ∀ after, key after = key row →
          rest.find? (fun other => target other = key after) = none := by
        intro after hafter
        refine List.find?_eq_none.mpr fun other hother => ?_
        rw [decide_eq_true_eq, hafter, hrow]
        exact fun same => distinct.1 (List.mem_map.mpr ⟨other, hother, same⟩)
      cases heffect : effect item row with
      | none => simp [atKey, eachRow, hrow, heffect]
      | some after =>
        simp [atKey, eachRow, hrow, heffect, later after (keeps item row after heffect)]
    · have hother : target item ≠ key row := fun same => hrow same.symm
      simp [atKey, eachRow, hrow, hother]

end Each

end Lookup

end Table

end OutboxFormal.Library
