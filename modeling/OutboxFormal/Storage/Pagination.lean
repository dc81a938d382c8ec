import Mathlib.Data.List.Lex
import Mathlib.Data.Prod.Lex
import OutboxFormal.Core.Types
import OutboxFormal.Library.Keyset

/-!
# Keyset pagination of the active and the failed rows

`ListPage` returns the rows below a cursor in the order of `created_at` and the
canonical identifier, both descending. The four functions (SQLite and MySQL,
active and failed rows) differ in the unit of `created_at` and in the remaining
columns. Identifiers are stored as standard UUID text in either letter case and
compared after `LOWER`; a cursor carries the canonical text of the identifier it
was copied from. On such text the collations order bytes by value.
-/

namespace OutboxFormal.Storage.Pagination

open Library Keyset

/-! ## Stored rows -/

/-- `LOWER` on ASCII text. -/
def lower (text : Bytes) : Bytes :=
  text.map fun byte => if 65 ≤ byte ∧ byte ≤ 90 then byte + 32 else byte

/-- The byte values by which texts are compared. -/
def codes (text : Bytes) : List Nat := text.map UInt8.toNat

/-- Standard UUID text in either letter case, and the UUID it is read as. -/
structure StoredID where
  uuid : UUID
  text : Bytes
  standard : lower text = uuidString uuid

/-- A row: its identifier, its `created_at` column, and the remaining columns. -/
structure StoredRow (ρ : Type) where
  id : StoredID
  createdAt : Int
  columns : ρ

/-- Identifiers are unique up to letter case. -/
abbrev StoredTable (ρ : Type) := Table fun row : StoredRow ρ => row.id.uuid

/-- The remaining columns of `jobs`. -/
structure JobColumns where
  queue : Bytes
  name : Bytes
  schemaVersion : Int
  payload : Bytes
  attempts : Int
  reservedAt : Option Int
  leaseToken : LeaseToken
  deduplicationKey : Option Bytes
  availableAt : Int

/-- The remaining columns of `jobs_failed`. -/
structure JobFailedColumns where
  jobID : JobID
  queue : Bytes
  name : Bytes
  schemaVersion : Int
  payload : Bytes
  reason : String
  failedAt : Int
  connection : Bytes
  exception : Bytes

/-! ## Listed rows -/

/-- A scanned row. -/
structure Listed (ρ : Type) where
  id : JobID
  createdAt : Int
  columns : ρ

structure PageCursor where
  createdAt : Int
  id : JobID

/-- How `created_at` is read into a Go time and how a Go time is bound to it. -/
structure Resolution where
  read : Int → Int
  bind : Int → Int
  read_lt_iff : ∀ {first second}, read first < read second ↔ first < second
  bind_read : ∀ column, bind (read column) = column

/-- `INTEGER` Unix milliseconds. -/
def milliseconds : Resolution where
  read := ofUnixMilli
  bind := unixMilli
  read_lt_iff := by
    unfold ofUnixMilli millisecond
    omega
  bind_read := by
    unfold unixMilli ofUnixMilli millisecond
    omega

/-- `DATETIME(6)`, counted in microseconds. -/
def microseconds : Resolution where
  read column := column * microsecond
  bind time := (time + 500) / microsecond
  read_lt_iff := by
    unfold microsecond
    omega
  bind_read := by
    unfold microsecond
    omega

section ListPage

variable {ρ : Type}

def defaultPageSize : Int := 10

def maxPageSize : Int := 1000

def scan (resolution : Resolution) (row : StoredRow ρ) : Listed ρ where
  id := ⟨row.id.uuid⟩
  createdAt := resolution.read row.createdAt
  columns := row.columns

/-- `(created_at, LOWER(id))`. -/
def columnKey (row : StoredRow ρ) : Int ×ₗ List Nat :=
  toLex (row.createdAt, codes (lower row.id.text))

/-- `created_at < ? OR (created_at = ? AND LOWER(id) < ?)`. -/
def olderThan (resolution : Resolution) (before : Option PageCursor) (row : StoredRow ρ) : Bool :=
  match before with
  | none => true
  | some before =>
    decide (row.createdAt < resolution.bind before.createdAt) ||
      decide (row.createdAt = resolution.bind before.createdAt) &&
        decide (codes (lower row.id.text) < codes before.id.string)

/-- The body the four functions share. -/
def listPage (resolution : Resolution) (limit : Int) (before : Option PageCursor)
    (table : StoredTable ρ) : Except OutboxError (List (Listed ρ)) :=
  let limit := if limit ≤ 0 then defaultPageSize else limit
  if maxPageSize < limit then .error (.text s!"page limit must not exceed {maxPageSize}")
  else
    .ok ((firstRows (Descending columnKey) limit.toNat
      (table.rows.filter (olderThan resolution before))).map (scan resolution))

end ListPage

/-- SQLite, active rows. -/
def sqliteJobsListPage (limit : Int) (before : Option PageCursor)
    (table : StoredTable JobColumns) : Except OutboxError (List (Listed JobColumns)) :=
  listPage milliseconds limit before table

/-- SQLite, failed rows. -/
def sqliteJobsFailedListPage (limit : Int) (before : Option PageCursor)
    (table : StoredTable JobFailedColumns) :
    Except OutboxError (List (Listed JobFailedColumns)) :=
  listPage milliseconds limit before table

/-- MySQL, active rows. -/
def mysqlJobsListPage (limit : Int) (before : Option PageCursor)
    (table : StoredTable JobColumns) : Except OutboxError (List (Listed JobColumns)) :=
  listPage microseconds limit before table

/-- MySQL, failed rows. -/
def mysqlJobsFailedListPage (limit : Int) (before : Option PageCursor)
    (table : StoredTable JobFailedColumns) :
    Except OutboxError (List (Listed JobFailedColumns)) :=
  listPage microseconds limit before table

/-- The four listings. -/
inductive Listing where
  | sqliteJobs
  | sqliteJobsFailed
  | mysqlJobs
  | mysqlJobsFailed
  deriving DecidableEq, Repr

namespace Listing

def Columns : Listing → Type
  | .sqliteJobs | .mysqlJobs => JobColumns
  | .sqliteJobsFailed | .mysqlJobsFailed => JobFailedColumns

def resolution : Listing → Resolution
  | .sqliteJobs | .sqliteJobsFailed => milliseconds
  | .mysqlJobs | .mysqlJobsFailed => microseconds

def listPage : (listing : Listing) → Int → Option PageCursor → StoredTable listing.Columns →
    Except OutboxError (List (Listed listing.Columns))
  | .sqliteJobs => sqliteJobsListPage
  | .sqliteJobsFailed => sqliteJobsFailedListPage
  | .mysqlJobs => mysqlJobsListPage
  | .mysqlJobsFailed => mysqlJobsFailedListPage

theorem listPage_eq (listing : Listing) :
    listing.listPage = Pagination.listPage listing.resolution := by
  cases listing <;> rfl

end Listing

/-! ## Traversals -/

section Traversal

variable {ρ : Type}

def cursorOf (row : Listed ρ) : PageCursor := ⟨row.createdAt, row.id⟩

/-- A traversal: every call sees the next table, the last row of a page is the
cursor of the next call, and an empty page ends it. -/
def traverse
    (call : Option PageCursor → StoredTable ρ → Except OutboxError (List (Listed ρ))) :
    Option PageCursor → List (StoredTable ρ) → List (List (Listed ρ))
  | _, [] => []
  | before, table :: later =>
    match call before table with
    | .error _ => []
    | .ok page =>
      page ::
        match page.getLast? with
        | none => []
        | some last => traverse call (some (cursorOf last)) later

/-- `(created_at, canonical id)`. -/
def listedKey (row : Listed ρ) : Int ×ₗ List Nat := toLex (row.createdAt, codes row.id.string)

/-- Between two calls no row older than the current cursor is inserted. -/
def NoOlderInserted (resolution : Resolution)
    (call : Option PageCursor → StoredTable ρ → Except OutboxError (List (Listed ρ))) :
    Option PageCursor → List (StoredTable ρ) → Prop
  | before, table :: next :: later =>
    match call before table with
    | .error _ => True
    | .ok page =>
      match page.getLast? with
      | none => True
      | some last =>
        (∀ row ∈ next.rows, listedKey (scan resolution row) < listedKey last →
          ∃ old ∈ table.rows, old.id.uuid = row.id.uuid ∧ old.createdAt = row.createdAt) ∧
          NoOlderInserted resolution call (some (cursorOf last)) (next :: later)
  | _, _ => True

variable {resolution : Resolution}

theorem codes_lower (row : StoredRow ρ) :
    codes (lower row.id.text) = codes (scan resolution row).id.string := by
  rw [row.id.standard]
  rfl

theorem listedKey_lt_iff {first second : StoredRow ρ} :
    listedKey (scan resolution first) < listedKey (scan resolution second) ↔
      columnKey first < columnKey second := by
  have same : resolution.read first.createdAt = resolution.read second.createdAt ↔
      first.createdAt = second.createdAt :=
    ⟨fun equal => by rw [← resolution.bind_read first.createdAt, equal, resolution.bind_read],
      fun equal => congrArg _ equal⟩
  rw [listedKey, listedKey, columnKey, columnKey, Prod.Lex.toLex_lt_toLex,
    Prod.Lex.toLex_lt_toLex, ← codes_lower first, ← codes_lower second]
  exact or_congr resolution.read_lt_iff (and_congr_left' same)

theorem olderThan_cursorOf (last row : StoredRow ρ) :
    olderThan resolution (some (cursorOf (scan resolution last))) row =
      decide (Below (some (columnKey last)) (columnKey row)) := by
  have below : Below (some (columnKey last)) (columnKey row) ↔ columnKey row < columnKey last :=
    ⟨fun under => under _ rfl, fun less bound same => by cases same; exact less⟩
  have bound : resolution.bind (cursorOf (scan resolution last)).createdAt = last.createdAt :=
    resolution.bind_read last.createdAt
  rw [Bool.eq_iff_iff, decide_eq_true_iff, below, columnKey, columnKey,
    Prod.Lex.toLex_lt_toLex, @codes_lower ρ resolution last]
  simp only [olderThan, bound, Bool.or_eq_true, Bool.and_eq_true, decide_eq_true_eq]
  exact Iff.rfl

theorem columnKey_inj {first second : StoredRow ρ} (same : columnKey first = columnKey second) :
    first.id.uuid = second.id.uuid ∧ first.createdAt = second.createdAt := by
  have texts : codes (lower first.id.text) = codes (lower second.id.text) :=
    congrArg (fun key => (ofLex key).2) same
  refine ⟨uuidString_injective ?_, congrArg (fun key => (ofLex key).1) same⟩
  rw [← first.id.standard, ← second.id.standard]
  exact List.map_injective_iff.mpr (fun _ _ => UInt8.toNat_inj.mp) texts

theorem nodup_columnKey (table : StoredTable ρ) : (table.rows.map columnKey).Nodup :=
  List.pairwise_map.mpr ((List.pairwise_map.mp table.nodup).imp fun different same =>
    different (columnKey_inj same).1)

/-- The cursor copied from the last row seen, if any. -/
def copied (resolution : Resolution) (last : Option (StoredRow ρ)) : Option PageCursor :=
  last.map fun row => cursorOf (scan resolution row)

variable {limit : Int} (positive : 1 ≤ limit) (bounded : limit ≤ maxPageSize)

include positive bounded

theorem listPage_eq_page (last : Option (StoredRow ρ)) (table : StoredTable ρ) :
    listPage resolution limit (copied resolution last) table =
      .ok ((page columnKey limit.toNat (last.map columnKey) table.rows).map
        (scan resolution)) := by
  have kept : ¬ limit ≤ 0 := by omega
  have clause : table.rows.filter (olderThan resolution (copied resolution last)) =
      rest columnKey (last.map columnKey) table.rows := by
    refine List.filter_congr fun row _ => ?_
    cases last with
    | none => exact (decide_eq_true nofun).symm
    | some last => exact olderThan_cursorOf last row
  simp only [listPage]
  rw [if_neg kept, if_neg (not_lt.mpr bounded), clause]
  rfl

theorem traverse_eq_pages (last : Option (StoredRow ρ)) (tables : List (StoredTable ρ)) :
    traverse (listPage resolution limit) (copied resolution last) tables =
      (pages columnKey limit.toNat (last.map columnKey) (tables.map Table.rows)).map
        (List.map (scan resolution)) := by
  induction tables generalizing last with
  | nil => rfl
  | cons table later ih =>
    simp only [traverse, listPage_eq_page positive bounded, List.map_cons, pages,
      List.getLast?_map]
    cases isLast : (page columnKey limit.toNat (last.map columnKey) table.rows).getLast? with
    | none => rfl
    | some next => exact congrArg (List.cons _) (ih (some next))

theorem quiet_of_noOlderInserted {last : Option (StoredRow ρ)} {tables : List (StoredTable ρ)}
    (quiet : NoOlderInserted resolution (listPage resolution limit) (copied resolution last)
      tables) :
    Quiet columnKey limit.toNat (last.map columnKey) (tables.map Table.rows) := by
  induction tables generalizing last with
  | nil => trivial
  | cons table later ih =>
    cases later with
    | nil => trivial
    | cons next later =>
      simp only [NoOlderInserted, listPage_eq_page positive bounded,
        List.getLast?_map] at quiet
      simp only [List.map_cons, Quiet]
      cases isLast : (page columnKey limit.toNat (last.map columnKey)
          table.rows).getLast? with
      | none => trivial
      | some final =>
        simp only [isLast, Option.map_some] at quiet
        refine ⟨fun row member less => ?_, @ih (some final) quiet.2⟩
        obtain ⟨old, hold, hid, hcreated⟩ :=
          quiet.1 row member (listedKey_lt_iff.mpr less)
        refine List.mem_map.mpr ⟨old, hold, ?_⟩
        rw [columnKey, columnKey, old.id.standard, row.id.standard, hid, hcreated]

omit positive bounded

def identity (row : Listed ρ) : JobID × Int := (row.id, row.createdAt)

theorem nodup_identity {rows : List (Listed ρ)}
    (ordered : rows.Pairwise fun earlier next => listedKey next < listedKey earlier) :
    (rows.map identity).Nodup := by
  refine List.pairwise_map.mpr (ordered.imp fun {earlier next} less same => ?_)
  obtain ⟨sameID, sameCreated⟩ := Prod.mk.inj same
  rw [listedKey, listedKey, sameID, sameCreated] at less
  exact lt_irrefl _ less

def pagesFor (rows : Nat) (limit : Int) : Nat := (rows + limit.toNat - 1) / limit.toNat

theorem le_pagesFor_mul (positive : 1 ≤ limit) (rows : Nat) :
    rows ≤ pagesFor rows limit * limit.toNat := by
  have size : 0 < limit.toNat := by omega
  have bound := @Nat.lt_div_mul_add (rows + limit.toNat - 1) limit.toNat size
  rw [pagesFor]
  omega

end Traversal

/-- A traversal over a changing table. Keys strictly descend across all pages and
no row comes twice; a finished traversal has returned every row that existed at
each call exactly once; and if no row older than the current cursor is inserted,
it ends with one page for each `limit` initial rows and an empty page. -/
theorem traversal_complete (listing : Listing) {limit : Int} (positive : 1 ≤ limit)
    (bounded : limit ≤ maxPageSize) (first : StoredTable listing.Columns)
    (later : List (StoredTable listing.Columns)) :
    let pages := traverse (listing.listPage limit) none (first :: later)
    pages.flatten.Pairwise (fun earlier next => listedKey next < listedKey earlier) ∧
      (pages.flatten.map identity).Nodup ∧
      ([] ∈ pages → ∀ uuid createdAt,
        (∀ table ∈ (first :: later).take pages.length,
          ∃ row ∈ table.rows, row.id.uuid = uuid ∧ row.createdAt = createdAt) →
        (pages.flatten.map identity).count (⟨uuid⟩, listing.resolution.read createdAt) = 1) ∧
      (NoOlderInserted listing.resolution (listing.listPage limit) none (first :: later) →
        pages.length ≤ pagesFor first.rows.length limit + 1 ∧
          (pagesFor first.rows.length limit ≤ later.length → [] ∈ pages)) := by
  have size : 0 < limit.toNat := by omega
  let visited := Keyset.pages columnKey limit.toNat none ((first :: later).map Table.rows)
  have translated : traverse (listing.listPage limit) none (first :: later) =
      visited.map (List.map (scan listing.resolution)) := by
    rw [listing.listPage_eq]
    exact traverse_eq_pages positive bounded none (first :: later)
  have distinct : ∀ rows ∈ (first :: later).map Table.rows, (rows.map columnKey).Nodup := by
    intro rows member
    obtain ⟨table, _, rfl⟩ := List.mem_map.mp member
    exact nodup_columnKey table
  have flat : (visited.map (List.map (scan listing.resolution))).flatten =
      visited.flatten.map (scan listing.resolution) := List.map_flatten.symm
  have ended : [] ∈ visited.map (List.map (scan listing.resolution)) ↔ [] ∈ visited := by
    simp [List.mem_map]
  have ordered : (visited.flatten.map (scan listing.resolution)).Pairwise
      fun earlier next => listedKey next < listedKey earlier :=
    List.pairwise_map.mpr ((pairwise_pages distinct).1.imp listedKey_lt_iff.mpr)
  dsimp only
  rw [translated, flat, ended, List.length_map]
  refine ⟨ordered, nodup_identity ordered, ?_, ?_⟩
  · intro finished uuid createdAt present
    refine List.count_eq_one_of_mem (nodup_identity ordered) ?_
    obtain ⟨found, hfound, hid, hcreated⟩ := present first (by
      cases hlength : visited.length with
      | zero => rw [List.length_eq_zero_iff.mp hlength] at finished; cases finished
      | succ count => exact List.mem_cons_self)
    have everywhere : ∀ rows ∈ ((first :: later).map Table.rows).take visited.length,
        columnKey found ∈ rows.map columnKey := by
      intro rows member
      rw [← List.map_take] at member
      obtain ⟨table, inside, rfl⟩ := List.mem_map.mp member
      obtain ⟨row, hrow, rowID, rowCreated⟩ := present table inside
      refine List.mem_map.mpr ⟨row, hrow, ?_⟩
      rw [columnKey, columnKey, row.id.standard, found.id.standard, rowID, rowCreated, hid,
        hcreated]
    obtain ⟨row, hrow, sameKey⟩ := List.mem_map.mp (mem_pages_of_present size distinct finished
      nofun everywhere)
    obtain ⟨sameID, sameCreated⟩ := columnKey_inj sameKey
    refine List.mem_map.mpr ⟨scan listing.resolution row, List.mem_map_of_mem hrow, ?_⟩
    simp only [identity, scan, sameID, sameCreated, hid, hcreated]
  · intro quiet
    rw [listing.listPage_eq] at quiet
    have settled := @quiet_of_noOlderInserted _ _ _ positive bounded none (first :: later) quiet
    have enough : (rest columnKey none first.rows).length ≤
        pagesFor first.rows.length limit * limit.toNat :=
      Nat.le_trans (List.length_filter_le _ _) (le_pagesFor_mul positive _)
    have result := length_pages_le distinct settled enough
    rwa [List.length_map] at result

/-- Two rows of one instant; the first identifier is stored in capitals. -/
def sampleTable : StoredTable JobColumns :=
  let columns : JobColumns := ⟨bytes "queue", bytes "mail", 1, [], 0, none, .nil, none, 0⟩
  ⟨[⟨⟨10, bytes "00000000-0000-0000-0000-00000000000A", by decide⟩, 5, columns⟩,
    ⟨⟨11, bytes "00000000-0000-0000-0000-00000000000b", by decide⟩, 5, columns⟩], by decide⟩

theorem traversal_complete_sample :
    traverse (Listing.listPage .sqliteJobs 1) none [sampleTable, sampleTable, sampleTable] =
        [[scan milliseconds (sampleTable.rows.get ⟨1, by decide⟩)],
          [scan milliseconds (sampleTable.rows.get ⟨0, by decide⟩)], []] ∧
      ((traverse (Listing.listPage .sqliteJobs 1) none
        [sampleTable, sampleTable, sampleTable]).flatten.map identity).Nodup :=
  ⟨by rfl, (traversal_complete .sqliteJobs (by decide) (by decide) sampleTable
    [sampleTable, sampleTable]).2.1⟩

end OutboxFormal.Storage.Pagination
