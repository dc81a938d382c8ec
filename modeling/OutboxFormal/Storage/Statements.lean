import Mathlib.Data.List.Sort
import OutboxFormal.Core.Types

/-!
# Row predicates and statements shared by the SQL backends

The three SQL backends use the same `WHERE` clauses and the same column
assignments in most statements; they differ in the instant a Go time becomes
when it is bound to a column or compared with one. That difference is the
parameter `stored`. SQL comparisons with a null `reserved_at` are not true.
-/

namespace OutboxFormal.Storage

open Library

variable {job : Job} {now : Int} {α : Type}

/-! ## Row predicates -/

/-- `reserved_at > now`. -/
def live (now : Int) (job : Job) : Bool := job.reservedAt.any (fun reserved => now < reserved)

/-- `available_at <= now AND (reserved_at IS NULL OR reserved_at <= now)`. -/
def ready (now : Int) (job : Job) : Bool :=
  decide (job.availableAt ≤ now) && job.reservedAt.all (fun reserved => reserved ≤ now)

/-- `lease_token = token AND reserved_at > now`. -/
def leased (token : LeaseToken) (now : Int) (job : Job) : Bool :=
  decide (job.leaseToken = token) && live now job

/-- `(name, schema_version)` is the requested capability. -/
def hasCapability (capability : JobCapability) (job : Job) : Bool :=
  decide (job.name = capability.name) && decide (job.schemaVersion = capability.schemaVersion)

/-- `ORDER BY available_at, created_at, id`. -/
def queueLe (first second : Job) : Bool :=
  if first.availableAt ≠ second.availableAt then first.availableAt < second.availableAt
  else if first.createdAt ≠ second.createdAt then first.createdAt < second.createdAt
  else first.id.uuid.toNat ≤ second.id.uuid.toNat

def ordered (rows : List Job) : List Job :=
  rows.insertionSort fun first second => queueLe first second = true

/-- The ordered, limited result of a row selection. -/
def orderedLimit (limit : Nat) (rows : List Job) : List Job := (ordered rows).take limit

/-! ## Column assignments -/

/-- The assignments of a claim. -/
def reserveRow (until_ : Int) (token : LeaseToken) (job : Job) : Job :=
  { job with attempts := job.attempts + 1, reservedAt := some until_, leaseToken := token }

def releaseRow (job : Job) : Job :=
  { job with attempts := job.attempts - 1, reservedAt := none, leaseToken := .nil }

/-- The assignments of a retry. -/
def rescheduleRow (availableAt : Int) (job : Job) : Job :=
  { job with availableAt := availableAt, reservedAt := none, leaseToken := .nil }

/-- The assignments of a defer: a retry that gives the attempt back. -/
def deferRow (availableAt : Int) (job : Job) : Job :=
  { rescheduleRow availableAt job with attempts := job.attempts - 1 }

def extendRow (until_ : Int) (job : Job) : Job := { job with reservedAt := some until_ }

@[simp] theorem reserveRow_id (until_ : Int) (token : LeaseToken) (job : Job) :
    (reserveRow until_ token job).id = job.id := rfl
@[simp] theorem releaseRow_id (job : Job) : (releaseRow job).id = job.id := rfl
@[simp] theorem rescheduleRow_id (availableAt : Int) (job : Job) :
    (rescheduleRow availableAt job).id = job.id := rfl
@[simp] theorem deferRow_id (availableAt : Int) (job : Job) :
    (deferRow availableAt job).id = job.id := rfl
@[simp] theorem extendRow_id (until_ : Int) (job : Job) : (extendRow until_ job).id = job.id := rfl

theorem live_iff :
    live now job = true ↔ ∃ reserved, job.reservedAt = some reserved ∧ now < reserved := by
  cases hreserved : job.reservedAt <;> simp [live, hreserved]

theorem leased_iff {token : LeaseToken} :
    leased token now job = true ↔
      job.leaseToken = token ∧ ∃ reserved, job.reservedAt = some reserved ∧ now < reserved := by
  simp [leased, live_iff]

theorem ready_iff :
    ready now job = true ↔
      job.availableAt ≤ now ∧ ∀ reserved, job.reservedAt = some reserved → reserved ≤ now := by
  cases hreserved : job.reservedAt <;> simp [ready, hreserved]

theorem ordered_perm (rows : List Job) : (ordered rows).Perm rows :=
  List.perm_insertionSort _ rows

@[simp] theorem mem_ordered {rows : List Job} {job : Job} : job ∈ ordered rows ↔ job ∈ rows :=
  List.mem_insertionSort _

@[simp] theorem length_ordered (rows : List Job) : (ordered rows).length = rows.length :=
  List.length_insertionSort _ rows

theorem mem_orderedLimit {limit : Nat} {rows : List Job} (member : job ∈ orderedLimit limit rows) :
    job ∈ rows :=
  mem_ordered.mp (List.mem_of_mem_take member)

theorem nodup_map_orderedLimit {limit : Nat} {rows : List Job}
    (distinct : (rows.map Job.id).Nodup) : ((orderedLimit limit rows).map Job.id).Nodup :=
  ((List.take_sublist limit _).map Job.id).nodup
    (((ordered_perm rows).map Job.id).nodup_iff.mpr distinct)

/-! ## Statements -/

section Statements

variable (stored : Int → Int)

/-- `UPDATE … SET attempts + 1, reserved_at, lease_token WHERE selected`. -/
def reserveWhere (selected : Job → Bool) (until_ : Int) (token : LeaseToken)
    (table : JobsTable) : JobsTable :=
  table.update selected (reserveRow (stored until_) token) (reserveRow_id (stored until_) token)

/-- `WHERE id IN ids AND lease_token = token AND reserved_at > now`. -/
def leaseSelection (ids : List JobID) (token : LeaseToken) (now : Int) (job : Job) : Bool :=
  decide (job.id ∈ ids) && leased token (stored now) job

/-- `UPDATE … SET reserved_at = until WHERE` the leases are live and owned. -/
def extendStatement (ids : List JobID) (token : LeaseToken) (now until_ : Int)
    (table : JobsTable) : JobsTable :=
  table.update (leaseSelection stored ids token now) (extendRow (stored until_))
    (extendRow_id (stored until_))

/-- The release clause: an owned live lease with a positive attempt count. -/
def releaseSelection (ids : List JobID) (token : LeaseToken) (now : Int) (job : Job) : Bool :=
  leaseSelection stored ids token now job && decide (0 < job.attempts)

/-- `UPDATE … SET attempts - 1, reserved_at = NULL, lease_token = nil`. -/
def releaseStatement (ids : List JobID) (token : LeaseToken) (now : Int)
    (table : JobsTable) : JobsTable :=
  table.update (releaseSelection stored ids token now) releaseRow releaseRow_id

/-- `WHERE id = id AND lease_token = token AND reserved_at > now`. -/
def singleSelection (id : JobID) (token : LeaseToken) (now : Int) (job : Job) : Bool :=
  decide (job.id = id) && leased token (stored now) job

/-- `DELETE … WHERE id = id AND lease_token = token AND reserved_at > now`. -/
def deleteStatement (id : JobID) (token : LeaseToken) (now : Int)
    (table : JobsTable) : JobsTable :=
  table.delete (singleSelection stored id token now)

/-- `UPDATE … SET available_at, reserved_at = NULL, lease_token = nil`. -/
def rescheduleStatement (id : JobID) (token : LeaseToken) (now availableAt : Int)
    (table : JobsTable) : JobsTable :=
  table.update (singleSelection stored id token now) (rescheduleRow (stored availableAt))
    (rescheduleRow_id (stored availableAt))

end Statements

/-! ## Inserted rows -/

/-- The row of a new job: no attempts, no lease. -/
def newJob (id : JobID) (deduplicationKey : Option Bytes) (name : Bytes) (schemaVersion : Int)
    (payload : Bytes) (availableAt createdAt : Int) : Job where
  id := id
  queue := bytes "queue"
  name := name
  schemaVersion := schemaVersion
  payload := payload
  attempts := 0
  reservedAt := none
  leaseToken := .nil
  deduplicationKey := deduplicationKey
  availableAt := availableAt
  createdAt := createdAt

/-- `INSERT INTO jobs`: the primary key and the unique index on a non-null
`deduplication_key` both hold, or the statement fails. -/
def insertJob (job : Job) (table : JobsTable) : Option JobsTable :=
  if job.deduplicationKey.isSome ∧
      ∃ stored ∈ table.rows, stored.deduplicationKey = job.deduplicationKey then none
  else table.insert? job

theorem insertJob_eq_some_iff {table after : JobsTable} :
    insertJob job table = some after ↔
      ¬ (job.deduplicationKey.isSome = true ∧
        ∃ stored ∈ table.rows, stored.deduplicationKey = job.deduplicationKey) ∧
      job.id ∉ table.rows.map Job.id ∧ after.rows = table.rows ++ [job] := by
  unfold insertJob
  split
  · rename_i hduplicate
    simp [hduplicate]
  · rename_i hunique
    rw [Table.insert?_eq_some_iff]
    exact ⟨fun inserted => ⟨hunique, inserted⟩, fun inserted => inserted.2⟩

/-! ## The fenced operations every backend writes alike -/

/-- A repository call: its answer and the table it leaves. -/
abbrev RepoCall (α : Type) := JobsTable → Except OutboxError α × JobsTable

/-- Fail without a statement. -/
def rejected {α : Type} (error : OutboxError) : RepoCall α := fun table => (.error error, table)

/-- Run the checks first; a rejected call issues no statement. -/
def checked {α : Type} (check : Except OutboxError Unit) (call : RepoCall α) : RepoCall α :=
  match check with
  | .error error => rejected error
  | .ok () => call

/-- A statement answering with its number of affected rows. -/
def affecting (selected : Job → Bool) (effect : JobsTable → JobsTable) : RepoCall Int :=
  fun table => (.ok (table.matching selected).length, effect table)

theorem checked_eq_of_ok {check : Except OutboxError Unit} (call : RepoCall α)
    (passed : check = .ok ()) : checked check call = call := by
  rw [passed]
  rfl

theorem checked_eq_ok_iff {check : Except OutboxError Unit} {call : RepoCall α} {table : JobsTable}
    {value : α} :
    (checked check call table).1 = .ok value ↔
      check = .ok () ∧ (call table).1 = .ok value := by
  cases check with
  | error error => simp [checked, rejected]
  | ok _ => simp [checked]

theorem checked_table (check : Except OutboxError Unit) (call : RepoCall α) (table : JobsTable) :
    (checked check call table).2 = table ∨
      check = .ok () ∧ checked check call table = call table := by
  cases check with
  | error error => exact Or.inl rfl
  | ok _ => exact Or.inr ⟨rfl, rfl⟩

end OutboxFormal.Storage
