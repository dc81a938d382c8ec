import Mathlib.Data.List.Dedup
import OutboxFormal.Storage.AttemptRange
import OutboxFormal.Storage.Idempotency

/-!
# Queue statistics

`GetQueueStats` groups the active rows by capability and counts, at one instant,
the rows a claim could take and the rows under a live lease. The query restates
the clauses of the claim and of the extension in its own words, so its counts
agree with these operations only for rows whose lease columns are set together
and whose capability a claim accepts. Both hold of every table that the
repository calls build.

The instant of the observation is compared as the backend stores it, like the
instant of a claim.
-/

namespace OutboxFormal.Storage

open Library

/-! ## The statistics -/

structure CapabilityQueueStats where
  name : Bytes
  schemaVersion : Int
  total : Int
  available : Int
  processing : Int
  oldestAvailableAt : Int
  deriving DecidableEq, Repr

structure QueueStats where
  observedAt : Int
  total : Int
  available : Int
  processing : Int
  byCapability : List CapabilityQueueStats
  deriving DecidableEq, Repr

/-- A row of the aggregate query; `MIN` over no row is null. -/
structure CapabilityStatsRow where
  name : Bytes
  schemaVersion : Int
  total : Int
  available : Int
  processing : Int
  oldestAvailableAt : Option Int

def CapabilityQueueStats.capability (group : CapabilityQueueStats) : JobCapability :=
  ⟨group.name, group.schemaVersion⟩

/-- The columns a row is grouped by. -/
def capabilityOf (job : Job) : JobCapability := ⟨job.name, job.schemaVersion⟩

/-- `reserved_at > observedAt AND lease_token <> nil`. -/
def processing (now : Int) (job : Job) : Bool :=
  live now job && decide (job.leaseToken ≠ .nil)

def statsRow (now : Int) (rows : List Job) (capability : JobCapability) : CapabilityStatsRow :=
  let group := rows.filter (hasCapability capability)
  { name := capability.name
    schemaVersion := capability.schemaVersion
    total := group.length
    available := (group.filter (ready now)).length
    processing := (group.filter (processing now)).length
    oldestAvailableAt := ((group.filter (ready now)).map Job.availableAt).min? }

/-- `ORDER BY name, schema_version`. -/
def groupLe (collation : Bytes → Bytes → Bool) (first second : JobCapability) : Bool :=
  if first.name ≠ second.name then collation first.name second.name
  else first.schemaVersion ≤ second.schemaVersion

/-- The result set of the query. -/
def aggregate (collation : Bytes → Bytes → Bool) (now : Int) (table : JobsTable) :
    List CapabilityStatsRow :=
  ((table.rows.map capabilityOf).dedup.insertionSort fun first second =>
    groupLe collation first second = true).map (statsRow now table.rows)

/-- The group of a result row: an absent minimum leaves the zero time. -/
def CapabilityStatsRow.group (row : CapabilityStatsRow) : CapabilityQueueStats where
  name := row.name
  schemaVersion := row.schemaVersion
  total := row.total
  available := row.available
  processing := row.processing
  oldestAvailableAt := row.oldestAvailableAt.getD 0

/-- One round of the loop over the result set. -/
def QueueStats.addRow (stats : QueueStats) (row : CapabilityStatsRow) : QueueStats :=
  { stats with
    total := stats.total + row.total
    available := stats.available + row.available
    processing := stats.processing + row.processing
    byCapability := stats.byCapability ++ [row.group] }

def getQueueStats (stored : Int → Int) (collation : Bytes → Bytes → Bool) (observedAt : Int)
    (table : JobsTable) : QueueStats :=
  (aggregate collation (stored observedAt) table).foldl QueueStats.addRow
    { observedAt := observedAt, total := 0, available := 0, processing := 0, byCapability := [] }

/-- The order of the groups follows the collation of `name`, which is bytewise on
MySQL and SQLite. -/
def Backend.getQueueStats (backend : Backend) (view : View) : Int → JobsTable → QueueStats :=
  match backend with
  | .pgsql => Storage.getQueueStats Pgsql.stored view.collation
  | .mysql => Storage.getQueueStats Mysql.stored bytesLe
  | .sqlite => Storage.getQueueStats Sqlite.stored bytesLe

/-! ## The loop -/

/-- The loop adds every result row to the totals and appends its group. -/
theorem foldl_addRow (rows : List CapabilityStatsRow) (stats : QueueStats) :
    rows.foldl QueueStats.addRow stats =
      { observedAt := stats.observedAt
        total := stats.total + (rows.map CapabilityStatsRow.total).sum
        available := stats.available + (rows.map CapabilityStatsRow.available).sum
        processing := stats.processing + (rows.map CapabilityStatsRow.processing).sum
        byCapability := stats.byCapability ++ rows.map CapabilityStatsRow.group } := by
  induction rows generalizing stats with
  | nil => simp
  | cons row rest ih =>
    rw [List.foldl_cons, ih]
    simp [QueueStats.addRow, Int.add_assoc]

section Groups

variable {stored : Int → Int} {collation : Bytes → Bytes → Bool} {observedAt : Int}
  {table : JobsTable}

theorem getQueueStats_byCapability :
    (getQueueStats stored collation observedAt table).byCapability =
      (aggregate collation (stored observedAt) table).map CapabilityStatsRow.group := by
  rw [getQueueStats, foldl_addRow]
  rfl

theorem getQueueStats_totals :
    let stats := getQueueStats stored collation observedAt table
    stats.total = (stats.byCapability.map CapabilityQueueStats.total).sum ∧
      stats.available = (stats.byCapability.map CapabilityQueueStats.available).sum ∧
      stats.processing = (stats.byCapability.map CapabilityQueueStats.processing).sum := by
  simp only [getQueueStats, foldl_addRow, Int.zero_add, List.nil_append, List.map_map]
  exact ⟨rfl, rfl, rfl⟩

/-- One group for each capability of an active row. -/
theorem getQueueStats_capabilities :
    ((getQueueStats stored collation observedAt table).byCapability.map
      CapabilityQueueStats.capability).Perm (table.rows.map capabilityOf).dedup := by
  have grouped : (CapabilityQueueStats.capability ∘ CapabilityStatsRow.group) ∘
      statsRow (stored observedAt) table.rows = id := rfl
  rw [getQueueStats_byCapability, aggregate, List.map_map, List.map_map, grouped, List.map_id]
  exact List.perm_insertionSort _ _

theorem exists_of_mem_byCapability {group : CapabilityQueueStats}
    (member : group ∈ (getQueueStats stored collation observedAt table).byCapability) :
    ∃ job ∈ table.rows,
      group = (statsRow (stored observedAt) table.rows (capabilityOf job)).group := by
  rw [getQueueStats_byCapability, aggregate, List.map_map] at member
  obtain ⟨capability, grouped, rfl⟩ := List.mem_map.mp member
  rw [List.mem_insertionSort, List.mem_dedup] at grouped
  obtain ⟨job, stored_, rfl⟩ := List.mem_map.mp grouped
  exact ⟨job, stored_, rfl⟩

end Groups

/-! ## The claim of one capability -/

theorem filter_ready_eq_claimable (now : Int) (capability : JobCapability) (rows : List Job) :
    (rows.filter (hasCapability capability)).filter (ready now) =
      rows.filter (claimable now [capability]) := by
  rw [List.filter_filter]
  congr 1
  funext job
  simp [claimable, Bool.and_comm]

section Selection

variable {now limit : Int} {capabilities : List JobCapability} {table : JobsTable}

theorem length_claimSelection :
    (claimSelection now capabilities limit table).length =
      min limit.toNat (table.rows.filter (claimable now capabilities)).length := by
  rw [claimSelection, orderedLimit_eq_firstRows, length_firstRows]

theorem min?_availableAt_eq {first : Job} {rest : List Job}
    (selected : claimSelection now capabilities limit table = first :: rest) :
    ((table.rows.filter (claimable now capabilities)).map Job.availableAt).min? =
      some first.availableAt := by
  have member : first ∈ table.rows.filter (claimable now capabilities) :=
    mem_orderedLimit (selected ▸ List.mem_cons_self)
  refine List.min?_eq_some_iff.mpr ⟨List.mem_map_of_mem member, ?_⟩
  rintro _ later
  obtain ⟨other, hother, rfl⟩ := List.mem_map.mp later
  have before : QueueOrder first other := le_of_firstRows_eq_cons selected hother
  rw [queueOrder_iff] at before
  omega

end Selection

/-- The attempt counter of the row fits its column after one more claim. -/
def Backend.counts : Backend → Job → Bool
  | .pgsql, job => decide (job.attempts < Pgsql.smallintMax)
  | .mysql, job => decide (job.attempts < Mysql.intMax)
  | .sqlite, _ => true

/-- No other session locks a row or writes between the queries of the call. -/
def View.Undisturbed (view : View) (table : JobsTable) : Prop :=
  view.lockedJobs = (fun _ => false) ∧ view.snapshots.head? = some table

theorem claimContract_answer {now until_ limit : Int} {token : LeaseToken}
    {capabilities : List JobCapability} {table : JobsTable} (positive : 1 ≤ limit) :
    (claimContract now until_ token capabilities limit table).1 =
      if claimSelection now capabilities limit table = [] then .error (.leaf .errNoJobs)
      else .ok ((claimSelection now capabilities limit table).map (reserveRow until_ token)) := by
  unfold claimContract
  split_ifs with found empty empty
  · rw [(claimSelection_eq_nil_iff positive).mp empty] at found
    cases found
  · rfl
  · rfl
  · exact absurd (any_claimable_of_ne_nil positive empty) found

section Claims

variable {backend : Backend} {view : View} {now until_ limit : Int} {token : LeaseToken}
  {capabilities : List JobCapability} {table : JobsTable}

/-- A claim whose counters fit answers with the selected rows. -/
theorem Backend.claim_answer (undisturbed : view.Undisturbed table)
    (claim : AcceptedClaim token capabilities limit)
    (fits : ∀ job ∈ claimSelection (backend.stored now) capabilities limit table,
      backend.counts job = true) :
    ∃ deadline, (backend.findAndReserveJobsForCapabilities view now until_ token capabilities
        limit table).1 =
      if claimSelection (backend.stored now) capabilities limit table = [] then
        .error (.leaf .errNoJobs)
      else .ok ((claimSelection (backend.stored now) capabilities limit table).map
        (reserveRow deadline token)) := by
  obtain ⟨unlocked, current⟩ := undisturbed
  cases backend with
  | pgsql =>
    refine ⟨Pgsql.stored until_, ?_⟩
    change (Pgsql.findAndReserveJobsForCapabilities view.lockedJobs now until_ token capabilities
      limit table).1 = _
    rw [unlocked, Pgsql.findAndReserveJobsForCapabilities_eq claim, if_neg,
      claimContract_answer claim.positive]
    · rfl
    · exact not_any_exceeds fun job member => of_decide_eq_true (fits job member)
  | mysql =>
    obtain ⟨rest, snapshots⟩ := List.head?_eq_some_iff.mp current
    refine ⟨Mysql.stored until_, ?_⟩
    change (Mysql.findAndReserveJobsForCapabilities view.snapshots now until_ token capabilities
      limit table).1 = _
    rw [snapshots, Mysql.findAndReserveJobsForCapabilities_eq claim, if_neg,
      claimContract_answer claim.positive]
    · rfl
    · exact not_any_exceeds fun job member => of_decide_eq_true (fits job member)
  | sqlite =>
    refine ⟨until_, ?_⟩
    change (Sqlite.findAndReserveJobsForCapabilities view.attached now until_ token capabilities
      limit table).1 = _
    rw [Sqlite.findAndReserveJobsForCapabilities_eq (validateCapabilities_eq_ok claim.valid).1
      claim.validateBatchClaim_eq_ok, Sqlite.findAndReserveBatchWithExecutor_eq]
    exact apply_ite Prod.fst (claimSelection (Sqlite.stored now) capabilities limit table = [])
      _ _

end Claims

/-! ## The rows of a history -/

section Histories

variable (backend : Backend) (digest : Digest)

/-- A put of an invalid schema version issues no statement. -/
theorem Backend.createJobVersioned_invalid {id : JobID} {createdAt : Int} {content : Content}
    {table : JobsTable} (invalid : ¬ 0 < content.schemaVersion) :
    (backend.createJobVersioned id createdAt content table).2 = table := by
  have refused : ∃ error,
      JobCapability.validate ⟨content.name, content.schemaVersion⟩ = .error error := by
    cases hcheck : JobCapability.validate ⟨content.name, content.schemaVersion⟩ with
    | error error => exact ⟨error, rfl⟩
    | ok _ => exact absurd (JobCapability.validate_eq_ok_iff.mp hcheck) invalid
  obtain ⟨error, refused⟩ := refused
  cases backend <;> simp only [Backend.createJobVersioned, Pgsql.createJobVersioned,
    Mysql.createJobVersioned, Sqlite.createJobVersioned, refused] <;> rfl

/-- A row that appears was put by the call under a generated identifier and with
a valid schema version. -/
theorem Call.run_inserted {call : Call} {database : Database} {id : JobID} {job : Job}
    (absent : database.jobs.get? id = none)
    (present : (call.run backend digest database).2.jobs.get? id = some job) :
    job.id ∈ call.newIDs ∧ 0 < job.schemaVersion := by
  have changed : (call.run backend digest database).2.jobs ≠ database.jobs := by
    intro same
    rw [same, absent] at present
    cases present
  obtain ⟨event, allowed, step⟩ := call.run_row backend digest database id
  rw [absent, present] at step
  cases step
  cases call with
  | createJobVersioned newID createdAt content =>
    obtain ⟨row, ⟨hrow, _⟩, ⟨⟩⟩ := allowed.resolve_left RowEvent.noConfusion
    rw [List.mem_singleton.mp hrow]
    refine ⟨List.mem_singleton_self newID, ?_⟩
    by_contra invalid
    exact changed (backend.createJobVersioned_invalid invalid)
  | createJobVersionedUniqueResult view put newID createdAt =>
    obtain ⟨row, ⟨hrow, _⟩, ⟨⟩⟩ := allowed.resolve_left RowEvent.noConfusion
    obtain ⟨item, hitem, rfl⟩ := List.mem_map.mp hrow
    rw [List.mem_singleton.mp hitem]
    refine ⟨List.mem_singleton_self newID, ?_⟩
    by_contra invalid
    have unchanged := (@Backend.createJobVersionedUniqueResult_invalid backend digest view put
      newID createdAt database fun valid => invalid valid.2).2
    exact changed (congrArg Database.jobs unchanged)
  | createJobVersionedUniqueBatch view items createdAt =>
    obtain ⟨row, ⟨hrow, _⟩, ⟨⟩⟩ := allowed.resolve_left RowEvent.noConfusion
    obtain ⟨item, hitem, rfl⟩ := List.mem_map.mp hrow
    obtain ⟨source, hsource, rfl⟩ := List.mem_map.mp hitem
    refine ⟨List.mem_map.mpr ⟨source, hsource, rfl⟩, ?_⟩
    by_contra invalid
    have unchanged := @Backend.createJobVersionedUniqueBatch_invalid backend view digest items
      createdAt database fun valid =>
        invalid (valid.2.1 source.1 (List.mem_map_of_mem hsource)).2
    exact changed (congrArg Database.jobs unchanged)
  | findAndReserveJobsForCapabilities | findAndReserveJobsForCapabilityBounded =>
    rcases allowed with ⟨_, _⟩ | ⟨_, _⟩ <;> contradiction
  | extendJobLeases | releaseUnstartedJobsWithLease | deleteJobWithLease
  | rescheduleJobWithLease =>
    rcases allowed with _ | ⟨_, _⟩ <;> contradiction
  | applyBatchJobOutcomes | deferJobWithLease =>
    rcases allowed with _ | ⟨_, _, _, _, ⟨_, _⟩ | ⟨_, _⟩ | ⟨_, _⟩⟩ <;> contradiction
  | createFailedJobVersioned | pruneJobIdempotencyKeys => cases allowed

/-- Every stored row was put under a generated identifier and with a valid schema
version. -/
theorem history_inserted (history : List Call) :
    ∀ job ∈ ((repository backend digest).final .empty history).jobs.rows,
      job.id ∈ history.flatMap Call.newIDs ∧ 0 < job.schemaVersion := by
  have run := (repository backend digest).invariant
    (fun database trace => ∀ job ∈ database.jobs.rows,
      job.id ∈ (trace.map Transition.input).flatMap Call.newIDs ∧ 0 < job.schemaVersion)
    .empty ?_ ?_ history
  · rwa [Machine.trace_inputs] at run
  · intro job member
    cases member
  · intro database trace call invariant job member
    have present := (@Table.get?_eq_some_iff _ _ _ _
      (call.run backend digest database).2.jobs job.id job).mpr ⟨member, rfl⟩
    rw [List.map_append, List.flatMap_append, List.map_singleton, List.flatMap_singleton]
    cases before : database.jobs.get? job.id with
    | none =>
      obtain ⟨generated, positive⟩ := Call.run_inserted backend digest before present
      exact ⟨List.mem_append_right _ generated, positive⟩
    | some row =>
      obtain ⟨event, _, step⟩ := call.run_row backend digest database job.id
      rw [before, present] at step
      rcases step.sameContent with rfl | ⟨old, ⟨⟩, content⟩
      · cases step
      · obtain ⟨generated, positive⟩ := invariant row (Table.get?_eq_some_iff.mp before).1
        rw [content.1] at generated
        rw [content.2.2.2.1] at positive
        exact ⟨List.mem_append_left _ generated, positive⟩

/-- What the counts rest on: the identifier and the capability of a row are
accepted by the operations, and its lease columns are set together. -/
structure Countable (job : Job) : Prop where
  named : job.id ≠ .nil
  versioned : 0 < job.schemaVersion
  lease_iff : job.reservedAt = none ↔ job.leaseToken = .nil

/-- The rows of every history are countable when no generated identifier is the
zero UUID. -/
theorem history_countable {history : List Call}
    (generated : ∀ id ∈ history.flatMap Call.newIDs, id ≠ .nil) :
    ∀ job ∈ ((repository backend digest).final .empty history).jobs.rows, Countable job := by
  intro job member
  obtain ⟨inserted, positive⟩ := history_inserted backend digest history job member
  have invariant := (history_rows backend digest history).1 job.id job
    (Table.get?_eq_some_iff.mpr ⟨member, rfl⟩)
  exact ⟨generated job.id inserted, positive, invariant.lease_iff⟩

end Histories

/-! ## The extension of a row under its own token -/

/-- The extension of one row under the token it carries affects it. -/
def Backend.extendsOwn (backend : Backend) (observedAt until_ : Int) (table : JobsTable)
    (job : Job) : Bool :=
  match (backend.extendJobLeases [job.id] job.leaseToken observedAt until_ table).1 with
  | .ok affected => decide (affected ≠ 0)
  | .error _ => false

section Extension

variable {table : JobsTable} {job : Job}

theorem matching_singleton (member : job ∈ table.rows) (clause : Job → Bool) :
    (table.matching fun row => decide (row.id ∈ [job.id]) && clause row) =
      if clause job then [job] else [] := by
  have own : table.rows.filter (fun row => decide (row.id ∈ [job.id])) = [job] := by
    simpa using @filter_key_eq_singleton _ _ _ Job.id table.rows job table.nodup member
  have ordered : (table.matching fun row => decide (row.id ∈ [job.id]) && clause row) =
      (table.rows.filter fun row => decide (row.id ∈ [job.id])).filter clause := by
    simp only [Table.matching, List.filter_filter, Bool.and_comm]
  rw [ordered, own, List.filter_singleton]
  exact Bool.cond_eq_ite _ _ _

theorem validateLease_own (countable : Countable job) (leasedRow : job.leaseToken ≠ .nil) :
    Pgsql.validateBatchLeaseRequest [job.id] job.leaseToken = .ok () ∧
      DatabaseSql.validateBatchLease [job.id] job.leaseToken = .ok () := by
  have token := LeaseToken.validate_eq_ok_iff.mpr leasedRow
  have id := JobID.validate_eq_ok_iff.mpr countable.named
  have nonzero : job.id.isZero = false := by
    have named := countable.named
    unfold JobID.isZero
    simpa using named
  constructor
  · rw [Pgsql.validateBatchLeaseRequest, token]
    simp [leaseCountAccepted, Pgsql.validateIDs, id, maxReservationBatchSize]
  · rw [DatabaseSql.validateBatchLease, token]
    simp [leaseCountAccepted, nonzero, maxReservationBatchSize]

theorem validateLease_unleased (unleased : job.leaseToken = .nil) :
    (∃ error, Pgsql.validateBatchLeaseRequest [job.id] job.leaseToken = .error error) ∧
      ∃ error, DatabaseSql.validateBatchLease [job.id] job.leaseToken = .error error := by
  constructor
  · cases checks : Pgsql.validateBatchLeaseRequest [job.id] job.leaseToken with
    | error error => exact ⟨error, rfl⟩
    | ok _ => exact absurd unleased (Pgsql.validateBatchLeaseRequest_token checks)
  · cases checks : DatabaseSql.validateBatchLease [job.id] job.leaseToken with
    | error error => exact ⟨error, rfl⟩
    | ok _ => exact absurd unleased (DatabaseSql.validateBatchLease_token checks)

theorem affecting_own (member : job ∈ table.rows) (clause : Job → Bool)
    (effect : JobsTable → JobsTable) :
    (affecting (fun row => decide (row.id ∈ [job.id]) && clause row) effect table).1 =
      .ok (if clause job then 1 else 0) := by
  rw [affecting, matching_singleton member]
  split <;> rfl

theorem Backend.extendsOwn_of_answer {backend : Backend} {observedAt until_ : Int}
    {selected : Bool}
    (answer : (backend.extendJobLeases [job.id] job.leaseToken observedAt until_ table).1 =
      .ok (if selected then 1 else 0)) :
    backend.extendsOwn observedAt until_ table job = selected := by
  rw [extendsOwn, answer]
  cases selected <;> rfl

/-- Exactly the processing rows are affected by an extension under their own
token. MySQL counts changed rows, so there the deadline has to move. -/
theorem Backend.extendsOwn_eq_processing (backend : Backend) {observedAt until_ : Int}
    (member : job ∈ table.rows) (countable : Countable job)
    (moves : backend = .mysql → job.reservedAt ≠ some (backend.stored until_)) :
    backend.extendsOwn observedAt until_ table job =
      processing (backend.stored observedAt) job := by
  by_cases unleased : job.leaseToken = .nil
  · obtain ⟨⟨first, pgsql⟩, ⟨second, others⟩⟩ := validateLease_unleased unleased
    have idle : processing (backend.stored observedAt) job = false := by
      simp [processing, unleased]
    rw [idle]
    cases backend <;> simp [extendsOwn, extendJobLeases, Pgsql.extendJobLeases,
      Mysql.extendJobLeases, Sqlite.extendJobLeases, pgsql, others, Pgsql.withOp,
      Except.mapError, checked, rejected]
  · obtain ⟨pgsql, others⟩ := validateLease_own countable unleased
    have own : ∀ now, leased job.leaseToken now job = processing now job := by
      intro now
      simp [leased, processing, unleased]
    rw [← own]
    cases backend with
    | pgsql =>
      have passed : Pgsql.withOp "jobs.repo.ExtendJobLeases"
          (Pgsql.validateBatchLeaseRequest [job.id] job.leaseToken) = .ok () := by
        rw [pgsql]
        rfl
      apply extendsOwn_of_answer
      change (Pgsql.extendJobLeases [job.id] job.leaseToken observedAt until_ table).1 = _
      rw [Pgsql.extendJobLeases, checked_eq_of_ok _ passed]
      exact affecting_own member (leased job.leaseToken (Pgsql.stored observedAt)) _
    | mysql =>
      have moved : (leased job.leaseToken (Mysql.stored observedAt) job &&
          decide (job.reservedAt ≠ some (Mysql.stored until_))) =
            leased job.leaseToken (Mysql.stored observedAt) job := by
        have later : job.reservedAt ≠ some (Mysql.stored until_) := moves rfl
        rw [decide_eq_true later, Bool.and_true]
      have counted := affecting_own member
        (fun row => leased job.leaseToken (Mysql.stored observedAt) row &&
          decide (row.reservedAt ≠ some (Mysql.stored until_)))
        (extendStatement Mysql.stored [job.id] job.leaseToken observedAt until_)
      rw [moved] at counted
      apply extendsOwn_of_answer
      change (Mysql.extendJobLeases [job.id] job.leaseToken observedAt until_ table).1 = _
      rw [Mysql.extendJobLeases, checked_eq_of_ok _ others]
      simp only [leaseSelection, Bool.and_assoc]
      exact counted
    | sqlite =>
      apply extendsOwn_of_answer
      change (Sqlite.extendJobLeases [job.id] job.leaseToken observedAt until_ table).1 = _
      rw [Sqlite.extendJobLeases, checked_eq_of_ok _ others]
      exact affecting_own member (leased job.leaseToken (Sqlite.stored observedAt)) _

end Extension

/-! ## Agreement -/

/-- The rows of a claim, as the group announces them: none, or as many as the
limit and the available rows allow, beginning with the oldest. -/
def CapabilityQueueStats.Announces (group : CapabilityQueueStats) (limit : Int) :
    Except OutboxError (List Job) → Prop
  | .error error => group.available = 0 ∧ error = .leaf .errNoJobs
  | .ok jobs => (jobs.length : Int) = min limit group.available ∧
      jobs.head?.map Job.availableAt = some group.oldestAvailableAt

/-- A row that is neither available nor processing: it is not under a live lease
and scheduled later. -/
def scheduled (now : Int) (job : Job) : Bool :=
  !live now job && decide (now < job.availableAt)

structure GroupAgrees (backend : Backend) (table : JobsTable) (observedAt : Int)
    (group : CapabilityQueueStats) : Prop where
  /-- Without available rows there is no oldest one. -/
  idle : group.available = 0 → group.oldestAvailableAt = 0
  claimed : ∀ (view : View) (until_ limit : Int) (token : LeaseToken), view.Undisturbed table →
    token ≠ .nil → 1 ≤ limit → limit ≤ maxReservationBatchSize →
    (∀ job ∈ claimSelection (backend.stored observedAt) [group.capability] limit table,
      backend.counts job = true) →
    group.Announces limit (backend.findAndReserveJobsForCapabilities view observedAt until_ token
      [group.capability] limit table).1
  extended : ∀ until_ : Int,
    (backend = .mysql → ∀ job ∈ table.rows, job.reservedAt ≠ some (backend.stored until_)) →
    group.processing = ((table.rows.filter (hasCapability group.capability)).filter
      (backend.extendsOwn observedAt until_ table)).length
  disjoint : ∀ job ∈ table.rows, ready (backend.stored observedAt) job = true →
    processing (backend.stored observedAt) job = false
  remainder : group.total - group.available - group.processing =
    ((table.rows.filter (hasCapability group.capability)).filter
      (scheduled (backend.stored observedAt))).length

theorem live_eq_false_of_ready {now : Int} {job : Job} (isReady : ready now job = true) :
    live now job = false := by
  cases reserved : job.reservedAt with
  | none => simp [live, reserved]
  | some deadline => simp_all [live, ready]

/-- A row is available, processing or scheduled, and only one of them. -/
theorem Countable.once {job : Job} (countable : Countable job) (now : Int) :
    (if ready now job then 1 else 0) + (if processing now job then 1 else 0) +
      (if scheduled now job then 1 else 0) = 1 := by
  have lease := countable.lease_iff
  cases reserved : job.reservedAt with
  | none =>
    have unleased := lease.mp reserved
    by_cases due : job.availableAt ≤ now <;>
      simp [ready, processing, scheduled, live, reserved, unleased, due]
  | some deadline =>
    have leasedRow : job.leaseToken ≠ .nil := fun nil => by
      rw [lease.mpr nil] at reserved
      cases reserved
    by_cases expired : deadline ≤ now
    · by_cases due : job.availableAt ≤ now
      · simp [ready, processing, scheduled, live, reserved, expired, due, not_lt.mpr expired,
          not_lt.mpr due]
      · simp [ready, processing, scheduled, live, reserved, expired, due, not_le.mp due]
    · simp [ready, processing, scheduled, live, reserved, leasedRow, expired, not_le.mp expired]

theorem length_eq_parts (now : Int) {rows : List Job}
    (countable : ∀ job ∈ rows, Countable job) :
    rows.length = (rows.filter (ready now)).length + (rows.filter (processing now)).length +
      (rows.filter (scheduled now)).length := by
  induction rows with
  | nil => rfl
  | cons job rest ih =>
    have rest_eq := ih fun other member => countable other (List.mem_cons_of_mem job member)
    have once := (countable job List.mem_cons_self).once now
    simp only [← List.countP_eq_length_filter, List.countP_cons, List.length_cons] at rest_eq ⊢
    omega

section Agreement

variable {backend : Backend} {table : JobsTable} {observedAt : Int} {capability : JobCapability}

theorem announces_claim {view : View} {until_ limit : Int} {token : LeaseToken}
    (undisturbed : view.Undisturbed table) (claim : AcceptedClaim token [capability] limit)
    (fits : ∀ job ∈ claimSelection (backend.stored observedAt) [capability] limit table,
      backend.counts job = true) :
    (statsRow (backend.stored observedAt) table.rows capability).group.Announces limit
      (backend.findAndReserveJobsForCapabilities view observedAt until_ token [capability]
        limit table).1 := by
  obtain ⟨deadline, answer⟩ := @Backend.claim_answer backend view observedAt until_ limit token
    [capability] table undisturbed claim fits
  have available : (statsRow (backend.stored observedAt) table.rows capability).available =
      (table.rows.filter (claimable (backend.stored observedAt) [capability])).length := by
    rw [← filter_ready_eq_claimable]
    rfl
  have oldest : (statsRow (backend.stored observedAt) table.rows capability).oldestAvailableAt =
      ((table.rows.filter (claimable (backend.stored observedAt) [capability])).map
        Job.availableAt).min? := by
    rw [← filter_ready_eq_claimable]
    rfl
  have counted := @length_claimSelection (backend.stored observedAt) limit [capability] table
  have positive := claim.positive
  rw [answer]
  cases selected : claimSelection (backend.stored observedAt) [capability] limit table with
  | nil =>
    rw [selected, List.length_nil] at counted
    refine ⟨?_, rfl⟩
    change (statsRow (backend.stored observedAt) table.rows capability).available = 0
    rw [available]
    omega
  | cons first rest =>
    rw [if_neg (List.cons_ne_nil first rest)]
    constructor
    · change (((first :: rest).map (reserveRow deadline token)).length : Int) =
        min limit (statsRow (backend.stored observedAt) table.rows capability).available
      rw [available, List.length_map, ← selected, counted]
      omega
    · change some first.availableAt =
        some ((statsRow (backend.stored observedAt) table.rows capability).oldestAvailableAt.getD
          0)
      rw [oldest, min?_availableAt_eq selected]
      rfl

theorem groupAgrees (countable : ∀ job ∈ table.rows, Countable job) {stored : Job}
    (member : stored ∈ table.rows) :
    GroupAgrees backend table observedAt
      (statsRow (backend.stored observedAt) table.rows (capabilityOf stored)).group := by
  have accepted : ∀ {token : LeaseToken} {limit : Int}, token ≠ .nil → 1 ≤ limit →
      limit ≤ maxReservationBatchSize →
      AcceptedClaim token [capabilityOf stored] limit := by
    intro token limit named positive bounded
    refine ⟨List.nodup_singleton _, fun capability requested => ?_, named, positive, bounded⟩
    rw [List.mem_singleton.mp requested]
    exact JobCapability.validate_eq_ok_iff.mpr (countable stored member).versioned
  have grouped : ∀ job ∈ table.rows.filter (hasCapability (capabilityOf stored)),
      job ∈ table.rows := fun job inside => (List.mem_filter.mp inside).1
  constructor
  · intro none_available
    have empty : (table.rows.filter (hasCapability (capabilityOf stored))).filter
        (ready (backend.stored observedAt)) = [] :=
      List.length_eq_zero_iff.mp (Int.ofNat_eq_zero.mp none_available)
    simp [CapabilityStatsRow.group, statsRow, empty]
  · intro view until_ limit token undisturbed named positive bounded fits
    exact announces_claim undisturbed (accepted named positive bounded) fits
  · intro until_ moves
    refine congrArg (fun rows : List Job => (rows.length : Int)) ?_
    refine List.filter_congr fun job inside => ?_
    exact (backend.extendsOwn_eq_processing (grouped job inside)
      (countable job (grouped job inside)) fun mysql => moves mysql job (grouped job inside)).symm
  · intro job _ isReady
    rw [processing, live_eq_false_of_ready isReady, Bool.false_and]
  · have parts := length_eq_parts (backend.stored observedAt) fun job inside =>
      countable job (grouped job inside)
    have named : (statsRow (backend.stored observedAt) table.rows
        (capabilityOf stored)).group.capability = capabilityOf stored := rfl
    rw [named]
    simp only [CapabilityStatsRow.group, statsRow]
    omega

end Agreement

/-- Over every history of repository calls, whose generated identifiers are not
the zero UUID, and at every instant: the totals of the statistics are the sums
over the groups, there is one group for each capability of an active row, and
every group agrees with the claims and extensions of that instant. -/
theorem queue_stats_agree (backend : Backend) (digest : Digest) (history : List Call)
    (generated : ∀ id ∈ history.flatMap Call.newIDs, id ≠ .nil) (view : View) (observedAt : Int) :
    let table := ((repository backend digest).final .empty history).jobs
    let stats := backend.getQueueStats view observedAt table
    (stats.total = (stats.byCapability.map CapabilityQueueStats.total).sum ∧
      stats.available = (stats.byCapability.map CapabilityQueueStats.available).sum ∧
      stats.processing = (stats.byCapability.map CapabilityQueueStats.processing).sum) ∧
    ((stats.byCapability.map CapabilityQueueStats.capability).Nodup ∧
      ∀ capability, capability ∈ stats.byCapability.map CapabilityQueueStats.capability ↔
        ∃ job ∈ table.rows, hasCapability capability job = true) ∧
    ∀ group ∈ stats.byCapability, GroupAgrees backend table observedAt group := by
  intro table stats
  have counted := history_countable backend digest generated
  obtain ⟨collation, same⟩ : ∃ collation,
      stats = getQueueStats backend.stored collation observedAt table := by
    cases backend with
    | pgsql => exact ⟨view.collation, rfl⟩
    | mysql => exact ⟨bytesLe, rfl⟩
    | sqlite => exact ⟨bytesLe, rfl⟩
  have capabilities := @getQueueStats_capabilities backend.stored collation observedAt table
  rw [same]
  refine ⟨getQueueStats_totals, ⟨?_, fun capability => ?_⟩, fun group member => ?_⟩
  · exact capabilities.nodup_iff.mpr (List.nodup_dedup _)
  · rw [capabilities.mem_iff, List.mem_dedup, List.mem_map]
    refine exists_congr fun job => and_congr_right fun _ => ?_
    exact eq_comm.trans hasCapability_iff.symm
  · obtain ⟨job, stored, rfl⟩ := exists_of_mem_byCapability member
    exact groupAgrees counted stored

namespace Sample

/-- A put of a job that is available from the given instant. -/
def mail (uuid : BitVec 128) (availableAt : Int) : Call :=
  .createJobVersioned ⟨uuid⟩ 0 ⟨bytes "mail", 1, [], availableAt⟩

/-- A session that meets no other. -/
def alone : View where
  attached := false
  lockedJobs _ := false
  lockedKeys _ := false
  collation := bytesLe
  snapshots := []

def after (backend : Backend) (history : List Call) : JobsTable :=
  ((repository backend transparentDigest).final .empty history).jobs

def stats (backend : Backend) (observedAt : Int) (history : List Call) :
    List CapabilityQueueStats :=
  (backend.getQueueStats alone observedAt (after backend history)).byCapability

/-- A put, and a claim of its job on MySQL until the end of the first minute. -/
def claimedMail : List Call :=
  [mail 1 0,
    .findAndReserveJobsForCapabilities { alone with snapshots := [after .mysql [mail 1 0]] } 0
      (60 * second) ⟨1⟩ [⟨bytes "mail", 1⟩] 1]

/-- A job whose lease has expired as often as its counter can tell. -/
def worn : Database :=
  (repository .pgsql Pgsql.Sample.digest).final .empty (Pgsql.Sample.reclaims 32767)

end Sample

theorem queue_stats_agree_mail :
    Sample.stats .sqlite second [Sample.mail 1 second, Sample.mail 2 (2 * second)] =
        [⟨bytes "mail", 1, 2, 1, 0, second⟩] ∧
      GroupAgrees .sqlite (Sample.after .sqlite [Sample.mail 1 second, Sample.mail 2 (2 * second)])
        second ⟨bytes "mail", 1, 2, 1, 0, second⟩ := by
  have counted : Sample.stats .sqlite second [Sample.mail 1 second, Sample.mail 2 (2 * second)] =
      [⟨bytes "mail", 1, 2, 1, 0, second⟩] := by decide +kernel
  refine ⟨counted, ?_⟩
  apply (queue_stats_agree .sqlite transparentDigest _ (by decide) Sample.alone second).2.2
  change _ ∈ Sample.stats _ _ _
  rw [counted]
  exact List.mem_singleton_self _

theorem available_reclaimed (round : Nat) :
    (Backend.getQueueStats .pgsql Pgsql.Sample.view (Pgsql.Sample.instant round)
      (Pgsql.Sample.holding (Pgsql.Sample.row round)).jobs).available = 1 := by
  have isReady := Pgsql.Sample.ready_row round
  generalize Pgsql.Sample.row round = job at isReady ⊢
  have own : hasCapability (capabilityOf job) job = true := hasCapability_iff.mpr rfl
  simp [Backend.getQueueStats, getQueueStats, aggregate, Pgsql.Sample.holding, statsRow,
    QueueStats.addRow, isReady, own]

/-- Where the statistics part from the claim: a job scheduled at the zero time is
available and leaves the oldest instant zero; a job whose counter is at the end of its
column is available and cannot be claimed; MySQL does not count an extension to the
stored deadline; and it rounds an observation 400 nanoseconds early up to the
availability of a job. -/
theorem queue_stats_need_provisos :
    Sample.stats .sqlite 0 [Sample.mail 1 0] = [⟨bytes "mail", 1, 1, 1, 0, 0⟩] ∧
    ((Backend.getQueueStats .pgsql Pgsql.Sample.view (Pgsql.Sample.instant 32767)
        Sample.worn.jobs).available = 1 ∧
      ∃ error, ((Pgsql.Sample.claim 32767).run .pgsql Pgsql.Sample.digest Sample.worn).1 =
        .claimed (.error error)) ∧
    (Sample.stats .mysql second Sample.claimedMail = [⟨bytes "mail", 1, 1, 0, 1, 0⟩] ∧
      (Backend.mysql.extendJobLeases [⟨1⟩] ⟨1⟩ second (60 * second)
        (Sample.after .mysql Sample.claimedMail)).1 = .ok 0) ∧
    Sample.stats .mysql (second - 400) [Sample.mail 1 second] =
      [⟨bytes "mail", 1, 1, 1, 0, second⟩] := by
  refine ⟨by decide +kernel, ?_, ⟨by decide +kernel, by decide +kernel⟩, by decide +kernel⟩
  rw [Sample.worn, Pgsql.Sample.final_reclaims (Nat.le_refl _)]
  rw [Pgsql.Sample.run_claim, if_pos (by decide)]
  exact ⟨available_reclaimed 32767, _, rfl⟩

end OutboxFormal.Storage
