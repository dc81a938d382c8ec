import OutboxFormal.Library.Machine
import OutboxFormal.Storage.Claims

/-!
# The repository of a backend as a machine

A backend answers repository calls and moves its database. `View` holds what
other sessions decide about one call: the rows and keys a PostgreSQL statement
skips as locked, the collation of its text columns, the table each MySQL
candidate query sees, and whether the context carries a caller's transaction.
-/

namespace OutboxFormal.Storage

open Library

variable {prepared : List PreparedUniqueBatchPut} {before after : Database}

inductive Backend where
  | pgsql
  | mysql
  | sqlite
  deriving DecidableEq, Repr

/-- The instant a column of the backend stores for a Go time. -/
def Backend.stored : Backend → Int → Int
  | .pgsql => Pgsql.stored
  | .mysql => Mysql.stored
  | .sqlite => Sqlite.stored

def Backend.manager : Backend → Manager
  | .pgsql => .pgx
  | .mysql | .sqlite => .databaseSql

structure View where
  attached : Bool
  lockedJobs : JobID → Bool
  lockedKeys : Bytes → Bool
  collation : Bytes → Bytes → Bool
  snapshots : List JobsTable

/-! ## The operations of a backend -/

namespace Backend

variable (backend : Backend) (view : View)

def createJobVersioned (id : JobID) (createdAt : Int) (content : Content) : RepoCall JobID :=
  match backend with
  | .pgsql => Pgsql.createJobVersioned id createdAt content.name content.schemaVersion
      content.payload content.availableAt
  | .mysql => Mysql.createJobVersioned id createdAt content.name content.schemaVersion
      content.payload content.availableAt
  | .sqlite => Sqlite.createJobVersioned id createdAt content.name content.schemaVersion
      content.payload content.availableAt

def createJobVersionedUniqueResult (digest : Digest) (put : UniqueBatchPut) (id : JobID)
    (createdAt : Int) : DatabaseCall UniquePutResult :=
  match backend with
  | .pgsql => Pgsql.createJobVersionedUniqueResult digest put id createdAt
  | .mysql => Mysql.createJobVersionedUniqueResult digest view.attached put id createdAt
  | .sqlite => Sqlite.createJobVersionedUniqueResult digest view.attached put id createdAt

def createJobVersionedUniqueBatch (digest : Digest) (items : List (UniqueBatchPut × JobID))
    (createdAt : Int) : DatabaseCall (List UniquePutResult) :=
  match backend with
  | .pgsql => Pgsql.createJobVersionedUniqueBatch digest view.attached items createdAt
  | .mysql => Mysql.createJobVersionedUniqueBatch digest view.attached items createdAt
  | .sqlite => Sqlite.createJobVersionedUniqueBatch digest view.attached items createdAt

def findAndReserveJobsForCapabilities (now until_ : Int) (token : LeaseToken)
    (capabilities : List JobCapability) (limit : Int) : RepoCall (List Job) :=
  match backend with
  | .pgsql => Pgsql.findAndReserveJobsForCapabilities view.lockedJobs now until_ token
      capabilities limit
  | .mysql => Mysql.findAndReserveJobsForCapabilities view.snapshots now until_ token
      capabilities limit
  | .sqlite => Sqlite.findAndReserveJobsForCapabilities view.attached now until_ token
      capabilities limit

def findAndReserveJobsForCapabilityBounded (now until_ : Int) (token : LeaseToken)
    (capability : JobCapability) (maxMessages maxBytes : Int) : RepoCall (List Job) :=
  match backend with
  | .pgsql => Pgsql.findAndReserveJobsForCapabilityBounded view.lockedJobs now until_ token
      capability maxMessages maxBytes
  | .mysql => Mysql.findAndReserveJobsForCapabilityBounded view.snapshots now until_ token
      capability maxMessages maxBytes
  | .sqlite => Sqlite.findAndReserveJobsForCapabilityBounded view.attached now until_ token
      capability maxMessages maxBytes

def extendJobLeases (ids : List JobID) (token : LeaseToken) (now until_ : Int) :
    RepoCall Int :=
  match backend with
  | .pgsql => Pgsql.extendJobLeases ids token now until_
  | .mysql => Mysql.extendJobLeases ids token now until_
  | .sqlite => Sqlite.extendJobLeases ids token now until_

def releaseUnstartedJobsWithLease (ids : List JobID) (token : LeaseToken) (now : Int) :
    RepoCall Int :=
  match backend with
  | .pgsql => Pgsql.releaseUnstartedJobsWithLease ids token now
  | .mysql => Mysql.releaseUnstartedJobsWithLease ids token now
  | .sqlite => Sqlite.releaseUnstartedJobsWithLease ids token now

def applyBatchJobOutcomes (attached : Bool) (token : LeaseToken) (now : Int)
    (outcomes : List BatchJobOutcome) : RepoCall Int :=
  match backend with
  | .pgsql => Pgsql.applyBatchJobOutcomes attached token now outcomes
  | .mysql => Mysql.applyBatchJobOutcomes attached token now outcomes
  | .sqlite => Sqlite.applyBatchJobOutcomes attached token now outcomes

def deferJobWithLease (attached : Bool) (id : JobID) (token : LeaseToken)
    (now availableAt : Int) : RepoCall Int :=
  match backend with
  | .pgsql => Pgsql.deferJobWithLease attached id token now availableAt
  | .mysql => Mysql.deferJobWithLease attached id token now availableAt
  | .sqlite => Sqlite.deferJobWithLease attached id token now availableAt

def deleteJobWithLease (id : JobID) (token : LeaseToken) (now : Int) : RepoCall Int :=
  match backend with
  | .pgsql => Pgsql.deleteJobWithLease id token now
  | .mysql => Mysql.deleteJobWithLease id token now
  | .sqlite => Sqlite.deleteJobWithLease id token now

def rescheduleJobWithLease (id : JobID) (token : LeaseToken) (now availableAt : Int) :
    RepoCall Int :=
  match backend with
  | .pgsql => Pgsql.rescheduleJobWithLease id token now availableAt
  | .mysql => Mysql.rescheduleJobWithLease id token now availableAt
  | .sqlite => Sqlite.rescheduleJobWithLease id token now availableAt

/-- Only PostgreSQL reads the clock twice. -/
def createFailedJobVersioned (id jobID : JobID) (name : Bytes) (schemaVersion : Int)
    (payload : Bytes) (reason : String) (failedAt createdAt : Int) : DatabaseCall JobID :=
  match backend with
  | .pgsql => Pgsql.createFailedJobVersioned id jobID name schemaVersion payload reason
      failedAt createdAt
  | .mysql => Mysql.createFailedJobVersioned id jobID name schemaVersion payload reason failedAt
  | .sqlite => Sqlite.createFailedJobVersioned id jobID name schemaVersion payload reason failedAt

def pruneJobIdempotencyKeys (before : Int) (limit : Int) : DatabaseCall Int :=
  match backend with
  | .pgsql => Pgsql.pruneJobIdempotencyKeys view.collation view.lockedKeys before limit
  | .mysql => Mysql.pruneJobIdempotencyKeys before limit
  | .sqlite => Sqlite.pruneJobIdempotencyKeys before limit

end Backend

/-! ## Calls -/

/-- A repository call with its arguments and generated identifiers. -/
inductive Call where
  | createJobVersioned (id : JobID) (createdAt : Int) (content : Content)
  | createJobVersionedUniqueResult (view : View) (put : UniqueBatchPut) (id : JobID)
      (createdAt : Int)
  | createJobVersionedUniqueBatch (view : View) (items : List (UniqueBatchPut × JobID))
      (createdAt : Int)
  | findAndReserveJobsForCapabilities (view : View) (now until_ : Int) (token : LeaseToken)
      (capabilities : List JobCapability) (limit : Int)
  | findAndReserveJobsForCapabilityBounded (view : View) (now until_ : Int)
      (token : LeaseToken) (capability : JobCapability) (maxMessages maxBytes : Int)
  | extendJobLeases (ids : List JobID) (token : LeaseToken) (now until_ : Int)
  | releaseUnstartedJobsWithLease (ids : List JobID) (token : LeaseToken) (now : Int)
  | applyBatchJobOutcomes (attached : Bool) (token : LeaseToken) (now : Int)
      (outcomes : List BatchJobOutcome)
  | deferJobWithLease (attached : Bool) (id : JobID) (token : LeaseToken)
      (now availableAt : Int)
  | deleteJobWithLease (id : JobID) (token : LeaseToken) (now : Int)
  | rescheduleJobWithLease (id : JobID) (token : LeaseToken) (now availableAt : Int)
  | createFailedJobVersioned (id jobID : JobID) (name : Bytes) (schemaVersion : Int)
      (payload : Bytes) (reason : String) (failedAt createdAt : Int)
  | pruneJobIdempotencyKeys (view : View) (before : Int) (limit : Int)

inductive Answer where
  | created (result : Except OutboxError JobID)
  | put (result : Except OutboxError UniquePutResult)
  | puts (result : Except OutboxError (List UniquePutResult))
  | claimed (result : Except OutboxError (List Job))
  | affected (result : Except OutboxError Int)

def answering {α : Type} (wrap : Except OutboxError α → Answer) (call : DatabaseCall α)
    (database : Database) : Answer × Database :=
  (wrap (call database).1, (call database).2)

def Call.run (backend : Backend) (digest : Digest) : Call → Database → Answer × Database
  | .createJobVersioned id createdAt content =>
    answering .created (onJobs (backend.createJobVersioned id createdAt content))
  | .createJobVersionedUniqueResult view put id createdAt =>
    answering .put (backend.createJobVersionedUniqueResult view digest put id createdAt)
  | .createJobVersionedUniqueBatch view items createdAt =>
    answering .puts (backend.createJobVersionedUniqueBatch view digest items createdAt)
  | .findAndReserveJobsForCapabilities view now until_ token capabilities limit =>
    answering .claimed (onJobs
      (backend.findAndReserveJobsForCapabilities view now until_ token capabilities limit))
  | .findAndReserveJobsForCapabilityBounded view now until_ token capability maxMessages
      maxBytes =>
      answering .claimed (onJobs
        (backend.findAndReserveJobsForCapabilityBounded view now until_ token capability
          maxMessages maxBytes))
  | .extendJobLeases ids token now until_ =>
    answering .affected (onJobs (backend.extendJobLeases ids token now until_))
  | .releaseUnstartedJobsWithLease ids token now =>
    answering .affected (onJobs (backend.releaseUnstartedJobsWithLease ids token now))
  | .applyBatchJobOutcomes attached token now outcomes =>
    answering .affected (onJobs (backend.applyBatchJobOutcomes attached token now outcomes))
  | .deferJobWithLease attached id token now availableAt =>
    answering .affected (onJobs (backend.deferJobWithLease attached id token now availableAt))
  | .deleteJobWithLease id token now =>
    answering .affected (onJobs (backend.deleteJobWithLease id token now))
  | .rescheduleJobWithLease id token now availableAt =>
    answering .affected (onJobs (backend.rescheduleJobWithLease id token now availableAt))
  | .createFailedJobVersioned id jobID name schemaVersion payload reason failedAt createdAt =>
    answering .created (backend.createFailedJobVersioned id jobID name schemaVersion payload
      reason failedAt createdAt)
  | .pruneJobIdempotencyKeys view before limit =>
    answering .affected (backend.pruneJobIdempotencyKeys view before limit)

def repository (backend : Backend) (digest : Digest) : Machine Database Call Answer where
  step call database := call.run backend digest database

/-! ## Events of a call -/

def insertEvents (rows : List Job) (id : JobID) (event : RowEvent) : Prop :=
  event = .kept ∨ ∃ job, (job ∈ rows ∧ job.id = id) ∧ event = .inserted job

/-- The rows a claim answered with; other calls claim nothing. -/
def Answer.claim : Answer → Except OutboxError (List Job)
  | .claimed result => result
  | _ => .ok []

def ordinaryRow (stored : Int → Int) (id : JobID) (createdAt : Int) (content : Content) : Job :=
  newJob id none content.name content.schemaVersion content.payload
    (stored content.availableAt) (stored createdAt)

def Call.events (stored : Int → Int) (digest : Digest) (call : Call) (answer : Answer) :
    JobID → RowEvent → Prop :=
  match call with
  | .createJobVersioned id createdAt content =>
    insertEvents [ordinaryRow stored id createdAt content]
  | .createJobVersionedUniqueResult _ put id createdAt =>
    insertEvents ((prepareUniqueBatchPuts digest [(put, id)] createdAt).map
      (PreparedUniqueBatchPut.jobRow stored))
  | .createJobVersionedUniqueBatch _ items createdAt =>
    insertEvents ((prepareUniqueBatchPuts digest items createdAt).map
      (PreparedUniqueBatchPut.jobRow stored))
  | .findAndReserveJobsForCapabilities _ now until_ token _ _ =>
    claimEvents token now until_ answer.claim
  | .findAndReserveJobsForCapabilityBounded _ now until_ token _ _ _ =>
    claimEvents token now until_ answer.claim
  | .extendJobLeases ids token now until_ => extendEvents ids token now until_
  | .releaseUnstartedJobsWithLease ids token now => releaseEvents ids token now
  | .applyBatchJobOutcomes _ token now outcomes => outcomeEvents token now outcomes
  | .deferJobWithLease _ id token now availableAt =>
    outcomeEvents token now [{ jobID := id, kind := .defer, availableAt := availableAt }]
  | .deleteJobWithLease id token now => deleteEvents id token now
  | .rescheduleJobWithLease id token now availableAt => rescheduleEvents id token now availableAt
  | .createFailedJobVersioned .. | .pruneJobIdempotencyKeys .. => fun _ event => event = .kept

/-! ## Insertions -/

theorem newJob_isNew (id : JobID) (key : Option Bytes) (name : Bytes) (schemaVersion : Int)
    (payload : Bytes) (availableAt createdAt : Int) :
    IsNew (newJob id key name schemaVersion payload availableAt createdAt) := ⟨rfl, rfl, rfl⟩

section Insertions

variable {stored : Int → Int}

theorem insertJob_rowStep {job : Job} {table after : JobsTable} (isNew : IsNew job)
    (inserted : insertJob job table = some after) (id : JobID) :
    ∃ event, insertEvents [job] id event ∧
      RowStep stored event (table.get? id) (after.get? id) := by
  obtain ⟨_, hfresh, hrows⟩ := insertJob_eq_some_iff.mp inserted
  rw [Table.get?_insert (Table.insert?_eq_some_iff.mpr ⟨hfresh, hrows⟩)]
  split
  · rename_i same
    have absent : table.get? id = none := Table.get?_eq_none_iff.mpr fun row hrow hid =>
      hfresh (List.mem_map.mpr ⟨row, hrow, hid.trans same.symm⟩)
    rw [absent]
    exact ⟨.inserted job, Or.inr ⟨job, ⟨List.mem_singleton_self job, same⟩, rfl⟩, .inserted isNew⟩
  · exact ⟨.kept, Or.inl rfl, .kept _⟩

theorem rowSpec_insert {job : Job} {id : JobID} {error : OutboxError} (isNew : IsNew job) :
    RowSpec stored (fun (_ : Except OutboxError JobID) => insertEvents [job])
      (fun table => match insertJob job table with
        | none => (.error error, table)
        | some after => (.ok id, after)) := by
  intro table wanted
  cases hinsert : insertJob job table with
  | none => exact ⟨.kept, Or.inl rfl, by simpa [hinsert] using RowStep.kept _⟩
  | some after => simpa [hinsert] using insertJob_rowStep isNew hinsert wanted

theorem insertJobs_rowStep {jobs : List Job} {table after : JobsTable}
    (isNew : ∀ job ∈ jobs, IsNew job) (inserted : insertJobs jobs table = some after)
    (id : JobID) :
    ∃ event, insertEvents jobs id event ∧
      RowStep stored event (table.get? id) (after.get? id) := by
  induction jobs generalizing table with
  | nil =>
    cases inserted
    exact ⟨.kept, Or.inl rfl, .kept _⟩
  | cons job rest ih =>
    obtain ⟨middle, hfirst, hrest⟩ := Option.bind_eq_some_iff.mp inserted
    obtain ⟨first, hfirstEvent, hfirstStep⟩ :=
      @insertJob_rowStep stored job table middle (isNew job List.mem_cons_self) hfirst id
    obtain ⟨second, hsecondEvent, hsecondStep⟩ :=
      ih (fun other hother => isNew other (List.mem_cons_of_mem job hother)) hrest
    rcases hfirstEvent with rfl | ⟨row, ⟨hrow, hid⟩, rfl⟩
    · rw [hfirstStep.eq_of_kept] at hsecondStep
      refine ⟨second, hsecondEvent.imp_right ?_, hsecondStep⟩
      rintro ⟨row, ⟨hrow, hid⟩, hsecond⟩
      exact ⟨row, ⟨List.mem_cons_of_mem job hrow, hid⟩, hsecond⟩
    · obtain ⟨habsent, hstored, isNewRow⟩ := hfirstStep.of_inserted
      rcases hsecondEvent with rfl | ⟨_, _, rfl⟩
      · rw [hsecondStep.eq_of_kept, habsent, hstored]
        exact ⟨.inserted row,
          Or.inr ⟨row, ⟨List.mem_cons.mpr (Or.inl (List.mem_singleton.mp hrow)), hid⟩, rfl⟩,
          .inserted isNewRow⟩
      · -- A row that was just inserted cannot be inserted again.
        rw [hstored] at hsecondStep
        cases hsecondStep.of_inserted.1

end Insertions

/-! ## Job rows staged by unique puts -/

/-- The jobs table grew by the rows of some of the prepared items. -/
def Stages (stored : Int → Int) (prepared : List PreparedUniqueBatchPut)
    (before after : Database) : Prop :=
  ∃ items : List PreparedUniqueBatchPut, (∀ item ∈ items, item ∈ prepared) ∧
    insertJobs (items.map (PreparedUniqueBatchPut.jobRow stored)) before.jobs = some after.jobs

theorem Stages.nothing {stored : Int → Int} (same : after.jobs = before.jobs) :
    Stages stored prepared before after :=
  ⟨[], by simp, by rw [same]; rfl⟩

theorem Stages.one {stored : Int → Int} {item : PreparedUniqueBatchPut} {jobs : JobsTable}
    (inserted : insertJob (item.jobRow stored) before.jobs = some jobs) (same : after.jobs = jobs) :
    Stages stored [item] before after :=
  ⟨[item], fun _ member => member, by simp [insertJobs, inserted, same]⟩

theorem Stages.rowStep {stored : Int → Int} (stages : Stages stored prepared before after)
    (id : JobID) :
    ∃ event, insertEvents (prepared.map (PreparedUniqueBatchPut.jobRow stored)) id event ∧
      RowStep stored event (before.jobs.get? id) (after.jobs.get? id) := by
  obtain ⟨items, within, inserted⟩ := stages
  obtain ⟨event, hevent, hstep⟩ := @insertJobs_rowStep stored _ _ _
    (fun job hjob => by
      obtain ⟨item, _, rfl⟩ := List.mem_map.mp hjob
      exact newJob_isNew ..) inserted id
  refine ⟨event, hevent.imp_right ?_, hstep⟩
  rintro ⟨job, ⟨hjob, hid⟩, hinserted⟩
  obtain ⟨item, hitem, hrow⟩ := List.mem_map.mp hjob
  exact ⟨job, ⟨List.mem_map.mpr ⟨item, within item hitem, hrow⟩, hid⟩, hinserted⟩

namespace Pgsql

theorem stageUnique_stages (item : PreparedUniqueBatchPut) (database : Database) :
    Stages stored [item] database (stageUnique item database).2 := by
  simp only [stageUnique]
  repeat' split
  all_goals first | exact .nothing rfl | exact .one (by assumption) rfl

theorem stageUniqueBatch_stages (prepared : List PreparedUniqueBatchPut)
    (database : Database) :
    Stages stored prepared database (stageUniqueBatch prepared database).2 := by
  simp only [stageUniqueBatch]
  split
  · exact .nothing rfl
  · rename_i keys hkeys
    split
    · exact .nothing rfl
    · rename_i jobs inserted
      have within : ∀ item ∈ createdItems keys prepared, item ∈ prepared :=
        fun item hitem => (List.mem_filter.mp hitem).1
      split <;> exact ⟨_, within, inserted⟩

end Pgsql

namespace DatabaseSql

theorem uniqueBatchResults_created {keys : IdempotencyTable} {created : List PreparedUniqueBatchPut}
    {results : List UniquePutResult}
    (checked : uniqueBatchResults keys prepared = .ok (results, created)) :
    ∀ item ∈ created, item ∈ prepared := by
  induction prepared generalizing results created with
  | nil =>
    cases checked
    exact fun _ member => member
  | cons item rest ih =>
    simp only [uniqueBatchResults] at checked
    split at checked
    · cases checked
    split at checked
    · cases checked
    split at checked
    · cases checked
    · rename_i restResults restCreated hrest
      cases checked
      intro other hother
      split at hother
      · rcases List.mem_cons.mp hother with rfl | htail
        · exact List.mem_cons_self
        · exact List.mem_cons_of_mem item (ih hrest other htail)
      · exact List.mem_cons_of_mem item (ih hrest other hother)

theorem stageUniqueBatch_stages (stored : Int → Int)
    (register : List IdempotencyKey → IdempotencyTable → Option IdempotencyTable)
    (prepared : List PreparedUniqueBatchPut) (database : Database) :
    Stages stored prepared database (stageUniqueBatch stored register prepared database).2 := by
  simp only [stageUniqueBatch]
  split
  · exact .nothing rfl
  split
  · exact .nothing rfl
  · rename_i hchecked
    split
    · exact .nothing rfl
    · rename_i jobs inserted
      exact ⟨_, uniqueBatchResults_created hchecked, inserted⟩

end DatabaseSql

theorem Mysql.createJobVersionedUnique_stages (item : PreparedUniqueBatchPut)
    (database : Database) :
    Stages Mysql.stored [item] database (Mysql.createJobVersionedUnique item database).2 := by
  simp only [Mysql.createJobVersionedUnique]
  repeat' split
  all_goals first | exact .nothing rfl | exact .one (by assumption) rfl

theorem Sqlite.createJobVersionedUnique_stages (item : PreparedUniqueBatchPut)
    (database : Database) :
    Stages Sqlite.stored [item] database (Sqlite.createJobVersionedUnique item database).2 := by
  simp only [Sqlite.createJobVersionedUnique]
  repeat' split
  all_goals first | exact .nothing rfl | exact .one (by assumption) rfl

/-! ## Every call -/

section Backends

variable (backend : Backend) (view : View) (digest : Digest)

theorem Backend.rowSpec_createJobVersioned (id : JobID) (createdAt : Int) (content : Content) :
    RowSpec backend.stored
      (fun _ => insertEvents [ordinaryRow backend.stored id createdAt content])
      (backend.createJobVersioned id createdAt content) := by
  cases backend <;>
    exact rowSpec_checked (fun _ _ => Or.inl rfl) fun _ => rowSpec_insert (newJob_isNew ..)

theorem Backend.rowSpec_findAndReserveJobsForCapabilities (now until_ : Int)
    (token : LeaseToken) (capabilities : List JobCapability) (limit : Int) :
    RowSpec backend.stored (claimEvents token now until_)
      (backend.findAndReserveJobsForCapabilities view now until_ token capabilities limit) := by
  cases backend with
  | pgsql => exact Pgsql.rowSpec_findAndReserveJobsForCapabilities
  | mysql => exact Mysql.rowSpec_findAndReserveJobsForCapabilities
  | sqlite => exact Sqlite.rowSpec_findAndReserveJobsForCapabilities

theorem Backend.rowSpec_findAndReserveJobsForCapabilityBounded (now until_ : Int)
    (token : LeaseToken) (capability : JobCapability) (maxMessages maxBytes : Int) :
    RowSpec backend.stored (claimEvents token now until_)
      (backend.findAndReserveJobsForCapabilityBounded view now until_ token capability
        maxMessages maxBytes) := by
  cases backend with
  | pgsql => exact Pgsql.rowSpec_findAndReserveJobsForCapabilityBounded
  | mysql => exact Mysql.rowSpec_findAndReserveJobsForCapabilityBounded
  | sqlite => exact Sqlite.rowSpec_findAndReserveJobsForCapabilityBounded

theorem Pgsql.validateBatchLeaseRequest_token {ids : List JobID} {token : LeaseToken}
    (accepted : Pgsql.validateBatchLeaseRequest ids token = .ok ()) : token ≠ .nil := by
  unfold Pgsql.validateBatchLeaseRequest at accepted
  cases htoken : token.validate with
  | error error =>
    rw [htoken] at accepted
    cases accepted
  | ok _ => exact LeaseToken.validate_eq_ok_iff.mp htoken

theorem Backend.rowSpec_extendJobLeases (ids : List JobID) (token : LeaseToken)
    (now until_ : Int) :
    RowSpec backend.stored (fun _ => extendEvents ids token now until_)
      (backend.extendJobLeases ids token now until_) := by
  cases backend with
  | pgsql =>
    exact rowSpec_checked (fun _ _ => Or.inl rfl) fun passed =>
      rowSpec_extend (Pgsql.validateBatchLeaseRequest_token (Pgsql.withOp_eq_ok passed))
  | mysql | sqlite =>
    exact rowSpec_checked (fun _ _ => Or.inl rfl) fun passed =>
      rowSpec_extend (DatabaseSql.validateBatchLease_token passed)

theorem Backend.rowSpec_releaseUnstartedJobsWithLease (ids : List JobID) (token : LeaseToken)
    (now : Int) :
    RowSpec backend.stored (fun _ => releaseEvents ids token now)
      (backend.releaseUnstartedJobsWithLease ids token now) := by
  cases backend with
  | pgsql =>
    exact rowSpec_checked (fun _ _ => Or.inl rfl) fun passed =>
      rowSpec_release (Pgsql.validateBatchLeaseRequest_token (Pgsql.withOp_eq_ok passed))
  | mysql | sqlite =>
    exact rowSpec_checked (fun _ _ => Or.inl rfl) fun passed =>
      rowSpec_release (DatabaseSql.validateBatchLease_token passed)

theorem Backend.rowSpec_deleteJobWithLease (id : JobID) (token : LeaseToken) (now : Int) :
    RowSpec backend.stored (fun _ => deleteEvents id token now)
      (backend.deleteJobWithLease id token now) := by
  cases backend with
  | pgsql =>
    exact rowSpec_checked (fun _ _ => Or.inl rfl) fun passed =>
      rowSpec_delete (validateSingle_eq_ok_iff.mp (Pgsql.withOp_eq_ok passed)).2
  | mysql | sqlite =>
    exact rowSpec_checked (fun _ _ => Or.inl rfl) fun passed =>
      rowSpec_delete (validateSingle_eq_ok_iff.mp passed).2

theorem Backend.rowSpec_rescheduleJobWithLease (id : JobID) (token : LeaseToken)
    (now availableAt : Int) :
    RowSpec backend.stored (fun _ => rescheduleEvents id token now availableAt)
      (backend.rescheduleJobWithLease id token now availableAt) := by
  cases backend with
  | pgsql =>
    exact rowSpec_checked (fun _ _ => Or.inl rfl) fun passed =>
      rowSpec_reschedule (validateSingle_eq_ok_iff.mp (Pgsql.withOp_eq_ok passed)).2
  | mysql | sqlite =>
    exact rowSpec_checked (fun _ _ => Or.inl rfl) fun passed =>
      rowSpec_reschedule (validateSingle_eq_ok_iff.mp passed).2

/-- The wrapping of a transaction's error does not touch the table. -/
theorem transaction_table {manager : Manager} {attached : Bool} {callback : RepoCall Int}
    {wrap : OutboxError → OutboxError} (table : JobsTable) :
    (match manager.runReturning attached callback table with
      | (.error error, after) => ((.error (wrap error) : Except OutboxError Int), after)
      | (.ok affected, after) => (.ok affected, after)).2 =
      (manager.runReturning attached callback table).2 := by
  rcases manager.runReturning attached callback table with ⟨answer, after⟩
  cases answer <;> rfl

theorem Backend.rowSpec_applyBatchJobOutcomes (attached : Bool) (token : LeaseToken)
    (now : Int) (outcomes : List BatchJobOutcome) :
    RowSpec backend.stored (fun _ => outcomeEvents token now outcomes)
      (backend.applyBatchJobOutcomes attached token now outcomes) := by
  have inTransaction : ∀ (manager : Manager) (stored : Int → Int) (callback : RepoCall Int)
      (wrap : OutboxError → OutboxError),
      RowSpec stored (fun _ => outcomeEvents token now outcomes) callback →
      RowSpec stored (fun _ => outcomeEvents token now outcomes) (fun table =>
        match manager.runReturning attached callback table with
        | (.error error, after) => (.error (wrap error), after)
        | (.ok affected, after) => (.ok affected, after)) := by
    intro manager stored callback wrap inner
    refine rowSpec_transaction (fun _ => Or.inl rfl) (fun table => ?_) inner
    rw [transaction_table]
    exact runReturning_state manager attached callback table
  cases backend with
  | pgsql =>
    exact rowSpec_checked (fun _ _ => Or.inl rfl) fun passed => inTransaction _ _ _ _
      (Pgsql.rowSpec_applyOutcomes (validateOutcomes_eq_ok_iff.mp passed))
  | mysql =>
    exact rowSpec_checked (fun _ _ => Or.inl rfl) fun passed => inTransaction _ _ _ _
      (DatabaseSql.rowSpec_applyOutcomes Mysql.reads (validateOutcomes_eq_ok_iff.mp passed))
  | sqlite =>
    exact rowSpec_checked (fun _ _ => Or.inl rfl) fun passed => inTransaction _ _ _ _
      (DatabaseSql.rowSpec_applyOutcomes Sqlite.reads (validateOutcomes_eq_ok_iff.mp passed))

theorem Backend.deferJobWithLease_eq (attached : Bool) (id : JobID) (token : LeaseToken)
    (now availableAt : Int) :
    backend.deferJobWithLease attached id token now availableAt =
      backend.applyBatchJobOutcomes attached token now
        [{ jobID := id, kind := .defer, availableAt := availableAt }] := by
  cases backend <;> rfl

theorem checkedCall_cases {α : Type} (check : Except OutboxError Unit) (call : DatabaseCall α)
    (database : Database) :
    (checkedCall check call database).2 = database ∨
      check = .ok () ∧ checkedCall check call database = call database := by
  cases check with
  | error error => exact Or.inl rfl
  | ok _ => exact Or.inr ⟨rfl, rfl⟩

theorem stages_checkedCall {α : Type} {stored : Int → Int} {check : Except OutboxError Unit}
    {call : DatabaseCall α} {database : Database}
    (stages : Stages stored prepared database (call database).2) :
    Stages stored prepared database (checkedCall check call database).2 := by
  rcases checkedCall_cases check call database with same | ⟨_, same⟩
  · exact .nothing (congrArg Database.jobs same)
  · rwa [same]

theorem Backend.stages_createJobVersionedUniqueResult (put : UniqueBatchPut) (id : JobID)
    (createdAt : Int) (database : Database) :
    Stages backend.stored (prepareUniqueBatchPuts digest [(put, id)] createdAt) database
      (backend.createJobVersionedUniqueResult view digest put id createdAt database).2 := by
  cases backend with
  | pgsql => exact stages_checkedCall (Pgsql.stageUnique_stages _ database)
  | mysql =>
    have staged := Mysql.createJobVersionedUnique_stages
      ⟨put, id, jobFingerprint digest put.content, createdAt⟩ database
    refine stages_checkedCall ?_
    dsimp only
    split
    · exact staged
    · split
      · exact .nothing rfl
      · rename_i hanswer
        rwa [hanswer] at staged
  | sqlite =>
    have staged := Sqlite.createJobVersionedUnique_stages
      ⟨put, id, jobFingerprint digest put.content, createdAt⟩ database
    refine stages_checkedCall ?_
    dsimp only [Sqlite.withImmediateTransaction]
    split
    · exact staged
    · split
      · rename_i hanswer
        rwa [hanswer] at staged
      · exact .nothing rfl

theorem stages_transaction {stored : Int → Int} {manager : Manager} {attached : Bool}
    {callback : DatabaseCall (List UniquePutResult)} {wrap : OutboxError → OutboxError}
    {database : Database} (stages : Stages stored prepared database (callback database).2) :
    Stages stored prepared database
      (match manager.runReturning attached callback database with
        | (.error error, after) =>
          ((.error (wrap error) : Except OutboxError (List UniquePutResult)), after)
        | (.ok results, after) => (.ok results, after)).2 := by
  have state := runReturning_state manager attached callback database
  have staged : Stages stored prepared database
      (manager.runReturning attached callback database).2 := by
    rcases state with undone | kept
    · exact .nothing (congrArg Database.jobs undone)
    · rw [kept]
      exact stages
  rcases hrun : manager.runReturning attached callback database with ⟨answer, after⟩
  rw [hrun] at staged
  cases answer <;> exact staged

theorem Backend.stages_createJobVersionedUniqueBatch (items : List (UniqueBatchPut × JobID))
    (createdAt : Int) (database : Database) :
    Stages backend.stored (prepareUniqueBatchPuts digest items createdAt) database
      (backend.createJobVersionedUniqueBatch view digest items createdAt database).2 := by
  cases backend with
  | pgsql =>
    exact stages_checkedCall (stages_transaction (Pgsql.stageUniqueBatch_stages _ database))
  | mysql | sqlite =>
    exact stages_checkedCall
      (stages_transaction (DatabaseSql.stageUniqueBatch_stages _ _ _ database))

theorem Backend.createFailedJobVersioned_jobs (id jobID : JobID) (name : Bytes)
    (schemaVersion : Int) (payload : Bytes) (reason : String) (failedAt createdAt : Int)
    (database : Database) :
    (backend.createFailedJobVersioned id jobID name schemaVersion payload reason failedAt
      createdAt database).2.jobs = database.jobs := by
  have insertion : ∀ (refused : OutboxError) (stored : Int → Int) (createdAt : Int),
      (Storage.createFailedJobVersioned refused stored id jobID name schemaVersion payload
        reason failedAt createdAt database).2.jobs = database.jobs := by
    intro refused stored createdAt
    rcases checkedCall_cases _ _ database with same | ⟨_, same⟩
    · exact congrArg Database.jobs same
    · unfold Storage.createFailedJobVersioned
      rw [same]
      split <;> rfl
  cases backend <;> exact insertion _ _ _

theorem Backend.pruneJobIdempotencyKeys_jobs (before : Int) (limit : Int)
    (database : Database) :
    (backend.pruneJobIdempotencyKeys view before limit database).2.jobs = database.jobs := by
  have pruning : ∀ (context : String) (stored : Int → Int) (collation : Bytes → Bytes → Bool)
      (locked : Bytes → Bool),
      (Storage.pruneJobIdempotencyKeys context stored collation locked before limit
        database).2.jobs = database.jobs := by
    intro context stored collation locked
    unfold Storage.pruneJobIdempotencyKeys
    split <;> rfl
  cases backend <;> exact pruning _ _ _ _

theorem Call.run_row (call : Call) (database : Database) (id : JobID) :
    ∃ event, call.events backend.stored digest (call.run backend digest database).1 id event ∧
      RowStep backend.stored event (database.jobs.get? id)
        ((call.run backend digest database).2.jobs.get? id) := by
  have kept : ∀ {after : Database}, after.jobs = database.jobs → ∃ event, event = .kept ∧
      RowStep backend.stored event (database.jobs.get? id) (after.jobs.get? id) :=
    fun same => ⟨_, rfl, same ▸ .kept _⟩
  cases call with
  | createJobVersioned newID createdAt content =>
    exact backend.rowSpec_createJobVersioned newID createdAt content database.jobs id
  | createJobVersionedUniqueResult view put newID createdAt =>
    exact (backend.stages_createJobVersionedUniqueResult view digest put newID createdAt
      database).rowStep id
  | createJobVersionedUniqueBatch view items createdAt =>
    exact (backend.stages_createJobVersionedUniqueBatch view digest items createdAt
      database).rowStep id
  | findAndReserveJobsForCapabilities view now until_ token =>
    exact backend.rowSpec_findAndReserveJobsForCapabilities view now until_ token _ _ _ id
  | findAndReserveJobsForCapabilityBounded view now until_ token =>
    exact backend.rowSpec_findAndReserveJobsForCapabilityBounded view now until_ token _ _ _ _ id
  | extendJobLeases => exact backend.rowSpec_extendJobLeases _ _ _ _ database.jobs id
  | releaseUnstartedJobsWithLease =>
    exact backend.rowSpec_releaseUnstartedJobsWithLease _ _ _ database.jobs id
  | applyBatchJobOutcomes => exact backend.rowSpec_applyBatchJobOutcomes _ _ _ _ database.jobs id
  | deferJobWithLease attached wanted token now availableAt =>
    have spec := backend.rowSpec_applyBatchJobOutcomes attached token now
      [{ jobID := wanted, kind := .defer, availableAt := availableAt }] database.jobs id
    rwa [← backend.deferJobWithLease_eq] at spec
  | deleteJobWithLease => exact backend.rowSpec_deleteJobWithLease _ _ _ database.jobs id
  | rescheduleJobWithLease => exact backend.rowSpec_rescheduleJobWithLease _ _ _ _ database.jobs id
  | createFailedJobVersioned => exact kept (backend.createFailedJobVersioned_jobs ..)
  | pruneJobIdempotencyKeys => exact kept (backend.pruneJobIdempotencyKeys_jobs ..)

end Backends

end OutboxFormal.Storage
