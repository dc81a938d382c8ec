import OutboxFormal.Storage.DatabaseSql

/-!
# The SQLite jobs repository

Instants are stored as Unix milliseconds. Claims run inside `BEGIN IMMEDIATE`
(or the attached transaction): they select the candidates, reserve them, and
check the number of affected rows. The ordinary claim answers with the selected
rows it updated in memory, so a returned deadline keeps the precision of
`until`; the bounded claim reads the reserved rows back.

An integer of SQLite has 64 bits. The counter of the attempts is taken to be
below that end, which one claim a nanosecond reaches after 292 years; the ends of
`smallint` and `INT` are part of the other two models.
-/

namespace OutboxFormal.Storage.Sqlite

open Library DatabaseSql

def stored (time : Int) : Int := milliTime time

def createJobVersioned (id : JobID) (createdAt : Int) (name : Bytes) (schemaVersion : Int)
    (payload : Bytes) (availableAt : Int) : RepoCall JobID :=
  checked ((JobCapability.validate ⟨name, schemaVersion⟩).mapError
      (errorContext "validate capability")) fun table =>
    match insertJob (newJob id none name schemaVersion payload (stored availableAt)
        (stored createdAt)) table with
    | none => (.error (.leaf (.external "constraint failed")), table)
    | some after => (.ok id, after)

/-- `withImmediateTransaction`: borrow the attached transaction, or own one that
is rolled back after an error. -/
def withImmediateTransaction {σ α : Type} (attached : Bool)
    (work : σ → Except OutboxError α × σ) (state : σ) : Except OutboxError α × σ :=
  if attached then work state
  else
    match work state with
    | (.ok value, after) => (.ok value, after)
    | (.error error, _) => (.error error, state)

/-! ## Claims -/

/-- The ordered, limited ready rows that match the requested capabilities. -/
def selectReady (now : Int) (matching : Job → Bool) (limit : Int) (table : JobsTable) :
    List Job :=
  orderedLimit limit.toNat (table.rows.filter fun job => ready (stored now) job && matching job)

/-- `UPDATE … WHERE id IN ids`. -/
def reserveIDs (ids : List JobID) (until_ : Int) (token : LeaseToken) (table : JobsTable) :
    Nat × JobsTable :=
  let chosen := fun job : Job => decide (job.id ∈ ids)
  ((table.matching chosen).length, reserveWhere stored chosen until_ token table)

def findAndReserveBatchWithExecutor (now until_ : Int) (token : LeaseToken)
    (capabilities : List JobCapability) (limit : Int) : RepoCall (List Job) := fun table =>
  let jobs := selectReady now
    (fun job => capabilities.any fun capability => hasCapability capability job) limit table
  if jobs.isEmpty then (.error (.leaf .errNoJobs), table)
  else
    let reserved := reserveIDs (jobs.map Job.id) until_ token table
    if reserved.1 ≠ jobs.length then (.error (.leaf .errNoJobs), reserved.2)
    else (.ok (jobs.map (reserveRow until_ token)), reserved.2)

def findAndReserveBatch (attached : Bool) (now until_ : Int) (token : LeaseToken)
    (capabilities : List JobCapability) (limit : Int) : RepoCall (List Job) :=
  checked (validateBatchClaim token limit) <|
    withImmediateTransaction attached
      (findAndReserveBatchWithExecutor now until_ token capabilities limit)

def findAndReserveJobsForCapabilities (attached : Bool) (now until_ : Int)
    (token : LeaseToken) (capabilities : List JobCapability) (limit : Int) :
    RepoCall (List Job) :=
  if capabilities.isEmpty then rejected (.leaf .errNoJobs)
  else checked (validateCapabilities capabilities)
    (findAndReserveBatch attached now until_ token capabilities limit)

def findAndReserveJobsForCapability (attached : Bool) (now until_ : Int)
    (token : LeaseToken) (capability : JobCapability) (limit : Int) : RepoCall (List Job) :=
  findAndReserveJobsForCapabilities attached now until_ token [capability] limit

def findAndReserveBatchBoundedWithExecutor (now until_ : Int) (token : LeaseToken)
    (capability : JobCapability) (maxMessages maxBytes : Int) : RepoCall (List Job) :=
  fun table =>
    let ids := boundedCandidateIDs maxBytes [] 0 false
      (selectReady now (hasCapability capability) maxMessages table)
    if ids.isEmpty then (.error (.leaf .errNoJobs), table)
    else
      let reserved := reserveIDs ids until_ token table
      if reserved.1 ≠ ids.length then (.error (.leaf .errNoJobs), reserved.2)
      else
        let jobs := ordered (reserved.2.matching fun job =>
          decide (job.id ∈ ids) && decide (job.leaseToken = token))
        if jobs.length ≠ ids.length then (.error (.leaf .errNoJobs), reserved.2)
        else (.ok jobs, reserved.2)

def findAndReserveJobsForCapabilityBounded (attached : Bool) (now until_ : Int)
    (token : LeaseToken) (capability : JobCapability) (maxMessages maxBytes : Int) :
    RepoCall (List Job) :=
  checked (validateBatchClaim token maxMessages) <|
    checked (validateMaxBytes maxBytes) <|
      checked (validateCapabilities [capability]) <|
        withImmediateTransaction attached
          (findAndReserveBatchBoundedWithExecutor now until_ token capability
            maxMessages maxBytes)

/-! ## Leases -/

def extendJobLeases (ids : List JobID) (token : LeaseToken) (now until_ : Int) :
    RepoCall Int :=
  checked (validateBatchLease ids token) <|
    affecting (leaseSelection stored ids token now) (extendStatement stored ids token now until_)

def releaseUnstartedJobsWithLease (ids : List JobID) (token : LeaseToken) (now : Int) :
    RepoCall Int :=
  checked (validateBatchLease ids token) <|
    affecting (releaseSelection stored ids token now) (releaseStatement stored ids token now)

def deleteJobWithLease (id : JobID) (token : LeaseToken) (now : Int) : RepoCall Int :=
  checked (validateSingle "invalid job id" id token) <|
    affecting (singleSelection stored id token now) (deleteStatement stored id token now)

def rescheduleJobWithLease (id : JobID) (token : LeaseToken) (now availableAt : Int) :
    RepoCall Int :=
  checked (validateSingle "invalid job id" id token) <|
    affecting (singleSelection stored id token now)
      (rescheduleStatement stored id token now availableAt)

/-! ## Batch outcomes -/

/-- The scalar subquery over `input`: the first row with this identifier. -/
def inputRow (outcomes : List BatchJobOutcome) (id : JobID) : Option BatchJobOutcome :=
  outcomes.find? fun outcome => decide (outcome.jobID = id)

def applyBatchJobOutcomes (attached : Bool) (token : LeaseToken) (now : Int)
    (outcomes : List BatchJobOutcome) : RepoCall Int :=
  DatabaseSql.applyBatchJobOutcomes stored inputRow attached token now outcomes

def deferJobWithLease (attached : Bool) (id : JobID) (token : LeaseToken)
    (now availableAt : Int) : RepoCall Int :=
  applyBatchJobOutcomes attached token now
    [{ jobID := id, kind := .defer, availableAt := availableAt }]

end OutboxFormal.Storage.Sqlite
