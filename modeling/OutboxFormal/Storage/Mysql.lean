import OutboxFormal.Storage.DatabaseSql

/-!
# The MySQL jobs repository

`DATETIME(6)` rounds a Go time to the nearest microsecond and `attempts` is an
`INT`. A claim reads its candidates outside the reserving transaction, so each
round may see an earlier state of the table; it reserves the candidates that
are still ready and starts another round when none is. `RowsAffected` counts
changed rows, not matched ones.
-/

namespace OutboxFormal.Storage.Mysql

open Library DatabaseSql

/-- The instant a `DATETIME(6)` column stores for a Go time. -/
def stored (time : Int) : Int := truncate (time + 500) microsecond

/-- The largest `INT`. -/
def intMax : Int := 2147483647

def createJobVersioned (id : JobID) (createdAt : Int) (name : Bytes) (schemaVersion : Int)
    (payload : Bytes) (availableAt : Int) : RepoCall JobID :=
  checked ((JobCapability.validate ⟨name, schemaVersion⟩).mapError
      (errorContext "validate capability")) fun table =>
    match insertJob (newJob id none name schemaVersion payload (stored availableAt)
        (stored createdAt)) table with
    | none => (.error (.leaf (.external "duplicate entry")), table)
    | some after => (.ok id, after)

/-! ## Claims -/

/-- The reserving transaction of one round; `none` means no candidate was still
ready. -/
def reserveBatchCandidates (now until_ : Int) (token : LeaseToken) (ids : List JobID) :
    RepoCall (Option (List Job)) := fun table =>
  let chosen := fun job : Job => decide (job.id ∈ ids) && ready (stored now) job
  let updated := table.matching chosen
  if updated.any fun job => intMax < job.attempts + 1 then
    (.error (errorContext "reserve batch claim candidates"
      (.leaf (.external "out of range value for column attempts"))), table)
  else if updated.length = 0 then (.ok none, table)
  else if ids.length < updated.length then
    (.error (.text
      s!"batch claim invariant: updated {updated.length} jobs from {ids.length} candidates"),
      table)
  else
    let after := reserveWhere stored chosen until_ token table
    let jobs := ordered (after.matching fun job =>
      decide (job.id ∈ ids) && decide (job.leaseToken = token))
    if jobs.length ≠ updated.length then
      (.error (.text
        s!"batch claim invariant: loaded {jobs.length} of {updated.length} updated jobs"), table)
    else (.ok (some jobs), after)

/-- The claim loop: one element of `snapshots` is the table the candidate query
of that round sees; the context ends the loop after the last one. -/
def claimRounds (candidateIDs : JobsTable → List JobID) (now until_ : Int)
    (token : LeaseToken) : List JobsTable → RepoCall (List Job)
  | [] => rejected (.leaf .contextCanceled)
  | snapshot :: rest => fun table =>
    let ids := candidateIDs snapshot
    if ids.isEmpty then (.error (.leaf .errNoJobs), table)
    else
      match reserveBatchCandidates now until_ token ids table with
      | (.error error, after) => (.error error, after)
      | (.ok (some jobs), after) => (.ok jobs, after)
      | (.ok none, after) => claimRounds candidateIDs now until_ token rest after

/-- The ready rows of one capability, ordered and limited. -/
def capabilityCandidates (now : Int) (limit : Nat) (table : JobsTable)
    (capability : JobCapability) : List Job :=
  orderedLimit limit
    (table.rows.filter fun job => hasCapability capability job && ready (stored now) job)

/-- `buildBatchCandidateQuery`: the union over the distinct capabilities. -/
def batchCandidateIDs (now : Int) (capabilities : List JobCapability) (limit : Nat)
    (table : JobsTable) : List JobID :=
  (orderedLimit limit
    (capabilities.eraseDups.flatMap (capabilityCandidates now limit table))).map Job.id

def findAndReserveBatch (snapshots : List JobsTable) (now until_ : Int) (token : LeaseToken)
    (capabilities : List JobCapability) (limit : Int) : RepoCall (List Job) :=
  checked (validateBatchClaim token limit)
    (claimRounds (batchCandidateIDs now capabilities limit.toNat) now until_ token snapshots)

def findAndReserveJobsForCapabilities (snapshots : List JobsTable) (now until_ : Int)
    (token : LeaseToken) (capabilities : List JobCapability) (limit : Int) :
    RepoCall (List Job) :=
  if capabilities.isEmpty then rejected (.leaf .errNoJobs)
  else checked (validateCapabilities capabilities)
    (findAndReserveBatch snapshots now until_ token capabilities limit)

def findAndReserveJobsForCapability (snapshots : List JobsTable) (now until_ : Int)
    (token : LeaseToken) (capability : JobCapability) (limit : Int) : RepoCall (List Job) :=
  findAndReserveJobsForCapabilities snapshots now until_ token [capability] limit

def findBoundedBatchCandidateIDs (now : Int) (capability : JobCapability)
    (maxMessages : Nat) (maxBytes : Int) (table : JobsTable) : List JobID :=
  boundedCandidateIDs maxBytes [] 0 false
    (capabilityCandidates now maxMessages table capability)

def findAndReserveJobsForCapabilityBounded (snapshots : List JobsTable) (now until_ : Int)
    (token : LeaseToken) (capability : JobCapability) (maxMessages maxBytes : Int) :
    RepoCall (List Job) :=
  checked (validateBatchClaim token maxMessages) <|
    checked (validateMaxBytes maxBytes) <|
      checked (validateCapabilities [capability])
        (claimRounds (findBoundedBatchCandidateIDs now capability maxMessages.toNat maxBytes)
          now until_ token snapshots)

/-! ## Leases -/

def extendJobLeases (ids : List JobID) (token : LeaseToken) (now until_ : Int) :
    RepoCall Int :=
  checked (validateBatchLease ids token) <|
    -- A row whose deadline already is `until` matches but does not change.
    affecting (fun job => leaseSelection stored ids token now job &&
        decide (job.reservedAt ≠ some (stored until_)))
      (extendStatement stored ids token now until_)

def releaseUnstartedJobsWithLease (ids : List JobID) (token : LeaseToken) (now : Int) :
    RepoCall Int :=
  checked (validateBatchLease ids token) <|
    affecting (releaseSelection stored ids token now) (releaseStatement stored ids token now)

def deleteJobWithLease (id : JobID) (token : LeaseToken) (now : Int) : RepoCall Int :=
  checked (validateSingle "invalid job id" id token) <|
    affecting (singleSelection stored id token now) (deleteStatement stored id token now)

def rescheduleJobWithLease (id : JobID) (token : LeaseToken) (now availableAt : Int) :
    RepoCall Int :=
  checked (validateSingle "invalid job id" id token) <|
    affecting (singleSelection stored id token now)
      (rescheduleStatement stored id token now availableAt)

/-! ## Batch outcomes -/

/-- The joined input row: its kind is restricted by the `WHERE` clause. -/
def inputRow (outcomes : List BatchJobOutcome) (id : JobID) : Option BatchJobOutcome :=
  outcomes.find? fun outcome => decide (outcome.jobID = id) && outcome.kind.requeues

def applyBatchJobOutcomes (attached : Bool) (token : LeaseToken) (now : Int)
    (outcomes : List BatchJobOutcome) : RepoCall Int :=
  DatabaseSql.applyBatchJobOutcomes stored inputRow attached token now outcomes

def deferJobWithLease (attached : Bool) (id : JobID) (token : LeaseToken)
    (now availableAt : Int) : RepoCall Int :=
  applyBatchJobOutcomes attached token now
    [{ jobID := id, kind := .defer, availableAt := availableAt }]

end OutboxFormal.Storage.Mysql
