import OutboxFormal.Storage.Outcomes

/-!
# The PostgreSQL jobs repository

Every operation is one statement, except that `ApplyBatchJobOutcomes` runs its
statement inside `RunInTx` so that a partial result is undone. `timestamptz`
keeps microseconds, `attempts` is a `smallint`, and a claim skips rows that an
open transaction has locked.
-/

namespace OutboxFormal.Storage.Pgsql

open Library

/-- The instant a `timestamptz` parameter carries. -/
def stored (time : Int) : Int := truncate time microsecond

/-- The largest `smallint`. -/
def smallintMax : Int := 32767

/-- `fmt.Errorf("%s: %w", op, err)` around the checks of an operation. -/
def withOp {α : Type} (op : String) (check : Except OutboxError α) : Except OutboxError α :=
  check.mapError (errorContext op)

/-! ## Insertion -/

def createJobVersioned (id : JobID) (createdAt : Int) (name : Bytes) (schemaVersion : Int)
    (payload : Bytes) (availableAt : Int) : RepoCall JobID :=
  checked (withOp "validate capability" (JobCapability.validate ⟨name, schemaVersion⟩)) fun table =>
    match insertJob (newJob id none name schemaVersion payload (stored availableAt)
        (stored createdAt)) table with
    | none => (.error (errorContext "error creating" (.leaf (.external "duplicate key"))), table)
    | some after => (.ok id, after)

/-! ## Claims -/

def validateBatchRequest (token : LeaseToken) (limit : Int) : Except OutboxError Unit :=
  validateClaim s!"limit must be between 1 and {maxReservationBatchSize}: {limit}" token limit

/-- The capability checks of a claim, in request order. -/
def validateCapabilities : List JobCapability → Except OutboxError Unit
  | [] => .ok ()
  | capability :: rest =>
    match capability.validate with
    | .error error => .error (errorContext "invalid capability" error)
    | .ok () => validateCapabilities rest

/-- `jobs JOIN requested`: one row for each matching request. -/
def joinRequested (capabilities : List JobCapability) (rows : List Job) : List Job :=
  rows.flatMap fun job =>
    (capabilities.filter fun capability => hasCapability capability job).map fun _ => job

/-- The `candidates` of a claim: ready rows that no open transaction locks. -/
def candidates (locked : JobID → Bool) (now : Int) (limit : Nat) (rows : List Job) : List Job :=
  orderedLimit limit (rows.filter fun job => ready (stored now) job && !locked job.id)

/-- `UPDATE … FROM selected … RETURNING`, ordered; `attempts + 1` outside
`smallint` fails the statement without effect. -/
def reserveReturning (op : String) (selected : List Job) (until_ : Int) (token : LeaseToken) :
    RepoCall (List Job) := fun table =>
  let chosen := fun job : Job => decide (job.id ∈ selected.map Job.id)
  if selected.any fun job => smallintMax < job.attempts + 1 then
    (.error (errorContext (op ++ ": query context")
      (.leaf (.external "smallint out of range"))), table)
  else
    let after := reserveWhere stored chosen until_ token table
    let jobs := ordered (after.matching chosen)
    if jobs.isEmpty then (.error (.leaf .errNoJobs), after) else (.ok jobs, after)

def findAndReserveJobs (locked : JobID → Bool) (now until_ : Int) (token : LeaseToken)
    (capabilities : List JobCapability) (limit : Int) : RepoCall (List Job) :=
  let op := "jobs.repo.FindAndReserveJobs"
  checked (withOp op (validateBatchRequest token limit)) <|
    checked (withOp op (validateCapabilities capabilities)) fun table =>
      reserveReturning op
        (candidates locked now limit.toNat (joinRequested capabilities table.rows))
        until_ token table

def findAndReserveJobsForCapabilities (locked : JobID → Bool) (now until_ : Int)
    (token : LeaseToken) (capabilities : List JobCapability) (limit : Int) :
    RepoCall (List Job) :=
  if capabilities.isEmpty then rejected (.leaf .errNoJobs)
  else findAndReserveJobs locked now until_ token capabilities limit

def findAndReserveJobsForCapability (locked : JobID → Bool) (now until_ : Int)
    (token : LeaseToken) (capability : JobCapability) (limit : Int) : RepoCall (List Job) :=
  findAndReserveJobsForCapabilities locked now until_ token [capability] limit

/-- `row_number()` and the running `sum(payload_bytes)` of the ordered candidates. -/
def ranked : Nat → Nat → List Job → List (Nat × Nat × Job)
  | _, _, [] => []
  | ordinal, bytesBefore, job :: rest =>
    (ordinal + 1, bytesBefore + job.payload.length, job) ::
      ranked (ordinal + 1) (bytesBefore + job.payload.length) rest

/-- `WHERE ordinal = 1 OR cumulative_bytes <= maxBytes`. -/
def boundedSelection (maxBytes : Int) (rows : List Job) : List Job :=
  ((ranked 0 0 rows).filter fun entry =>
    decide (entry.1 = 1) || decide ((entry.2.1 : Int) ≤ maxBytes)).map fun entry => entry.2.2

def findAndReserveJobsForCapabilityBounded (locked : JobID → Bool) (now until_ : Int)
    (token : LeaseToken) (capability : JobCapability) (maxMessages maxBytes : Int) :
    RepoCall (List Job) :=
  let op := "jobs.repo.FindAndReserveJobsForCapabilityBounded"
  checked (withOp op (validateBatchRequest token maxMessages)) <|
    checked (if maxBytes < 1 then
        .error (.text (op ++ s!": max bytes must be positive: {maxBytes}")) else .ok ()) <|
      checked (withOp op (validateCapabilities [capability])) fun table =>
        reserveReturning op
          (boundedSelection maxBytes (candidates locked now maxMessages.toNat
            (table.rows.filter (hasCapability capability))))
          until_ token table

/-! ## Leases -/

/-- The identifier checks of a lease request, in order. -/
def validateIDs : List JobID → Except OutboxError Unit
  | [] => .ok ()
  | id :: rest =>
    match id.validate with
    | .error error => .error (errorContext "invalid job ID" error)
    | .ok () => validateIDs rest

def validateBatchLeaseRequest (ids : List JobID) (token : LeaseToken) :
    Except OutboxError Unit :=
  match token.validate with
  | .error error => .error (errorContext "invalid lease token" error)
  | .ok () =>
    if leaseCountAccepted ids then validateIDs ids
    else .error (.text
      s!"job ID count must be between 1 and {maxReservationBatchSize}: {ids.length}")

def extendJobLeases (ids : List JobID) (token : LeaseToken) (now until_ : Int) :
    RepoCall Int :=
  checked (withOp "jobs.repo.ExtendJobLeases" (validateBatchLeaseRequest ids token)) <|
    affecting (leaseSelection stored ids token now) (extendStatement stored ids token now until_)

def releaseUnstartedJobsWithLease (ids : List JobID) (token : LeaseToken) (now : Int) :
    RepoCall Int :=
  checked (withOp "jobs.repo.ReleaseUnstartedJobsWithLease"
      (validateBatchLeaseRequest ids token)) <|
    affecting (releaseSelection stored ids token now) (releaseStatement stored ids token now)

def deleteJobWithLease (id : JobID) (token : LeaseToken) (now : Int) : RepoCall Int :=
  checked (withOp "jobs.repo.DeleteJobWithLease" (validateSingle "invalid id" id token)) <|
    affecting (singleSelection stored id token now) (deleteStatement stored id token now)

def rescheduleJobWithLease (id : JobID) (token : LeaseToken) (now availableAt : Int) :
    RepoCall Int :=
  checked (withOp "jobs.repo.RescheduleJobWithLease" (validateSingle "invalid id" id token)) <|
    affecting (singleSelection stored id token now)
      (rescheduleStatement stored id token now availableAt)

/-! ## Batch outcomes -/

/-- The `owned` join: the outcome of a live row that carries the token. -/
def owned (token : LeaseToken) (now : Int) (outcomes : List BatchJobOutcome) (job : Job) :
    Option BatchJobOutcome :=
  if leased token (stored now) job then
    outcomes.find? fun outcome => outcome.jobID = job.id
  else none

/-- The row is in the `deleted` part of the statement. -/
def deletes (token : LeaseToken) (now : Int) (outcomes : List BatchJobOutcome) (job : Job) :
    Bool :=
  (owned token now outcomes job).any fun outcome => outcome.kind.terminal

/-- The row is in the `updated` part of the statement. -/
def updates (token : LeaseToken) (now : Int) (outcomes : List BatchJobOutcome) (job : Job) :
    Bool :=
  (owned token now outcomes job).any fun outcome =>
    outcome.kind.requeues && decide (0 < job.attempts)

/-- `next_available_at`: a zero availability is replaced by `now`. -/
def nextAvailableAt (now : Int) (outcome : BatchJobOutcome) : Int :=
  if outcome.availableAt = 0 then stored now else stored outcome.availableAt

/-- Both data-modifying parts see the same snapshot, so the statement rewrites
every row once. -/
def outcomeRow (token : LeaseToken) (now : Int) (outcomes : List BatchJobOutcome) (job : Job) :
    Option Job :=
  match owned token now outcomes job with
  | none => some job
  | some outcome =>
    if outcome.kind.terminal then none
    else if outcome.kind.requeues ∧ 0 < job.attempts then
      some (requeueRow outcome.kind (nextAvailableAt now outcome) job)
    else some job

theorem outcomeRow_keyPreserving (token : LeaseToken) (now : Int)
    (outcomes : List BatchJobOutcome) :
    Table.KeyPreserving Job.id (outcomeRow token now outcomes) := by
  intro job after hrow
  unfold outcomeRow at hrow
  split at hrow
  · cases hrow
    rfl
  · split at hrow
    · cases hrow
    · split at hrow <;> cases hrow <;> rfl

/-- The callback of `ApplyBatchJobOutcomes`. -/
def applyOutcomes (token : LeaseToken) (now : Int) (outcomes : List BatchJobOutcome) :
    RepoCall Int := fun table =>
  let affected := (table.matching (deletes token now outcomes)).length +
    (table.matching (updates token now outcomes)).length
  let after := table.alter (outcomeRow token now outcomes)
    (outcomeRow_keyPreserving token now outcomes)
  if affected ≠ outcomes.length then
    (.error (leafError .errLeaseLost
      s!": finalized {affected} of {outcomes.length} batch jobs"), after)
  else (.ok affected, after)

def applyBatchJobOutcomes (attached : Bool) (token : LeaseToken) (now : Int)
    (outcomes : List BatchJobOutcome) : RepoCall Int :=
  let op := "jobs.repo.ApplyBatchJobOutcomes"
  checked (validateOutcomes (op ++ ": ") "duplicate JobID " token outcomes) fun table =>
    match Manager.pgx.runReturning attached (applyOutcomes token now outcomes) table with
    | (.error error, after) => (.error (errorContext (op ++ ": apply outcomes") error), after)
    | (.ok affected, after) => (.ok affected, after)

def deferJobWithLease (attached : Bool) (id : JobID) (token : LeaseToken)
    (now availableAt : Int) : RepoCall Int :=
  applyBatchJobOutcomes attached token now
    [{ jobID := id, kind := .defer, availableAt := availableAt }]

end OutboxFormal.Storage.Pgsql
