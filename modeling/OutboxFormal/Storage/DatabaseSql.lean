import OutboxFormal.Storage.Outcomes

/-!
# What the `database/sql` backends share

The MySQL and the SQLite repositories check their requests with the same code,
cut bounded claims with the same loop, and finalize a batch with a deletion
followed by an update in one transaction. The update reads its values through a
join in MySQL and through a scalar subquery in SQLite; that lookup is the
parameter `inputRow`.
-/

namespace OutboxFormal.Storage.DatabaseSql

open Library

/-! ## Request checks -/

def validateBatchClaim (token : LeaseToken) (limit : Int) : Except OutboxError Unit :=
  validateClaim s!"limit must be between 1 and {maxReservationBatchSize}" token limit

/-- The capability checks of a claim, in request order. -/
def validateCapabilities : List JobCapability → Except OutboxError Unit
  | [] => .ok ()
  | capability :: rest =>
    match capability.validate with
    | .error error => .error (errorContext "invalid capability" error)
    | .ok () => validateCapabilities rest

def validateMaxBytes (maxBytes : Int) : Except OutboxError Unit :=
  if maxBytes < 1 then .error (.text s!"max bytes must be positive: {maxBytes}") else .ok ()

/-- `validateBatchLease`: the count, the identifiers, then the token. -/
def validateBatchLease (ids : List JobID) (token : LeaseToken) : Except OutboxError Unit :=
  if leaseCountAccepted ids then
    if ids.any JobID.isZero then .error (.text "invalid job id")
    else
      match token.validate with
      | .error error => .error (errorContext "invalid lease token" error)
      | .ok () => .ok ()
  else .error (.text s!"job ID count must be between 1 and {maxReservationBatchSize}")

def validateBatchOutcomes (token : LeaseToken) (outcomes : List BatchJobOutcome) :
    Except OutboxError Unit :=
  validateOutcomes "" "duplicate outcome JobID " token outcomes

theorem validateBatchLease_token {ids : List JobID} {token : LeaseToken}
    (accepted : validateBatchLease ids token = .ok ()) : token ≠ .nil := by
  unfold validateBatchLease at accepted
  split at accepted
  · split at accepted
    · cases accepted
    · cases htoken : token.validate with
      | error error =>
        rw [htoken] at accepted
        cases accepted
      | ok _ => exact LeaseToken.validate_eq_ok_iff.mp htoken
  · cases accepted

/-! ## Bounded candidates -/

/-- The loop over the ordered candidate rows: the first row always fits, and
the first row past the budget ends the selection. -/
def boundedCandidateIDs (maxBytes : Int) :
    List JobID → Int → Bool → List Job → List JobID
  | jobIDs, _, _, [] => jobIDs
  | jobIDs, usedBytes, limitReached, job :: rest =>
    let payloadBytes : Int := job.payload.length
    if limitReached then boundedCandidateIDs maxBytes jobIDs usedBytes limitReached rest
    else if jobIDs.isEmpty ∨ usedBytes + payloadBytes ≤ maxBytes then
      boundedCandidateIDs maxBytes (jobIDs ++ [job.id]) (usedBytes + payloadBytes)
        (decide (maxBytes < usedBytes + payloadBytes)) rest
    else boundedCandidateIDs maxBytes jobIDs usedBytes true rest

theorem boundedCandidateIDs_eq_append (maxBytes : Int) (jobIDs : List JobID) (usedBytes : Int)
    (limitReached : Bool) (rows : List Job) :
    ∃ picked : List Job, picked.Sublist rows ∧
      boundedCandidateIDs maxBytes jobIDs usedBytes limitReached rows =
        jobIDs ++ picked.map Job.id := by
  induction rows generalizing jobIDs usedBytes limitReached with
  | nil => exact ⟨[], List.Sublist.refl _, by simp [boundedCandidateIDs]⟩
  | cons job rest ih =>
    simp only [boundedCandidateIDs]
    split
    · obtain ⟨picked, hpicked, heq⟩ := ih jobIDs usedBytes limitReached
      exact ⟨picked, hpicked.cons job, heq⟩
    · split
      · obtain ⟨picked, hpicked, heq⟩ := ih (jobIDs ++ [job.id])
          (usedBytes + job.payload.length)
          (decide (maxBytes < usedBytes + job.payload.length))
        refine ⟨job :: picked, hpicked.cons_cons job, ?_⟩
        rw [heq]
        simp
      · obtain ⟨picked, hpicked, heq⟩ := ih jobIDs usedBytes true
        exact ⟨picked, hpicked.cons job, heq⟩

/-! ## Batch outcomes -/

section Outcomes

variable (stored : Int → Int)
variable (inputRow : List BatchJobOutcome → JobID → Option BatchJobOutcome)

/-- The row is named by an outcome whose kind is one of `kinds`. -/
def named (kinds : BatchJobOutcomeKind → Bool) (outcomes : List BatchJobOutcome) (job : Job) :
    Bool :=
  outcomes.any fun outcome => decide (outcome.jobID = job.id) && kinds outcome.kind

/-- The `WHERE` clause of `deleteBatchTerminalOutcomes`. -/
def terminalSelection (token : LeaseToken) (now : Int) (outcomes : List BatchJobOutcome)
    (job : Job) : Bool :=
  named BatchJobOutcomeKind.terminal outcomes job && leased token (stored now) job

def deleteBatchTerminalOutcomes (token : LeaseToken) (now : Int)
    (outcomes : List BatchJobOutcome) (table : JobsTable) : Nat × JobsTable :=
  ((table.matching (terminalSelection stored token now outcomes)).length,
    table.delete (terminalSelection stored token now outcomes))

/-- The `WHERE` clause of `updateBatchRetryOutcomes`. -/
def retrySelection (token : LeaseToken) (now : Int) (outcomes : List BatchJobOutcome)
    (job : Job) : Bool :=
  named BatchJobOutcomeKind.requeues outcomes job && leased token (stored now) job &&
    decide (0 < job.attempts)

/-- The assignments of `updateBatchRetryOutcomes` to a selected row. -/
def retryRow (outcomes : List BatchJobOutcome) (job : Job) : Job :=
  match inputRow outcomes job.id with
  | none => job
  | some outcome => requeueRow outcome.kind (stored outcome.availableAt) job

theorem retryRow_id (outcomes : List BatchJobOutcome) (job : Job) :
    (retryRow stored inputRow outcomes job).id = job.id := by
  unfold retryRow
  split <;> rfl

def updateBatchRetryOutcomes (token : LeaseToken) (now : Int)
    (outcomes : List BatchJobOutcome) (table : JobsTable) : Nat × JobsTable :=
  ((table.matching (retrySelection stored token now outcomes)).length,
    table.update (retrySelection stored token now outcomes)
      (retryRow stored inputRow outcomes) (retryRow_id stored inputRow outcomes))

/-- The callback of `ApplyBatchJobOutcomes`. -/
def applyOutcomes (token : LeaseToken) (now : Int) (outcomes : List BatchJobOutcome) :
    RepoCall Int := fun table =>
  let deleted := deleteBatchTerminalOutcomes stored token now outcomes table
  let updated := updateBatchRetryOutcomes stored inputRow token now outcomes deleted.2
  let affected := deleted.1 + updated.1
  if affected ≠ outcomes.length then
    (.error (leafError .errLeaseLost
      s!": finalized {affected} of {outcomes.length} batch jobs"), updated.2)
  else (.ok affected, updated.2)

def applyBatchJobOutcomes (attached : Bool) (token : LeaseToken) (now : Int)
    (outcomes : List BatchJobOutcome) : RepoCall Int :=
  checked (validateBatchOutcomes token outcomes) fun table =>
    match Manager.databaseSql.runReturning attached
        (applyOutcomes stored inputRow token now outcomes) table with
    | (.error error, after) => (.error (errorContext "apply batch job outcomes" error), after)
    | (.ok affected, after) => (.ok affected, after)

end Outcomes

end OutboxFormal.Storage.DatabaseSql
