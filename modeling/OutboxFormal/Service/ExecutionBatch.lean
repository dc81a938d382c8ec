import OutboxFormal.Service.Single

/-!
# The execution-batch path

One handler call for many jobs of one capability: result validation, the
outcome of every item, their finalization in one transaction, and the group
function that claims, fills, admits, handles and finalizes a batch.
-/

namespace OutboxFormal

open Library Storage GoError

def batchRetryBase : Int := 100 * millisecond
def batchRetryMaximum : Int := 30 * second
def batchDLQInsertAllowance : Int := 25 * millisecond

/-! ## Batch results -/

/-- The first loop of `validateBatchResult`: the position of every input. -/
def batchPositions (positions : JobID → Option Nat) :
    Nat → List BatchJobItem → Except OutboxError (JobID → Option Nat)
  | _, [] => .ok positions
  | index, item :: rest =>
    if item.jobID.isZero then
      .error (leafError .errInvalidBatchResult s!": input {index} has an empty JobID")
    else if (positions item.jobID).isSome then
      .error (leafError .errInvalidBatchResult
        (": duplicate input JobID " ++ printed item.jobID.string))
    else batchPositions (Function.update positions item.jobID (some index)) (index + 1) rest

/-- The second loop: the error of every result is put at the position of its input. -/
def batchErrors (positions : JobID → Option Nat) (seen : List JobID)
    (errs : List (Option OutboxError)) :
    BatchResult → Except OutboxError (List (Option OutboxError))
  | [] => .ok errs
  | item :: rest =>
    match positions item.jobID with
    | none =>
      .error (leafError .errInvalidBatchResult
        (": unknown JobID " ++ printed item.jobID.string))
    | some position =>
      if item.jobID ∈ seen then
        .error (leafError .errInvalidBatchResult
          (": duplicate JobID " ++ printed item.jobID.string))
      else batchErrors positions (item.jobID :: seen) (errs.set position item.err) rest

/-- The errors in input order, or why the result is refused. -/
def validateBatchResult (input : List BatchJobItem) (result : BatchResult) :
    Except OutboxError (List (Option OutboxError)) :=
  if result.length ≠ input.length then
    .error (leafError .errInvalidBatchResult
      s!": got {result.length} items for {input.length} inputs")
  else
    match batchPositions (fun _ => none) 0 input with
    | .error error => .error error
    | .ok positions => batchErrors positions [] (List.replicate input.length none) result

/-! ## Order and backoff -/

/-- The comparison of `sortExecutionBatchJobs`. -/
def executionLe (first second : Job) : Bool :=
  if first.availableAt ≠ second.availableAt then first.availableAt < second.availableAt
  else if first.createdAt ≠ second.createdAt then first.createdAt < second.createdAt
  else first.id.string ≤ second.id.string

def sortExecutionBatchJobs (jobs : List Job) : List Job :=
  jobs.insertionSort fun first second => executionLe first second = true

/-- The doubling loop of `batchAttemptBackoff`. -/
def backoffFrom : Nat → Int → Int
  | 0, delay => min delay batchRetryMaximum
  | steps + 1, delay =>
    if delay < batchRetryMaximum then
      if batchRetryMaximum / 2 < delay then batchRetryMaximum
      else backoffFrom steps (delay * 2)
    else min delay batchRetryMaximum

def batchAttemptBackoff (attempt : Int) : Int :=
  backoffFrom ((if attempt < 1 then 1 else attempt) - 1).toNat batchRetryBase

/-! ## Outcomes -/

def dlqExecutionBatchOutcome (job : Job) (reason : String) : BatchJobOutcome :=
  { jobID := job.id, kind := .dlq, reason := reason }

def executionBatchFinalizationTimeout (outcomes : List BatchJobOutcome) : Int :=
  outcomes.foldl (fun timeout outcome =>
    if outcome.kind = .dlq then timeout + batchDLQInsertAllowance else timeout)
    leaseFinalizationTimeout

namespace Service

variable (s : Service)

def observeBatchOutcome (job : Job) (outcome : BatchJobOutcome) : Go Unit :=
  match outcome.kind with
  | .success => s.observeJobOutcome job .ackConfirmed 0
  | .retry => s.observeJobOutcome job .retryPersisted outcome.availableAt
  | .defer => s.observeJobOutcome job .deferPersisted outcome.availableAt
  | .dlq => s.observeJobOutcome job .dlqCommitted 0
  | .unknown _ => return ()

def observeBatchOutcomes (jobs : List Job) : List BatchJobOutcome → Go Unit
  | [] => return ()
  | outcome :: rest => do
      match jobByID jobs outcome.jobID with
      | none => observeBatchOutcomes jobs rest
      | some job =>
        s.observeBatchOutcome job outcome
        observeBatchOutcomes jobs rest

def applyExecutionBatchOutcomes (ctx : Ctx) (manager : BatchLeaseManager) (jobs : List Job)
    (outcomes : List BatchJobOutcome) : Go (Option OutboxError) := do
  let deadline := (← Go.now) + executionBatchFinalizationTimeout outcomes
  let finalizeCtx := Ctx.withDeadline (.withoutCancel ctx) deadline
  match ← manager.finalizeAll finalizeCtx (deadline + batchFinalizationMargin)
      (Go.runInTx finalizeCtx (.applyOutcomes manager.leaseToken jobs outcomes)) with
  | some error => return some error
  | none =>
    s.observeBatchOutcomes jobs outcomes
    return none

def topLevelBatchRetryTime (capability : JobCapability) (error : OutboxError) : Go Int := do
  let now ← Go.now
  match deferTime error with
  | some deferAt =>
    Go.pauseBatchCapability s.process capability (notBefore now deferAt)
    return notBefore now deferAt
  | none =>
    match retryAtTime error with
    | some retryAt =>
      Go.pauseBatchCapability s.process capability (notBefore now retryAt)
      return notBefore now retryAt
    | none => Go.nextBatchRetry s.process capability now

/-- The outcome of one item; an error stops the finalization. -/
def itemOutcome (capability : JobCapability) (registration : BatchJobRegistration) (now : Int)
    (job : Job) : Option OutboxError → Go (Except OutboxError BatchJobOutcome)
  | none => return .ok { jobID := job.id, kind := .success }
  | some itemErr => do
      if isPermanent itemErr then
        return .ok (dlqExecutionBatchOutcome job ("permanent failure: " ++ errorText itemErr))
      else
        match deferTime itemErr with
        | some time =>
          Go.pauseBatchCapability s.process capability (notBefore now time)
          return .ok { jobID := job.id, kind := .defer, availableAt := notBefore now time }
        | none =>
          if registration.maxAttempts ≤ job.attempts then
            return .ok (dlqExecutionBatchOutcome job
              ("max attempts exceeded: " ++ errorText itemErr))
          else
            match ← s.retryTime job itemErr now (batchAttemptBackoff job.attempts) with
            | (_, some error) => return .error error
            | (availableAt, none) =>
              return .ok { jobID := job.id, kind := .retry, availableAt := availableAt }

def itemOutcomes (capability : JobCapability) (registration : BatchJobRegistration) (now : Int) :
    List (Job × Option OutboxError) → Go (Except OutboxError (List BatchJobOutcome))
  | [] => return .ok []
  | (job, itemErr) :: rest => do
      match ← s.itemOutcome capability registration now job itemErr with
      | .error error => return .error error
      | .ok outcome =>
        match ← itemOutcomes capability registration now rest with
        | .error error => return .error error
        | .ok outcomes => return .ok (outcome :: outcomes)

/-- `errors.As(err, &panicErr)`. -/
def isHandlerPanic (error : OutboxError) : Bool :=
  (error.findLeaf fun
    | .handlerPanicError _ _ => some ()
    | _ => none).isSome

def finishExecutionBatch (ctx : Ctx) (manager : BatchLeaseManager) (capability : JobCapability)
    (registration : BatchJobRegistration) (jobs : List Job) (items : List BatchJobItem)
    (result : BatchResult) (handleErr : Option OutboxError) : Go (Option OutboxError) := do
  match handleErr with
  | some handleErr =>
    if isHandlerPanic handleErr then return some handleErr
    else if ¬ result.isEmpty then
      return some (joinTwo (leafError .errInvalidBatchResult
        ": non-empty result with top-level error") handleErr)
    else if isPermanent handleErr then
      return some (errorContext "permanent top-level batch failure" handleErr)
    else
      let availableAt ← s.topLevelBatchRetryTime capability handleErr
      s.applyExecutionBatchOutcomes ctx manager jobs
        (jobs.map fun job => { jobID := job.id, kind := .defer, availableAt := availableAt })
  | none =>
    match validateBatchResult items result with
    | .error error => return some error
    | .ok errs =>
      Go.resetBatchRetryStreak s.process capability
      let now ← Go.now
      match ← s.itemOutcomes capability registration now (jobs.zip errs) with
      | .error error => return some error
      | .ok outcomes => s.applyExecutionBatchOutcomes ctx manager jobs outcomes

/-! ## The group -/

/-- `executeBatchHandler`: a panic is recovered before the context is asked. -/
def executeBatchHandler (ctx : Ctx) (capability : JobCapability)
    (registration : BatchJobRegistration) (leaseToken : LeaseToken)
    (items : List BatchJobItem) : Go (BatchResult × Option OutboxError) := do
  let handlerCtx := Ctx.withDeadline ctx ((← Go.now) + registration.executionTimeout)
  Go.handleBatch handlerCtx leaseToken items
  match ← Go.handledBatch leaseToken items with
  | .goexit => .goexit
  | .panicked value => return ([], some (.leaf (.handlerPanicError capability.name value)))
  | .returned (result, error) =>
    match ← Go.cause handlerCtx with
    | some cause => return ([], some cause)
    | none => return (result, error)

/-- Stop before the handler: the heartbeat is joined and every row released. -/
def abandonExecutionBatch (manager : BatchLeaseManager) (error : OutboxError) :
    Go (Option OutboxError) := do
  let heartbeatErr ← manager.stopAndWait
  let releaseErr ← manager.releaseUnstarted (.run s.process)
  return join [some error, heartbeatErr, releaseErr]

/-- Stop after the handler: every row stays leased until its lease expires. -/
def forgetExecutionBatch (manager : BatchLeaseManager) (error : OutboxError) :
    Go (Option OutboxError) := do
  manager.forgetAll
  let heartbeatErr ← manager.stopAndWait
  return join [some error, heartbeatErr]

def batchJobItem (job : Job) : BatchJobItem := ⟨job.id, job.payload, job.attempts⟩

/-- After the handler ran: finalize the batch. On an invalid result or a failed
finalization the rows are left for recovery by expiry. -/
def settleExecutionBatch (manager : BatchLeaseManager) (capability : JobCapability)
    (registration : BatchJobRegistration) (jobs : List Job) (items : List BatchJobItem)
    (result : BatchResult) (handleErr : Option OutboxError) : Go (Option OutboxError) := do
  match ← s.finishExecutionBatch (.run s.process) manager capability registration jobs items
      result handleErr with
  | some error =>
    manager.forgetAll
    let heartbeatErr ← manager.stopAndWait
    let releaseErr ← manager.releaseUnstarted (.run s.process)
    return join [some error, heartbeatErr, releaseErr]
  | none =>
    let heartbeatErr ← manager.stopAndWait
    let releaseErr ← manager.releaseUnstarted (.run s.process)
    return join [heartbeatErr, heartbeatErr, releaseErr]

/-- From the admission of the collected rows on. -/
def runExecutionBatch (manager : BatchLeaseManager) (capability : JobCapability)
    (registration : BatchJobRegistration) (selected : List Job) : Go (Option OutboxError) := do
  let batchCtx := Ctx.group manager.group
  match ← manager.admitBatch batchCtx s.process with
  | some error => s.abandonExecutionBatch manager error
  | none =>
    let items := selected.map batchJobItem
    let (result, handleErr) ← executeBatchHandler batchCtx capability registration
      manager.leaseToken items
    match ← Go.cause batchCtx with
    | some cause => forgetExecutionBatch manager cause
    | none =>
      match handleErr.filter isHandlerPanic with
      | some error => forgetExecutionBatch manager error
      | none =>
        s.settleExecutionBatch manager capability registration selected items result
          handleErr

/-- The work of a claimed execution batch; returns the number of collected rows
and an error. -/
def processExecutionBatch (capability : JobCapability) (registration : BatchJobRegistration)
    (manager : BatchLeaseManager) (jobs : List Job) : Go (Nat × Option OutboxError) := do
  match ← s.fillExecutionBatch (.group manager.group) manager capability registration jobs with
  | (filled, some error) => return (filled.length, ← s.abandonExecutionBatch manager error)
  | (filled, none) =>
    let retErr ← s.runExecutionBatch manager capability registration
      (sortExecutionBatchJobs filled)
    return (filled.length, retErr)

/-- Returns whether a batch was claimed, and an error. -/
def findAndProcessExecutionBatch (capability : JobCapability) :
    Go (Bool × Option OutboxError) := do
  match s.batchJobs.lookup capability with
  | none =>
    let error := .text ("batch capability disappeared: " ++ printed capability.name ++
      s!" schema version {capability.schemaVersion}")
    return (false, ← s.reportGroup 0 (some error))
  | some registration =>
    if ¬ s.batchJobsRepository then
      return (false, ← s.reportGroup 0 (some (.leaf .errBatchRepositoryNotConfigured)))
    else
      match ← s.claimInitialExecutionBatch (.run s.process) capability registration with
      | (jobs, _, some error) =>
        if error.is .errNoJobs then return (false, ← s.reportGroup jobs.length none)
        else return (false, ← s.reportGroup jobs.length (some error))
      | (jobs, leaseToken, none) =>
        let (claimedJobs, retErr) ← s.withManager leaseToken jobs fun manager =>
          s.processExecutionBatch capability registration manager jobs
        return (true, ← s.reportGroup claimedJobs retErr)

end Service

end OutboxFormal
