import OutboxFormal.Service.Claim
import OutboxFormal.Service.Callbacks

/-!
# The single-job path

Dispositions of handler errors, retry scheduling, the fenced finalizations of
one row, and the group function that claims up to a batch of jobs and hands
them to their handlers one by one.
-/

namespace OutboxFormal

open Library Storage GoError

/-! ## Dispositions -/

/-- `IsPermanent`. -/
def isPermanent (error : OutboxError) : Bool :=
  (error.findMark fun
    | .permanent => some ()
    | _ => none).isSome

/-- `DeferTime`: the first `DeferAt` of the tree. -/
def deferTime (error : OutboxError) : Option Int :=
  error.findMark fun
    | .deferAt time => some time
    | _ => none

/-- `RetryTime`: the first `RetryAt` of the tree. -/
def retryAtTime (error : OutboxError) : Option Int :=
  error.findMark fun
    | .retryAt time => some time
    | _ => none

/-- The text of an error inside `%v`; instants of dispositions are printed in
nanoseconds. -/
def errorText (error : OutboxError) : String :=
  error.message ErrorLeaf.message fun
    | .permanent, inner => "permanent: " ++ inner
    | .retryAt time, inner => s!"retry at {time}: " ++ inner
    | .deferAt time, inner => s!"defer at {time}: " ++ inner

/-- An instant that is not before `now`. -/
def notBefore (now time : Int) : Int := if time < now then now else time

namespace Service

variable (s : Service)

/-! ## Retry scheduling -/

/-- `retryPolicyDelay`; a panic of the policy is recovered. -/
def retryPolicyDelay (attempt : RetryAttempt) : Go (Int × Option OutboxError) := do
  match ← Go.retryDelay attempt with
  | .panicked value stack =>
    return (0, some (leafError .errRetryPolicy
      (": panic: " ++ value ++ "\nstack:\n" ++ stack)))
  | .delay duration =>
    if duration < 0 then
      return (0, some (leafError .errRetryPolicy s!": negative delay {duration}ns"))
    else return (duration, none)

def retryTime (job : Job) (handleErr : OutboxError) (now legacyDelay : Int) :
    Go (Int × Option OutboxError) := do
  match retryAtTime handleErr with
  | some time => return (notBefore now time, none)
  | none =>
    if s.retryPolicy then
      match ← retryPolicyDelay ⟨job.id, claimedCapability job, job.attempts, handleErr⟩ with
      | (_, some error) => return (0, some error)
      | (delay, none) => return (now + delay, none)
    else return (now + legacyDelay, none)

/-! ## Telemetry -/

def observeJobOutcome (job : Job) (kind : RuntimeOutcomeKind) (availableAt : Int) : Go Unit := do
  if ¬ s.observer ∨ kind = .dlqCommitted ∧ ¬ s.atomicDLQ then return ()
  else
    let now ← Go.now
    Go.emitOutcome
      { kind := kind, jobID := job.id, capability := claimedCapability job
        attempt := job.attempts, availableAt := availableAt, observedAt := now }

def observeLeaseLoss (error : Option OutboxError) (claimedJobs : Nat) : Go Unit := do
  if ¬ s.observer ∨ ¬ errorsIs error .errLeaseLost then return ()
  else
    let now ← Go.now
    Go.emitOutcome { kind := .leaseLost, claimedJobs := claimedJobs, observedAt := now }

/-! ## Finalizations of one row -/

def deferLeased (ctx : Ctx) (job : Job) (availableAt : Int) : Go (Option OutboxError) := do
  if ¬ s.deferJobsRepository then return some (.leaf .errBatchRepositoryNotConfigured)
  else
    let now ← Go.now
    let availableAt := notBefore now availableAt
    match ← Go.leased ctx (.defer availableAt) job.id job.leaseToken now with
    | (_, some error) => return some (errorContext "defer leased job" error)
    | (affected, none) =>
      if affected ≠ 1 then return some (.leaf .errLeaseLost)
      else
        Go.pauseBatchCapability s.process ⟨job.name, job.schemaVersion⟩ availableAt
        s.observeJobOutcome job .deferPersisted availableAt
        return none

def ackBatch (ctx : Ctx) (job : Job) : Go (Option OutboxError) := do
  let now ← Go.now
  match ← Go.leased ctx .delete job.id job.leaseToken now with
  | (_, some error) => return some (errorContext "delete reservation batch job" error)
  | (affected, none) =>
    if affected ≠ 1 then return some (.leaf .errLeaseLost)
    else
      s.observeJobOutcome job .ackConfirmed 0
      return none

def dlqBatch (ctx : Ctx) (job : Job) (reason : String) : Go (Option OutboxError) := do
  match ← Go.runInTx ctx (.dlqBatch job reason) with
  | some error => return some error
  | none =>
    s.observeJobOutcome job .dlqCommitted 0
    return none

def rescheduleLeased (ctx : Ctx) (job : Job) (availableAt : Int) : Go (Option OutboxError) := do
  let now ← Go.now
  let availableAt := notBefore now availableAt
  match ← Go.leased ctx (.reschedule availableAt) job.id job.leaseToken now with
  | (_, some error) => return some (errorContext "reschedule job" error)
  | (affected, none) =>
    if affected ≠ 1 then return some (.leaf .errLeaseLost)
    else
      s.observeJobOutcome job .retryPersisted availableAt
      return none

/-! ## Handler calls -/

/-- `handleJob`: a panic is recovered, `runtime.Goexit` unwinds the worker. -/
def handleJob (ctx : Ctx) (job : Job) : Go (Option OutboxError) := do
  Go.handle ctx job
  match ← Go.handled job with
  | .returned error => return error
  | .panicked value =>
    return some (.text ("panic in job \"" ++ printed job.name ++ "\": " ++ value))
  | .goexit => .goexit

def executeJob (ctx : Ctx) (handler : JobHandler) (job : Job) : Go (Option OutboxError) := do
  let handlerCtx := Ctx.withDeadline ctx ((← Go.now) + handler.executionTimeout)
  let error ← handleJob handlerCtx job
  match ← Go.cause handlerCtx with
  | some cause => return some cause
  | none => return error

/-! ## The group -/

def finishFailedJob (ctx : Ctx) (manager : BatchLeaseManager) (handler : JobHandler) (job : Job)
    (handleErr : OutboxError) : Go (Option OutboxError) := do
  if isPermanent handleErr then
    manager.finalize ctx job.id fun finalizeCtx =>
      s.dlqBatch finalizeCtx job ("permanent failure: " ++ errorText handleErr)
  else
    match deferTime handleErr with
    | some availableAt =>
      manager.finalize ctx job.id fun finalizeCtx => s.deferLeased finalizeCtx job availableAt
    | none =>
      if handler.maxAttempts ≤ job.attempts then
        manager.finalize ctx job.id fun finalizeCtx =>
          s.dlqBatch finalizeCtx job ("max attempts exceeded: " ++ errorText handleErr)
      else if (retryAtTime handleErr).isSome ∨ s.retryPolicy then
        let now ← Go.now
        match ← s.retryTime job handleErr now 0 with
        | (_, some error) => return some error
        | (availableAt, none) =>
          manager.finalize ctx job.id fun finalizeCtx =>
            s.rescheduleLeased finalizeCtx job availableAt
      else
        -- The row stays leased until its lease expires.
        manager.forget job.id
        return none

/-- Returns whether the handler was started, and an error. -/
def processBatchJob (ctx : Ctx) (manager : BatchLeaseManager) (job : Job) :
    Go (Bool × Option OutboxError) := do
  match s.jobs.lookup (claimedCapability job) with
  | none =>
    return (false, some (leafError .errUnsupportedClaim
      (": " ++ printed job.name ++ s!" schema version {job.schemaVersion}")))
  | some handler =>
    match ← manager.admitBatch ctx s.process with
    | some error => return (false, some error)
    | none =>
      let handleErr ← executeJob ctx handler job
      match ← Go.cause ctx with
      | some cause => return (true, some cause)
      | none =>
        match handleErr with
        | some handleErr =>
          return (true, ← s.finishFailedJob ctx manager handler job handleErr)
        | none =>
          let error ← manager.finalize ctx job.id fun finalizeCtx =>
            s.ackBatch finalizeCtx job
          return (true, error)

/-- The loop over the claimed jobs; it stops at the first error. -/
def processBatchJobs (ctx : Ctx) (manager : BatchLeaseManager) :
    List Job → Go (Option OutboxError)
  | [] => return none
  | job :: rest => do
      match ← s.processBatchJob ctx manager job with
      | (_, none) => processBatchJobs ctx manager rest
      | (true, some error) =>
        manager.forget job.id
        return some error
      | (false, some error) => return some error

/-- `newBatchLeaseManager` for a group, with the deferred cleanup around its
work: an aborted worker cancels its peers before it joins the heartbeat. -/
def withManager {α : Type} (leaseToken : LeaseToken) (jobs : List Job)
    (work : BatchLeaseManager → Go α) : Go α := do
  let group ← Go.withCancelCause (.run s.process)
  Program.onExit (Go.cancelCause group none) (Go.cancelCause group none) do
    let manager : BatchLeaseManager := ⟨group, leaseToken, s.reserveFor⟩
    Go.newManager manager (.ofJobs jobs) s.rounds
    Program.onExit
      (do let _ ← manager.stopAndWait)
      (do
        Go.notifyWorkerExit s.process
        let _ ← manager.stopAndWait)
      (work manager)

def groupError (processErr heartbeatErr releaseErr : Option OutboxError) : Option OutboxError :=
  let processErr := processErr.or heartbeatErr
  if errorsIs processErr .errServiceDraining ∧ releaseErr = none ∧ heartbeatErr = none then
    some (.leaf .errServiceDraining)
  else if processErr = none ∧ releaseErr = none then none
  else join [processErr, heartbeatErr, releaseErr]

/-- The work of a claimed single-path group. -/
def processGroup (manager : BatchLeaseManager) (jobs : List Job) : Go (Option OutboxError) := do
  let processErr ← s.processBatchJobs (.group manager.group) manager jobs
  let heartbeatErr ← manager.stopAndWait
  let releaseErr ← manager.releaseUnstarted (.run s.process)
  return groupError processErr heartbeatErr releaseErr

/-- The deferred observation of a lost lease, and the recorded result. -/
def reportGroup (claimedJobs : Nat) (retErr : Option OutboxError) : Go (Option OutboxError) := do
  s.observeLeaseLoss retErr claimedJobs
  Go.returned (.group retErr)
  return retErr

def findAndProcessBatch (capabilities : List JobCapability) : Go (Option OutboxError) := do
  match ← s.claimBatch (.run s.process) capabilities with
  | (jobs, _, some error) => s.reportGroup jobs.length (some error)
  | (jobs, leaseToken, none) =>
    let retErr ← s.withManager leaseToken jobs fun manager => s.processGroup manager jobs
    s.reportGroup jobs.length retErr

end Service

end OutboxFormal
