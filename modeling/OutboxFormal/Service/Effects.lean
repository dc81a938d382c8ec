import OutboxFormal.Library.Program
import OutboxFormal.Storage.Outcomes

/-!
# What the service does to its surroundings

A worker and its heartbeats are programs. Their effects are the calls that
leave the goroutine: clocks, contexts, the claim lock, the lease manager's
mutex and fields, the repositories, handlers, timers and the observer. The
lease manager's ledger is read when its mutex is taken and written back at
every assignment. Logging is left out.
-/

namespace OutboxFormal

open Library Storage

/-! ## Contexts -/

/-- A context by how it was derived. -/
inductive Ctx where
  /-- The context of the workers of one service. -/
  | run (process : Nat)
  /-- `context.WithCancelCause` of a claimed group. -/
  | group (id : Nat)
  /-- `context.WithCancel` of the group's heartbeat. -/
  | heartbeat (id : Nat)
  | withDeadline (parent : Ctx) (deadline : Int)
  | withoutCancel (parent : Ctx)
  deriving DecidableEq, Repr

/-! ## The lease ledger -/

/-- The deadlines of `batchLeaseManager.outstanding`. -/
abbrev Deadlines := Table (Prod.fst : JobID × Int → JobID)

/-- The fields of a lease manager that its mutex guards. -/
structure Ledger where
  orderedIDs : List JobID
  outstanding : Deadlines
  earliestUntil : Int
  deriving DecidableEq

/-- The lease manager of one claimed group, by its fields that never change. -/
structure BatchLeaseManager where
  group : Nat
  leaseToken : LeaseToken
  reserveFor : Int
  deriving DecidableEq, Repr

/-! ## Handlers and outcomes -/

structure BatchJobItem where
  jobID : JobID
  payload : Bytes
  attempt : Int
  deriving DecidableEq, Repr

/-- The result of one batch item; a nil error acknowledges it. -/
structure BatchItemResult where
  jobID : JobID
  err : Option OutboxError
  deriving DecidableEq, Repr

abbrev BatchResult := List BatchItemResult

/-- How a call into user code ends. -/
inductive HandlerExit (α : Type) where
  | returned (value : α)
  | panicked (value : String)
  | goexit
  deriving DecidableEq, Repr

structure RetryAttempt where
  jobID : JobID
  capability : JobCapability
  attempt : Int
  err : OutboxError
  deriving DecidableEq, Repr

/-- What `RetryPolicy.RetryDelay` did. -/
inductive RetryDelay where
  | delay (duration : Int)
  | panicked (value stack : String)
  deriving DecidableEq, Repr

inductive RuntimeOutcomeKind where
  | ackConfirmed
  | retryPersisted
  | deferPersisted
  | dlqCommitted
  | leaseLost
  deriving DecidableEq, Repr

/-- An event for the observer. A group-level event has no job. -/
structure RuntimeOutcome where
  kind : RuntimeOutcomeKind
  jobID : JobID := .nil
  capability : JobCapability := ⟨[], 0⟩
  attempt : Int := 0
  availableAt : Int := 0
  observedAt : Int
  claimedJobs : Nat := 0
  deriving DecidableEq, Repr

/-! ## Repository calls -/

inductive ClaimMethod where
  | findAndReserveJobsForCapabilities (capabilities : List JobCapability) (limit : Int)
  | findAndReserveJobsForCapability (capability : JobCapability) (limit : Int)
  | findAndReserveJobsForCapabilityBounded (capability : JobCapability)
      (maxMessages maxBytes : Int)
  deriving DecidableEq, Repr

structure ClaimRequest where
  now : Int
  until_ : Int
  leaseToken : LeaseToken
  method : ClaimMethod
  deriving DecidableEq, Repr

/-- The fenced finalizations of one row: `DeleteJobWithLease`,
`RescheduleJobWithLease` and `DeferJobWithLease`. -/
inductive LeasedMethod where
  | delete
  | reschedule (availableAt : Int)
  | defer (availableAt : Int)
  deriving DecidableEq, Repr

/-- The two callbacks the service hands to `RunInTx`: the one of `dlqBatch` and
the one of `applyExecutionBatchOutcomes`. -/
inductive TxCallback where
  | dlqBatch (job : Job) (reason : String)
  | applyOutcomes (leaseToken : LeaseToken) (jobs : List Job) (outcomes : List BatchJobOutcome)
  deriving DecidableEq, Repr

/-! ## Effects -/

/-- How the wait between two fill claims ends. -/
inductive FillWake where
  | cancelled
  | drained
  | elapsed
  deriving DecidableEq, Repr

/-- The end of a function whose result the history records. -/
inductive Return where
  /-- `findAndProcessBatch` or `findAndProcessExecutionBatch`. -/
  | group (err : Option OutboxError)
  | runWorker (err : Option OutboxError)
  deriving DecidableEq, Repr

inductive Effect where
  -- Clock, identifiers and contexts.
  | now
  | newLeaseToken
  | withCancelCause (parent : Ctx)
  | cancelCause (group : Nat) (cause : Option OutboxError)
  | cause (ctx : Ctx)
  | err (ctx : Ctx)
  | notifyWorkerExit (process : Nat)
  -- The drain boundary.
  | isDraining (process : Nat)
  | claimRLock (process : Nat)
  | claimRUnlock (process : Nat)
  -- The lease manager; starting one starts its heartbeat.
  | newManager (manager : BatchLeaseManager) (ledger : Ledger) (rounds : Nat)
  | lock (group : Nat)
  | lockContext (group : Nat) (ctx : Ctx)
  | store (group : Nat) (ledger : Ledger)
  | unlock (group : Nat)
  | setError (group : Nat) (err : OutboxError)
  | getError (group : Nat)
  | stop (group : Nat)
  | waitDone (group : Nat)
  | closeDone (group : Nat)
  | tick (group : Nat)
  -- The repositories.
  | claim (ctx : Ctx) (request : ClaimRequest)
  | extendJobLeases (ctx : Ctx) (jobIDs : List JobID) (leaseToken : LeaseToken) (now until_ : Int)
  | releaseUnstartedJobsWithLease (ctx : Ctx) (jobIDs : List JobID) (leaseToken : LeaseToken)
      (now : Int)
  | leased (ctx : Ctx) (method : LeasedMethod) (jobID : JobID) (leaseToken : LeaseToken)
      (now : Int)
  | runInTx (ctx : Ctx) (callback : TxCallback)
  -- User code: a handler begins with one effect and ends with the next.
  | handle (ctx : Ctx) (job : Job)
  | handled (job : Job)
  | handleBatch (ctx : Ctx) (leaseToken : LeaseToken) (items : List BatchJobItem)
  | handledBatch (leaseToken : LeaseToken) (items : List BatchJobItem)
  | retryDelay (attempt : RetryAttempt)
  -- The paused and failing batch capabilities of a service.
  | batchCapabilityPaused (process : Nat) (capability : JobCapability) (now : Int)
  | pauseBatchCapability (process : Nat) (capability : JobCapability) (until_ : Int)
  | resetBatchRetryStreak (process : Nat) (capability : JobCapability)
  | nextBatchRetry (process : Nat) (capability : JobCapability) (now : Int)
  -- Waiting and telemetry.
  | fillWait (ctx : Ctx) (process : Nat) (duration : Int)
  | waitForWorker (ctx : Ctx) (process : Nat) (duration : Int)
  | emitOutcome (event : RuntimeOutcome)
  -- Not a call of the source: the recorded end of a function.
  | returned (result : Return)
  -- Not a call of the source: a loop is followed no further.
  | halt
  deriving DecidableEq

@[reducible]
def Answer : Effect → Type
  | .now => Int
  | .newLeaseToken => LeaseToken
  | .withCancelCause _ => Nat
  | .cause _ | .err _ | .getError _ => Option OutboxError
  | .isDraining _ => Bool
  | .lock _ => Ledger
  | .lockContext _ _ => Except OutboxError Ledger
  | .tick _ => Bool
  | .claim _ _ => List Job × Option OutboxError
  | .extendJobLeases .. | .releaseUnstartedJobsWithLease .. | .leased .. =>
    Int × Option OutboxError
  | .runInTx _ _ => Option OutboxError
  | .handled _ => HandlerExit (Option OutboxError)
  | .handledBatch _ _ => HandlerExit (BatchResult × Option OutboxError)
  | .retryDelay _ => RetryDelay
  | .batchCapabilityPaused .. => Bool
  | .nextBatchRetry .. => Int
  | .fillWait .. => FillWake
  | .waitForWorker .. => Bool
  | .halt => Empty
  | _ => Unit

abbrev Go := Program Answer

namespace Go

def now : Go Int := .perform Effect.now
def newLeaseToken : Go LeaseToken := .perform Effect.newLeaseToken
def withCancelCause (parent : Ctx) : Go Nat := .perform (Effect.withCancelCause parent)
def cancelCause (group : Nat) (cause : Option OutboxError) : Go Unit :=
  .perform (Effect.cancelCause group cause)
def cause (ctx : Ctx) : Go (Option OutboxError) := .perform (Effect.cause ctx)
def err (ctx : Ctx) : Go (Option OutboxError) := .perform (Effect.err ctx)
def notifyWorkerExit (process : Nat) : Go Unit := .perform (Effect.notifyWorkerExit process)
def isDraining (process : Nat) : Go Bool := .perform (Effect.isDraining process)
def claimRLock (process : Nat) : Go Unit := .perform (Effect.claimRLock process)
def claimRUnlock (process : Nat) : Go Unit := .perform (Effect.claimRUnlock process)
def newManager (manager : BatchLeaseManager) (ledger : Ledger) (rounds : Nat) : Go Unit :=
  .perform (Effect.newManager manager ledger rounds)
def lock (group : Nat) : Go Ledger := .perform (Effect.lock group)
def lockContext (group : Nat) (ctx : Ctx) : Go (Except OutboxError Ledger) :=
  .perform (Effect.lockContext group ctx)
def store (group : Nat) (ledger : Ledger) : Go Unit := .perform (Effect.store group ledger)
def unlock (group : Nat) : Go Unit := .perform (Effect.unlock group)
def setError (group : Nat) (error : OutboxError) : Go Unit := .perform (Effect.setError group error)
def getError (group : Nat) : Go (Option OutboxError) := .perform (Effect.getError group)
def stop (group : Nat) : Go Unit := .perform (Effect.stop group)
def waitDone (group : Nat) : Go Unit := .perform (Effect.waitDone group)
def closeDone (group : Nat) : Go Unit := .perform (Effect.closeDone group)
def tick (group : Nat) : Go Bool := .perform (Effect.tick group)
def claim (ctx : Ctx) (request : ClaimRequest) : Go (List Job × Option OutboxError) :=
  .perform (Effect.claim ctx request)
def extendJobLeases (ctx : Ctx) (jobIDs : List JobID) (leaseToken : LeaseToken)
    (now until_ : Int) : Go (Int × Option OutboxError) :=
  .perform (Effect.extendJobLeases ctx jobIDs leaseToken now until_)
def releaseUnstartedJobsWithLease (ctx : Ctx) (jobIDs : List JobID) (leaseToken : LeaseToken)
    (now : Int) : Go (Int × Option OutboxError) :=
  .perform (Effect.releaseUnstartedJobsWithLease ctx jobIDs leaseToken now)
def leased (ctx : Ctx) (method : LeasedMethod) (jobID : JobID) (leaseToken : LeaseToken)
    (now : Int) : Go (Int × Option OutboxError) :=
  .perform (Effect.leased ctx method jobID leaseToken now)
def runInTx (ctx : Ctx) (callback : TxCallback) : Go (Option OutboxError) :=
  .perform (Effect.runInTx ctx callback)
def handle (ctx : Ctx) (job : Job) : Go Unit := .perform (Effect.handle ctx job)
def handled (job : Job) : Go (HandlerExit (Option OutboxError)) := .perform (Effect.handled job)
def handleBatch (ctx : Ctx) (leaseToken : LeaseToken) (items : List BatchJobItem) : Go Unit :=
  .perform (Effect.handleBatch ctx leaseToken items)
def handledBatch (leaseToken : LeaseToken) (items : List BatchJobItem) :
    Go (HandlerExit (BatchResult × Option OutboxError)) :=
  .perform (Effect.handledBatch leaseToken items)
def retryDelay (attempt : RetryAttempt) : Go RetryDelay := .perform (Effect.retryDelay attempt)
def batchCapabilityPaused (process : Nat) (capability : JobCapability) (now : Int) : Go Bool :=
  .perform (Effect.batchCapabilityPaused process capability now)
def pauseBatchCapability (process : Nat) (capability : JobCapability) (until_ : Int) : Go Unit :=
  .perform (Effect.pauseBatchCapability process capability until_)
def resetBatchRetryStreak (process : Nat) (capability : JobCapability) : Go Unit :=
  .perform (Effect.resetBatchRetryStreak process capability)
def nextBatchRetry (process : Nat) (capability : JobCapability) (now : Int) : Go Int :=
  .perform (Effect.nextBatchRetry process capability now)
def fillWait (ctx : Ctx) (process : Nat) (duration : Int) : Go FillWake :=
  .perform (Effect.fillWait ctx process duration)
def waitForWorker (ctx : Ctx) (process : Nat) (duration : Int) : Go Bool :=
  .perform (Effect.waitForWorker ctx process duration)
def emitOutcome (event : RuntimeOutcome) : Go Unit := .perform (Effect.emitOutcome event)
def returned (result : Return) : Go Unit := .perform (Effect.returned result)

/-- The model follows a loop no further than its bound. -/
def halt {α : Type} : Go α := .call Effect.halt fun answer => nomatch answer

end Go

/-! ## Configuration -/

/-- The limits of a registered single handler. -/
structure JobHandler where
  executionTimeout : Int
  maxAttempts : Int
  deriving DecidableEq, Repr

structure BatchJobRegistration where
  executionTimeout : Int
  maxAttempts : Int
  maxMessages : Int
  maxBytes : Int
  maxWait : Int
  deriving DecidableEq, Repr

/-- A configured service: its registrations, the optional interfaces its
repository implements, and whether a retry policy and an observer are set. -/
structure Service where
  process : Nat
  workers : Nat
  idleTime : Int
  reserveFor : Int
  reservationBatchSize : Int
  jobs : List (JobCapability × JobHandler)
  batchJobs : List (JobCapability × BatchJobRegistration)
  batchJobsRepository : Bool
  boundedBatchJobsRepository : Bool
  deferJobsRepository : Bool
  retryPolicy : Bool
  observer : Bool
  atomicDLQ : Bool
  /-- How many rounds of each loop the model follows. -/
  rounds : Nat
  deriving DecidableEq, Repr

end OutboxFormal
