import OutboxFormal.Library.Concurrency
import OutboxFormal.Library.RwLock
import OutboxFormal.Service.Worker

/-!
# Registration of handlers

`RegisterJobs`, `RegisterBatchJob` and `Run` of one service as programs over the
registration lock, the running flag and the two maps of handlers. Every access
to shared memory is an effect of its own, so goroutines interleave between any
two of them. `range` over a map visits its entries in any order. Each call is
announced when it begins and when it returns.
-/

namespace OutboxFormal

open Library Storage GoError

/-! ## Batch configurations -/

def defaultBatchMaxMessages : Int := 100
def defaultBatchMaxBytes : Int := 4 * 2 ^ 20
def defaultBatchMaxWait : Int := 25 * millisecond

structure BatchConfig where
  maxMessages : Int
  maxBytes : Int
  maxWait : Int
  deriving DecidableEq, Repr

namespace BatchConfig

/-- A zero value means the default. -/
def withDefaults (c : BatchConfig) : BatchConfig where
  maxMessages := if c.maxMessages = 0 then defaultBatchMaxMessages else c.maxMessages
  maxBytes := if c.maxBytes = 0 then defaultBatchMaxBytes else c.maxBytes
  maxWait := if c.maxWait = 0 then defaultBatchMaxWait else c.maxWait

def normalize (c : BatchConfig) : Except OutboxError BatchConfig :=
  if c.maxMessages < 0 ∨ c.maxBytes < 0 ∨ c.maxWait < 0 then
    .error (.text "outbox batch limits must not be negative")
  else
    let result := c.withDefaults
    if maxReservationBatchSize < result.maxMessages then
      .error (.text (s!"outbox batch maximum messages {result.maxMessages} exceeds " ++
        s!"{maxReservationBatchSize}"))
    else if 2 ^ 31 - 1 < result.maxBytes then
      .error (.text s!"outbox batch maximum bytes {result.maxBytes} overflows supported bound")
    else .ok result

end BatchConfig

namespace Registration

/-! ## Effects -/

/-- What registration reads of a job; the version is that of a `VersionedJob`. -/
structure JobValue where
  name : Bytes
  schemaVersion : Option Int
  handler : JobHandler
  deriving DecidableEq, Repr

structure BatchJobValue where
  name : Bytes
  schemaVersion : Option Int
  executionTimeout : Int
  maxAttempts : Int
  deriving DecidableEq, Repr

/-- A call of the service's registration interface; `none` is a nil job. -/
inductive Request where
  | registerJobs (jobs : List (Option JobValue))
  | registerBatchJob (job : Option BatchJobValue) (config : BatchConfig)
  | run
  deriving DecidableEq, Repr

inductive Effect where
  | invoke (request : Request)
  | respond (result : Option OutboxError)
  | lock
  | unlock
  | rLock
  | rUnlock
  | loadRunning
  | compareAndSwapRunning
  | storeRunning (value : Bool)
  | getJob (capability : JobCapability)
  | getBatchJob (capability : JobCapability)
  | setJob (capability : JobCapability) (handler : JobHandler)
  | setBatchJob (capability : JobCapability) (registration : BatchJobRegistration)
  | rangeJobs
  | rangeBatchJobs
  | rangeLocal (entries : List (JobCapability × JobHandler))
  | serve (singleCapabilities batchCapabilities : List JobCapability)

abbrev Answer : Effect → Type
  | .loadRunning => Bool
  | .compareAndSwapRunning => Bool
  | .getJob _ => Option JobHandler
  | .getBatchJob _ => Option BatchJobRegistration
  | .rangeJobs => List JobCapability
  | .rangeBatchJobs => List JobCapability
  | .rangeLocal _ => List (JobCapability × JobHandler)
  | .serve _ _ => Option OutboxError
  | _ => Unit

abbrev Go := Program Answer

/-- `s.mu.Lock()` with a deferred `s.mu.Unlock()`. -/
def locked {α : Type} (body : Go α) : Go α := do
  Program.perform Effect.lock
  Program.onExit (Program.perform Effect.unlock) (Program.perform Effect.unlock) body

/-! ## Single jobs -/

/-- `capabilityForJob` and `capabilityForBatchJob`. -/
def capabilityFor (name : Bytes) (schemaVersion : Option Int) : Except OutboxError JobCapability :=
  let capability : JobCapability := ⟨name, schemaVersion.getD defaultSchemaVersion⟩
  capability.validate.map fun _ => capability

def capabilityForJob (job : JobValue) : Except OutboxError JobCapability :=
  capabilityFor job.name job.schemaVersion

def capabilityForBatchJob (job : BatchJobValue) : Except OutboxError JobCapability :=
  capabilityFor job.name job.schemaVersion

/-- The texts of the conflicts; `%q` of a name is printed between plain quotes. -/
def capabilityText (context : String) (capability : JobCapability) (conflict : String) :
    OutboxError :=
  .text (context ++ " \"" ++ printed capability.name ++
    s!"\" schema version {capability.schemaVersion} " ++ conflict)

/-- The checks of `RegisterJobs` before its lock. -/
def collectJobs (capabilities : List (JobCapability × JobHandler)) :
    Nat → List (Option JobValue) → Except OutboxError (List (JobCapability × JobHandler))
  | _, [] => .ok capabilities
  | index, none :: _ => .error (.text s!"job {index} is nil")
  | index, some job :: rest =>
    match capabilityForJob job with
    | .error error => .error (errorContext s!"job {index} capability" error)
    | .ok capability =>
      if capability ∈ capabilities.map Prod.fst then
        .error (capabilityText "job" capability "is duplicated in registration batch")
      else collectJobs (capabilities ++ [(capability, job.handler)]) (index + 1) rest

def findConflict : List (JobCapability × JobHandler) → Go (Option OutboxError)
  | [] => return none
  | (capability, _) :: rest => do
      match ← Program.perform (Effect.getJob capability) with
      | some _ => return some (capabilityText "job" capability "already registered")
      | none =>
        match ← Program.perform (Effect.getBatchJob capability) with
        | some _ =>
          return some (capabilityText "job" capability "already registered as a batch job")
        | none => findConflict rest

def installJobs : List (JobCapability × JobHandler) → Go Unit
  | [] => return ()
  | (capability, handler) :: rest => do
      Program.perform (Effect.setJob capability handler)
      installJobs rest

def registerJobs (jobs : List (Option JobValue)) : Go (Option OutboxError) :=
  match collectJobs [] 0 jobs with
  | .error error => return some error
  | .ok capabilities => locked do
      if ← Program.perform Effect.loadRunning then return some (.leaf .errServiceRunning)
      else
        let checks ← Program.perform (Effect.rangeLocal capabilities)
        match ← findConflict checks with
        | some error => return some error
        | none =>
          let installs ← Program.perform (Effect.rangeLocal capabilities)
          installJobs installs
          return none

/-! ## Batch jobs -/

/-- The checks of `RegisterBatchJob` before its lock; `repositoryMax` is
`MaxExecutionBatchSize` of a repository that implements batches. -/
def prepareBatchJob (repositoryMax : Option Int) (job : Option BatchJobValue)
    (config : BatchConfig) : Except OutboxError (JobCapability × BatchJobRegistration) :=
  match job with
  | none => .error (.text "batch job is nil")
  | some job =>
    match repositoryMax with
    | none => .error (.leaf .errBatchRepositoryNotConfigured)
    | some repositoryMax =>
      match config.normalize with
      | .error error => .error (errorContext "batch config" error)
      | .ok normalized =>
        if repositoryMax < 1 ∨ repositoryMax < normalized.maxMessages then
          .error (leafError .errReservationBatchSizeUnsupported
            (s!": requested {normalized.maxMessages}, " ++
              s!"repository maximum {repositoryMax}"))
        else
          match capabilityForBatchJob job with
          | .error error => .error (errorContext "batch job capability" error)
          | .ok capability =>
            .ok (capability, ⟨job.executionTimeout, job.maxAttempts,
              normalized.maxMessages, normalized.maxBytes, normalized.maxWait⟩)

def registerBatchJob (repositoryMax : Option Int) (job : Option BatchJobValue)
    (config : BatchConfig) : Go (Option OutboxError) :=
  match prepareBatchJob repositoryMax job config with
  | .error error => return some error
  | .ok (capability, registration) => locked do
      if ← Program.perform Effect.loadRunning then return some (.leaf .errServiceRunning)
      else
        match ← Program.perform (Effect.getJob capability) with
        | some _ =>
          return some (capabilityText "job" capability "already registered as a single job")
        | none =>
          match ← Program.perform (Effect.getBatchJob capability) with
          | some _ => return some (capabilityText "batch job" capability "already registered")
          | none =>
            Program.perform (Effect.setBatchJob capability registration)
            return none

/-! ## Run -/

def registeredSingleCapabilities : Go (List JobCapability) := do
  Program.perform Effect.rLock
  let capabilities ← Program.perform Effect.rangeJobs
  Program.perform Effect.rUnlock
  return Service.sortCapabilities capabilities

def registeredBatchCapabilities : Go (List JobCapability) := do
  Program.perform Effect.rLock
  let capabilities ← Program.perform Effect.rangeBatchJobs
  Program.perform Effect.rUnlock
  return Service.sortCapabilities capabilities

/-- `Run`; `serve` is the time until `eg.Wait` returns. -/
def run : Go (Option OutboxError) := do
  if ← Program.perform Effect.compareAndSwapRunning then
    Program.onExit (Program.perform (Effect.storeRunning false))
        (Program.perform (Effect.storeRunning false)) do
      let singleCapabilities ← registeredSingleCapabilities
      let batchCapabilities ← registeredBatchCapabilities
      Program.perform (Effect.serve singleCapabilities batchCapabilities)
  else return some (.leaf .errServiceRunning)

/-! ## Goroutines -/

def Request.program (repositoryMax : Option Int) : Request → Go (Option OutboxError)
  | .registerJobs jobs => OutboxFormal.Registration.registerJobs jobs
  | .registerBatchJob job config =>
    OutboxFormal.Registration.registerBatchJob repositoryMax job config
  | .run => OutboxFormal.Registration.run

/-- A goroutine that makes calls one after another. -/
def client (repositoryMax : Option Int) : List Request → Go Unit
  | [] => return ()
  | request :: rest => do
      Program.perform (Effect.invoke request)
      let result ← request.program repositoryMax
      Program.perform (Effect.respond result)
      client repositoryMax rest

/-! ## Shared memory -/

/-- The fields of a service that registration shares. -/
structure Registry where
  jobs : List (JobCapability × JobHandler)
  batchJobs : List (JobCapability × BatchJobRegistration)
  mu : RwLock
  running : Bool
  deriving DecidableEq, Repr

/-- A new service; with a fan-out repository it has registered its dispatcher. -/
def Registry.new (dispatcher : Option (JobCapability × JobHandler)) : Registry :=
  ⟨dispatcher.toList, [], .unlocked, false⟩

/-- `map[key] = value`. -/
def assign {κ ν : Type} [DecidableEq κ] (key : κ) (value : ν) (entries : List (κ × ν)) :
    List (κ × ν) :=
  if key ∈ entries.map Prod.fst then
    entries.map fun entry => if entry.1 = key then (key, value) else entry
  else entries ++ [(key, value)]

def perform (goroutine : Nat) (before : Registry) (effect : Effect) (answer : Answer effect)
    (after : Registry) : Prop :=
  match effect, answer with
  | .invoke _, _ => after = before
  | .respond _, _ => after = before
  | .lock, _ => ∃ mu, before.mu.Locks goroutine mu ∧ after = { before with mu := mu }
  | .unlock, _ => after = { before with mu := before.mu.unlock }
  | .rLock, _ => ∃ mu, before.mu.RLocks goroutine mu ∧ after = { before with mu := mu }
  | .rUnlock, _ => after = { before with mu := before.mu.rUnlock goroutine }
  | .loadRunning, running => running = before.running ∧ after = before
  | .compareAndSwapRunning, swapped =>
    swapped = !before.running ∧ after = { before with running := true }
  | .storeRunning value, _ => after = { before with running := value }
  | .getJob capability, found => found = before.jobs.lookup capability ∧ after = before
  | .getBatchJob capability, found => found = before.batchJobs.lookup capability ∧ after = before
  | .setJob capability handler, _ =>
    after = { before with jobs := assign capability handler before.jobs }
  | .setBatchJob capability registration, _ =>
    after = { before with batchJobs := assign capability registration before.batchJobs }
  | .rangeJobs, capabilities => capabilities.Perm (before.jobs.map Prod.fst) ∧ after = before
  | .rangeBatchJobs, capabilities =>
    capabilities.Perm (before.batchJobs.map Prod.fst) ∧ after = before
  | .rangeLocal entries, visited => visited.Perm entries ∧ after = before
  | .serve _ _, _ => after = before

/-- Goroutines that share one service. -/
def semantics : Semantics Unit Registry Answer where
  perform := perform
  environment _ _ := False
  spawned _ _ := []

/-- A new service and goroutines that have not made a call yet. -/
def started (dispatcher : Option (JobCapability × JobHandler)) (repositoryMax : Option Int)
    (goroutines : List (List Request)) : Config Unit Registry Answer where
  world := .new dispatcher
  threads := goroutines.map fun requests => Thread.start ((), client repositoryMax requests)

end Registration

end OutboxFormal
