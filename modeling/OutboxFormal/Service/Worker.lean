import OutboxFormal.Service.ExecutionBatch

/-!
# Workers

A worker alternates between batch and single groups, sleeps when there was
nothing to do, and stops when the service drains, its context is cancelled or
a group fails.
-/

namespace OutboxFormal

open Library GoError

/-- `workerSchedule`. -/
structure WorkerSchedule where
  batchCursor : Nat
  preferBatch : Bool
  deriving DecidableEq, Repr

namespace Service

variable (s : Service)

/-- The loop of `processOneAvailableBatch` over the remaining indices; returns
whether a batch was processed, an error and the cursor. -/
def processBatchFrom (capabilities : List JobCapability) (cursor : Nat) :
    List Nat → Go (Bool × Option OutboxError × Nat)
  | [] => return (false, none, cursor)
  | index :: rest =>
    match capabilities[index]? with
    | none => processBatchFrom capabilities cursor rest
    | some capability => do
        let now ← Go.now
        if ← Go.batchCapabilityPaused s.process capability now then
          processBatchFrom capabilities cursor rest
        else
          match ← s.findAndProcessExecutionBatch capability with
          | (false, none) => processBatchFrom capabilities cursor rest
          | (true, error) => return (true, error, (index + 1) % capabilities.length)
          | (false, some error) => return (false, some error, cursor)

def processOneAvailableBatch (capabilities : List JobCapability) (cursor : Nat) :
    Go (Bool × Option OutboxError × Nat) :=
  if capabilities.isEmpty then return (false, none, cursor)
  else
    let start := cursor % capabilities.length
    s.processBatchFrom capabilities cursor
      ((List.range capabilities.length).map fun offset => (start + offset) % capabilities.length)

def processOneAvailableSingle (singleCapabilities : List JobCapability) :
    Go (Bool × Option OutboxError) := do
  if singleCapabilities.isEmpty then return (false, none)
  else
    match ← s.findAndProcessBatch singleCapabilities with
    | none => return (true, none)
    | some error =>
      if error.is .errNoJobs ∨ error.is .errServiceDraining then return (false, none)
      else return (false, some error)

/-- The second half of `processWorkerWork`: single work, and then batch work if
it was not tried first. -/
def processSingleFirst (singleCapabilities batchCapabilities : List JobCapability)
    (schedule : WorkerSchedule) : Go (Bool × Option OutboxError × WorkerSchedule) := do
  match ← s.processOneAvailableSingle singleCapabilities with
  | (true, error) => return (true, error, { schedule with preferBatch := true })
  | (false, some error) => return (false, some error, schedule)
  | (false, none) =>
    if schedule.preferBatch then return (false, none, schedule)
    else
      let (didWork, error, cursor) ←
        s.processOneAvailableBatch batchCapabilities schedule.batchCursor
      let schedule := { schedule with batchCursor := cursor }
      if errorsIs error .errServiceDraining then return (false, none, schedule)
      else if didWork then return (true, error, { schedule with preferBatch := false })
      else return (false, error, schedule)

def processWorkerWork (singleCapabilities batchCapabilities : List JobCapability)
    (schedule : WorkerSchedule) : Go (Bool × Option OutboxError × WorkerSchedule) := do
  if schedule.preferBatch then
    let (didWork, error, cursor) ←
      s.processOneAvailableBatch batchCapabilities schedule.batchCursor
    let schedule := { schedule with batchCursor := cursor }
    if errorsIs error .errServiceDraining then return (false, none, schedule)
    else if didWork then return (true, error, { schedule with preferBatch := false })
    else if error.isSome then return (false, error, schedule)
    else s.processSingleFirst singleCapabilities batchCapabilities schedule
  else s.processSingleFirst singleCapabilities batchCapabilities schedule

/-- The loop of `runWorker`. -/
def workerRounds (singleCapabilities batchCapabilities : List JobCapability) :
    Nat → WorkerSchedule → Go (Option OutboxError)
  | 0, _ => Go.halt
  | rounds + 1, schedule => do
      if ← Go.isDraining s.process then return none
      else
        match ← s.processWorkerWork singleCapabilities batchCapabilities schedule with
        | (_, some error, _) =>
          match ← Go.err (.run s.process) with
          | some _ => return none
          | none => return some error
        | (true, none, schedule) =>
          workerRounds singleCapabilities batchCapabilities rounds schedule
        | (false, none, schedule) =>
          if ← Go.waitForWorker (.run s.process) s.process s.idleTime then return none
          else workerRounds singleCapabilities batchCapabilities rounds schedule

def runWorker (singleCapabilities batchCapabilities : List JobCapability)
    (schedule : WorkerSchedule) : Go (Option OutboxError) := do
  let error ← s.workerRounds singleCapabilities batchCapabilities s.rounds schedule
  Go.returned (.runWorker error)
  return error

/-- `sortCapabilities`. -/
def sortCapabilities (capabilities : List JobCapability) : List JobCapability :=
  capabilities.insertionSort fun first second =>
    if first.name = second.name then first.schemaVersion ≤ second.schemaVersion
    else first.name ≤ second.name

def registeredSingleCapabilities : List JobCapability :=
  sortCapabilities (s.jobs.map Prod.fst)

def registeredBatchCapabilities : List JobCapability :=
  sortCapabilities (s.batchJobs.map Prod.fst)

/-- The goroutine of worker `index` that `Run` starts; a worker that unwinds
cancels its peers. -/
def worker (index : Nat) : Go Unit :=
  Program.onExit (pure ()) (Go.notifyWorkerExit s.process) do
    let _ ← s.runWorker s.registeredSingleCapabilities s.registeredBatchCapabilities
      ⟨index, index % 2 = 0⟩

end Service

end OutboxFormal
