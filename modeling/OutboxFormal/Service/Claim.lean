import OutboxFormal.Service.LeaseManager

/-!
# Claims

The claim boundary shared by both paths, the release of rows that are handed
back, the checks on claimed rows, and the collector that fills an execution
batch within its window.
-/

namespace OutboxFormal

open Library Storage GoError

def batchCollectorClaimLimit : Int := 1
def batchFillPollInterval : Int := 2 * millisecond
def batchFillClaimHeadroom : Int := 5 * millisecond

/-- Rows with an error, as the source returns them. -/
abbrev Claimed := List Job × Option OutboxError

/-- `job.Name` and the normalized schema version. -/
def claimedCapability (job : Job) : JobCapability :=
  ⟨job.name, normalizeSchemaVersion job.schemaVersion⟩

/-! ## Checks on claimed rows -/

/-- `validateBoundedExecutionBatchPayload` from `index` on, with `usedBytes` so far. -/
def validateBoundedPayloadFrom (total : Nat) (maxBytes : Int) :
    Nat → Int → List Job → Option OutboxError
  | _, _, [] => none
  | index, usedBytes, job :: rest =>
    let payloadBytes : Int := job.payload.length
    if index = 0 ∧ maxBytes < payloadBytes then
      if total = 1 then none
      else some (leafError .errUnsupportedClaim
        s!": bounded batch returned {total} jobs after oversized first payload")
    else if maxBytes - usedBytes < payloadBytes then
      some (leafError .errUnsupportedClaim
        (s!": bounded batch payload exceeds {maxBytes} bytes at job " ++
          printed job.id.string))
    else validateBoundedPayloadFrom total maxBytes (index + 1) (usedBytes + payloadBytes) rest

def validateBoundedExecutionBatchPayload (jobs : List Job) (maxBytes : Int) :
    Option OutboxError :=
  validateBoundedPayloadFrom jobs.length maxBytes 0 0 jobs

/-- The row loop of `validateClaimedExecutionBatch`; it reads the clock for
every row. -/
def validateClaimedRows (capability : JobCapability) (leaseToken : LeaseToken)
    (seen : List JobID) : List Job → Go (Option OutboxError)
  | [] => return none
  | job :: rest => do
      if claimedCapability job ≠ capability then
        return some (leafError .errUnsupportedClaim
          (": claimed " ++ printed job.name ++
            s!" schema version {(claimedCapability job).schemaVersion} for " ++
            printed capability.name ++ s!" schema version {capability.schemaVersion}"))
      else
        match validateClaimedJobLease job leaseToken (← Go.now) with
        | some error => return some error
        | none =>
          if job.id ∈ seen then
            return some (leafError .errLeaseLost
              (": duplicate claimed job " ++ printed job.id.string))
          else validateClaimedRows capability leaseToken (job.id :: seen) rest

def validateClaimedExecutionBatch (jobs : List Job) (capability : JobCapability)
    (leaseToken : LeaseToken) (limit : Int) : Go (Option OutboxError) :=
  if jobs.isEmpty then return some (.leaf .errEmptyReservationBatch)
  else if limit < jobs.length then
    return some (.text s!"batch repository returned {jobs.length} jobs for limit {limit}")
  else validateClaimedRows capability leaseToken [] jobs

/-- The lease checks of an ordinary claim, one clock reading for each row. -/
def validateClaimedLeases (leaseToken : LeaseToken) : List Job → Go (Option OutboxError)
  | [] => return none
  | job :: rest => do
      match validateClaimedJobLease job leaseToken (← Go.now) with
      | some error => return some error
      | none => validateClaimedLeases leaseToken rest

/-- `selectBatchPayloadLimitWithUsed`: the selected rows and the tail. -/
def selectBatchPayloadLimitWithUsed (maxBytes : Int) : Int → List Job → List Job × List Job
  | _, [] => ([], [])
  | used, job :: rest =>
    if maxBytes < used + job.payload.length then ([], job :: rest)
    else
      let (selected, tail) :=
        selectBatchPayloadLimitWithUsed maxBytes (used + job.payload.length) rest
      (job :: selected, tail)

/-- `len` of the payloads together. -/
def payloadBytes (jobs : List Job) : Int := (jobs.map fun job => (job.payload.length : Int)).sum

/-- The rows of a cancelled claim that are released: owned, live and distinct. -/
def confirmedClaim (token : LeaseToken) (now : Int) (seen : List JobID) : List Job → List Job
  | [] => []
  | job :: rest =>
    if (validateClaimedJobLease job token now).isSome ∨ job.id ∈ seen then
      confirmedClaim token now seen rest
    else job :: confirmedClaim token now (job.id :: seen) rest

namespace Service

variable (s : Service)

/-! ## The claim boundary -/

/-- `releaseClaimedBatchTail`; the method does not read the service. -/
def releaseClaimedBatchTail (ctx : Ctx) (token : LeaseToken) (jobs : List Job) :
    Go (Option OutboxError) :=
  if jobs.isEmpty then return none
  else releaseJobs "unstarted claimed jobs" ctx (jobs.map Job.id) token

def releaseCancelledClaim (ctx : Ctx) (token : LeaseToken) (jobs : List Job) :
    Go (Option OutboxError) := do
  let now ← Go.now
  releaseClaimedBatchTail ctx token (confirmedClaim token now [] jobs)

def claimJobsWithLease (ctx : Ctx) (token : LeaseToken) (method : ClaimMethod) : Go Claimed := do
  Go.claimRLock s.process
  if ← Go.isDraining s.process then
    Go.claimRUnlock s.process
    return ([], some (.leaf .errServiceDraining))
  else
    let now ← Go.now
    let until_ := now + s.reserveFor
    let claimCtx := Ctx.withDeadline ctx until_
    let (jobs, claimErr) ← Go.claim claimCtx ⟨now, until_, token, method⟩
    let claimCause ← Go.cause claimCtx
    Go.claimRUnlock s.process
    match claimErr, claimCause with
    | some error, _ => return ([], some error)
    | none, none => return (jobs, none)
    | none, some cause =>
      -- The rows are confirmed although cancellation won the race.
      match ← releaseCancelledClaim ctx token jobs with
      | some error =>
        return ([], join [some cause, some (.leaf .errCancelledClaimCleanup), some error])
      | none => return ([], some cause)

/-! ## Ordinary claims -/

def eligibleCapabilities (now : Int) : List JobCapability → Go (List JobCapability)
  | [] => return []
  | capability :: rest => do
      let paused ← Go.batchCapabilityPaused s.process capability now
      let eligible ← eligibleCapabilities now rest
      return if paused then eligible else capability :: eligible

/-- Returns the rows, their token and an error. -/
def claimBatch (ctx : Ctx) (capabilities : List JobCapability) :
    Go (List Job × LeaseToken × Option OutboxError) := do
  if capabilities.isEmpty then return ([], .nil, some (.leaf .errNoJobs))
  else
    let now ← Go.now
    let eligible ← s.eligibleCapabilities now capabilities
    if eligible.isEmpty then return ([], .nil, some (.leaf .errNoJobs))
    else
      let leaseToken ← Go.newLeaseToken
      match ← s.claimJobsWithLease ctx leaseToken
          (.findAndReserveJobsForCapabilities eligible s.reservationBatchSize) with
      | (_, some error) =>
        return ([], .nil, some (errorContext "find and reserve job batch" error))
      | (jobs, none) =>
        if jobs.isEmpty then return ([], .nil, some (.leaf .errEmptyReservationBatch))
        else if s.reservationBatchSize < jobs.length then
          return ([], .nil, some (.text (s!"reservation batch repository returned " ++
            s!"{jobs.length} jobs for limit {s.reservationBatchSize}")))
        else
          match ← validateClaimedLeases leaseToken jobs with
          | some error => return ([], .nil, some error)
          | none => return (jobs, leaseToken, none)

/-! ## Execution batch claims -/

def claimExecutionBatchSingletonWithToken (ctx : Ctx) (capability : JobCapability)
    (leaseToken : LeaseToken) : Go Claimed := do
  match ← s.claimJobsWithLease ctx leaseToken
      (.findAndReserveJobsForCapability capability batchCollectorClaimLimit) with
  | (_, some error) => return ([], some (errorContext "find and reserve execution batch" error))
  | (jobs, none) =>
    match ← validateClaimedExecutionBatch jobs capability leaseToken
        batchCollectorClaimLimit with
    | some error => return ([], some error)
    | none => return (jobs, none)

def claimExecutionBatchBoundedWithToken (ctx : Ctx) (capability : JobCapability)
    (maxMessages maxBytes : Int) (leaseToken : LeaseToken) : Go Claimed := do
  match ← s.claimJobsWithLease ctx leaseToken
      (.findAndReserveJobsForCapabilityBounded capability maxMessages maxBytes) with
  | (_, some error) => return ([], some (errorContext "find and reserve execution batch" error))
  | (jobs, none) =>
    match ← validateClaimedExecutionBatch jobs capability leaseToken maxMessages with
    | some error => return ([], some error)
    | none =>
      match validateBoundedExecutionBatchPayload jobs maxBytes with
      | some error => return ([], some error)
      | none => return (jobs, none)

/-- `claimExecutionBatchForFill`, and the claim `claimInitialExecutionBatch` makes. -/
def claimExecutionBatchForFill (ctx : Ctx) (capability : JobCapability)
    (leaseToken : LeaseToken) (maxMessages maxBytes : Int) : Go Claimed :=
  if s.boundedBatchJobsRepository then
    s.claimExecutionBatchBoundedWithToken ctx capability maxMessages maxBytes leaseToken
  else s.claimExecutionBatchSingletonWithToken ctx capability leaseToken

def claimInitialExecutionBatch (ctx : Ctx) (capability : JobCapability)
    (registration : BatchJobRegistration) : Go (List Job × LeaseToken × Option OutboxError) := do
  let leaseToken ← Go.newLeaseToken
  let (jobs, error) ← s.claimExecutionBatchForFill ctx capability leaseToken
    registration.maxMessages registration.maxBytes
  return (jobs, leaseToken, error)

/-- Returns the rows, whether the fill deadline was reached, and an error. -/
def claimExecutionBatchWithinFillWindow (ctx : Ctx) (capability : JobCapability)
    (leaseToken : LeaseToken) (maxMessages maxBytes deadline : Int) :
    Go (List Job × Bool × Option OutboxError) := do
  if deadline - (← Go.now) ≤ batchFillClaimHeadroom then return ([], true, none)
  else
    let claimCtx := Ctx.withDeadline ctx deadline
    let (jobs, failure) ← s.claimExecutionBatchForFill claimCtx capability leaseToken
      maxMessages maxBytes
    let claimCause ← Go.cause claimCtx
    match failure with
    | none => return (jobs, false, none)
    | some error =>
      if error.is .errCancelledClaimCleanup then return ([], false, some error)
      else
        match ← Go.cause ctx with
        | some cause => return ([], false, some cause)
        | none =>
          if errorsIs claimCause .contextDeadlineExceeded then return ([], true, none)
          else return ([], false, some error)

/-- The rows collected so far with an error. -/
def fillRounds (ctx : Ctx) (manager : BatchLeaseManager) (capability : JobCapability)
    (registration : BatchJobRegistration) (deadline : Int) :
    Nat → List Job → Int → Go Claimed
  | 0, _, _ => Go.halt
  | rounds + 1, jobs, usedBytes => do
      if registration.maxMessages ≤ jobs.length ∨ registration.maxBytes ≤ usedBytes then
        return (jobs, none)
      else if deadline - (← Go.now) ≤ 0 then return (jobs, none)
      else
        match ← s.claimExecutionBatchWithinFillWindow ctx capability manager.leaseToken
            (registration.maxMessages - jobs.length) (registration.maxBytes - usedBytes)
            deadline with
        | (_, true, _) => return (jobs, none)
        | (claimed, false, none) =>
          let (selected, tail) :=
            selectBatchPayloadLimitWithUsed registration.maxBytes usedBytes claimed
          match ← manager.add selected with
          | some error => return (jobs, some error)
          | none =>
            match ← releaseClaimedBatchTail ctx manager.leaseToken tail with
            | some error => return (jobs ++ selected, some error)
            | none =>
              if tail.isEmpty then
                fillRounds ctx manager capability registration deadline rounds
                  (jobs ++ selected) (usedBytes + payloadBytes selected)
              else return (jobs ++ selected, none)
        | (_, false, some error) =>
          if error.is .errNoJobs then
            let remainingWait := deadline - (← Go.now)
            if remainingWait ≤ 0 then return (jobs, none)
            else
              match ← Go.fillWait ctx s.process (min remainingWait batchFillPollInterval) with
              | .cancelled => return (jobs, ← Go.cause ctx)
              | .drained => return (jobs, some (.leaf .errServiceDraining))
              | .elapsed =>
                fillRounds ctx manager capability registration deadline rounds jobs usedBytes
          else return (jobs, some (errorContext "fill execution batch" error))

def fillExecutionBatch (ctx : Ctx) (manager : BatchLeaseManager) (capability : JobCapability)
    (registration : BatchJobRegistration) (initial : List Job) : Go Claimed := do
  let usedBytes := payloadBytes initial
  if registration.maxMessages ≤ initial.length ∨ registration.maxBytes ≤ usedBytes then
    return (initial, none)
  else
    let deadline := (← Go.now) + registration.maxWait
    s.fillRounds ctx manager capability registration deadline s.rounds initial usedBytes

end Service

end OutboxFormal
