import OutboxFormal.Service.Effects

/-!
# The lease manager of a claimed group

The ledger of deadlines and the programs that use it under the manager's
mutex: the heartbeat, the admission check, the protective renewals before a
finalization, and the ways a row leaves the ledger. Iteration over the Go map
`outstanding` is iteration in insertion order.
-/

namespace OutboxFormal

open Library GoError

def leaseFinalizationTimeout : Int := 5 * second
def batchFinalizationMargin : Int := second

/-! ## The ledger -/

namespace Ledger

def empty : Ledger := ⟨[], .empty, 0⟩

/-- The keys of `outstanding`. -/
def ids (ledger : Ledger) : List JobID := ledger.outstanding.rows.map Prod.fst

/-- `earliest.IsZero() || until.Before(earliest)` replaces the bound. -/
def earlier (earliest until_ : Int) : Int :=
  if earliest = 0 ∨ until_ < earliest then until_ else earliest

/-- The bound of a full scan, zero for an empty ledger. -/
def earliest (ledger : Ledger) : Int :=
  (ledger.outstanding.rows.map Prod.snd).foldl earlier 0

/-- `recomputeEarliestLocked`. -/
def recomputeEarliest (ledger : Ledger) : Ledger :=
  { ledger with earliestUntil := ledger.earliest }

/-- `ReservedAt.Time` of a claimed job; a null deadline reads as the zero time. -/
def deadlineOf (job : Job) : Int := job.reservedAt.getD 0

def enter (ledger : Ledger) (job : Job) : Ledger where
  orderedIDs := ledger.orderedIDs ++ [job.id]
  outstanding := ledger.outstanding.upsert (job.id, deadlineOf job)
  earliestUntil := earlier ledger.earliestUntil (deadlineOf job)

/-- The ledger a new manager starts with. -/
def ofJobs (jobs : List Job) : Ledger := jobs.foldl enter empty

/-- `clear(m.outstanding)` and the zero bound. -/
def clear (ledger : Ledger) : Ledger :=
  { ledger with outstanding := .empty, earliestUntil := 0 }

/-- `delete(m.outstanding, jobID)`; the last deletion resets the bound. -/
def remove (ledger : Ledger) (id : JobID) : Ledger :=
  let outstanding := ledger.outstanding.delete fun entry => decide (entry.1 = id)
  { ledger with
    outstanding := outstanding
    earliestUntil := if outstanding.rows.isEmpty then 0 else ledger.earliestUntil }

/-- The outstanding entries in the order of `orderedIDs`. -/
def inOrder (ledger : Ledger) : List (JobID × Int) :=
  ledger.orderedIDs.filterMap ledger.outstanding.get?

/-- `outstandingIDsLocked`. -/
def outstandingIDs (ledger : Ledger) : List JobID :=
  ledger.orderedIDs.filter fun id => (ledger.outstanding.get? id).isSome

/-- The ids whose deadline is before `requiredUntil`. -/
def expiringBefore (ledger : Ledger) (requiredUntil : Int) : List JobID :=
  (ledger.inOrder.filter fun entry => decide (entry.2 < requiredUntil)).map Prod.fst

/-- The bound found while the expiring ids are collected. -/
def earliestInOrder (ledger : Ledger) : Int :=
  (ledger.inOrder.map Prod.snd).foldl earlier 0

def extended (ledger : Ledger) (jobIDs : List JobID) (until_ : Int) : Ledger :=
  { ledger with
    outstanding := jobIDs.foldl (fun outstanding id => outstanding.upsert (id, until_))
      ledger.outstanding }

end Ledger

def renewalDeadline (requiredUntil targetUntil : Int) : Int :=
  truncate (if targetUntil < requiredUntil then requiredUntil else targetUntil) millisecond +
    millisecond

/-- `batchStartError`. -/
def batchStartError (ctx : Ctx) (process : Nat) : Go (Option OutboxError) := do
  match ← Go.cause ctx with
  | some cause => return some cause
  | none =>
    if ← Go.isDraining process then return some (.leaf .errServiceDraining)
    else return none

/-- `validateClaimedJobLease`. -/
def validateClaimedJobLease (job : Job) (token : LeaseToken) (now : Int) : Option OutboxError :=
  if job.leaseToken ≠ token then
    some (leafError .errLeaseLost (": invalid lease token for job " ++ printed job.id.string))
  else if job.reservedAt.all fun reserved => reserved ≤ now then
    some (leafError .errLeaseLost
      (": invalid or expired claimed lease for job " ++ printed job.id.string))
  else none

/-- The release `releaseUnstarted` and `releaseClaimedBatchTail` make: it outlives
the cancellation of its context, and every row has to be affected. -/
def releaseJobs (what : String) (ctx : Ctx) (jobIDs : List JobID) (leaseToken : LeaseToken) :
    Go (Option OutboxError) := do
  let deadline := (← Go.now) + leaseFinalizationTimeout
  let finalizeCtx := Ctx.withDeadline (.withoutCancel ctx) deadline
  let now ← Go.now
  match ← Go.releaseUnstartedJobsWithLease finalizeCtx jobIDs leaseToken now with
  | (_, some error) => return some (errorContext ("release " ++ what) error)
  | (affected, none) =>
    if affected ≠ jobIDs.length then
      return some (leafError .errLeaseLost
        (s!": released {affected} of {jobIDs.length} " ++ what))
    else return none

namespace BatchLeaseManager

variable (m : BatchLeaseManager)

/-- Run a critical section; the mutex is released by a deferred call. -/
def locked {α : Type} (body : Ledger → Go α) : Go α := do
  let ledger ← Go.lock m.group
  Program.onExit (Go.unlock m.group) (Go.unlock m.group) (body ledger)

/-- The same with `LockContext`; a failure to lock cancels the group. -/
def lockedContext (ctx : Ctx) (body : Ledger → Go (Option OutboxError)) :
    Go (Option OutboxError) := do
  match ← Go.lockContext m.group ctx with
  | .error cause => do
      Go.cancelCause m.group (some cause)
      return some cause
  | .ok ledger => Program.onExit (Go.unlock m.group) (Go.unlock m.group) (body ledger)

def failLeaseLocked (error : OutboxError) : Go (Option OutboxError) := do
  Go.setError m.group error
  Go.cancelCause m.group (some error)
  return some error

def checkLeasesLocked (ledger : Ledger) (now : Int) : Go (Option OutboxError × Ledger) :=
  if now < ledger.earliestUntil then return (none, ledger)
  else
    match ledger.outstanding.rows.find? fun entry => decide (entry.2 ≤ now) with
    | some entry => do
        let error ← m.failLeaseLocked (leafError .errLeaseLost
          (": expired lease for job " ++ printed entry.1.string))
        return (error, ledger)
    | none => do
        let ledger := ledger.recomputeEarliest
        Go.store m.group ledger
        return (none, ledger)

/-- A repository call that succeeded still fails if its context is over. -/
def orCause (ctx : Ctx) : Option OutboxError → Go (Option OutboxError)
  | some error => return some error
  | none => Go.cause ctx

def enterExtension (ledger : Ledger) (jobIDs : List JobID) (until_ affected : Int) :
    Option OutboxError → Go (Option OutboxError × Ledger)
  | some error => do
      let error ← m.failLeaseLocked (joinTwo (.leaf .errLeaseLost)
        (errorContext "extend reservation batch leases" error))
      return (error, ledger)
  | none => do
      if affected ≠ jobIDs.length then
        let error ← m.failLeaseLocked (leafError .errLeaseLost
          s!": extended {affected} of {jobIDs.length} reservation batch leases")
        return (error, ledger)
      else
        let ledger := (ledger.extended jobIDs until_).recomputeEarliest
        Go.store m.group ledger
        let now ← Go.now
        m.checkLeasesLocked ledger now

/-- The extension of the rows that expire too early. -/
def extendLocked (ctx : Ctx) (ledger : Ledger) (now : Int) (jobIDs : List JobID)
    (until_ : Int) : Go (Option OutboxError × Ledger) := do
  let extendCtx := Ctx.withDeadline ctx ledger.earliestUntil
  let answer ← Go.extendJobLeases extendCtx jobIDs m.leaseToken now until_
  let failure ← orCause extendCtx answer.2
  m.enterExtension ledger jobIDs until_ answer.1 failure

def ensureLeasesLocked (ctx : Ctx) (ledger : Ledger) (requiredUntil targetUntil : Int) :
    Go (Option OutboxError × Ledger) := do
  let now ← Go.now
  match ← m.checkLeasesLocked ledger now with
  | (some error, ledger) => return (some error, ledger)
  | (none, ledger) =>
    if ledger.earliestUntil < requiredUntil then
      let jobIDs := ledger.expiringBefore requiredUntil
      let ledger := { ledger with earliestUntil := ledger.earliestInOrder }
      Go.store m.group ledger
      if jobIDs.isEmpty then return (none, ledger)
      else m.extendLocked ctx ledger now jobIDs (renewalDeadline requiredUntil targetUntil)
    else return (none, ledger)

def extend (ctx : Ctx) : Go (Option OutboxError) :=
  m.locked fun ledger => do
    let target := (← Go.now) + m.reserveFor
    let (error, _) ← m.ensureLeasesLocked ctx ledger target target
    return error

def heartbeats : Nat → Go Unit
  | 0 => Go.halt
  | rounds + 1 => do
      if ← Go.tick m.group then
        match ← m.extend (.heartbeat m.group) with
        | some _ => return ()
        | none => heartbeats rounds
      else return ()

/-- The goroutine of a manager. -/
def run (rounds : Nat) : Go Unit :=
  Program.onExit (Go.closeDone m.group) (Go.closeDone m.group) (m.heartbeats rounds)

/-- `admit`. -/
def admitBatch (ctx : Ctx) (process : Nat) : Go (Option OutboxError) :=
  m.locked fun ledger => do
    match ← batchStartError ctx process with
    | some error => return some error
    | none =>
      if ledger.outstanding.rows.isEmpty then return some (.leaf .errLeaseLost)
      else
        let now ← Go.now
        match ← m.checkLeasesLocked ledger now with
        | (some error, _) => return some error
        | (none, ledger) =>
          if ledger.earliestUntil < now + m.reserveFor / 3 then
            let target := now + m.reserveFor
            match ← m.ensureLeasesLocked ctx ledger target target with
            | (some error, _) => return some error
            | (none, _) => batchStartError ctx process
          else batchStartError ctx process

/-- The common end of `finalize` and `finalizeAll`: renew the leases, run the
finalization, and drop its rows from the ledger. -/
def finalizeLocked (ctx : Ctx) (ledger : Ledger) (requiredUntil targetUntil : Int)
    (finalization : Go (Option OutboxError)) (drop : Ledger → Ledger) :
    Go (Option OutboxError) := do
  match ← m.ensureLeasesLocked ctx ledger requiredUntil targetUntil with
  | (some error, _) => return some error
  | (none, ledger) =>
    match ← Go.err ctx with
    | some error => return some error
    | none =>
      match ← finalization with
      | some error => return some error
      | none =>
        Go.store m.group (drop ledger)
        return none

def finalize (ctx : Ctx) (jobID : JobID) (finalization : Ctx → Go (Option OutboxError)) :
    Go (Option OutboxError) := do
  let deadline := (← Go.now) + leaseFinalizationTimeout
  let finalizeCtx := Ctx.withDeadline (.withoutCancel ctx) deadline
  m.lockedContext finalizeCtx fun ledger => do
    if (ledger.outstanding.get? jobID).isNone then return some (.leaf .errLeaseLost)
    else
      let requiredUntil := deadline + batchFinalizationMargin
      m.finalizeLocked finalizeCtx ledger requiredUntil (requiredUntil + m.reserveFor)
        (finalization finalizeCtx) fun ledger => ledger.remove jobID

/-- The rows are checked and entered one by one. -/
def addLocked (ledger : Ledger) : List Job → Go (Option OutboxError)
  | [] => return none
  | job :: rest => do
      match validateClaimedJobLease job m.leaseToken (← Go.now) with
      | some error => return some error
      | none =>
        if (ledger.outstanding.get? job.id).isSome then
          return some (leafError .errLeaseLost
            (": duplicate claimed job " ++ printed job.id.string))
        else
          Go.store m.group (ledger.enter job)
          addLocked (ledger.enter job) rest

def add (jobs : List Job) : Go (Option OutboxError) :=
  m.locked fun ledger => m.addLocked ledger jobs

def finalizeAll (ctx : Ctx) (leaseUntil : Int) (finalization : Go (Option OutboxError)) :
    Go (Option OutboxError) :=
  m.lockedContext ctx fun ledger => do
    if ledger.outstanding.rows.isEmpty then return some (.leaf .errLeaseLost)
    else m.finalizeLocked ctx ledger leaseUntil leaseUntil finalization Ledger.clear

def forget (jobID : JobID) : Go Unit :=
  m.locked fun ledger => Go.store m.group (ledger.remove jobID)

def forgetAll : Go Unit :=
  m.locked fun ledger => Go.store m.group ledger.clear

def releaseUnstarted (ctx : Ctx) : Go (Option OutboxError) :=
  m.locked fun ledger => do
    let jobIDs := ledger.outstandingIDs
    if jobIDs.isEmpty then return none
    else
      match ← releaseJobs "unstarted reservation batch jobs" ctx jobIDs m.leaseToken with
      | some error => return some error
      | none =>
        Go.store m.group ledger.clear
        return none

def stopAndWait : Go (Option OutboxError) := do
  Go.stop m.group
  Go.waitDone m.group
  Go.getError m.group

end BatchLeaseManager

end OutboxFormal
