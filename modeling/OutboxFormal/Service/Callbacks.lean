import OutboxFormal.Service.Effects

/-!
# Transaction callbacks

What the service does inside `RunInTx`: move one job to the dead letter table,
or apply the outcomes of a whole batch. The failed rows are inserted before the
active rows are removed, and any error rolls the transaction back.
-/

namespace OutboxFormal

open Library Storage

/-- The calls made inside a `RunInTx` callback. -/
inductive TxEffect where
  | now
  | createFailedJobVersioned (jobID : JobID) (name : Bytes) (schemaVersion : Int)
      (payload : Bytes) (reason : String)
  | deleteJobWithLease (jobID : JobID) (leaseToken : LeaseToken) (now : Int)
  | applyBatchJobOutcomes (leaseToken : LeaseToken) (now : Int)
      (outcomes : List BatchJobOutcome)
  deriving DecidableEq, Repr

@[reducible]
def TxAnswer : TxEffect → Type
  | .now => Int
  | .createFailedJobVersioned .. => Option OutboxError
  | .deleteJobWithLease .. | .applyBatchJobOutcomes .. => Int × Option OutboxError

/-- A `RunInTx` callback; it returns its error. -/
abbrev TxBody := Program TxAnswer (Option OutboxError)

namespace Tx

def now : Program TxAnswer Int := .perform TxEffect.now
def createFailedJobVersioned (jobID : JobID) (name : Bytes) (schemaVersion : Int)
    (payload : Bytes) (reason : String) : Program TxAnswer (Option OutboxError) :=
  .perform (TxEffect.createFailedJobVersioned jobID name schemaVersion payload reason)
def deleteJobWithLease (jobID : JobID) (leaseToken : LeaseToken) (now : Int) :
    Program TxAnswer (Int × Option OutboxError) :=
  .perform (TxEffect.deleteJobWithLease jobID leaseToken now)
def applyBatchJobOutcomes (leaseToken : LeaseToken) (now : Int)
    (outcomes : List BatchJobOutcome) : Program TxAnswer (Int × Option OutboxError) :=
  .perform (TxEffect.applyBatchJobOutcomes leaseToken now outcomes)

end Tx

/-- `jobsByID`: the last job stored under an id. -/
def jobByID (jobs : List Job) (id : JobID) : Option Job :=
  jobs.reverse.find? fun job => job.id = id

/-- The callback of `dlqBatch`. -/
def dlqBody (job : Job) (reason : String) : TxBody := do
  match ← Tx.createFailedJobVersioned job.id job.name job.schemaVersion job.payload reason with
  | some error => return some (errorContext "create versioned failed job" error)
  | none =>
    let now ← Tx.now
    match ← Tx.deleteJobWithLease job.id job.leaseToken now with
    | (_, some error) => return some (errorContext "delete reservation batch job" error)
    | (affected, none) =>
      if affected ≠ 1 then return some (.leaf .errLeaseLost) else return none

def createExecutionBatchDLQRecords (jobs : List Job) : List BatchJobOutcome → TxBody
  | [] => return none
  | outcome :: rest => do
      if outcome.kind ≠ .dlq then createExecutionBatchDLQRecords jobs rest
      else
        match jobByID jobs outcome.jobID with
        | none =>
          return some (leafError .errInvalidBatchResult
            (": DLQ outcome references unknown job " ++ printed outcome.jobID.string))
        | some job =>
          match ← Tx.createFailedJobVersioned job.id job.name job.schemaVersion job.payload
              outcome.reason with
          | some error => return some (errorContext "create versioned failed batch job" error)
          | none => createExecutionBatchDLQRecords jobs rest

/-- The callback of `applyExecutionBatchOutcomes`. -/
def outcomesBody (leaseToken : LeaseToken) (jobs : List Job)
    (outcomes : List BatchJobOutcome) : TxBody := do
  match ← createExecutionBatchDLQRecords jobs outcomes with
  | some error => return some error
  | none =>
    let now ← Tx.now
    match ← Tx.applyBatchJobOutcomes leaseToken now outcomes with
    | (_, some error) => return some (errorContext "apply batch job outcomes" error)
    | (affected, none) =>
      if affected ≠ outcomes.length then
        return some (leafError .errLeaseLost
          s!": finalized {affected} of {outcomes.length} batch jobs")
      else return none

def TxCallback.body : TxCallback → TxBody
  | .dlqBatch job reason => dlqBody job reason
  | .applyOutcomes leaseToken jobs outcomes => outcomesBody leaseToken jobs outcomes

end OutboxFormal
