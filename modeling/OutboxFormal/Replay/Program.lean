import OutboxFormal.Fanout.Snapshot
import OutboxFormal.Library.Scripts
import OutboxFormal.Storage.Idempotency

/-!
# Replaying dead letters

`Replay` stages a fresh job for a row of `jobs_failed` and retains where it came
from in a journal, in one transaction that first locks the failed row. A call is
a program over its statements. The statements of different calls interleave with
each other and with the repository calls of workers; a transaction sees what is
committed and its own writes, keeps the rows it locked until it ends, and waits
for another transaction that has written the same key.
-/

namespace OutboxFormal.Replay

open Library Storage

/-! ## Requests and records -/

abbrev RequestID := MessageID

structure Request where
  requestID : RequestID
  failedJobID : JobID
  deriving DecidableEq, Repr

structure Source where
  failedJobID : JobID
  originalJobID : JobID
  capability : JobCapability
  payload : Bytes
  queue : Bytes
  originalDeduplicationKey : Bytes
  deriving DecidableEq, Repr

structure Record where
  requestID : RequestID
  jobID : JobID
  source : Source
  businessKey : Bytes
  createdAt : Int
  deriving DecidableEq, Repr

structure Result where
  record : Record
  created : Bool
  deriving DecidableEq, Repr

/-- The host's answer for a source: a business key, an error, or no return. -/
abbrev Admission := Source → Exit Bytes

def errReplay (error : ReplayError) : OutboxError := .leaf (.replay error)

def replayKey (id : RequestID) : Bytes := bytes "outbox.replay." ++ id.string

theorem replayKey_injective {first second : RequestID}
    (same : replayKey first = replayKey second) : first = second := by
  obtain ⟨firstUUID⟩ := first
  obtain ⟨secondUUID⟩ := second
  exact congrArg MessageID.mk (uuidString_injective (List.append_cancel_left same))

def Source.withKeyOf (source retained : Source) : Source :=
  { source with originalDeduplicationKey := retained.originalDeduplicationKey }

def validateSource (source : Source) : Except OutboxError Unit :=
  if source.originalJobID.isZero || !source.capability.validate.isOk then
    .error (errReplay .errInvalidSource)
  else if source.capability.name = fanoutDispatcherJobName ∨
      fanoutDeliveryNamePrefix <+: source.capability.name then
    .error (errReplay .errUnsupportedFanout)
  else .ok ()

/-! ## Statements -/

/-- Why the journal refuses a record. -/
inductive InsertFailure where
  | requestID (error : OutboxError)
  | other (error : OutboxError)

/-- The statements of a call, and its return. -/
inductive Statement where
  | contextErr
  | begin_
  | source (id : JobID)
  | byRequestID (id : RequestID)
  | byFailedJobID (id : JobID)
  | active (originalJobID failedJobID : JobID)
  | clock
  | create (put : UniqueBatchPut)
  | queue (queue : Bytes) (id : JobID)
  | record (requestID : RequestID) (source : Source) (jobID : JobID) (businessKey : Bytes)
  | commit
  | rollback
  | returns (exit : Exit Result)

def Reply : Statement → Type
  | .contextErr => Option OutboxError
  | .begin_ => Except OutboxError Unit
  | .source _ => Except OutboxError (Option Source)
  | .byRequestID _ | .byFailedJobID _ => Except OutboxError (Option Record)
  | .active .. => Except OutboxError Bool
  | .clock => Int
  | .create _ => Except OutboxError UniquePutResult
  | .queue .. => Except OutboxError Nat
  | .record .. => Except InsertFailure Int
  | .commit => Except OutboxError Unit
  | .rollback => Option OutboxError
  | .returns _ => Unit

abbrev Repo := Program Reply

def perform (statement : Statement) : Repo (Reply statement) := Program.perform statement

/-! ## The call -/

def lockSource (id : JobID) : Repo (Except OutboxError Source) := do
  match ← perform (.source id) with
  | .error error => pure (.error (errorContext "lock failed job" error))
  | .ok none => pure (.error (errReplay .errSourceNotFound))
  | .ok (some source) => pure (.ok source)

/-- `record` makes an error of a missing row. -/
def found : Except OutboxError (Option Record) → Except OutboxError Record
  | .error error => .error (errorContext "read replay provenance" error)
  | .ok none => .error (errReplay .errReplayNotFound)
  | .ok (some record) => .ok record

def byRequestID (id : RequestID) : Repo (Except OutboxError Record) := do
  let answer ← perform (.byRequestID id)
  pure (found answer)

/-- The source as its first record has it, and that record if there is one. -/
def sourceBaseline (source : Source) : Repo (Except OutboxError (Source × Option Record)) := do
  let answer ← perform (.byFailedJobID source.failedJobID)
  match found answer with
  | .error error =>
    if error.is (.replay .errReplayNotFound) then pure (.ok (source, none))
    else pure (.error error)
  | .ok baseline =>
    if source.withKeyOf baseline.source ≠ baseline.source then
      pure (.error (errReplay .errRequestConflict))
    else pure (.ok (source.withKeyOf baseline.source, some baseline))

def stagedPut (id : RequestID) (source : Source) (now : Int) : UniqueBatchPut where
  deduplicationKey := replayKey id
  content := ⟨source.capability.name, source.capability.schemaVersion, source.payload, now⟩

/-- What `stage` makes of the answer of the journal. -/
def recorded (id : RequestID) (source : Source) (jobID : JobID) (key : Bytes) :
    Except InsertFailure Int → Exit Result
  | .error (.requestID error) =>
    .failed (GoError.joinTwo (errReplay .errRequestConflict) error)
  | .error (.other error) => .failed (errorContext "retain replay provenance" error)
  | .ok createdAt => .returned ⟨⟨id, jobID, source, key, createdAt⟩, true⟩

/-- The rest of `stage` after the job was created. -/
def retain (id : RequestID) (source : Source) (key : Bytes) (jobID : JobID) :
    Repo (Exit Result) := do
  match ← perform (.queue source.queue jobID) with
  | .error error => pure (.failed (errorContext "copy queue" error))
  | .ok affected =>
    if affected ≠ 1 then pure (.failed (errReplay .errRequestConflict))
    else do
      let answer ← perform (.record id source jobID key)
      pure (recorded id source jobID key answer)

def stage (id : RequestID) (source : Source) (key : Bytes) : Repo (Exit Result) := do
  let now ← perform .clock
  match ← perform (.create (stagedPut id source now)) with
  | .error error =>
    if error.is .errIdempotencyConflict then pure (.failed (errReplay .errRequestConflict))
    else pure (.failed (errorContext "stage job" error))
  | .ok job =>
    if !job.created then pure (.failed (errReplay .errRequestConflict))
    else retain id source key job.jobID

def repeated (admission : Admission) (source : Source) (prior : Record) : Exit Result :=
  if source.withKeyOf prior.source ≠ prior.source then .failed (errReplay .errRequestConflict)
  else
    match admission prior.source with
    | .failed error => .failed (errorContext "host admission" error)
    | .panicked value => .panicked value
    | .goexit => .goexit
    | .returned key =>
      if key ≠ prior.businessKey then .failed (errReplay .errRequestConflict)
      else .returned ⟨prior, false⟩

/-- The checks of an admitted key, then the staging of the job. -/
def admitted (id : RequestID) (source : Source) (baseline : Option Record) (key : Bytes) :
    Repo (Exit Result) :=
  if isBlank key then pure (.failed (errReplay .errNotAdmitted))
  else if baseline.any (fun record => !record.requestID.isZero && key ≠ record.businessKey) then
    pure (.failed (errReplay .errRequestConflict))
  else do
    match ← perform (.active source.originalJobID source.failedJobID) with
    | .error error => pure (.failed (errorContext "check active source" error))
    | .ok true => pure (.failed (errReplay .errSourceActive))
    | .ok false => stage id source key

def first (id : RequestID) (admission : Admission) (source : Source) : Repo (Exit Result) := do
  match ← sourceBaseline source with
  | .error error => pure (.failed error)
  | .ok (retained, baseline) =>
    match admission retained with
    | .failed error => pure (.failed (errorContext "host admission" error))
    | .panicked value => pure (.panicked value)
    | .goexit => pure .goexit
    | .returned key => admitted id retained baseline key

/-- The callback of the transaction. -/
def replay (request : Request) (admission : Admission) : Repo (Exit Result) := do
  match ← lockSource request.failedJobID with
  | .error error => pure (.failed error)
  | .ok source =>
    match validateSource source with
    | .error error => pure (.failed error)
    | .ok () =>
      match ← byRequestID request.requestID with
      | .ok prior => pure (repeated admission source prior)
      | .error error =>
        if !error.is (.replay .errReplayNotFound) then pure (.failed error)
        else first request.requestID admission source

/-- Roll back after an error; a failed rollback is joined to it. -/
def rollBack (error : OutboxError) : Repo (Exit Result) := do
  match ← perform .rollback with
  | none => pure (.failed error)
  | some cause => pure (.failed (GoError.joinTwo error (errorContext "rollback failed" cause)))

def commit (value : Result) : Repo (Exit Result) := do
  match ← perform .commit with
  | .ok () => pure (.returned value)
  | .error error => rollBack (errorContext "commit failed" error)

/-- `ReadCommitted`: commit after a return, and roll back in every other case. -/
def readCommitted (callback : Repo (Exit Result)) : Repo (Exit Result) := do
  match ← perform .begin_ with
  | .error error => pure (.failed (errorContext "can't begin transaction" error))
  | .ok () =>
    match ← callback with
    | .returned value => commit value
    | .failed error => rollBack error
    | .panicked value => rollBack (.text ("panic recovered: " ++ value))
    | .goexit => do
        let _ ← perform .rollback
        pure .goexit

/-- The receiver, the context and the arguments of a call. -/
structure Invocation where
  configured : Bool
  nested : Bool
  request : Request
  admission : Option Admission

/-- The transaction of a call whose arguments passed. -/
def transact (request : Request) (admission : Admission) : Repo (Exit Result) := do
  match ← readCommitted (replay request admission) with
  | .failed error => pure (.failed (errorContext "replay" error))
  | exit => pure exit

def Invocation.replay (invocation : Invocation) : Repo (Exit Result) :=
  if !invocation.configured then pure (.failed (errReplay .errNotConfigured))
  else if invocation.request.requestID.isZero || invocation.request.failedJobID.isZero then
    pure (.failed (errReplay .errInvalidRequest))
  else
    match invocation.admission with
    | none => pure (.failed (errReplay .errAdmissionRequired))
    | some admission => do
        match ← perform .contextErr with
        | some error => pure (.failed error)
        | none =>
          if invocation.nested then pure (.failed (errReplay .errNestedTransaction))
          else transact invocation.request admission

/-- A call that unwinds never returns. -/
def conclude : Exit Result → Repo Unit
  | .goexit => .goexit
  | exit => perform (.returns exit)

/-- A call up to its return. -/
def Invocation.program (invocation : Invocation) : Repo Unit := do
  let exit ← invocation.replay
  conclude exit

end OutboxFormal.Replay
