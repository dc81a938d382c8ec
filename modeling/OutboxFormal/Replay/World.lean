import OutboxFormal.Replay.Program

/-!
# The database of replays

The committed state, the open transactions, and ghost state: the identifiers
generated so far, every job row that was ever committed, every commit that took
effect, and the committed state each call began with.
-/

namespace OutboxFormal.Replay

open Library Storage

/-- The tables of the repositories and `outbox_job_replays`. -/
structure Store where
  database : Database
  replays : Table Record.requestID

/-- The state after the migrations. -/
def Store.empty : Store := ⟨.empty, .empty⟩

/-- The source a failed row describes, with the enqueue key that was read. -/
def sourceOf (row : JobFailed) (key : Bytes) : Source where
  failedJobID := row.id
  originalJobID := row.jobID
  capability := ⟨row.name, row.schemaVersion⟩
  payload := row.payload
  queue := row.queue
  originalDeduplicationKey := key

/-- `coalesce((select deduplication_key … where job_id = …), '')`. -/
def keyOf (keys : IdempotencyTable) (id : JobID) : Bytes :=
  ((keys.rows.find? fun row => row.jobID = id).map IdempotencyKey.deduplicationKey).getD []

/-- The original job, or one of an earlier replay of the failed row, is in `jobs`. -/
def Store.active (store : Store) (originalJobID failedJobID : JobID) : Bool :=
  store.database.jobs.rows.any fun job => decide (job.id = originalJobID) ||
    store.replays.rows.any fun record =>
      decide (record.source.failedJobID = failedJobID ∧ record.jobID = job.id)

/-! ## Writes -/

/-- What a transaction has written. -/
inductive Write where
  | unique (item : PreparedUniqueBatchPut)
  | queue (name : Bytes) (id : JobID)
  | record (entry : Record)

/-- `update jobs set queue=… where id=…`. -/
def updateQueue (queue : Bytes) (id : JobID) (jobs : JobsTable) : JobsTable :=
  jobs.update (fun job => decide (job.id = id)) (fun job => { job with queue := queue })
    fun _ => rfl

/-- `business_key` must not be blank for PostgreSQL, `job_id` is unique, and the
failed row exists. -/
def Store.accepts (store : Store) (record : Record) : Bool :=
  !(record.businessKey.all (· == 0x20)) &&
    !(store.replays.rows.any fun other => decide (other.jobID = record.jobID)) &&
    store.database.failed.rows.any fun row => decide (row.id = record.source.failedJobID)

def Write.run : Write → Store → Store
  | .unique item, store => { store with database := (Pgsql.stageUnique item store.database).2 }
  | .queue name id, store =>
    { store with
      database := { store.database with jobs := updateQueue name id store.database.jobs } }
  | .record entry, store =>
    { store with replays := (store.replays.insert? entry).getD store.replays }

/-- The failed rows a transaction has locked, and its writes in order. -/
structure Transaction where
  locked : List JobID
  writes : List Write

namespace Transaction

def new : Transaction := ⟨[], []⟩

/-- What the transaction sees of a committed state. -/
def view (transaction : Transaction) (store : Store) : Store :=
  transaction.writes.foldl (fun state write => write.run state) store

def staged (transaction : Transaction) : List PreparedUniqueBatchPut :=
  transaction.writes.filterMap fun
    | .unique item => some item
    | _ => none

def requests (transaction : Transaction) : List RequestID :=
  transaction.writes.filterMap fun
    | .record entry => some entry.requestID
    | _ => none

end Transaction

/-! ## The world -/

structure Commit where
  call : Nat
  before : Store
  after : Store

structure World where
  store : Store
  transactions : Nat → Option Transaction
  used : List JobID
  inserted : List Job
  commits : List Commit
  begun : Nat → Store

def insertedJobs (before after : JobsTable) : List Job :=
  after.rows.filter fun job => (before.get? job.id).isNone

namespace World

variable (world : World)

def database : Database := world.store.database

/-- A call has begun its transaction. -/
def begins (index : Nat) : World :=
  { world with
    transactions := Function.update world.transactions index (some .new)
    begun := Function.update world.begun index world.store }

def continues (index : Nat) (transaction : Transaction) : World :=
  { world with transactions := Function.update world.transactions index (some transaction) }

/-- The transaction of a call has ended without effect. -/
def ends (index : Nat) : World :=
  { world with transactions := Function.update world.transactions index none }

def generates (ids : List JobID) : World := { world with used := ids ++ world.used }

/-- A new committed state. -/
def becomes (store : Store) : World :=
  { world with
    store := store
    inserted := world.inserted ++ insertedJobs world.database.jobs store.database.jobs }

def committed (index : Nat) (transaction : Transaction) : World :=
  { (world.ends index).becomes (transaction.view world.store) with
    commits := world.commits ++ [⟨index, world.store, transaction.view world.store⟩] }

/-- No other open transaction satisfies this. -/
def FreeOf (index : Nat) (holds : Transaction → Prop) : Prop :=
  ∀ other transaction, other ≠ index → world.transactions other = some transaction →
    ¬ holds transaction

end World

/-- The answer of a statement that the driver failed. -/
def Reply.failure : (statement : Statement) → OutboxError → Option (Reply statement)
  | .contextErr, error => some (some error : Option OutboxError)
  | .begin_, error => some (.error error : Except OutboxError Unit)
  | .source _, error => some (.error error : Except OutboxError (Option Source))
  | .byRequestID _, error => some (.error error : Except OutboxError (Option Record))
  | .byFailedJobID _, error => some (.error error : Except OutboxError (Option Record))
  | .active .., error => some (.error error : Except OutboxError Bool)
  | .create _, error => some (.error error : Except OutboxError UniquePutResult)
  | .queue .., error => some (.error error : Except OutboxError Nat)
  | .record .., error => some (.error (.other error) : Except InsertFailure Int)
  | .commit, error => some (.error error : Except OutboxError Unit)
  | .clock, _ | .rollback, _ | .returns _, _ => none

def prepared (digest : Digest) (put : UniqueBatchPut) (id : JobID) (createdAt : Int) :
    PreparedUniqueBatchPut :=
  ⟨put, id, jobFingerprint digest put.content, createdAt⟩

/-- A failed row is visible to a call that began when it was there already. -/
def World.sees (world : World) (index : Nat) (id : JobID) : Prop :=
  id ∈ (world.begun index).database.failed.rows.map JobFailed.id ∧
    id ∈ world.database.failed.rows.map JobFailed.id

/-- How a statement is executed. The enqueue key of a locked source comes from a
snapshot taken before the wait for the lock, of which nothing is assumed. -/
inductive Performs (digest : Digest) (index : Nat) (world : World) :
    (statement : Statement) → Reply statement → World → Prop where
  | contextErr : Performs digest index world .contextErr none world
  | begins (closed : world.transactions index = none) :
      Performs digest index world .begin_ (Except.ok ()) (world.begins index)
  | source {transaction : Transaction} {row : JobFailed} (keys : IdempotencyTable)
      (isOpen : world.transactions index = some transaction)
      (member : row ∈ world.database.failed.rows)
      (free : world.FreeOf index fun other => row.id ∈ other.locked) :
      Performs digest index world (.source row.id)
        (Except.ok (some (sourceOf row (keyOf keys row.jobID))))
        (world.continues index { transaction with locked := row.id :: transaction.locked })
  | sourceMissing {transaction : Transaction} {id : JobID}
      (isOpen : world.transactions index = some transaction) (unseen : ¬ world.sees index id) :
      Performs digest index world (.source id) (Except.ok none) world
  | byRequestID {transaction : Transaction} (id : RequestID)
      (isOpen : world.transactions index = some transaction) :
      Performs digest index world (.byRequestID id)
        (Except.ok ((transaction.view world.store).replays.get? id)) world
  | byFailedJobID {transaction : Transaction} {record : Record}
      (isOpen : world.transactions index = some transaction)
      (member : record ∈ (transaction.view world.store).replays.rows) :
      Performs digest index world (.byFailedJobID record.source.failedJobID)
        (Except.ok (some record)) world
  | byFailedJobIDMissing {transaction : Transaction} {id : JobID}
      (isOpen : world.transactions index = some transaction)
      (absent : ∀ record ∈ (transaction.view world.store).replays.rows,
        record.source.failedJobID ≠ id) :
      Performs digest index world (.byFailedJobID id) (Except.ok none) world
  | active {transaction : Transaction} (originalJobID failedJobID : JobID)
      (isOpen : world.transactions index = some transaction) :
      Performs digest index world (.active originalJobID failedJobID)
        (Except.ok ((transaction.view world.store).active originalJobID failedJobID)) world
  | clock (now : Int) : Performs digest index world .clock now world
  | create {transaction : Transaction} (put : UniqueBatchPut) (id : JobID) (createdAt : Int)
      (isOpen : world.transactions index = some transaction) (fresh : id ∉ world.used)
      (free : world.FreeOf index fun other =>
        put.deduplicationKey ∈ other.staged.map fun item => item.put.deduplicationKey) :
      Performs digest index world (.create put)
        (Pgsql.createJobVersionedUniqueResult digest put id createdAt
          (transaction.view world.store).database).1
        (if (Pgsql.createJobVersionedUniqueResult digest put id createdAt
            (transaction.view world.store).database).1.isOk then
          (world.generates [id]).continues index
            { transaction with
              writes := transaction.writes ++ [.unique (prepared digest put id createdAt)] }
        else world.generates [id])
  | queue {transaction : Transaction} (queue : Bytes) (id : JobID)
      (isOpen : world.transactions index = some transaction) :
      Performs digest index world (.queue queue id)
        (Except.ok ((transaction.view world.store).database.jobs.matching
          fun job => decide (job.id = id)).length)
        (world.continues index
          { transaction with writes := transaction.writes ++ [.queue queue id] })
  | record {transaction : Transaction} (requestID : RequestID) (source : Source) (jobID : JobID)
      (businessKey : Bytes) (createdAt : Int)
      (isOpen : world.transactions index = some transaction)
      (absent : (transaction.view world.store).replays.get? requestID = none)
      (accepted : (transaction.view world.store).accepts
        ⟨requestID, jobID, source, businessKey, createdAt⟩ = true)
      (free : world.FreeOf index fun other => requestID ∈ other.requests) :
      Performs digest index world (.record requestID source jobID businessKey)
        (Except.ok createdAt)
        (world.continues index
          { transaction with
            writes := transaction.writes ++
              [.record ⟨requestID, jobID, source, businessKey, createdAt⟩] })
  | recordDuplicate {transaction : Transaction} {prior : Record} (requestID : RequestID)
      (source : Source) (jobID : JobID) (businessKey : Bytes) (error : OutboxError)
      (isOpen : world.transactions index = some transaction)
      (present : (transaction.view world.store).replays.get? requestID = some prior) :
      Performs digest index world (.record requestID source jobID businessKey)
        (Except.error (.requestID error)) world
  | commits {transaction : Transaction} (isOpen : world.transactions index = some transaction) :
      Performs digest index world .commit (Except.ok ()) (world.committed index transaction)
  | commitLost {transaction : Transaction} (error : OutboxError)
      (isOpen : world.transactions index = some transaction) :
      Performs digest index world .commit (Except.error error)
        (world.committed index transaction)
  | rollback (error : Option OutboxError) :
      Performs digest index world .rollback error (world.ends index)
  | returns (exit : Exit Result) : Performs digest index world (.returns exit) () world
  | failed {statement : Statement} {answer : Reply statement} (error : OutboxError)
      (foreign : ∀ own, error.is (.replay own) = false)
      (fails : Reply.failure statement error = some answer) :
      Performs digest index world statement answer world

/-! ## Other activity -/

def deadLetter : Call → Option JobID
  | .createFailedJobVersioned _ jobID .. => some jobID
  | _ => none

/-- What happens besides the calls: repository calls of workers and producers
that generate new identifiers and use other keys, failed rows of jobs that were
there, the removal of failed rows that nothing refers to, and the loss of a
connection. -/
inductive Moves (digest : Digest) (world : World) : World → Prop where
  | call (call : Call) (distinct : call.newIDs.Nodup)
      (fresh : ∀ id ∈ call.newIDs, id ∉ world.used) (outermost : call.outermost = true)
      (foreign : ∀ put ∈ call.puts, ∀ id, put.1.deduplicationKey ≠ replayKey id)
      (known : ∀ id, deadLetter call = some id → id ∈ world.inserted.map Job.id) :
      Moves digest world ((world.generates call.newIDs).becomes
        { world.store with database := (call.run .pgsql digest world.database).2 })
  | insertFailed {row : JobFailed} {failed : JobsFailedTable}
      (inserts : insertFailed row world.database.failed = some failed)
      (known : row.jobID ∈ world.inserted.map Job.id) :
      Moves digest world
        (world.becomes { world.store with database := { world.database with failed } })
  | deleteFailed (id : JobID)
      (unlocked : ∀ index transaction, world.transactions index = some transaction →
        id ∉ transaction.locked)
      (unreferenced : ∀ record ∈ world.store.replays.rows, record.source.failedJobID ≠ id) :
      Moves digest world (world.becomes
        { world.store with
          database := { world.database with
            failed := world.database.failed.delete fun row => decide (row.id = id) } })
  | disconnects (index : Nat) : Moves digest world (world.ends index)

/-- Any number of replays among the other activity. -/
def replayers (digest : Digest) : Semantics Invocation World Reply where
  perform := Performs digest
  environment := Moves digest
  spawned := fun _ _ => []

/-- The calls at their start over the migrated database. -/
def start (invocations : List Invocation) : Config Invocation World Reply :=
  ⟨⟨.empty, fun _ => none, [], [], [], fun _ => .empty⟩,
    invocations.map fun invocation => Thread.start (invocation, invocation.program)⟩

end OutboxFormal.Replay
