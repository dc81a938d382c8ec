import OutboxFormal.Storage.Mysql
import OutboxFormal.Storage.Pgsql
import OutboxFormal.Storage.Sqlite

/-!
# The idempotency registry and the unique puts

`outbox_job_idempotency_keys` remembers the job and the content fingerprint of
every deduplication key, also after the job row is gone. PostgreSQL stages a
put in one statement; MySQL and SQLite register the key, read it back, compare
fingerprints and then insert the job. The identifiers a put generates are
arguments. `%q` of a key is printed between plain quotes.
-/

namespace OutboxFormal.Storage

open Library

/-! ## Tables -/

/-- A row of `outbox_job_idempotency_keys`. -/
structure IdempotencyKey where
  deduplicationKey : Bytes
  jobID : JobID
  fingerprint : Bytes
  createdAt : Int
  deriving DecidableEq, Repr

abbrev IdempotencyTable := Table IdempotencyKey.deduplicationKey

/-- The three tables the repositories write. -/
structure Database where
  jobs : JobsTable
  keys : IdempotencyTable
  failed : JobsFailedTable
  deriving DecidableEq

/-- The state after the migrations. -/
def Database.empty : Database := ⟨Table.empty, Table.empty, Table.empty⟩

abbrev DatabaseCall (α : Type) := Database → Except OutboxError α × Database

/-- A call that only touches `jobs`. -/
def onJobs {α : Type} (call : RepoCall α) : DatabaseCall α := fun database =>
  ((call database.jobs).1, { database with jobs := (call database.jobs).2 })

/-- Run the checks first; a rejected call issues no statement. -/
def checkedCall {α : Type} (check : Except OutboxError Unit) (call : DatabaseCall α) :
    DatabaseCall α := fun database =>
  match check with
  | .error error => (.error error, database)
  | .ok () => call database

/-! ## Content fingerprints -/

/-- The standard library functions behind a fingerprint. -/
structure Digest where
  rfc3339Nano : Int → Bytes
  sha256Hex : Bytes → Bytes

/-- `strconv.Itoa(len(part)) + ":" + part`. -/
def lengthPrefixed (part : Bytes) : Bytes := bytes (toString part.length) ++ bytes ":" ++ part

/-- What a fingerprint covers: name, version, payload and availability as put. -/
structure Content where
  name : Bytes
  schemaVersion : Int
  payload : Bytes
  availableAt : Int
  deriving DecidableEq, Repr

def jobFingerprint (digest : Digest) (content : Content) : Bytes :=
  digest.sha256Hex
    (lengthPrefixed content.name ++ lengthPrefixed (bytes (toString content.schemaVersion)) ++
      lengthPrefixed content.payload ++
      lengthPrefixed (digest.rfc3339Nano content.availableAt))

/-! ## Puts -/

structure UniquePutResult where
  jobID : JobID
  created : Bool
  deriving DecidableEq, Repr

structure UniqueBatchPut where
  deduplicationKey : Bytes
  content : Content
  deriving DecidableEq, Repr

/-- A put with the identifier, fingerprint and creation time generated for it. -/
structure PreparedUniqueBatchPut where
  put : UniqueBatchPut
  jobID : JobID
  fingerprint : Bytes
  createdAt : Int
  deriving DecidableEq, Repr

def prepareUniqueBatchPuts (digest : Digest) (items : List (UniqueBatchPut × JobID))
    (createdAt : Int) : List PreparedUniqueBatchPut :=
  items.map fun item =>
    { put := item.1
      jobID := item.2
      fingerprint := jobFingerprint digest item.1.content
      createdAt := createdAt }

def PreparedUniqueBatchPut.keyRow (stored : Int → Int) (item : PreparedUniqueBatchPut) :
    IdempotencyKey where
  deduplicationKey := item.put.deduplicationKey
  jobID := item.jobID
  fingerprint := item.fingerprint
  createdAt := stored item.createdAt

def PreparedUniqueBatchPut.jobRow (stored : Int → Int) (item : PreparedUniqueBatchPut) : Job :=
  newJob item.jobID (some item.put.deduplicationKey) item.put.content.name
    item.put.content.schemaVersion item.put.content.payload
    (stored item.put.content.availableAt) (stored item.createdAt)

def validateUniquePut (context : String) (put : UniqueBatchPut) : Except OutboxError Unit :=
  if put.deduplicationKey = [] then .error (.text (context ++ "empty deduplication key"))
  else
    (JobCapability.validate ⟨put.content.name, put.content.schemaVersion⟩).mapError
      (errorContext (context ++ "validate capability"))

def ValidPut (put : UniqueBatchPut) : Prop :=
  put.deduplicationKey ≠ [] ∧ 0 < put.content.schemaVersion

theorem validateUniquePut_eq_ok_iff {context : String} {put : UniqueBatchPut} :
    validateUniquePut context put = .ok () ↔ ValidPut put := by
  unfold validateUniquePut ValidPut
  split
  · rename_i hempty
    simp [hempty]
  · rename_i hkey
    have capability := @JobCapability.validate_eq_ok_iff
      ⟨put.content.name, put.content.schemaVersion⟩
    cases hvalidate :
      JobCapability.validate ⟨put.content.name, put.content.schemaVersion⟩ with
    | error error =>
      rw [hvalidate] at capability
      simpa [hkey, Except.mapError] using capability
    | ok _ =>
      rw [hvalidate] at capability
      simpa [hkey, Except.mapError] using capability

structure UniqueBatchTexts where
  emptyKey : Nat → String
  duplicateKey : Nat → Bytes → String
  capability : Nat → String

/-- The loop over the items of a batch: `seen` are the keys already accepted. -/
def validateUniqueBatchFrom (texts : UniqueBatchTexts) :
    Nat → List Bytes → List UniqueBatchPut → Except OutboxError Unit
  | _, _, [] => .ok ()
  | index, seen, item :: rest =>
    if item.deduplicationKey = [] then .error (.text (texts.emptyKey index))
    else if item.deduplicationKey ∈ seen then
      .error (.text (texts.duplicateKey index item.deduplicationKey))
    else
      match JobCapability.validate ⟨item.content.name, item.content.schemaVersion⟩ with
      | .error error => .error (errorContext (texts.capability index) error)
      | .ok () =>
        validateUniqueBatchFrom texts (index + 1) (item.deduplicationKey :: seen) rest

/-- The texts of the repositories; PostgreSQL puts its operation in front. -/
def repositoryTexts (context : String) : UniqueBatchTexts where
  emptyKey index := context ++ s!"item {index} has an empty deduplication key"
  duplicateKey _ key := context ++ "duplicate deduplication key \"" ++ printed key ++ "\""
  capability index := context ++ s!"item {index}"

def validateUniqueBatch (context : String) (items : List UniqueBatchPut) :
    Except OutboxError Unit :=
  if items.length < 1 ∨ maxReservationBatchSize < items.length then
    .error (.text (context ++ s!"item count must be between 1 and {maxReservationBatchSize}"))
  else validateUniqueBatchFrom (repositoryTexts context) 0 [] items

theorem validateUniqueBatchFrom_eq_ok_iff {texts : UniqueBatchTexts} {index : Nat}
    {seen : List Bytes} {items : List UniqueBatchPut} :
    validateUniqueBatchFrom texts index seen items = .ok () ↔
      (∀ item ∈ items, item.deduplicationKey ≠ [] ∧ item.deduplicationKey ∉ seen ∧
        0 < item.content.schemaVersion) ∧
      (items.map UniqueBatchPut.deduplicationKey).Nodup := by
  induction items generalizing index seen with
  | nil => simp [validateUniqueBatchFrom]
  | cons item rest ih =>
    simp only [validateUniqueBatchFrom]
    split
    · rename_i hempty
      simp [hempty]
    split
    · rename_i hseen
      simp [hseen]
    rename_i hempty hseen
    cases hcapability : JobCapability.validate ⟨item.content.name, item.content.schemaVersion⟩ with
    | error error =>
      have refused : ¬ 0 < item.content.schemaVersion := by
        intro positive
        rw [JobCapability.validate_eq_ok_iff.mpr positive] at hcapability
        cases hcapability
      simp [refused]
    | ok _ =>
      have positive := JobCapability.validate_eq_ok_iff.mp hcapability
      simp only [ih, List.mem_cons, not_or, List.map_cons, List.nodup_cons, List.mem_map,
        forall_eq_or_imp, not_exists, not_and]
      constructor
      · rintro ⟨hrest, hnodup⟩
        exact ⟨⟨⟨hempty, hseen, positive⟩, fun other hother =>
          ⟨(hrest other hother).1, (hrest other hother).2.1.2, (hrest other hother).2.2⟩⟩,
          fun other hother => (hrest other hother).2.1.1, hnodup⟩
      · rintro ⟨⟨_, hrest⟩, hdistinct, hnodup⟩
        exact ⟨fun other hother => ⟨(hrest other hother).1,
          ⟨hdistinct other hother, (hrest other hother).2.1⟩, (hrest other hother).2.2⟩, hnodup⟩

def ValidBatch (puts : List UniqueBatchPut) : Prop :=
  (1 ≤ puts.length ∧ puts.length ≤ maxReservationBatchSize) ∧
    (∀ put ∈ puts, ValidPut put) ∧ (puts.map UniqueBatchPut.deduplicationKey).Nodup

theorem validateUniqueBatch_eq_ok_iff {context : String} {items : List UniqueBatchPut} :
    validateUniqueBatch context items = .ok () ↔ ValidBatch items := by
  unfold validateUniqueBatch ValidBatch ValidPut
  split
  · rename_i hcount
    simp only [reduceCtorEq, false_iff]
    rintro ⟨⟨_, _⟩, _⟩
    omega
  · rename_i hcount
    rw [validateUniqueBatchFrom_eq_ok_iff]
    simp only [List.not_mem_nil, not_false_eq_true, true_and]
    exact ⟨fun accepted => ⟨by omega, accepted⟩, fun accepted => accepted.2⟩

/-! ## Statements on the two tables -/

/-- `job_id` carries a unique constraint of its own. -/
def jobIDRegistered (id : JobID) (keys : IdempotencyTable) : Bool :=
  keys.rows.any fun row => decide (row.jobID = id)

/-- Register one key unless it is there; `none` is a violated `job_id` constraint. -/
def registerKey (row : IdempotencyKey) (keys : IdempotencyTable) : Option IdempotencyTable :=
  if (keys.get? row.deduplicationKey).isSome then some keys
  else if jobIDRegistered row.jobID keys then none
  else keys.insert? row

/-- A multi-row registration: all rows, or a constraint fails the statement. -/
def registerKeys : List IdempotencyKey → IdempotencyTable → Option IdempotencyTable
  | [], keys => some keys
  | row :: rest, keys => (registerKey row keys).bind (registerKeys rest)

/-- A multi-row `INSERT INTO jobs`. -/
def insertJobs : List Job → JobsTable → Option JobsTable
  | [], jobs => some jobs
  | job :: rest, jobs => (insertJob job jobs).bind (insertJobs rest)

/-! ## PostgreSQL -/

namespace Pgsql

/-- The single statement: the key is inserted, or found with the same
fingerprint; the job is inserted when the key carries the new identifier. -/
def stageUnique (item : PreparedUniqueBatchPut) : DatabaseCall UniquePutResult :=
  fun database =>
    let failure : Except OutboxError UniquePutResult × Database :=
      (.error (errorContext "jobs.repo.CreateJobVersionedUnique: create unique job"
        (.leaf (.external "duplicate key"))), database)
    match registerKey (item.keyRow stored) database.keys with
    | none => failure
    | some keys =>
      match keys.get? item.put.deduplicationKey with
      | none => failure
      | some row =>
        if row.fingerprint ≠ item.fingerprint then
          (.error (.leaf .errIdempotencyConflict), database)
        else if row.jobID ≠ item.jobID then (.ok ⟨row.jobID, false⟩, { database with keys })
        else
          match insertJob (item.jobRow stored) database.jobs with
          | none => failure
          | some jobs => (.ok ⟨row.jobID, true⟩, { database with jobs, keys })

def createJobVersionedUniqueResult (digest : Digest) (put : UniqueBatchPut) (id : JobID)
    (createdAt : Int) : DatabaseCall UniquePutResult :=
  checkedCall (validateUniquePut "jobs.repo.CreateJobVersionedUnique: " put)
    (stageUnique
      { put := put
        jobID := id
        fingerprint := jobFingerprint digest put.content
        createdAt := createdAt })

/-- A `key_rows` result: the registered key with the item's fingerprint. -/
def keyRowOf (keys : IdempotencyTable) (item : PreparedUniqueBatchPut) :
    Option IdempotencyKey :=
  (keys.get? item.put.deduplicationKey).filter fun row =>
    decide (row.fingerprint = item.fingerprint)

def resultOf (keys : IdempotencyTable) (item : PreparedUniqueBatchPut) :
    Option UniquePutResult :=
  (keyRowOf keys item).map fun row => ⟨row.jobID, decide (row.jobID = item.jobID)⟩

/-- The items whose job the statement inserts. -/
def createdItems (keys : IdempotencyTable) (prepared : List PreparedUniqueBatchPut) :
    List PreparedUniqueBatchPut :=
  prepared.filter fun item => (resultOf keys item).any UniquePutResult.created

/-- The callback: stage every item without a conflict, then count the rows. -/
def stageUniqueBatch (prepared : List PreparedUniqueBatchPut) :
    DatabaseCall (List UniquePutResult) := fun database =>
  let failure : Except OutboxError (List UniquePutResult) × Database :=
    (.error (errorContext "stage unique batch" (.leaf (.external "duplicate key"))), database)
  match registerKeys (prepared.map (PreparedUniqueBatchPut.keyRow stored)) database.keys with
  | none => failure
  | some keys =>
    match insertJobs ((createdItems keys prepared).map (PreparedUniqueBatchPut.jobRow stored))
        database.jobs with
    | none => failure
    | some jobs =>
      let rows := prepared.filterMap (resultOf keys)
      if rows.length ≠ prepared.length then
        (.error (.leaf .errIdempotencyConflict), { database with jobs, keys })
      else (.ok rows, { database with jobs, keys })

def createJobVersionedUniqueBatch (digest : Digest) (attached : Bool)
    (items : List (UniqueBatchPut × JobID)) (createdAt : Int) :
    DatabaseCall (List UniquePutResult) :=
  let op := "jobs.repo.CreateJobVersionedUniqueBatch"
  checkedCall (validateUniqueBatch (op ++ ": ") (items.map Prod.fst)) fun database =>
    match Manager.pgx.runReturning attached
        (stageUniqueBatch (prepareUniqueBatchPuts digest items createdAt)) database with
    | (.error error, after) => (.error (errorContext op error), after)
    | (.ok results, after) => (.ok results, after)

end Pgsql

/-! ## MySQL and SQLite -/

namespace DatabaseSql

def uniqueBatchResults (keys : IdempotencyTable) :
    List PreparedUniqueBatchPut →
      Except OutboxError (List UniquePutResult × List PreparedUniqueBatchPut)
  | [] => .ok ([], [])
  | item :: rest =>
    match keys.get? item.put.deduplicationKey with
    | none => .error (.leaf .errIdempotencyConflict)
    | some key =>
      if key.fingerprint ≠ item.fingerprint then .error (.leaf .errIdempotencyConflict)
      else
        match uniqueBatchResults keys rest with
        | .error error => .error error
        | .ok (results, created) =>
          let isCreated := decide (key.jobID = item.jobID)
          .ok (⟨key.jobID, isCreated⟩ :: results,
            if isCreated then item :: created else created)

/-- The callback: register every key, check every item, insert the new jobs. -/
def stageUniqueBatch (stored : Int → Int)
    (register : List IdempotencyKey → IdempotencyTable → Option IdempotencyTable)
    (prepared : List PreparedUniqueBatchPut) : DatabaseCall (List UniquePutResult) :=
  fun database =>
    match register (prepared.map (PreparedUniqueBatchPut.keyRow stored)) database.keys with
    | none =>
      (.error (errorContext "register batch idempotency keys"
        (.leaf (.external "constraint failed"))), database)
    | some keys =>
      match uniqueBatchResults keys prepared with
      | .error error => (.error error, { database with keys })
      | .ok (results, created) =>
        match insertJobs (created.map (PreparedUniqueBatchPut.jobRow stored))
            database.jobs with
        | none =>
          (.error (errorContext "insert unique job batch"
            (.leaf (.external "constraint failed"))), { database with keys })
        | some jobs => (.ok results, { database with jobs, keys })

def createJobVersionedUniqueBatch (stored : Int → Int)
    (register : List IdempotencyKey → IdempotencyTable → Option IdempotencyTable)
    (digest : Digest) (attached : Bool) (items : List (UniqueBatchPut × JobID))
    (createdAt : Int) : DatabaseCall (List UniquePutResult) :=
  checkedCall (validateUniqueBatch "" (items.map Prod.fst)) fun database =>
    match Manager.databaseSql.runReturning attached
        (stageUniqueBatch stored register (prepareUniqueBatchPuts digest items createdAt))
        database with
    | (.error error, after) =>
      (.error (errorContext "create unique versioned job batch" error), after)
    | (.ok results, after) => (.ok results, after)

end DatabaseSql

namespace Mysql

/-- `ON DUPLICATE KEY UPDATE deduplication_key = deduplication_key`: a duplicate
key or a duplicate `job_id` leaves the stored row alone. -/
def registerOrKeep (row : IdempotencyKey) (keys : IdempotencyTable) : IdempotencyTable :=
  (registerKey row keys).getD keys

/-- `ON DUPLICATE KEY UPDATE deduplication_key = VALUES(deduplication_key)`: a
duplicate `job_id` under another key renames that row's key. -/
def registerOrRename (row : IdempotencyKey) (keys : IdempotencyTable) :
    Option IdempotencyTable :=
  match registerKey row keys with
  | some after => some after
  | none =>
    match keys.rows.find? fun other => decide (other.jobID = row.jobID) with
    | none => some keys
    | some other =>
      (keys.delete fun stored => decide (stored.jobID = row.jobID)).insert?
        { other with deduplicationKey := row.deduplicationKey }

def registerUniqueBatchKeys : List IdempotencyKey → IdempotencyTable → Option IdempotencyTable
  | [], keys => some keys
  | row :: rest, keys => (registerOrRename row keys).bind (registerUniqueBatchKeys rest)

def createJobVersionedUnique (item : PreparedUniqueBatchPut) : DatabaseCall UniquePutResult :=
  fun database =>
    let keys := registerOrKeep (item.keyRow stored) database.keys
    match keys.get? item.put.deduplicationKey with
    | none =>
      (.error (errorContext "read idempotency key"
        (.leaf (.external "sql: no rows in result set"))), { database with keys })
    | some row =>
      if row.fingerprint ≠ item.fingerprint then
        (.error (.leaf .errIdempotencyConflict), { database with keys })
      else if row.jobID ≠ item.jobID then (.ok ⟨row.jobID, false⟩, { database with keys })
      else
        match insertJob (item.jobRow stored) database.jobs with
        | none =>
          (.error (errorContext "create idempotent job"
            (.leaf (.external "duplicate entry"))), { database with keys })
        | some jobs => (.ok ⟨row.jobID, true⟩, { database with jobs, keys })

/-- Without an attached transaction the put runs in one of its own, which an
error rolls back. -/
def createJobVersionedUniqueResult (digest : Digest) (attached : Bool) (put : UniqueBatchPut)
    (id : JobID) (createdAt : Int) : DatabaseCall UniquePutResult :=
  checkedCall (validateUniquePut "" put) fun database =>
    let answer := createJobVersionedUnique
      { put := put
        jobID := id
        fingerprint := jobFingerprint digest put.content
        createdAt := createdAt } database
    if attached then answer
    else
      match answer with
      | (.error error, _) => (.error error, database)
      | (.ok result, after) => (.ok result, after)

def createJobVersionedUniqueBatch (digest : Digest) (attached : Bool)
    (items : List (UniqueBatchPut × JobID)) (createdAt : Int) :
    DatabaseCall (List UniquePutResult) :=
  DatabaseSql.createJobVersionedUniqueBatch stored registerUniqueBatchKeys digest attached
    items createdAt

end Mysql

namespace Sqlite

def createJobVersionedUnique (item : PreparedUniqueBatchPut) : DatabaseCall UniquePutResult :=
  fun database =>
    match registerKey (item.keyRow stored) database.keys with
    | none =>
      (.error (errorContext "register idempotency key"
        (.leaf (.external "constraint failed"))), database)
    | some keys =>
      -- `ON CONFLICT(deduplication_key) DO NOTHING` affects no row.
      let inserted := (database.keys.get? item.put.deduplicationKey).isNone
      match keys.get? item.put.deduplicationKey with
      | none =>
        (.error (errorContext "read idempotency key"
          (.leaf (.external "sql: no rows in result set"))), { database with keys })
      | some row =>
        if row.fingerprint ≠ item.fingerprint then
          (.error (.leaf .errIdempotencyConflict), { database with keys })
        else if inserted = false then (.ok ⟨row.jobID, false⟩, { database with keys })
        else
          match insertJob (item.jobRow stored) database.jobs with
          | none =>
            (.error (errorContext "create idempotent job"
              (.leaf (.external "constraint failed"))), { database with keys })
          | some jobs => (.ok ⟨row.jobID, true⟩, { database with jobs, keys })

def createJobVersionedUniqueResult (digest : Digest) (attached : Bool) (put : UniqueBatchPut)
    (id : JobID) (createdAt : Int) : DatabaseCall UniquePutResult :=
  checkedCall (validateUniquePut "" put)
    (withImmediateTransaction attached
      (createJobVersionedUnique
        { put := put
          jobID := id
          fingerprint := jobFingerprint digest put.content
          createdAt := createdAt }))

def createJobVersionedUniqueBatch (digest : Digest) (attached : Bool)
    (items : List (UniqueBatchPut × JobID)) (createdAt : Int) :
    DatabaseCall (List UniquePutResult) :=
  DatabaseSql.createJobVersionedUniqueBatch stored registerKeys digest attached items createdAt

end Sqlite

/-! ## Pruning -/

/-- Bytewise order of keys. -/
def bytesLe (first second : Bytes) : Bool := decide (first ≤ second)

/-- `ORDER BY created_at, deduplication_key` under a collation of the keys. -/
def keyLe (collation : Bytes → Bytes → Bool) (first second : IdempotencyKey) : Bool :=
  if first.createdAt ≠ second.createdAt then first.createdAt < second.createdAt
  else collation first.deduplicationKey second.deduplicationKey

def activeKey (jobs : JobsTable) (key : Bytes) : Bool :=
  jobs.rows.any fun job => decide (job.deduplicationKey = some key)

/-- The keys a prune deletes: old, inactive, unlocked, in order, at most `limit`. -/
def pruneCandidates (collation : Bytes → Bytes → Bool) (locked : Bytes → Bool) (before : Int)
    (limit : Nat) (database : Database) : List Bytes :=
  let inactive := database.keys.rows.filter fun row =>
    decide (row.createdAt < before) && !activeKey database.jobs row.deduplicationKey &&
      !locked row.deduplicationKey
  ((inactive.insertionSort fun first second => keyLe collation first second = true).take
    limit).map IdempotencyKey.deduplicationKey

def pruneJobIdempotencyKeys (context : String) (stored : Int → Int)
    (collation : Bytes → Bytes → Bool) (locked : Bytes → Bool) (before : Int) (limit : Int) :
    DatabaseCall Int := fun database =>
  if limit < 1 ∨ 10000 < limit then
    (.error (.text (context ++ "limit must be between 1 and 10000")), database)
  else
    let candidates := pruneCandidates collation locked (stored before) limit.toNat database
    let selected := fun row : IdempotencyKey => decide (row.deduplicationKey ∈ candidates)
    (.ok (database.keys.matching selected).length,
      { database with keys := database.keys.delete selected })

/-- `FOR UPDATE SKIP LOCKED`, and the order of the database's text collation. -/
def Pgsql.pruneJobIdempotencyKeys (collation : Bytes → Bytes → Bool) (locked : Bytes → Bool)
    (before : Int) (limit : Int) : DatabaseCall Int :=
  Storage.pruneJobIdempotencyKeys "jobs.repo.PruneJobIdempotencyKeys: " Pgsql.stored collation
    locked before limit

def Mysql.pruneJobIdempotencyKeys (before : Int) (limit : Int) : DatabaseCall Int :=
  Storage.pruneJobIdempotencyKeys "" Mysql.stored bytesLe (fun _ => false) before limit

def Sqlite.pruneJobIdempotencyKeys (before : Int) (limit : Int) : DatabaseCall Int :=
  Storage.pruneJobIdempotencyKeys "" Sqlite.stored bytesLe (fun _ => false) before limit

/-! ## Failed jobs -/

/-- `INSERT INTO jobs_failed`: `id` and `job_id` are unique. -/
def insertFailed (row : JobFailed) (failed : JobsFailedTable) : Option JobsFailedTable :=
  if row.id ∈ failed.rows.map JobFailed.id then none else failed.insert? row

/-- The row `CreateFailedJobVersioned` writes. -/
def failedRow (id jobID : JobID) (name : Bytes) (schemaVersion : Int) (payload : Bytes)
    (reason : String) (failedAt createdAt : Int) : JobFailed where
  id := id
  jobID := jobID
  connection := []
  queue := bytes "queue"
  name := name
  schemaVersion := schemaVersion
  payload := payload
  reason := reason
  exception := []
  failedAt := failedAt
  createdAt := createdAt

/-- `CreateFailedJobVersioned`; `refused` is the error of a violated constraint. -/
def createFailedJobVersioned (refused : OutboxError) (stored : Int → Int) (id jobID : JobID)
    (name : Bytes) (schemaVersion : Int) (payload : Bytes) (reason : String)
    (failedAt createdAt : Int) : DatabaseCall JobID :=
  checkedCall ((JobCapability.validate ⟨name, schemaVersion⟩).mapError
      (errorContext "validate capability")) fun database =>
    match insertFailed (failedRow id jobID name schemaVersion payload reason
        (stored failedAt) (stored createdAt)) database.failed with
    | none => (.error refused, database)
    | some failed => (.ok id, { database with failed })

/-- PostgreSQL reads the clock once for `FailedAt` and once for `CreatedAt`. -/
def Pgsql.createFailedJobVersioned (id jobID : JobID) (name : Bytes) (schemaVersion : Int)
    (payload : Bytes) (reason : String) (failedAt createdAt : Int) : DatabaseCall JobID :=
  Storage.createFailedJobVersioned
    (errorContext "error creating" (.leaf (.external "duplicate key"))) Pgsql.stored
    id jobID name schemaVersion payload reason failedAt createdAt

def Mysql.createFailedJobVersioned (id jobID : JobID) (name : Bytes) (schemaVersion : Int)
    (payload : Bytes) (reason : String) (now : Int) : DatabaseCall JobID :=
  Storage.createFailedJobVersioned (.leaf (.external "duplicate entry")) Mysql.stored
    id jobID name schemaVersion payload reason now now

def Sqlite.createFailedJobVersioned (id jobID : JobID) (name : Bytes) (schemaVersion : Int)
    (payload : Bytes) (reason : String) (now : Int) : DatabaseCall JobID :=
  Storage.createFailedJobVersioned (.leaf (.external "constraint failed")) Sqlite.stored
    id jobID name schemaVersion payload reason now now

end OutboxFormal.Storage
