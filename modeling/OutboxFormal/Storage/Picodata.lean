import OutboxFormal.Library.Scripts
import OutboxFormal.Storage.Pgsql

/-!
# The Picodata jobs repository

Picodata has no transactions here: a claim reads at most ten candidates, then
tries to reserve them one after another by an update that compares the attempt
counter with the value read. Other statements run in between. A claim is a
program over its statements; every other operation is one statement.
-/

namespace OutboxFormal.Storage.Picodata

open Library

/-- The instant a Go time carries as a parameter. -/
def stored (time : Int) : Int := Pgsql.stored time

/-! ## Statements -/

/-- The statements of a claim, and its return to the caller. -/
inductive Statement where
  | select (now : Int) (capabilities : List JobCapability)
  | reserve (id : JobID) (attempts : Int) (until_ : Int) (token : LeaseToken) (now : Int)
  | returns (result : Except OutboxError (List Job))

def Reply : Statement → Type
  | .select .. => Except OutboxError (List Job)
  | .reserve .. => Except OutboxError Int
  | .returns _ => Unit

abbrev Repo := Program Reply

def select (now : Int) (capabilities : List JobCapability) :
    Repo (Except OutboxError (List Job)) :=
  Program.perform (Statement.select now capabilities)

def reserve (id : JobID) (attempts until_ : Int) (token : LeaseToken) (now : Int) :
    Repo (Except OutboxError Int) :=
  Program.perform (Statement.reserve id attempts until_ token now)

def returns (result : Except OutboxError (List Job)) : Repo Unit :=
  Program.perform (Statement.returns result)

/-- `SELECT … WHERE available_at <= now AND (reserved_at IS NULL OR reserved_at <= now)
… ORDER BY available_at, created_at, id LIMIT 10`. -/
def selectCandidates (now : Int) (capabilities : List JobCapability) (table : JobsTable) :
    List Job :=
  orderedLimit 10 (table.rows.filter fun job =>
    ready (stored now) job && capabilities.any fun capability => hasCapability capability job)

/-- `WHERE id = $1 AND attempts = $2 AND (reserved_at IS NULL OR reserved_at <= $5)`. -/
def reserveSelection (id : JobID) (attempts : Int) (now : Int) (job : Job) : Bool :=
  decide (job.id = id) && decide (job.attempts = attempts) &&
    job.reservedAt.all fun reserved => reserved ≤ stored now

/-! ## Claims -/

structure Request where
  now : Int
  until_ : Int
  token : LeaseToken
  capabilities : List JobCapability
  limit : Int

/-- `pgx.ErrNoRows`. -/
def errNoRows : ErrorLeaf := .external "no rows in result set"

def claimed (request : Request) (job : Job) : Job :=
  { job with
    attempts := job.attempts + 1
    reservedAt := some request.until_
    leaseToken := request.token }

def reserveCandidates (request : Request) : List Job → Repo (Except OutboxError Job)
  | [] => pure (.error (.leaf .errNoJobs))
  | job :: rest => do
      match ← reserve job.id job.attempts request.until_ request.token request.now with
      | .error error =>
        if error.is errNoRows then pure (.error (.leaf .errNoJobs)) else pure (.error error)
      | .ok affected =>
        if affected = 0 then reserveCandidates request rest
        else pure (.ok (claimed request job))

def findAndReserveForCapabilities (request : Request) : Repo (Except OutboxError Job) := do
  match ← select request.now request.capabilities with
  | .error error => pure (.error error)
  | .ok candidates => reserveCandidates request candidates

def findAndReserveJobsForCapabilities (request : Request) :
    Repo (Except OutboxError (List Job)) :=
  if request.limit ≠ 1 then
    pure (.error (leafError .errReservationBatchSizeUnsupported
      s!": Picodata supports reservation batch size 1, got {request.limit}"))
  else
    match request.token.validate with
    | .error error => pure (.error (errorContext "invalid lease token" error))
    | .ok () =>
      if request.capabilities.isEmpty then pure (.error (.leaf .errNoJobs))
      else
        match Pgsql.validateCapabilities request.capabilities with
        | .error error => pure (.error error)
        | .ok () => do
            match ← findAndReserveForCapabilities request with
            | .error error => pure (.error error)
            | .ok job => pure (.ok [job])

/-- A claim, up to its return. -/
def claim (request : Request) : Repo Unit := do
  let result ← findAndReserveJobsForCapabilities request
  returns result

/-! ## The other operations -/

def validateSingleLeaseRequest (ids : List JobID) (token : LeaseToken) :
    Except OutboxError Unit :=
  match ids with
  | [id] => validateSingle "invalid job id" id token
  | _ => .error (leafError .errReservationBatchSizeUnsupported
      s!": Picodata supports exactly one leased job, got {ids.length}")

def extendJobLeases (ids : List JobID) (token : LeaseToken) (now until_ : Int) :
    RepoCall Int :=
  checked (validateSingleLeaseRequest ids token) <|
    affecting (leaseSelection stored ids token now) (extendStatement stored ids token now until_)

def releaseUnstartedJobsWithLease (ids : List JobID) (token : LeaseToken) (now : Int) :
    RepoCall Int :=
  checked (validateSingleLeaseRequest ids token) <|
    affecting (releaseSelection stored ids token now) (releaseStatement stored ids token now)

def deleteJobWithLease (id : JobID) (token : LeaseToken) (now : Int) : RepoCall Int :=
  checked (validateSingle "invalid job id" id token) <|
    affecting (singleSelection stored id token now) (deleteStatement stored id token now)

def rescheduleJobWithLease (id : JobID) (token : LeaseToken) (now availableAt : Int) :
    RepoCall Int :=
  checked (validateSingle "invalid job id" id token) <|
    affecting (singleSelection stored id token now)
      (rescheduleStatement stored id token now availableAt)

/-- The checks of a defer: the token, the identifier, then the availability. -/
def validateDefer (id : JobID) (token : LeaseToken) (availableAt : Int) :
    Except OutboxError Unit :=
  match token.validate with
  | .error error => .error (errorContext "invalid lease token" error)
  | .ok () =>
    match id.validate with
    | .error error => .error error
    | .ok () =>
      if availableAt = 0 then .error (.text "defer availability time is empty") else .ok ()

/-- The defer clause: an owned live lease with a positive attempt count. -/
def deferSelection (id : JobID) (token : LeaseToken) (now : Int) (job : Job) : Bool :=
  singleSelection stored id token now job && decide (0 < job.attempts)

def deferJobWithLease (id : JobID) (token : LeaseToken) (now availableAt : Int) :
    RepoCall Int :=
  checked (validateDefer id token availableAt) <|
    affecting (deferSelection id token now) fun table =>
      table.update (deferSelection id token now) (deferRow (stored availableAt))
        (deferRow_id (stored availableAt))

def createJobVersioned (id : JobID) (createdAt : Int) (name : Bytes) (schemaVersion : Int)
    (payload : Bytes) (availableAt : Int) : RepoCall JobID :=
  checked (Pgsql.withOp "validate capability" (JobCapability.validate ⟨name, schemaVersion⟩))
    fun table =>
      match table.insert? { newJob id none name schemaVersion payload (stored availableAt)
          (stored createdAt) with queue := bytes "default" } with
      | none => (.error (.leaf (.external "duplicate key")), table)
      | some after => (.ok id, after)

/-- The operations other workers run between the statements of a claim. -/
inductive Operation where
  | create (id : JobID) (createdAt : Int) (name : Bytes) (schemaVersion : Int)
      (payload : Bytes) (availableAt : Int)
  | extend (ids : List JobID) (token : LeaseToken) (now until_ : Int)
  | release (ids : List JobID) (token : LeaseToken) (now : Int)
  | delete (id : JobID) (token : LeaseToken) (now : Int)
  | reschedule (id : JobID) (token : LeaseToken) (now availableAt : Int)
  | defer (id : JobID) (token : LeaseToken) (now availableAt : Int)

def Operation.run (operation : Operation) (table : JobsTable) : JobsTable :=
  match operation with
  | .create id createdAt name schemaVersion payload availableAt =>
    (createJobVersioned id createdAt name schemaVersion payload availableAt table).2
  | .extend ids token now until_ => (extendJobLeases ids token now until_ table).2
  | .release ids token now => (releaseUnstartedJobsWithLease ids token now table).2
  | .delete id token now => (deleteJobWithLease id token now table).2
  | .reschedule id token now availableAt =>
    (rescheduleJobWithLease id token now availableAt table).2
  | .defer id token now availableAt => (deferJobWithLease id token now availableAt table).2

/-- The row as the operation puts it back into the queue. -/
def Operation.requeued? (operation : Operation) (job : Job) : Option Job :=
  match operation with
  | .release ids token now =>
    if releaseSelection stored ids token now job then some (releaseRow job) else none
  | .reschedule id token now availableAt =>
    if singleSelection stored id token now job then some (rescheduleRow (stored availableAt) job)
    else none
  | .defer id token now availableAt =>
    if deferSelection id token now job then some (deferRow (stored availableAt) job) else none
  | _ => none

def Operation.creates : Operation → Option JobID
  | .create id .. => some id
  | _ => none

/-! ## Interleavings -/

/-- The table, the rows that claims have read and not yet returned from, each with
its claim, and the row each claim has reserved, as its update left it. -/
structure World where
  table : JobsTable
  reading : List (Nat × Job)
  won : Nat → Option Job

/-- The table after the conditional update. -/
def reserveStatement (id : JobID) (attempts until_ : Int) (token : LeaseToken) (now : Int)
    (table : JobsTable) : JobsTable :=
  reserveWhere stored (reserveSelection id attempts now) until_ token table

namespace World

/-- A claim has read these rows. -/
def read (world : World) (index : Nat) (rows : List Job) : World :=
  { world with
    reading := rows.map (fun row => (index, row)) ++
      world.reading.filter fun entry => decide (entry.1 ≠ index) }

def store (world : World) (table : JobsTable) : World := { world with table := table }

def win (world : World) (index : Nat) (row : Option Job) : World :=
  { world with won := Function.update world.won index row }

@[simp]
theorem mem_reading_read {world : World} {index other : Nat} {rows : List Job} {row : Job} :
    (other, row) ∈ (world.read index rows).reading ↔
      other = index ∧ row ∈ rows ∨ other ≠ index ∧ (other, row) ∈ world.reading := by
  grind [World.read]

@[simp]
theorem won_win (world : World) (index : Nat) (row : Option Job) :
    (world.win index row).won index = row := by
  simp [World.win]

end World

/-- A statement executes, or it fails; an update whose answer is lost may have
been executed. -/
inductive Performs (index : Nat) (world : World) :
    (statement : Statement) → Reply statement → World → Prop where
  | select (now : Int) (capabilities : List JobCapability) :
      Performs index world (.select now capabilities)
        (Except.ok (selectCandidates now capabilities world.table))
        (world.read index (selectCandidates now capabilities world.table))
  | selectFailed (now : Int) (capabilities : List JobCapability) (error : OutboxError) :
      Performs index world (.select now capabilities) (Except.error error) world
  | reserve (id : JobID) (attempts until_ : Int) (token : LeaseToken) (now : Int) :
      Performs index world (.reserve id attempts until_ token now)
        (Except.ok ((world.table.matching (reserveSelection id attempts now)).length : Int))
        ((world.store (reserveStatement id attempts until_ token now world.table)).win index
          ((reserveStatement id attempts until_ token now world.table).get? id))
  | reserveLost (id : JobID) (attempts until_ : Int) (token : LeaseToken) (now : Int)
      (error : OutboxError) :
      Performs index world (.reserve id attempts until_ token now) (Except.error error)
        (world.store (reserveStatement id attempts until_ token now world.table))
  | reserveFailed (id : JobID) (attempts until_ : Int) (token : LeaseToken) (now : Int)
      (error : OutboxError) :
      Performs index world (.reserve id attempts until_ token now) (Except.error error) world
  | returns (result : Except OutboxError (List Job)) :
      Performs index world (.returns result) () (world.read index [])

/-- Another worker's operation; a created identifier is not one that a claim has
read. -/
inductive Moves (guard : World → Operation → Prop) (world : World) : World → Prop where
  | operation (operation : Operation) (guarded : guard world operation)
      (fresh : ∀ id, operation.creates = some id → ∀ entry ∈ world.reading, entry.2.id ≠ id) :
      Moves guard world (world.store (operation.run world.table))

/-- Any number of claims among the operations of other workers, of which only
those that meet the guard run. -/
def workers (guard : World → Operation → Prop) : Semantics Request World Reply where
  perform := Performs
  environment := Moves guard
  spawned := fun _ _ => []

def start (table : JobsTable) (requests : List Request) : Config Request World Reply :=
  ⟨⟨table, [], fun _ => none⟩, requests.map fun request =>
    Thread.start (request, claim request)⟩

end OutboxFormal.Storage.Picodata
