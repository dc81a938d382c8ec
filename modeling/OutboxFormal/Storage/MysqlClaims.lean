import Mathlib.Algebra.Order.BigOperators.Group.List
import OutboxFormal.Library.Scripts
import OutboxFormal.Service.Claim
import OutboxFormal.Storage.ClaimContract
import OutboxFormal.Storage.Repository

/-!
# MySQL claims among other workers

A MySQL claim reads its candidates without locks and reserves those that are
still ready in a later transaction; when none is, it reads again. A claim is a
program over these steps. Any other repository call may run between them. The
ghost state records the rows each claim has read and which claim holds each row.
-/

namespace OutboxFormal.Storage.Mysql

open Library DatabaseSql

/-! ## The claim as a program -/

inductive Query where
  | ordinary (capabilities : List JobCapability) (limit : Int)
  | bounded (capability : JobCapability) (maxMessages maxBytes : Int)

namespace Query

/-- The number of rows the claim may return. -/
def limit : Query → Int
  | .ordinary _ limit => limit
  | .bounded _ maxMessages _ => maxMessages

def ids (now : Int) (table : JobsTable) : Query → List JobID
  | .ordinary capabilities limit => batchCandidateIDs now capabilities limit.toNat table
  | .bounded capability maxMessages maxBytes =>
    findBoundedBatchCandidateIDs now capability maxMessages.toNat maxBytes table

/-- The checks a claim makes before its first statement. -/
def check (token : LeaseToken) : Query → Except OutboxError Unit
  | .ordinary capabilities limit =>
    if capabilities.isEmpty then .error (.leaf .errNoJobs)
    else
      match validateCapabilities capabilities with
      | .error error => .error error
      | .ok () => validateBatchClaim token limit
  | .bounded capability maxMessages maxBytes =>
    match validateBatchClaim token maxMessages with
    | .error error => .error error
    | .ok () =>
      match validateMaxBytes maxBytes with
      | .error error => .error error
      | .ok () => validateCapabilities [capability]

end Query

structure Request where
  query : Query
  now : Int
  until_ : Int
  token : LeaseToken

/-- The steps of a claim, and its return to the caller. -/
inductive Statement where
  | contextErr
  | candidates (query : Query) (now : Int)
  | reserve (now until_ : Int) (token : LeaseToken) (ids : List JobID)
  | returns (result : Except OutboxError (List Job))

/-- What a step answers. -/
def Reply : Statement → Type
  | .contextErr => Option OutboxError
  | .candidates .. => Except OutboxError (List JobID)
  | .reserve .. => Except OutboxError (Option (List Job))
  | .returns _ => Unit

abbrev Repo := Program Reply

def contextErr : Repo (Option OutboxError) := Program.perform Statement.contextErr

def readCandidates (query : Query) (now : Int) : Repo (Except OutboxError (List JobID)) :=
  Program.perform (Statement.candidates query now)

def reserve (now until_ : Int) (token : LeaseToken) (ids : List JobID) :
    Repo (Except OutboxError (Option (List Job))) :=
  Program.perform (Statement.reserve now until_ token ids)

def returns (result : Except OutboxError (List Job)) : Repo Unit :=
  Program.perform (Statement.returns result)

/-- The claim loop, for a bounded number of rounds of one run. -/
def claimLoop (request : Request) : Nat → Repo (Except OutboxError (List Job))
  | 0 => .goexit
  | rounds + 1 => do
      match ← contextErr with
      | some error => pure (.error error)
      | none =>
        match ← readCandidates request.query request.now with
        | .error error => pure (.error error)
        | .ok ids =>
          if ids.isEmpty then pure (.error (.leaf .errNoJobs))
          else
            match ← reserve request.now request.until_ request.token ids with
            | .error error => pure (.error error)
            | .ok (some jobs) => pure (.ok jobs)
            | .ok none => claimLoop request rounds

/-- `FindAndReserveJobsForCapabilities`, or `FindAndReserveJobsForCapabilityBounded`. -/
def findAndReserve (request : Request) (rounds : Nat) : Repo (Except OutboxError (List Job)) :=
  match request.query.check request.token with
  | .error error => pure (.error error)
  | .ok () => claimLoop request rounds

/-- A claim, up to its return. -/
def claim (request : Request) (rounds : Nat) : Repo Unit := do
  let result ← findAndReserve request rounds
  returns result

/-! ## Interleavings -/

/-- The claim that holds a row, and the deadline it was told last. -/
structure Holder where
  claim : Nat
  deadline : Int
  deriving DecidableEq, Repr

/-- Nothing but an extension keeps a holder once the row changes. -/
def Holder.follow (holder : Option Holder) : RowEvent → Option Holder
  | .kept => holder
  | .extended _ until_ _ => holder.map fun held => { held with deadline := stored until_ }
  | _ => none

/-- The database, the candidate rows each claim has read, the rows its update
found, and the holder of each row. -/
structure World where
  database : Database
  reads : Nat → List Job
  taken : Nat → List Job
  holders : JobID → Option Holder

namespace World

def jobs (world : World) : JobsTable := world.database.jobs

/-- A claim has read the rows under these identifiers. -/
def read (world : World) (index : Nat) (ids : List JobID) : World :=
  { world with reads := Function.update world.reads index (ids.filterMap world.jobs.get?) }

/-- A claim has run its reserving transaction. -/
def reserve (world : World) (index : Nat) (now until_ : Int) (token : LeaseToken)
    (ids : List JobID) : World :=
  match reserveBatchCandidates now until_ token ids world.jobs with
  | (.ok (some _), after) =>
    { world with
      database := { world.database with jobs := after }
      taken := Function.update world.taken index (world.jobs.matching (reservable now ids))
      holders := fun id =>
        if (world.jobs.get? id).any (reservable now ids) then some ⟨index, stored until_⟩
        else world.holders id }
  | _ => world

/-- Another call has left this database, by these events. -/
def moved (world : World) (database : Database) (events : JobID → RowEvent) : World :=
  { world with
    database := database
    holders := fun id => Holder.follow (world.holders id) (events id) }

end World

/-- A step executes, or it fails; a transaction whose answer is lost may have
committed. -/
inductive Performs (index : Nat) (world : World) :
    (statement : Statement) → Reply statement → World → Prop where
  | contextErr (answer : Option OutboxError) : Performs index world .contextErr answer world
  | candidates (query : Query) (now : Int) :
      Performs index world (.candidates query now) (Except.ok (query.ids now world.jobs))
        (world.read index (query.ids now world.jobs))
  | candidatesFailed (query : Query) (now : Int) (error : OutboxError) :
      Performs index world (.candidates query now) (Except.error error) world
  | reserve (now until_ : Int) (token : LeaseToken) (ids : List JobID) :
      Performs index world (.reserve now until_ token ids)
        (reserveBatchCandidates now until_ token ids world.jobs).1
        (world.reserve index now until_ token ids)
  | reserveLost (now until_ : Int) (token : LeaseToken) (ids : List JobID) (error : OutboxError) :
      Performs index world (.reserve now until_ token ids) (Except.error error)
        (world.reserve index now until_ token ids)
  | reserveFailed (now until_ : Int) (token : LeaseToken) (ids : List JobID)
      (error : OutboxError) :
      Performs index world (.reserve now until_ token ids) (Except.error error) world
  | returns (result : Except OutboxError (List Job)) :
      Performs index world (.returns result) () (world.read index [])

/-- Another worker's call that is not a claim; an identifier it inserts is not
one that a claim has read. -/
inductive Moves (digest : Digest) (world : World) : World → Prop where
  | call (call : Call) (events : JobID → RowEvent)
      (allowed : ∀ id, call.events stored digest (call.run .mysql digest world.database).1 id
        (events id))
      (happened : ∀ id, RowStep stored (events id) (world.jobs.get? id)
        ((call.run .mysql digest world.database).2.jobs.get? id))
      (claimsNothing : ∀ id now until_ token, events id ≠ .claimed now until_ token)
      (fresh : ∀ id job, events id = .inserted job → ∀ index, id ∉ (world.reads index).map Job.id) :
      Moves digest world (world.moved (call.run .mysql digest world.database).2 events)

/-- Any number of claims among the calls of other workers. -/
def claimers (digest : Digest) : Semantics Request World Reply where
  perform := Performs
  environment := Moves digest
  spawned := fun _ _ => []

/-- The claims at their start over a database, each with the rounds it may make. -/
def start (database : Database) (requests : List (Request × Nat)) : Config Request World Reply :=
  ⟨⟨database, fun _ => [], fun _ => [], fun _ => none⟩, requests.map fun request =>
    Thread.start (request.1, claim request.1 request.2)⟩

/-! ## What a claim does -/

inductive Stage where
  | searching
  | read (ids : List JobID)
  | won (jobs : List Job)
  | ended

def Stage.next : Stage → (statement : Statement) → Reply statement → Stage
  | .searching, .contextErr, _ => .searching
  | .searching, .candidates .., .ok ids => .read ids
  | .read _, .reserve .., .ok none => .searching
  | .read _, .reserve .., .ok (some jobs) => .won jobs
  | _, _, _ => .ended

/-- The steps a claim makes at a stage. -/
def Stage.allows (request : Request) (stage : Stage) : Statement → Prop
  | .contextErr => True
  | .candidates query now => stage = .searching ∧ query = request.query ∧ now = request.now
  | .reserve now until_ token ids => stage = .read ids ∧ now = request.now ∧
      until_ = request.until_ ∧ token = request.token
  | .returns (.ok jobs) => stage = .won jobs
  | .returns (.error _) => True

def claiming (request : Request) : Monitor Reply Stage where
  start := .searching
  next := Stage.next
  allowed := Stage.allows request
  expects := fun _ _ _ => True

section Claim

variable {request : Request}

/-- The loop returns the rows of the one transaction that reserved any. -/
theorem wp_claimLoop (rounds : Nat) :
    (claiming request).wp (claimLoop request rounds)
      (fun result stage => ∀ jobs, result = .ok jobs → stage = .won jobs)
      (fun _ => True) .searching := by
  have failed : ∀ (error : OutboxError) (stage : Stage) (jobs : List Job),
      (.error error : Except OutboxError (List Job)) = .ok jobs → stage = .won jobs :=
    nofun
  induction rounds with
  | zero => trivial
  | succ rounds ih =>
    refine Monitor.wp_step trivial fun context _ => ?_
    cases context with
    | some error => exact failed error _
    | none =>
      refine Monitor.wp_step ⟨rfl, rfl, rfl⟩ fun answer _ => ?_
      cases answer with
      | error error => exact failed error _
      | ok ids =>
        dsimp only
        split
        · exact failed _ _
        · refine Monitor.wp_step ⟨rfl, rfl, rfl, rfl⟩ fun reserved _ => ?_
          match reserved with
          | .error error => exact failed error _
          | .ok none => exact ih
          | .ok (some jobs) =>
            intro claimed same
            cases same
            rfl

theorem watched_claim (request : Request) (rounds : Nat) :
    (Thread.start (request, claim request rounds)).Watched claiming := by
  have returning : ∀ (result : Except OutboxError (List Job)) (stage : Stage),
      (∀ jobs, result = .ok jobs → stage = .won jobs) →
        (claiming request).wp (returns result) (fun _ _ => True) (fun _ => True) stage := by
    intro result stage won
    cases result with
    | error error => exact ⟨trivial, fun _ _ => trivial⟩
    | ok jobs => exact ⟨won jobs rfl, fun _ _ => trivial⟩
  refine Monitor.wp_bind.mpr ?_
  unfold findAndReserve
  split
  · exact returning _ _ nofun
  · exact Monitor.wp_mono (wp_claimLoop rounds) returning fun _ kept => kept

end Claim

/-- A reserving transaction found every candidate gone. -/
def Missed : (statement : Statement) → Reply statement → Prop
  | .reserve .., answer => answer = .ok none
  | _, _ => True

/-- A claim that still searches has missed in every earlier round. -/
theorem missed_of_open {request : Request} {history : History Reply}
    (isOpen : (claiming request).state history = .searching ∨
      ∃ ids, (claiming request).state history = .read ids) :
    ∀ event ∈ history, Missed event.effect event.answer := by
  induction history with
  | nil => exact nofun
  | cons event earlier ih =>
    obtain ⟨statement, answer⟩ := event
    change (Stage.next ((claiming request).state earlier) statement answer = _ ∨
      ∃ ids, Stage.next ((claiming request).state earlier) statement answer = _) at isOpen
    cases before : (claiming request).state earlier with
    | searching =>
      rw [before] at isOpen
      refine List.forall_mem_cons.mpr ⟨?_, ih (Or.inl before)⟩
      cases statement <;> simp_all [Stage.next, Missed]
    | read ids =>
      rw [before] at isOpen
      refine List.forall_mem_cons.mpr ⟨?_, ih (Or.inr ⟨ids, before⟩)⟩
      cases statement with
      | reserve now until_ token ids =>
        match answer with
        | .error error => simp [Stage.next] at isOpen
        | .ok none => rfl
        | .ok (some jobs) => simp [Stage.next] at isOpen
      | _ => trivial
    | won jobs =>
      rw [before] at isOpen
      simp [Stage.next] at isOpen
    | ended =>
      rw [before] at isOpen
      simp [Stage.next] at isOpen

/-! ## Candidates -/

/-- The byte budget of a bounded claim. -/
def Query.maxBytes : Query → Option Int
  | .ordinary .. => none
  | .bounded _ _ maxBytes => some maxBytes

/-- One row may exceed the budget, several may not. -/
def WithinBudget (maxBytes : Int) (rows : List Job) : Prop :=
  rows.length ≤ 1 ∨ payloadBytes rows ≤ maxBytes

def Query.Fits (query : Query) (rows : List Job) : Prop :=
  rows.length ≤ query.limit.toNat ∧
    ∀ maxBytes, query.maxBytes = some maxBytes → WithinBudget maxBytes rows

theorem payloadBytes_nonneg (rows : List Job) : 0 ≤ payloadBytes rows := by
  refine List.sum_nonneg fun size member => ?_
  obtain ⟨job, _, rfl⟩ := List.mem_map.mp member
  exact Int.natCast_nonneg _

/-- After the first row the loop only adds rows within the budget. -/
theorem boundedCandidateIDs_within (maxBytes : Int) (jobIDs : List JobID) (usedBytes : Int)
    (limitReached : Bool) (rows : List Job) (begun : jobIDs ≠ []) :
    ∃ picked : List Job, picked.Sublist rows ∧
      boundedCandidateIDs maxBytes jobIDs usedBytes limitReached rows =
        jobIDs ++ picked.map Job.id ∧
      (picked = [] ∨ usedBytes + payloadBytes picked ≤ maxBytes) := by
  induction rows generalizing jobIDs usedBytes limitReached with
  | nil => exact ⟨[], List.Sublist.refl _, by simp [boundedCandidateIDs], Or.inl rfl⟩
  | cons job rest ih =>
    have nonempty : jobIDs.isEmpty ≠ true := fun empty => begun (List.isEmpty_iff.mp empty)
    simp only [boundedCandidateIDs, nonempty]
    split
    · obtain ⟨picked, hpicked, same, within⟩ := ih jobIDs usedBytes limitReached begun
      exact ⟨picked, hpicked.cons job, same, within⟩
    · split
      · rename_i fits
        obtain ⟨picked, hpicked, same, within⟩ := ih (jobIDs ++ [job.id])
          (usedBytes + job.payload.length)
          (decide (maxBytes < usedBytes + job.payload.length)) (by simp)
        refine ⟨job :: picked, hpicked.cons_cons job, by rw [same]; simp, Or.inr ?_⟩
        rcases within with rfl | within
        · simpa [payloadBytes] using fits
        · simpa [payloadBytes, Int.add_assoc] using within
      · obtain ⟨picked, hpicked, same, within⟩ := ih jobIDs usedBytes true begun
        exact ⟨picked, hpicked.cons job, same, within⟩

theorem boundedCandidateIDs_budget (maxBytes : Int) (rows : List Job) :
    ∃ picked : List Job, picked.Sublist rows ∧
      boundedCandidateIDs maxBytes [] 0 false rows = picked.map Job.id ∧
      WithinBudget maxBytes picked := by
  cases rows with
  | nil => exact ⟨[], List.Sublist.refl _, rfl, Or.inl (Nat.zero_le 1)⟩
  | cons job rest =>
    obtain ⟨picked, hpicked, same, within⟩ := boundedCandidateIDs_within maxBytes [job.id]
      (0 + job.payload.length) (decide (maxBytes < 0 + job.payload.length)) rest (by simp)
    refine ⟨job :: picked, hpicked.cons_cons job, by simpa [boundedCandidateIDs] using same, ?_⟩
    rcases within with rfl | within
    · exact Or.inl (Nat.le_refl 1)
    · exact Or.inr (by simpa [payloadBytes] using within)

theorem mem_capabilityCandidates {now : Int} {limit : Nat} {table : JobsTable}
    {capability : JobCapability} {job : Job}
    (member : job ∈ capabilityCandidates now limit table capability) :
    job ∈ table.rows ∧ ready (stored now) job = true := by
  obtain ⟨hrow, hready⟩ := List.mem_filter.mp (mem_orderedLimit member)
  exact ⟨hrow, (Bool.and_eq_true_iff.mp hready).2⟩

theorem length_orderedLimit_le (limit : Nat) (rows : List Job) :
    (orderedLimit limit rows).length ≤ limit := List.length_take_le _ _

/-- The candidates are stored ready rows within the limits of the query. -/
theorem Query.ids_spec (query : Query) (now : Int) (table : JobsTable) :
    ∃ rows : List Job, query.ids now table = rows.map Job.id ∧
      (∀ row ∈ rows, row ∈ table.rows ∧ ready (stored now) row = true) ∧ query.Fits rows := by
  cases query with
  | ordinary capabilities limit =>
    refine ⟨_, rfl, fun row member => ?_, length_orderedLimit_le _ _, nofun⟩
    obtain ⟨capability, _, hrow⟩ := List.mem_flatMap.mp (mem_orderedLimit member)
    exact mem_capabilityCandidates hrow
  | bounded capability maxMessages maxBytes =>
    obtain ⟨picked, hpicked, same, within⟩ := boundedCandidateIDs_budget maxBytes
      (capabilityCandidates now maxMessages.toNat table capability)
    refine ⟨picked, same, fun row member => mem_capabilityCandidates (hpicked.subset member),
      hpicked.length_le.trans (length_orderedLimit_le _ _), ?_⟩
    rintro _ ⟨⟩
    exact within

theorem filterMap_get? {table : JobsTable} {rows : List Job}
    (inside : ∀ row ∈ rows, row ∈ table.rows) :
    (rows.map Job.id).filterMap table.get? = rows := by
  rw [List.filterMap_map]
  refine (List.filterMap_congr fun row member => ?_).trans List.filterMap_some
  exact Table.get?_eq_some_iff.mpr ⟨inside row member, rfl⟩

/-! ## The budget of a partial win -/

theorem validateBoundedPayloadFrom_eq_none {total : Nat} {maxBytes : Int} (jobs : List Job)
    (index : Nat) (usedBytes : Int) (used : 0 ≤ usedBytes)
    (fits : usedBytes + payloadBytes jobs ≤ maxBytes) :
    validateBoundedPayloadFrom total maxBytes index usedBytes jobs = none := by
  induction jobs generalizing index usedBytes with
  | nil => rfl
  | cons job rest ih =>
    have remaining := payloadBytes_nonneg rest
    have split : payloadBytes (job :: rest) = job.payload.length + payloadBytes rest := by
      simp [payloadBytes]
    rw [split] at fits
    have small : ¬ (index = 0 ∧ maxBytes < (job.payload.length : Int)) := by omega
    have room : ¬ maxBytes - usedBytes < (job.payload.length : Int) := by omega
    simp only [validateBoundedPayloadFrom, if_neg small, if_neg room]
    exact ih (index + 1) _ (by omega) (by omega)

theorem validateBoundedExecutionBatchPayload_eq_none {maxBytes : Int} {jobs : List Job}
    (within : WithinBudget maxBytes jobs) :
    validateBoundedExecutionBatchPayload jobs maxBytes = none := by
  rcases within with few | fits
  · match jobs, few with
    | [], _ => rfl
    | [job], _ =>
      by_cases large : maxBytes < (job.payload.length : Int)
      · simp [validateBoundedExecutionBatchPayload, validateBoundedPayloadFrom, large]
      · simp [validateBoundedExecutionBatchPayload, validateBoundedPayloadFrom, large]
  · exact validateBoundedPayloadFrom_eq_none jobs 0 0 (Int.le_refl 0) (by omega)

/-- Some of the rows, each with its payload, are within the budget too. -/
theorem WithinBudget.of_subset {maxBytes : Int} {rows some_ : List Job}
    (within : WithinBudget maxBytes rows) (distinct : (some_.map Job.id).Nodup)
    (subset : ∀ job ∈ some_, ∃ row ∈ rows, row.id = job.id ∧ row.payload = job.payload) :
    WithinBudget maxBytes some_ := by
  let content := fun job : Job => (job.id, job.payload)
  have nodup : (some_.map content).Nodup := by
    refine List.Nodup.of_map Prod.fst ?_
    rwa [List.map_map]
  have subperm : (some_.map content).Subperm (rows.map content) := by
    refine nodup.subperm fun pair member => ?_
    obtain ⟨job, hjob, rfl⟩ := List.mem_map.mp member
    obtain ⟨row, hrow, sameID, samePayload⟩ := subset job hjob
    exact List.mem_map.mpr ⟨row, hrow, Prod.ext sameID samePayload⟩
  rcases within with few | fits
  · exact Or.inl (by simpa using subperm.length_le.trans (by simpa using few))
  · refine Or.inr (Int.le_trans ?_ fits)
    obtain ⟨chosen, same, sublist⟩ := subperm
    have bytes : ∀ jobs : List Job, payloadBytes jobs =
        ((jobs.map content).map fun pair => (pair.2.length : Int)).sum := by
      intro jobs
      rw [List.map_map]
      rfl
    rw [bytes, bytes, ← (same.map _).sum_eq]
    exact (sublist.map _).sum_le_sum fun size member => by
      obtain ⟨pair, _, rfl⟩ := List.mem_map.mp member
      exact Int.natCast_nonneg _

/-! ## The reserving transaction -/

section Reserve

variable {now until_ : Int} {token : LeaseToken} {ids : List JobID} {table : JobsTable}

/-- A transaction that reserves rows answers with all of them, in queue order. -/
theorem reserveBatchCandidates_won {jobs : List Job} {after : JobsTable}
    (won : reserveBatchCandidates now until_ token ids table = (.ok (some jobs), after)) :
    after = reserveWhere stored (reservable now ids) until_ token table ∧
      jobs = (ordered (table.matching (reservable now ids))).map
        (reserveRow (stored until_) token) ∧
      jobs ≠ [] ∧ jobs.length ≤ ids.length := by
  have named : (fun job : Job => decide (job.id ∈ ids) && ready (stored now) job) =
      reservable now ids := rfl
  simp only [reserveBatchCandidates, named] at won
  split at won
  · cases won
  split at won
  · cases won
  split at won
  · cases won
  split at won
  · cases won
  · rename_i some_ few loaded
    cases won
    rw [not_not, length_ordered] at loaded
    have same : ordered ((reserveWhere stored (reservable now ids) until_ token table).matching
        fun job => decide (job.id ∈ ids) && decide (job.leaseToken = token)) =
        (ordered (table.matching (reservable now ids))).map (reserveRow (stored until_) token) := by
      refine ordered_matching_reserveWhere (List.pairwise_insertionSort QueueOrder _) ?_
        (fun job => by rw [mem_ordered, Table.mem_matching]) (loads_of_length ?_ loaded)
      · exact ((ordered_perm _).map Job.id).nodup_iff.mpr (table.nodup_map_matching _)
      · intro job selected
        have hid : job.id ∈ ids := of_decide_eq_true (Bool.and_eq_true_iff.mp selected).1
        simp [hid, reserveRow]
    refine ⟨rfl, same, ?_, ?_⟩
    · intro empty
      rw [empty, eq_comm, List.map_eq_nil_iff, ← List.length_eq_zero_iff, length_ordered] at same
      exact some_ same
    · rw [length_ordered, loaded]
      exact Nat.le_of_not_lt few

theorem reserveBatchCandidates_missed
    (missed : (reserveBatchCandidates now until_ token ids table).1 = .ok none) :
    table.matching (reservable now ids) = [] := by
  have named : (fun job : Job => decide (job.id ∈ ids) && ready (stored now) job) =
      reservable now ids := rfl
  simp only [reserveBatchCandidates, named] at missed
  split at missed
  · cases missed
  split at missed
  · rename_i empty
    exact List.length_eq_zero_iff.mp empty
  split at missed
  · cases missed
  split at missed <;> cases missed

end Reserve

/-! ## What stays true while others work -/

/-- The row stored under the candidate's identifier still has its payload. -/
def Unaltered (table : JobsTable) (candidate : Job) : Prop :=
  ∀ row, table.get? candidate.id = some row → row.payload = candidate.payload

/-- Every holder's deadline is the one the row carries. -/
def HoldersStored (world : World) : Prop :=
  ∀ id holder, world.holders id = some holder →
    ∃ row, world.jobs.get? id = some row ∧ row.reservedAt = some holder.deadline

/-- What a successful claim returns, given the rows its update found. -/
structure GoodClaim (request : Request) (taken jobs : List Job) : Prop where
  nonempty : jobs ≠ []
  distinct : (jobs.map Job.id).Nodup
  limited : (jobs.length : Int) ≤ request.query.limit
  queued : jobs.Pairwise QueueOrder
  wasReady : ∀ job ∈ jobs, ∃ row ∈ taken, ready (stored request.now) row = true ∧
    job = reserveRow (stored request.until_) request.token row
  budgeted : ∀ maxBytes, request.query.maxBytes = some maxBytes →
    validateBoundedExecutionBatchPayload jobs maxBytes = none

/-- What a claim may rely on at its stage. -/
def StageHolds (request : Request) (index : Nat) (world : World) : Stage → Prop
  | .read ids => ids = (world.reads index).map Job.id ∧
      request.query.Fits (world.reads index) ∧
      ∀ candidate ∈ world.reads index, ready (stored request.now) candidate = true ∧
        Unaltered world.jobs candidate
  | .won jobs => GoodClaim request (world.taken index) jobs
  | .searching | .ended => True

/-- Holders are stored, and every claim may rely on its stage. -/
def ClaimsHold (world : World) (pasts : List (Request × History Reply)) : Prop :=
  HoldersStored world ∧ ∀ index request history, pasts[index]? = some (request, history) →
    StageHolds request index world ((claiming request).state history)

/-! ## Steps -/

section Steps

variable {request : Request} {index : Nat} {world after : World} {stage : Stage}

theorem World.reserve_cases (world : World) (index : Nat) (now until_ : Int)
    (token : LeaseToken) (ids : List JobID) :
    world.reserve index now until_ token ids = world ∧
        (∀ jobs, (reserveBatchCandidates now until_ token ids world.jobs).1 ≠ .ok (some jobs)) ∨
      ∃ jobs, reserveBatchCandidates now until_ token ids world.jobs = (.ok (some jobs),
          reserveWhere stored (reservable now ids) until_ token world.jobs) ∧
        world.reserve index now until_ token ids =
          { world with
            database := { world.database with
              jobs := reserveWhere stored (reservable now ids) until_ token world.jobs }
            taken := Function.update world.taken index
              (world.jobs.matching (reservable now ids))
            holders := fun id =>
              if (world.jobs.get? id).any (reservable now ids) then some ⟨index, stored until_⟩
              else world.holders id } := by
  unfold World.reserve
  rcases called : reserveBatchCandidates now until_ token ids world.jobs with ⟨answer, left⟩
  match answer with
  | .error error => exact Or.inl ⟨rfl, nofun⟩
  | .ok none => exact Or.inl ⟨rfl, nofun⟩
  | .ok (some jobs) =>
    obtain ⟨rfl, _⟩ := reserveBatchCandidates_won called
    exact Or.inr ⟨jobs, rfl, rfl⟩

@[simp]
theorem World.reads_reserve (world : World) (index : Nat) (now until_ : Int)
    (token : LeaseToken) (ids : List JobID) :
    (world.reserve index now until_ token ids).reads = world.reads := by
  rcases world.reserve_cases index now until_ token ids with ⟨same, _⟩ | ⟨_, _, same⟩ <;> rw [same]

theorem World.taken_reserve_of_ne {acting : Nat} (different : index ≠ acting) (now until_ : Int)
    (token : LeaseToken) (ids : List JobID) :
    (world.reserve acting now until_ token ids).taken index = world.taken index := by
  rcases world.reserve_cases acting now until_ token ids with ⟨same, _⟩ | ⟨_, _, same⟩
  · rw [same]
  · rw [same]
    exact Function.update_of_ne different _ _

theorem Unaltered.reserve {candidate : Job} (unaltered : Unaltered world.jobs candidate)
    (index : Nat) (now until_ : Int) (token : LeaseToken) (ids : List JobID) :
    Unaltered (world.reserve index now until_ token ids).jobs candidate := by
  rcases world.reserve_cases index now until_ token ids with ⟨same, _⟩ | ⟨_, _, same⟩
  · rwa [same]
  · rw [same]
    intro row found
    change (reserveWhere stored _ until_ token world.jobs).get? candidate.id = some row at found
    rw [reserveWhere, Table.get?_update, Option.map_eq_some_iff] at found
    obtain ⟨before, hbefore, rfl⟩ := found
    have kept := unaltered before hbefore
    split <;> exact kept

theorem HoldersStored.reserve (holds : HoldersStored world) (index : Nat) (now until_ : Int)
    (token : LeaseToken) (ids : List JobID) :
    HoldersStored (world.reserve index now until_ token ids) := by
  rcases world.reserve_cases index now until_ token ids with ⟨same, _⟩ | ⟨_, _, same⟩
  · rwa [same]
  · rw [same]
    intro id holder held
    change ∃ row, (reserveWhere stored _ until_ token world.jobs).get? id = some row ∧ _
    rw [reserveWhere, Table.get?_update]
    change (if (world.jobs.get? id).any (reservable now ids) then some ⟨index, stored until_⟩
      else world.holders id) = some holder at held
    by_cases selected : (world.jobs.get? id).any (reservable now ids) = true
    · rw [if_pos selected] at held
      cases held
      obtain ⟨row, found, hselected⟩ := (Option.any_eq_true (p := reservable now ids) _).mp selected
      exact ⟨_, by rw [found, Option.map_some, if_pos hselected], rfl⟩
    · rw [if_neg selected] at held
      obtain ⟨row, found, deadline⟩ := holds id holder held
      have unselected : ¬ reservable now ids row = true := by simpa [found] using selected
      exact ⟨row, by rw [found, Option.map_some, if_neg unselected], deadline⟩

/-- A row that a call other than a claim and an insertion left keeps its payload. -/
theorem payload_of_rowStep {event : RowEvent} {before : Option Job} {row : Job}
    (step : RowStep stored event before (some row)) :
    (∃ job, event = .inserted job) ∨ ∃ earlier, before = some earlier ∧
      earlier.payload = row.payload := by
  cases step with
  | inserted isNew => exact Or.inl ⟨_, rfl⟩
  | kept => exact Or.inr ⟨_, rfl, rfl⟩
  | claimed | extended | released | rescheduled | deferred => exact Or.inr ⟨_, rfl, rfl⟩

theorem follow_rowStep {event : RowEvent} {before after : Option Job} {holder : Option Holder}
    {held : Holder} (step : RowStep stored event before after)
    (holds : ∀ held, holder = some held →
      ∃ row, before = some row ∧ row.reservedAt = some held.deadline)
    (follows : Holder.follow holder event = some held) :
    ∃ row, after = some row ∧ row.reservedAt = some held.deadline := by
  cases step with
  | kept => exact holds held follows
  | extended named isLeased =>
    obtain ⟨earlier, rfl, rfl⟩ := Option.map_eq_some_iff.mp follows
    exact ⟨_, rfl, rfl⟩
  | inserted | claimed | released | rescheduled | deferred | deleted => cases follows

theorem StageHolds.of_jobs (holds : StageHolds request index world stage)
    (reads : after.reads index = world.reads index) (taken : after.taken index = world.taken index)
    (unaltered : ∀ candidate ∈ world.reads index,
      Unaltered world.jobs candidate → Unaltered after.jobs candidate) :
    StageHolds request index after stage := by
  cases stage with
  | searching | ended => trivial
  | read ids =>
    obtain ⟨same, fits, candidates⟩ := holds
    refine ⟨reads ▸ same, reads ▸ fits, fun candidate member => ?_⟩
    rw [reads] at member
    obtain ⟨isReady, kept⟩ := candidates candidate member
    exact ⟨isReady, unaltered candidate member kept⟩
  | won jobs =>
    change GoodClaim request (after.taken index) jobs
    rw [taken]
    exact holds

/-- A step of another claim leaves a claim's stage as it is. -/
theorem StageHolds.other {acting : Nat} {statement : Statement} {answer : Reply statement}
    (holds : StageHolds request index world stage) (different : index ≠ acting)
    (performs : Performs acting world statement answer after) :
    StageHolds request index after stage := by
  cases performs with
  | contextErr | candidatesFailed | reserveFailed => exact holds
  | candidates | returns =>
    exact holds.of_jobs (Function.update_of_ne different _ _) rfl fun _ _ kept => kept
  | reserve now until_ token ids | reserveLost now until_ token ids =>
    exact holds.of_jobs (by rw [World.reads_reserve])
      (World.taken_reserve_of_ne different now until_ token ids)
      fun _ _ kept => kept.reserve acting now until_ token ids

theorem stageHolds_candidates (request : Request) (index : Nat) (world : World) :
    StageHolds request index (world.read index (request.query.ids request.now world.jobs))
      (.read (request.query.ids request.now world.jobs)) := by
  obtain ⟨rows, same, isReady, fits⟩ := request.query.ids_spec request.now world.jobs
  have reads : (world.read index (request.query.ids request.now world.jobs)).reads index =
      rows := by
    rw [same]
    exact (Function.update_self ..).trans
      (filterMap_get? fun row member => (isReady row member).1)
  refine ⟨reads ▸ same, reads ▸ fits, fun candidate member => ?_⟩
  rw [reads] at member
  refine ⟨(isReady candidate member).2, fun row found => ?_⟩
  change world.jobs.get? candidate.id = some row at found
  rw [Table.get?_eq_some_iff.mpr ⟨(isReady candidate member).1, rfl⟩] at found
  cases found
  rfl

theorem StageHolds.goodClaim {ids : List JobID} {jobs : List Job} {table : JobsTable}
    (holds : StageHolds request index world (.read ids))
    (won : reserveBatchCandidates request.now request.until_ request.token ids world.jobs =
      (.ok (some jobs), table)) :
    GoodClaim request (world.jobs.matching (reservable request.now ids)) jobs := by
  obtain ⟨sameIDs, ⟨few, budget⟩, candidates⟩ := holds
  obtain ⟨_, same, nonempty, length⟩ := reserveBatchCandidates_won won
  have found : ∀ job ∈ jobs, ∃ row ∈ world.jobs.matching (reservable request.now ids),
      job = reserveRow (stored request.until_) request.token row := by
    intro job member
    rw [same] at member
    obtain ⟨row, hrow, rfl⟩ := List.mem_map.mp member
    exact ⟨row, mem_ordered.mp hrow, rfl⟩
  have distinct : (jobs.map Job.id).Nodup := by
    rw [same, List.map_map]
    exact ((ordered_perm _).map Job.id).nodup_iff.mpr (world.jobs.nodup_map_matching _)
  have positive : 0 < jobs.length := List.length_pos_iff.mpr nonempty
  rw [sameIDs, List.length_map] at length
  refine ⟨nonempty, distinct, by omega, ?_, fun job member => ?_, fun maxBytes bounded => ?_⟩
  · rw [same, ← ordered_map_reserveRow]
    exact List.pairwise_insertionSort QueueOrder _
  · obtain ⟨row, hrow, rfl⟩ := found job member
    exact ⟨row, hrow, (Bool.and_eq_true_iff.mp (Table.mem_matching.mp hrow).2).2, rfl⟩
  · refine validateBoundedExecutionBatchPayload_eq_none
      ((budget maxBytes bounded).of_subset distinct fun job member => ?_)
    obtain ⟨row, hrow, rfl⟩ := found job member
    obtain ⟨hstored, selected⟩ := Table.mem_matching.mp hrow
    have wanted : row.id ∈ ids := of_decide_eq_true (Bool.and_eq_true_iff.mp selected).1
    rw [sameIDs] at wanted
    obtain ⟨candidate, hcandidate, sameID⟩ := List.mem_map.mp wanted
    refine ⟨candidate, hcandidate, sameID, ?_⟩
    exact ((candidates candidate hcandidate).2 row
      (Table.get?_eq_some_iff.mpr ⟨hstored, sameID.symm⟩)).symm

theorem StageHolds.own {statement : Statement} {answer : Reply statement}
    (holds : StageHolds request index world stage) (allowed : stage.allows request statement)
    (performs : Performs index world statement answer after) :
    StageHolds request index after (stage.next statement answer) := by
  cases performs with
  | contextErr answer => cases stage <;> trivial
  | candidates query now =>
    obtain ⟨rfl, rfl, rfl⟩ := allowed
    exact stageHolds_candidates request index world
  | candidatesFailed query now error =>
    obtain ⟨rfl, _⟩ := allowed
    trivial
  | reserve now until_ token ids =>
    obtain ⟨rfl, rfl, rfl, rfl⟩ := allowed
    rcases world.reserve_cases index request.now request.until_ request.token ids with
      ⟨_, unclaimed⟩ | ⟨jobs, won, same⟩
    · match called : (reserveBatchCandidates request.now request.until_ request.token ids
        world.jobs).1 with
      | .error error => trivial
      | .ok none => trivial
      | .ok (some jobs) => exact absurd called (unclaimed jobs)
    · have taken : (world.reserve index request.now request.until_ request.token ids).taken
          index = world.jobs.matching (reservable request.now ids) := by
        rw [same]
        exact Function.update_self ..
      have good := holds.goodClaim won
      rw [← taken] at good
      rw [won]
      exact good
  | reserveLost now until_ token ids error | reserveFailed now until_ token ids error =>
    obtain ⟨rfl, _⟩ := allowed
    trivial
  | returns result => cases stage <;> trivial

theorem StageHolds.moved {digest : Digest} (holds : StageHolds request index world stage)
    (moves : Moves digest world after) : StageHolds request index after stage := by
  cases moves with
  | call call events allowed happened claimsNothing fresh =>
    refine holds.of_jobs rfl rfl fun candidate member kept row found => ?_
    have step := happened candidate.id
    change (call.run .mysql digest world.database).2.jobs.get? candidate.id = some row at found
    rw [found] at step
    rcases payload_of_rowStep step with ⟨job, inserted⟩ | ⟨earlier, before, same⟩
    · exact absurd (List.mem_map_of_mem member) (fresh candidate.id job inserted index)
    · rw [← same]
      exact kept earlier before

theorem HoldersStored.performs {statement : Statement} {answer : Reply statement}
    (holds : HoldersStored world) (performs : Performs index world statement answer after) :
    HoldersStored after := by
  cases performs with
  | contextErr | candidatesFailed | reserveFailed | candidates | returns => exact holds
  | reserve now until_ token ids | reserveLost now until_ token ids =>
    exact holds.reserve index now until_ token ids

theorem HoldersStored.moved {digest : Digest} (holds : HoldersStored world)
    (moves : Moves digest world after) : HoldersStored after := by
  cases moves with
  | call call events allowed happened claimsNothing fresh =>
    exact fun id holder follows => follow_rowStep (happened id) (holds id) follows

end Steps

theorem supervision_claims (digest : Digest) :
    Supervision (claimers digest) claiming ClaimsHold where
  spawns := fun _ _ _ child => nomatch child
  performs := by
    intro world pasts index request history statement answer after holds found allowed performs
    refine ⟨trivial, holds.1.performs performs, fun other otherRequest otherHistory located => ?_⟩
    rcases getElem?_stepped located with ⟨rfl, same⟩ | ⟨different, same⟩ | ⟨_, child⟩
    · cases same
      exact (holds.2 _ _ _ found).own allowed performs
    · exact (holds.2 _ _ _ same).other different performs
    · cases child
  moves := fun world pasts after holds moves => ⟨holds.1.moved moves,
    fun index request history located => (holds.2 index request history located).moved moves⟩

theorem claimsHold_start (database : Database) (requests : List (Request × Nat)) :
    Supervision.Holds claiming ClaimsHold (start database requests) where
  invariant := by
    refine ⟨fun _ _ held => (nomatch held), fun index request history located => ?_⟩
    simp only [start, List.map_map, List.getElem?_map, Option.map_eq_some_iff] at located
    obtain ⟨_, _, same⟩ := located
    cases same
    trivial
  watched := by
    intro thread member
    obtain ⟨request, _, rfl⟩ := List.mem_map.mp member
    exact watched_claim request.1 request.2

/-! ## The claims -/

structure SoundClaims (config : Config Request World Reply) : Prop where
  /-- A claim about to return rows returns ready, distinct and ordered ones
  within its limits. -/
  returned : ∀ (index : Nat) (request : Request) (history : History Reply) (jobs : List Job)
    (resume : Unit → Repo Unit),
    config.threads[index]? = some ⟨request, history, .call (.returns (.ok jobs)) resume⟩ →
    GoodClaim request (config.world.taken index) jobs
  /-- A claim about to reserve takes a row from its holder only after the
  holder's deadline. -/
  exclusive : ∀ (index : Nat) (request : Request) (history : History Reply) (now until_ : Int)
    (token : LeaseToken) (ids : List JobID)
    (resume : Except OutboxError (Option (List Job)) → Repo Unit),
    config.threads[index]? = some ⟨request, history, .call (.reserve now until_ token ids) resume⟩ →
    ∀ row ∈ config.world.jobs.rows, reservable now ids row = true →
      ∀ holder, config.world.holders row.id = some holder → holder.deadline ≤ stored now
  /-- A claim about to reserve misses only if every candidate has changed since
  it was read. -/
  missed : ∀ (index : Nat) (request : Request) (history : History Reply) (now until_ : Int)
    (token : LeaseToken) (ids : List JobID)
    (resume : Except OutboxError (Option (List Job)) → Repo Unit),
    config.threads[index]? = some ⟨request, history, .call (.reserve now until_ token ids) resume⟩ →
    (reserveBatchCandidates now until_ token ids config.world.jobs).1 = .ok none →
    ids = (config.world.reads index).map Job.id ∧
      ∀ candidate ∈ config.world.reads index,
        config.world.jobs.get? candidate.id ≠ some candidate
  /-- A claim about to read candidates has missed in every earlier round. -/
  again : ∀ (index : Nat) (request : Request) (history : History Reply) (query : Query)
    (now : Int) (resume : Except OutboxError (List JobID) → Repo Unit),
    config.threads[index]? = some ⟨request, history, .call (.candidates query now) resume⟩ →
    ∀ event ∈ history, Missed event.effect event.answer

/-- MySQL claims are sound in every interleaving. -/
theorem claims_sound (digest : Digest) (database : Database) (requests : List (Request × Nat))
    {config : Config Request World Reply}
    (reached : (claimers digest).Reaches (start database requests) config) :
    SoundClaims config := by
  have holds := (supervision_claims digest).reaches (claimsHold_start database requests) reached
  constructor
  · intro index request history jobs resume located
    obtain ⟨past, stage⟩ := holds.located located
    have won := holds.invariant.2 index request history past
    rw [show (claiming request).state history = .won jobs from stage] at won
    exact won
  · intro index request history now until_ token ids resume located row member selected holder held
    obtain ⟨before, found, deadline⟩ := holds.invariant.1 row.id holder held
    rw [Table.get?_eq_some_iff.mpr ⟨member, rfl⟩] at found
    cases found
    exact (ready_iff.mp (Bool.and_eq_true_iff.mp selected).2).2 holder.deadline deadline
  · intro index request history now until_ token ids resume located nothing
    obtain ⟨past, stage, rfl, rfl, rfl⟩ := holds.located located
    have read := holds.invariant.2 index request history past
    rw [stage] at read
    obtain ⟨same, _, candidates⟩ := read
    refine ⟨same, fun candidate member found => ?_⟩
    have gone := reserveBatchCandidates_missed nothing
    have still : candidate ∈ config.world.jobs.matching (reservable request.now ids) := by
      refine Table.mem_matching.mpr ⟨(Table.get?_eq_some_iff.mp found).1, ?_⟩
      refine Bool.and_eq_true_iff.mpr ⟨decide_eq_true ?_, (candidates candidate member).1⟩
      rw [same]
      exact List.mem_map_of_mem member
    rw [gone] at still
    cases still
  · intro index request history query now resume located
    obtain ⟨_, stage, _⟩ := holds.located located
    exact missed_of_open (Or.inl stage)

namespace Sample

def row (id : JobID) (createdAt : Int) : Job :=
  newJob id none (bytes "mail") 1 (bytes "payload") 0 createdAt

def database : Database := ⟨⟨[row ⟨1⟩ 0, row ⟨2⟩ 1000], by decide⟩, Table.empty, Table.empty⟩

def digest : Digest := ⟨fun _ => [], fun content => content⟩

/-- A bounded claim and an ordinary one, for the same capability. -/
def requests : List (Request × Nat) :=
  [(⟨.bounded ⟨bytes "mail", 1⟩ 2 20, second, 2 * second, ⟨7⟩⟩, 1),
    (⟨.ordinary [⟨bytes "mail", 1⟩] 1, second, 2 * second, ⟨8⟩⟩, 1)]

/-- One job is available now, the other from two seconds on. -/
def scheduled : Database :=
  ⟨⟨[row ⟨1⟩ 0, { row ⟨2⟩ 0 with availableAt := 2 * second }], by decide⟩, Table.empty,
    Table.empty⟩

/-- A claim 400 nanoseconds before two seconds, and one whose lease ends then. -/
def hasty : List (Request × Nat) :=
  [(⟨.ordinary [⟨bytes "mail", 1⟩] 2, 2 * second - 400, 3 * second, ⟨7⟩⟩, 1),
    (⟨.ordinary [⟨bytes "mail", 1⟩] 1, second, 2 * second, ⟨8⟩⟩, 1)]

end Sample

/-- The ordinary claim reserves one of the two candidates of the bounded claim,
which wins the other. -/
theorem contended_claims_sound :
    ∃ config, (claimers Sample.digest).Reaches (start Sample.database Sample.requests) config ∧
      (config.world.taken 0).map Job.id = [⟨2⟩] ∧ (config.world.taken 1).map Job.id = [⟨1⟩] ∧
      SoundClaims config := by
  have begun : (claimers Sample.digest).Reaches (start Sample.database Sample.requests)
      (start Sample.database Sample.requests) := Relation.ReflTransGen.refl
  have reached := begun
    |>.perform 0 rfl (.contextErr none)
    |>.perform 0 rfl (.candidates _ _)
    |>.perform 1 rfl (.contextErr none)
    |>.perform 1 rfl (.candidates _ _)
    |>.perform 1 rfl (.reserve _ _ _ _)
    |>.perform 0 rfl (.reserve _ _ _ _)
  exact ⟨_, reached, by decide, by decide, claims_sound _ _ _ reached⟩

/-- `DATETIME(6)` rounds the instant of the hasty claim up: it takes a row whose lease
has not ended and one that is not available. -/
theorem hasty_claim_rounds_up :
    ∃ config, (claimers Sample.digest).Reaches (start Sample.scheduled Sample.hasty) config ∧
      (config.world.taken 0).map (fun row => (row.leaseToken, row.reservedAt, row.availableAt)) =
        [(⟨8⟩, some (2 * second), 0), (.nil, none, 2 * second)] ∧
      ∃ request history jobs resume, config.threads[0]? =
          some ⟨request, history, .call (.returns (.ok jobs)) resume⟩ ∧
        request.now < 2 * second ∧ jobs.map Job.id = [⟨1⟩, ⟨2⟩] := by
  have begun : (claimers Sample.digest).Reaches (start Sample.scheduled Sample.hasty)
      (start Sample.scheduled Sample.hasty) := Relation.ReflTransGen.refl
  have reached := begun
    |>.perform 1 rfl (.contextErr none)
    |>.perform 1 rfl (.candidates _ _)
    |>.perform 1 rfl (.reserve _ _ _ _)
    |>.perform 0 rfl (.contextErr none)
    |>.perform 0 rfl (.candidates _ _)
    |>.perform 0 rfl (.reserve _ _ _ _)
  exact ⟨_, reached, by decide, _, _, _, _, rfl, by decide, by decide⟩

end OutboxFormal.Storage.Mysql
