import OutboxFormal.Fanout.Dispatch
import OutboxFormal.Storage.Idempotency

/-!
# The unique jobs of a backend

The dispatcher is verified over a list of the jobs ever created under a key. Every
backend implements that list with its registry of idempotency keys: a row per
created job, with the job's identifier and the fingerprint of its content. A
unique put of a backend simulates the put on the list, as long as fingerprints do
not collide and no key is pruned.
-/

namespace OutboxFormal

open Library Storage

structure Registers (digest : Digest) (row : IdempotencyKey) (job : UniqueJob) : Prop where
  deduplicationKey : row.deduplicationKey = job.deduplicationKey
  jobID : row.jobID = job.jobID
  fingerprint : row.fingerprint = jobFingerprint digest job.content

structure Represents (digest : Digest) (database : Database) (jobs : UniqueJobs) : Prop where
  rows : List.Forall₂ (Registers digest) database.keys.rows jobs.created
  covered : Covered database

section Lookup

variable {digest : Digest} {database : Database} {jobs : UniqueJobs}

theorem find?_registers {rows : List IdempotencyKey} {created : List UniqueJob}
    (registers : List.Forall₂ (Registers digest) rows created) (key : Bytes) :
    Option.Rel (Registers digest) (rows.find? fun row => decide (row.deduplicationKey = key))
      (created.find? fun job => decide (job.deduplicationKey = key)) := by
  induction registers with
  | nil => exact .none
  | @cons row job _ _ same _ ih =>
    rw [List.find?_cons, List.find?_cons, same.deduplicationKey]
    cases decide (job.deduplicationKey = key) with
    | true => exact .some same
    | false => exact ih

theorem Represents.lookup (represents : Represents digest database jobs) (key : Bytes) :
    database.keys.get? key = none ∧ jobs.lookup key = none ∨
      ∃ row job, database.keys.get? key = some row ∧ jobs.lookup key = some job ∧
        Registers digest row job := by
  have found : Option.Rel (Registers digest) (database.keys.get? key) (jobs.lookup key) :=
    find?_registers represents.rows key
  generalize database.keys.get? key = first at found
  generalize jobs.lookup key = second at found
  cases found with
  | none => exact Or.inl ⟨rfl, rfl⟩
  | some registers => exact Or.inr ⟨_, _, rfl, rfl, registers⟩

theorem Represents.staged (represents : Represents digest database jobs)
    {stored : Int → Int} {put : UniqueBatchPut} {id : JobID} {createdAt : Int} {after : Database}
    (rows : Staged stored (prepareUniqueBatchPuts digest [(put, id)] createdAt) database after) :
    Represents digest after ⟨jobs.created ++ [uniqueJob put id]⟩ := by
  constructor
  · rw [rows.keys]
    exact List.rel_append represents.rows (.cons ⟨rfl, rfl, rfl⟩ .nil)
  · exact rows.covered represents.covered

end Lookup

/-- What a put on the list answers, as a backend answers it. -/
structure Simulates (digest : Digest) (concrete : Except OutboxError UniquePutResult × Database)
    (abstract : Except OutboxError JobID × UniqueJobs) : Prop where
  answer : (concrete.1.map UniquePutResult.jobID).toOption = abstract.1.toOption
  conflict : ∀ error, concrete.1 = .error error →
    error.is .errIdempotencyConflict = true ∧ abstract.1 = .error (.leaf .errIdempotencyConflict)
  represents : Represents digest concrete.2 abstract.2

theorem Storage.Backend.createJobVersionedUniqueResult_simulates (backend : Backend) (view : View)
    {digest : Digest} {put : UniqueBatchPut} {id : JobID} (createdAt : Int) {database : Database}
    {jobs : UniqueJobs} (represents : Represents digest database jobs) (valid : ValidPut put)
    (fresh : FreshIDs [id] database)
    (separate : ∀ job ∈ jobs.created,
      jobFingerprint digest job.content = jobFingerprint digest put.content →
      job.content = put.content) :
    Simulates digest (backend.createJobVersionedUniqueResult view digest put id createdAt database)
      (jobs.createJobVersionedUnique put id) := by
  have outcome := backend.createJobVersionedUniqueResult_outcome view digest valid
    (@FreshIDs.prepared database digest [(put, id)] createdAt fresh (List.nodup_singleton _))
    represents.covered
  unfold UniqueJobs.createJobVersionedUnique
  rw [validateUniquePut_eq_ok_iff.mpr valid]
  generalize backend.createJobVersionedUniqueResult view digest put id createdAt database =
    concrete at outcome
  rcases concrete with ⟨result, after⟩
  change PutOutcome _ _ database (result.map fun result => [result]) after at outcome
  generalize answered : (result.map fun result => [result]) = answer at outcome
  rcases represents.lookup put.deduplicationKey with ⟨absent, unknown⟩ | ⟨row, job, found, known,
    registers⟩
  · rw [unknown]
    cases outcome with
    | conflict disagree =>
      obtain ⟨item, member, row, found, _⟩ := disagree
      rw [List.mem_singleton.mp member] at found
      cases absent.symm.trans found
    | staged agree rows =>
      have new : newItems database.keys (prepareUniqueBatchPuts digest [(put, id)] createdAt) =
          prepareUniqueBatchPuts digest [(put, id)] createdAt := by
        simp [newItems, prepareUniqueBatchPuts, absent]
      rw [new] at rows
      cases result with
      | error error => cases answered
      | ok result =>
        have same : result = resultFor database.keys ⟨put, id, _, createdAt⟩ :=
          List.head_eq_of_cons_eq (Except.ok.inj answered)
        simp only [resultFor, absent] at same
        subst same
        exact ⟨rfl, by simp, represents.staged rows⟩
  · rw [known]
    cases outcome with
    | conflict disagree conflicts =>
      obtain ⟨item, member, other, registered, differs⟩ := disagree
      rw [List.mem_singleton.mp member] at registered differs
      cases found.symm.trans registered
      have changed : ¬ job.content = put.content := by
        intro same
        rw [registers.fingerprint, same] at differs
        exact differs rfl
      dsimp only
      rw [if_neg changed]
      cases result with
      | ok result => cases answered
      | error error =>
        cases answered
        refine ⟨rfl, fun cause caused => ?_, represents⟩
        cases caused
        exact ⟨conflicts, rfl⟩
    | staged agree rows =>
      have print : row.fingerprint = jobFingerprint digest put.content := by
        by_contra differs
        exact agree ⟨_, List.mem_singleton_self _, row, found, differs⟩
      have same : job.content = put.content :=
        separate job (of_lookup known).1 (registers.fingerprint.symm.trans print)
      have nothing : newItems database.keys
          (prepareUniqueBatchPuts digest [(put, id)] createdAt) = [] := by
        simp [newItems, prepareUniqueBatchPuts, found]
      rw [nothing] at rows
      dsimp only
      rw [if_pos same]
      cases result with
      | error error => cases answered
      | ok result =>
        have registered : result = resultFor database.keys ⟨put, id, _, createdAt⟩ :=
          List.head_eq_of_cons_eq (Except.ok.inj answered)
        simp only [resultFor, found] at registered
        subst registered
        rw [rows.eq_of_nil]
        exact ⟨congrArg some registers.jobID, by simp, represents⟩

/-- The list that the registry after `stagedHistory` implements. -/
def stagedJobs : UniqueJobs :=
  ⟨[⟨bytes "a", ⟨1⟩, ⟨bytes "job", 1, bytes "1", 0⟩⟩,
    ⟨bytes "b", ⟨2⟩, ⟨bytes "job", 1, bytes "2", 0⟩⟩]⟩

/-- A put that repeats `b`, one of other content under `a`, and one of a new key. -/
def laterPuts : List UniqueBatchPut :=
  [⟨bytes "b", ⟨bytes "job", 1, bytes "2", 0⟩⟩, conflictingPut,
    ⟨bytes "c", ⟨bytes "job", 1, bytes "3", 0⟩⟩]

theorem later_unique_puts_simulated :
    let database := (repository .mysql transparentDigest).final .empty stagedHistory
    let put (put : UniqueBatchPut) :=
      Backend.mysql.createJobVersionedUniqueResult ownView transparentDigest put ⟨4⟩ 0 database
    laterPuts.map (fun item => ((put item).1.map UniquePutResult.jobID).toOption) =
        [some ⟨2⟩, none, some ⟨4⟩] ∧
      ∀ item ∈ laterPuts, Simulates transparentDigest (put item)
        (stagedJobs.createJobVersionedUnique item ⟨4⟩) := by
  intro database put
  have covered : ∀ job ∈ database.jobs.rows, ∀ key ∈ job.deduplicationKey,
      (database.keys.get? key).isSome = true := by decide +kernel
  have fits : ∀ item ∈ laterPuts, (item.deduplicationKey ≠ [] ∧ 0 < item.content.schemaVersion) ∧
      ∀ job ∈ stagedJobs.created, jobFingerprint transparentDigest job.content =
        jobFingerprint transparentDigest item.content → job.content = item.content := by
    decide +kernel
  refine ⟨by decide +kernel, fun item member => ?_⟩
  exact Storage.Backend.createJobVersionedUniqueResult_simulates .mysql ownView 0
    ⟨.cons ⟨rfl, rfl, rfl⟩ (.cons ⟨rfl, rfl, rfl⟩ .nil), covered⟩ (fits item member).1
    ⟨by decide, by decide +kernel, by decide +kernel⟩ (fits item member).2

end OutboxFormal
