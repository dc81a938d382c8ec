import OutboxFormal.Fanout.Normalization
import OutboxFormal.Storage.Registry

/-!
# Dispatching a fan-out

`PutFanout` stores the canonical snapshot as one job under the event's key. The
dispatcher decodes and normalizes it again and creates one job per target, each
under its own key, in one transaction. The repository remembers every key with
its content; a statement or a commit may fail, and a failed answer does not say
whether the work was done.
-/

namespace OutboxFormal

open Library Storage

/-! ## The repository -/

/-- A job created under a deduplication key. -/
structure UniqueJob where
  deduplicationKey : Bytes
  jobID : JobID
  content : Content
  deriving DecidableEq, Repr

def uniqueJob (put : UniqueBatchPut) (id : JobID) : UniqueJob :=
  ⟨put.deduplicationKey, id, put.content⟩

/-- The jobs ever created under a key, oldest first; no key is ever pruned. -/
structure UniqueJobs where
  created : List UniqueJob
  deriving DecidableEq, Repr

/-- How a statement ends: it is executed, it fails, or only its answer is lost. -/
inductive Outcome where
  | executed
  | failed (error : OutboxError)
  | lost (error : OutboxError)

/-- The identifier generated for a job and how its statement ends. -/
structure Attempt where
  id : JobID
  outcome : Outcome

namespace UniqueJobs

def lookup (jobs : UniqueJobs) (key : Bytes) : Option UniqueJob :=
  jobs.created.find? fun job => job.deduplicationKey = key

/-- `CreateJobVersionedUnique`: the same content replays, another conflicts. -/
def createJobVersionedUnique (put : UniqueBatchPut) (id : JobID) (jobs : UniqueJobs) :
    Except OutboxError JobID × UniqueJobs :=
  match validateUniquePut "" put with
  | .error error => (.error error, jobs)
  | .ok () =>
    match jobs.lookup put.deduplicationKey with
    | some job =>
      if job.content = put.content then (.ok job.jobID, jobs)
      else (.error (.leaf .errIdempotencyConflict), jobs)
    | none => (.ok id, ⟨jobs.created ++ [uniqueJob put id]⟩)

/-- The call with the outcome of its statement. -/
def attempt (put : UniqueBatchPut) (attempt : Attempt) (jobs : UniqueJobs) :
    Except OutboxError JobID × UniqueJobs :=
  match attempt.outcome with
  | .executed => jobs.createJobVersionedUnique put attempt.id
  | .failed error => (.error error, jobs)
  | .lost error => (.error error, (jobs.createJobVersionedUnique put attempt.id).2)

end UniqueJobs

/-- What a transaction answered, and whether it was committed. -/
structure TxResult where
  error : Option OutboxError
  committed : Bool

/-- `RunInTx` with the outcome of the commit. -/
def runInTx (commit : Outcome) (work : UniqueJobs → Option OutboxError × UniqueJobs)
    (jobs : UniqueJobs) : TxResult × UniqueJobs :=
  match work jobs, commit with
  | (some error, _), _ => (⟨some error, false⟩, jobs)
  | (none, after), .executed => (⟨none, true⟩, after)
  | (none, _), .failed error => (⟨some error, false⟩, jobs)
  | (none, after), .lost error => (⟨some error, true⟩, after)

/-- A transaction changes nothing, or it commits finished work. -/
theorem runInTx_cases (commit : Outcome) (work : UniqueJobs → Option OutboxError × UniqueJobs)
    (jobs : UniqueJobs) :
    (runInTx commit work jobs).2 = jobs ∧ (runInTx commit work jobs).1.committed = false ∨
      (work jobs).1 = none ∧ (runInTx commit work jobs).2 = (work jobs).2 ∧
        (runInTx commit work jobs).1.committed = true := by
  unfold runInTx
  rcases worked : work jobs with ⟨error, after⟩
  cases error with
  | some error => exact Or.inl ⟨rfl, rfl⟩
  | none =>
    cases commit with
    | executed => exact Or.inr ⟨rfl, rfl, rfl⟩
    | failed error => exact Or.inl ⟨rfl, rfl⟩
    | lost error => exact Or.inr ⟨rfl, rfl, rfl⟩

/-! ## The service -/

section Service

variable (encodings : Encodings)

def snapshotPut (snapshot : FanoutSnapshot) (payload : Bytes) : UniqueBatchPut where
  deduplicationKey := fanoutEventDeduplicationKey snapshot.event.id
  content := ⟨fanoutDispatcherJobName, fanoutDispatcherSchemaVersion, payload,
    snapshot.availableAt⟩

def putFanout (configured : Bool) (event : FanoutEvent) (targets : List FanoutTarget)
    (availableAt : Int) (attempt : Attempt) (jobs : UniqueJobs) :
    Except OutboxError JobID × UniqueJobs :=
  if !configured then (.error (.leaf .errFanoutRepositoryNotConfigured), jobs)
  else
    match normalizeFanoutSnapshot encodings ⟨event, targets, availableAt⟩ with
    | .error error => (.error error, jobs)
    | .ok snapshot =>
      match encodings.snapshots.encode snapshot with
      | none => (.error (errorContext "encode fan-out snapshot" errJson), jobs)
      | some payload =>
        match jobs.attempt (snapshotPut snapshot payload) attempt with
        | (.error error, after) =>
          (.error (errorContext "create fan-out snapshot" error), after)
        | (.ok id, after) => (.ok id, after)

def FanoutSnapshot.delivery (snapshot : FanoutSnapshot) (target : FanoutTarget) :
    FanoutDelivery where
  id := fanoutDeliveryID encodings snapshot.event.id target.kind target.id
  event := snapshot.event
  target := target

def deliveryPut (snapshot : FanoutSnapshot) (target : FanoutTarget) (payload : Bytes) :
    UniqueBatchPut where
  deduplicationKey := fanoutDeliveryDeduplicationKey (snapshot.delivery encodings target).id
  content := ⟨fanoutDeliveryJobName target.kind snapshot.event.topic,
    snapshot.event.schemaVersion, payload, snapshot.availableAt⟩

/-- The loop of the dispatcher; `attempts` are counted from `index`. -/
def dispatchTargets (snapshot : FanoutSnapshot) (attempts : Nat → Attempt) :
    Nat → List FanoutTarget → UniqueJobs → Option OutboxError × UniqueJobs
  | _, [], jobs => (none, jobs)
  | index, target :: rest, jobs =>
    match encodings.deliveries.encode (snapshot.delivery encodings target) with
    | none => (some (errorContext "encode fan-out delivery" errJson), jobs)
    | some payload =>
      match jobs.attempt (deliveryPut encodings snapshot target payload) (attempts index) with
      | (.error error, after) =>
        (some (errorContext ("create fan-out delivery " ++
          printed (snapshot.delivery encodings target).id.string) error), after)
      | (.ok _, after) => dispatchTargets snapshot attempts (index + 1) rest after

/-- `fanoutDispatcher.Handle`. -/
def handleFanout (payload : Bytes) (attempts : Nat → Attempt) (commit : Outcome)
    (jobs : UniqueJobs) : TxResult × UniqueJobs :=
  match encodings.snapshots.decode payload with
  | none => (⟨some (errorContext "decode fan-out snapshot" errJson), false⟩, jobs)
  | some decoded =>
    match normalizeFanoutSnapshot encodings decoded with
    | .error error => (⟨some error, false⟩, jobs)
    | .ok snapshot =>
      runInTx commit (dispatchTargets encodings snapshot attempts 0 snapshot.targets) jobs

end Service

/-! ## Single creations -/

section Create

variable {put : UniqueBatchPut} {jobs : UniqueJobs}

theorem lookup_eq_none_iff {key : Bytes} :
    jobs.lookup key = none ↔ ∀ job ∈ jobs.created, job.deduplicationKey ≠ key := by
  simp [UniqueJobs.lookup]

theorem of_lookup {key : Bytes} {job : UniqueJob} (found : jobs.lookup key = some job) :
    job ∈ jobs.created ∧ job.deduplicationKey = key := by
  refine ⟨List.mem_of_find?_eq_some found, ?_⟩
  simpa using List.find?_some found

/-- What one attempt does: nothing, or a job under a key that had none. -/
theorem attempt_cases (put : UniqueBatchPut) (attempt : Attempt) (jobs : UniqueJobs) :
    (jobs.attempt put attempt).2 = jobs ∨
      jobs.lookup put.deduplicationKey = none ∧
        (jobs.attempt put attempt).2 =
          ⟨jobs.created ++ [uniqueJob put attempt.id]⟩ := by
  have create : (jobs.createJobVersionedUnique put attempt.id).2 = jobs ∨
      jobs.lookup put.deduplicationKey = none ∧
        (jobs.createJobVersionedUnique put attempt.id).2 =
          ⟨jobs.created ++ [uniqueJob put attempt.id]⟩ := by
    unfold UniqueJobs.createJobVersionedUnique
    split
    · exact Or.inl rfl
    · split
      · split <;> exact Or.inl rfl
      · rename_i absent
        exact Or.inr ⟨absent, rfl⟩
  unfold UniqueJobs.attempt
  split
  · exact create
  · exact Or.inl rfl
  · exact create

theorem attempt_ok {attempt : Attempt} {id : JobID} {after : UniqueJobs}
    (answered : jobs.attempt put attempt = (.ok id, after)) :
    ∃ job ∈ after.created, job.deduplicationKey = put.deduplicationKey ∧ job.jobID = id ∧
      job.content = put.content := by
  unfold UniqueJobs.attempt at answered
  split at answered
  · unfold UniqueJobs.createJobVersionedUnique at answered
    split at answered
    · cases answered
    · split at answered
      · rename_i job found
        split at answered
        · rename_i same
          cases answered
          exact ⟨job, (of_lookup found).1, (of_lookup found).2, rfl, same⟩
        · cases answered
      · cases answered
        exact ⟨_, List.mem_append_right _ (List.mem_singleton_self _), rfl, rfl, rfl⟩
  · cases answered
  · cases answered

end Create

/-! ## The loop -/

section Loop

variable (encodings : Encodings) (snapshot : FanoutSnapshot)

def Delivers (target : FanoutTarget) (job : UniqueJob) : Prop :=
  ∃ payload, encodings.deliveries.encode (snapshot.delivery encodings target) = some payload ∧
    job.deduplicationKey = (deliveryPut encodings snapshot target payload).deduplicationKey ∧
    job.content = (deliveryPut encodings snapshot target payload).content

variable {encodings snapshot} {attempts : Nat → Attempt}

/-- The loop only adds deliveries, each under a key of its own that had no job. -/
theorem dispatchTargets_new (index : Nat) (targets : List FanoutTarget) (jobs : UniqueJobs) :
    ∃ new : List UniqueJob,
      (dispatchTargets encodings snapshot attempts index targets jobs).2.created =
        jobs.created ++ new ∧
      (∀ job ∈ new, ∃ target ∈ targets, Delivers encodings snapshot target job) ∧
      (new.map UniqueJob.deduplicationKey).Nodup ∧
      ∀ job ∈ new, jobs.lookup job.deduplicationKey = none := by
  induction targets generalizing index jobs with
  | nil => exact ⟨[], (List.append_nil _).symm, nofun, List.nodup_nil, nofun⟩
  | cons target rest ih =>
    unfold dispatchTargets
    split
    · exact ⟨[], (List.append_nil _).symm, nofun, List.nodup_nil, nofun⟩
    · rename_i payload encoded
      -- What this target's statement adds, whatever it answers.
      have one := attempt_cases (deliveryPut encodings snapshot target payload)
        (attempts index) jobs
      have delivers : Delivers encodings snapshot target
          (uniqueJob (deliveryPut encodings snapshot target payload) (attempts index).id) :=
        ⟨payload, encoded, rfl, rfl⟩
      split
      · rename_i error after answered
        rw [answered] at one
        rcases one with rfl | ⟨absent, rfl⟩
        · exact ⟨[], (List.append_nil _).symm, nofun, List.nodup_nil, nofun⟩
        · refine ⟨_, rfl, List.forall_mem_singleton.mpr ⟨target, List.mem_cons_self, delivers⟩,
            List.nodup_singleton _, List.forall_mem_singleton.mpr absent⟩
      · rename_i id after answered
        rw [answered] at one
        obtain ⟨new, created, delivered, distinct, unused⟩ := ih (index + 1) after
        have later : ∀ job ∈ new, ∃ other ∈ target :: rest,
            Delivers encodings snapshot other job := fun job member =>
          have ⟨other, hother, found⟩ := delivered job member
          ⟨other, List.mem_cons_of_mem _ hother, found⟩
        rcases one with rfl | ⟨absent, rfl⟩
        · exact ⟨new, created, later, distinct, unused⟩
        · have fresh : ∀ job ∈ new, (∀ old ∈ jobs.created, old.deduplicationKey ≠
              job.deduplicationKey) ∧ (deliveryPut encodings snapshot target
                payload).deduplicationKey ≠ job.deduplicationKey := by
            intro job member
            have none_ := lookup_eq_none_iff.mp (unused job member)
            exact ⟨fun old hold => none_ old (List.mem_append_left _ hold),
              none_ _ (List.mem_append_right _ (List.mem_singleton_self _))⟩
          refine ⟨_ :: new, created.trans (List.append_assoc ..),
            List.forall_mem_cons.mpr ⟨⟨target, List.mem_cons_self, delivers⟩, later⟩,
            List.nodup_cons.mpr ⟨fun member => ?_, distinct⟩,
            List.forall_mem_cons.mpr ⟨absent, fun job member =>
              lookup_eq_none_iff.mpr (fresh job member).1⟩⟩
          obtain ⟨job, hjob, same⟩ := List.mem_map.mp member
          exact (fresh job hjob).2 same.symm

/-- A loop that ends without an error leaves every delivery. -/
theorem dispatchTargets_done {index : Nat} {targets : List FanoutTarget}
    {jobs after : UniqueJobs}
    (done : dispatchTargets encodings snapshot attempts index targets jobs = (none, after)) :
    ∀ target ∈ targets, ∃ job ∈ after.created, Delivers encodings snapshot target job := by
  induction targets generalizing index jobs with
  | nil => exact nofun
  | cons target rest ih =>
    unfold dispatchTargets at done
    split at done
    · cases done
    · rename_i payload encoded
      split at done
      · cases done
      · rename_i id between answered
        obtain ⟨job, hjob, key, _, content⟩ := attempt_ok answered
        obtain ⟨new, created, _⟩ := @dispatchTargets_new encodings snapshot attempts (index + 1)
          rest between
        rw [done] at created
        refine List.forall_mem_cons.mpr ⟨⟨job, ?_, payload, encoded, key, content⟩, ih done⟩
        rw [created]
        exact List.mem_append_left _ hjob

theorem deliveryPut_valid {target : FanoutTarget} {payload : Bytes}
    (version : 0 < snapshot.event.schemaVersion) (context : String) :
    validateUniquePut context (deliveryPut encodings snapshot target payload) = .ok () :=
  validateUniquePut_eq_ok_iff.mpr ⟨by simp [deliveryPut, fanoutDeliveryDeduplicationKey, bytes],
    version⟩

/-- With every statement executed and every key new, the loop creates the
deliveries in order. -/
theorem dispatchTargets_fresh (executed : ∀ index, (attempts index).outcome = .executed)
    (version : 0 < snapshot.event.schemaVersion) (index : Nat) {targets : List FanoutTarget}
    (encodable : ∀ target ∈ targets, ∃ payload,
      encodings.deliveries.encode (snapshot.delivery encodings target) = some payload)
    (distinct : (targets.map fun target => fanoutDeliveryDeduplicationKey
      (snapshot.delivery encodings target).id).Nodup) (jobs : UniqueJobs)
    (unused : ∀ target ∈ targets, jobs.lookup (fanoutDeliveryDeduplicationKey
      (snapshot.delivery encodings target).id) = none) :
    ∃ new, dispatchTargets encodings snapshot attempts index targets jobs =
        (none, ⟨jobs.created ++ new⟩) ∧
      List.Forall₂ (Delivers encodings snapshot) targets new := by
  induction targets generalizing index jobs with
  | nil => exact ⟨[], by rw [List.append_nil]; rfl, .nil⟩
  | cons target rest ih =>
    obtain ⟨⟨payload, encoded⟩, encodableRest⟩ := List.forall_mem_cons.mp encodable
    obtain ⟨absent, distinctRest⟩ := List.nodup_cons.mp distinct
    obtain ⟨unusedFirst, unusedRest⟩ := List.forall_mem_cons.mp unused
    have answered : jobs.attempt (deliveryPut encodings snapshot target payload)
        (attempts index) = (.ok (attempts index).id, ⟨jobs.created ++
          [uniqueJob (deliveryPut encodings snapshot target payload) (attempts index).id]⟩) := by
      have none_ : jobs.lookup (deliveryPut encodings snapshot target payload).deduplicationKey =
          none := unusedFirst
      simp only [UniqueJobs.attempt, executed, UniqueJobs.createJobVersionedUnique,
        deliveryPut_valid version, none_]
    obtain ⟨new, dispatched, delivered⟩ := ih (index + 1) encodableRest distinctRest
      ⟨jobs.created ++ [uniqueJob (deliveryPut encodings snapshot target payload)
        (attempts index).id]⟩ (by
        intro other member
        refine lookup_eq_none_iff.mpr fun job hjob => ?_
        rcases List.mem_append.mp hjob with old | mine
        · exact lookup_eq_none_iff.mp (unusedRest other member) job old
        · rw [List.mem_singleton.mp mine]
          exact fun same => absent (List.mem_map.mpr ⟨other, member, same.symm⟩))
    refine ⟨uniqueJob (deliveryPut encodings snapshot target payload) (attempts index).id :: new,
      ?_, .cons ⟨payload, encoded, rfl, rfl⟩ delivered⟩
    unfold dispatchTargets
    rw [encoded]
    dsimp only
    rw [answered]
    dsimp only
    rw [dispatched, List.append_assoc]
    rfl

end Loop

end OutboxFormal
