import OutboxFormal.Fanout.Acceptance
import OutboxFormal.Library.Machine

/-!
# Exactly one delivery per target

A history interleaves puts of one event with any order of its targets, dispatches
of the stored snapshot, and puts of other keys; every statement and every commit
may fail or lose its answer. The source job and every delivery are created at
most once, no dispatch conflicts with an earlier one, and one committed dispatch
leaves exactly one delivery per target.
-/

namespace OutboxFormal

open Library Storage

variable {target : FanoutTarget} {job : UniqueJob} {error : OutboxError} {payload : Bytes}

/-! ## Histories -/

/-- A failure of the storage is not a conflict. -/
def Outcome.Benign : Outcome → Prop
  | .executed => True
  | .failed error | .lost error => error.is .errIdempotencyConflict = false

/-- The event, its targets and the time its deliveries become available. -/
structure Fanout where
  event : FanoutEvent
  targets : List FanoutTarget
  availableAt : Int

namespace Fanout

variable (encodings : Encodings) (fanout : Fanout)

def sourceKey : Bytes := fanoutEventDeduplicationKey fanout.event.id

def deliveryKey (target : FanoutTarget) : Bytes :=
  fanoutDeliveryDeduplicationKey (fanout.event.deliveryID encodings target)

inductive Operation where
  | put (targets : List FanoutTarget) (attempt : Attempt)
  | handle (attempts : Nat → Attempt) (commit : Outcome)
  | other (put : UniqueBatchPut) (attempt : Attempt)

inductive Answer where
  | put (result : Except OutboxError JobID)
  | handled (result : TxResult)
  | idle

def step (operation : Operation) (jobs : UniqueJobs) : Answer × UniqueJobs :=
  match operation with
  | .put targets attempt =>
    let answer := putFanout encodings true fanout.event targets fanout.availableAt attempt jobs
    (.put answer.1, answer.2)
  | .handle attempts commit =>
    match jobs.lookup fanout.sourceKey with
    | none => (.idle, jobs)
    | some job =>
      let answer := handleFanout encodings job.content.payload attempts commit jobs
      (.handled answer.1, answer.2)
  | .other put attempt =>
    let answer := jobs.attempt put attempt
    (.put answer.1, answer.2)

def machine : Machine UniqueJobs Operation Answer where
  step := fanout.step encodings

/-- Puts use an order of the same targets, other puts use other keys, and no
failure of the storage looks like a conflict. -/
def Admissible : Operation → Prop
  | .put targets attempt => targets.Perm fanout.targets ∧ attempt.outcome.Benign
  | .handle attempts commit => (∀ index, (attempts index).outcome.Benign) ∧ commit.Benign
  | .other put _ => put.deduplicationKey ≠ fanout.sourceKey ∧
      ∀ target ∈ fanout.targets, put.deduplicationKey ≠ fanout.deliveryKey encodings target

end Fanout

/-! ## Answers -/

section Answers

variable {encodings : Encodings} {put : UniqueBatchPut} {jobs : UniqueJobs}

/-- A valid put of a key that carries the same content, or none, does not
conflict. -/
theorem attempt_benign {attempt : Attempt} {after : UniqueJobs}
    (valid : ∀ context, validateUniquePut context put = .ok ())
    (agrees : ∀ job ∈ jobs.created, job.deduplicationKey = put.deduplicationKey →
      job.content = put.content) (benign : attempt.outcome.Benign)
    (answered : jobs.attempt put attempt = (.error error, after)) :
    error.is .errIdempotencyConflict = false := by
  have creates : ∀ (refusal : OutboxError) (left : UniqueJobs),
      jobs.createJobVersionedUnique put attempt.id ≠ (.error refusal, left) := by
    intro refusal left refused
    unfold UniqueJobs.createJobVersionedUnique at refused
    rw [valid] at refused
    dsimp only at refused
    split at refused
    · rename_i job found
      rw [if_pos (agrees job (of_lookup found).1 (of_lookup found).2)] at refused
      cases refused
    · cases refused
  unfold UniqueJobs.attempt at answered
  split at answered
  · exact absurd answered (creates error after)
  · rename_i failure outcome
    cases answered
    rwa [outcome] at benign
  · rename_i failure outcome
    cases answered
    rwa [outcome] at benign

variable {snapshot : FanoutSnapshot} {attempts : Nat → Attempt}

/-- The jobs under a target's key are its deliveries. -/
def Agree (encodings : Encodings) (snapshot : FanoutSnapshot) (jobs : UniqueJobs)
    (target : FanoutTarget) : Prop :=
  ∀ job ∈ jobs.created, job.deduplicationKey = fanoutDeliveryDeduplicationKey
    (snapshot.delivery encodings target).id → Delivers encodings snapshot target job

theorem Delivers.content_eq (delivers : Delivers encodings snapshot target job)
    (encoded : encodings.deliveries.encode (snapshot.delivery encodings target) = some payload) :
    job.content = (deliveryPut encodings snapshot target payload).content := by
  obtain ⟨other, same, _, content⟩ := delivers
  rw [encoded] at same
  cases same
  exact content

/-- Where every key carries its own delivery, no dispatch conflicts. -/
theorem dispatchTargets_benign (benign : ∀ index, (attempts index).outcome.Benign)
    (version : 0 < snapshot.event.schemaVersion) {index : Nat} {targets : List FanoutTarget}
    (encodable : ∀ target ∈ targets, ∃ payload,
      encodings.deliveries.encode (snapshot.delivery encodings target) = some payload)
    (distinct : (targets.map fun target => fanoutDeliveryDeduplicationKey
      (snapshot.delivery encodings target).id).Nodup) {jobs after : UniqueJobs}
    (agree : ∀ target ∈ targets, Agree encodings snapshot jobs target)
    (failed : dispatchTargets encodings snapshot attempts index targets jobs =
      (some error, after)) : error.is .errIdempotencyConflict = false := by
  induction targets generalizing index jobs with
  | nil => cases failed
  | cons target rest ih =>
    obtain ⟨⟨payload, encoded⟩, encodableRest⟩ := List.forall_mem_cons.mp encodable
    obtain ⟨absent, distinctRest⟩ := List.nodup_cons.mp distinct
    obtain ⟨agreeFirst, agreeRest⟩ := List.forall_mem_cons.mp agree
    unfold dispatchTargets at failed
    rw [encoded] at failed
    dsimp only at failed
    have one := attempt_cases (deliveryPut encodings snapshot target payload)
      (attempts index) jobs
    split at failed
    · rename_i cause left answered
      cases failed
      change cause.is .errIdempotencyConflict = false
      exact attempt_benign (deliveryPut_valid version) (fun job member same =>
        (agreeFirst job member same).content_eq encoded) (benign index) answered
    · rename_i id between answered
      rw [answered] at one
      refine ih encodableRest distinctRest (fun other member job hjob same => ?_) failed
      rcases one with rfl | ⟨_, rfl⟩
      · exact agreeRest other member job hjob same
      · rcases List.mem_append.mp hjob with old | mine
        · exact agreeRest other member job old same
        · rw [List.mem_singleton.mp mine] at same
          exact absurd (List.mem_map.mpr ⟨other, member, same.symm⟩) absent

end Answers

/-! ## What a history keeps -/

namespace Fanout

/-- The assumptions on the event: well-formed target identifiers, and no two of its
targets whose names collide under SHA-1. -/
structure Separable (encodings : Encodings) (fanout : Fanout) : Prop where
  wellFormed : ∀ target ∈ fanout.targets, Utf8.valid target.id = true
  collisionFree : ∀ first ∈ fanout.targets, ∀ second ∈ fanout.targets,
    fanout.event.deliveryID encodings first = fanout.event.deliveryID encodings second →
    first.key = second.key

section Keys

variable {encodings : Encodings} {fanout : Fanout}

theorem sourceKey_ne_deliveryKey (target : FanoutTarget) :
    fanout.sourceKey ≠ fanout.deliveryKey encodings target :=
  fanoutEventDeduplicationKey_ne _ _

end Keys

variable (encodings : Encodings) (fanout : Fanout)

/-- The snapshot every put of the event stores. -/
def Accepts (snapshot : FanoutSnapshot) (payload : Bytes) : Prop :=
  normalizeFanoutSnapshot encodings ⟨fanout.event, fanout.targets, fanout.availableAt⟩ =
    .ok snapshot ∧ encodings.snapshots.encode snapshot = some payload

/-- An accepted snapshot has no target twice, so its deliveries have distinct
identifiers. -/
theorem Separable.distinct {encodings : Encodings} {fanout : Fanout}
    (separable : Separable encodings fanout) {snapshot : FanoutSnapshot}
    (accepts : fanout.Accepts encodings snapshot payload) :
    (fanout.targets.map (fanout.event.deliveryID encodings)).Nodup := by
  have keys := (normalizeFanoutSnapshot_eq_ok_iff.mp accepts.1).2.distinct
  refine (List.nodup_map_iff_inj_on (List.Nodup.of_map _ keys)).mpr ?_
  intro first hfirst second hsecond same
  exact List.inj_on_of_nodup_map keys hfirst hsecond
    (separable.collisionFree first hfirst second hsecond same)

/-- Every key has one job; the source job holds the snapshot, and every delivery
key the delivery to its target. -/
structure Sound (jobs : UniqueJobs) : Prop where
  distinct : (jobs.created.map UniqueJob.deduplicationKey).Nodup
  source : ∀ job ∈ jobs.created, job.deduplicationKey = fanout.sourceKey →
    ∃ snapshot payload, fanout.Accepts encodings snapshot payload ∧
      job.content = (snapshotPut snapshot payload).content
  deliveries : ∀ job ∈ jobs.created, ∀ target ∈ fanout.targets,
    job.deduplicationKey = fanout.deliveryKey encodings target →
    ∃ snapshot payload, fanout.Accepts encodings snapshot payload ∧
      Delivers encodings (snapshot.image encodings.compact)
        (target.normalized.image encodings.compact) job

section Steps

variable {encodings fanout} {jobs : UniqueJobs}

/-- Jobs under new keys of their own keep the invariant if they meet it. -/
theorem Sound.append (sound : Sound encodings fanout jobs) {new : List UniqueJob}
    (distinct : (new.map UniqueJob.deduplicationKey).Nodup)
    (unused : ∀ job ∈ new, jobs.lookup job.deduplicationKey = none)
    (source : ∀ job ∈ new, job.deduplicationKey = fanout.sourceKey →
      ∃ snapshot payload, fanout.Accepts encodings snapshot payload ∧
        job.content = (snapshotPut snapshot payload).content)
    (deliveries : ∀ job ∈ new, ∀ target ∈ fanout.targets,
      job.deduplicationKey = fanout.deliveryKey encodings target →
      ∃ snapshot payload, fanout.Accepts encodings snapshot payload ∧
        Delivers encodings (snapshot.image encodings.compact)
          (target.normalized.image encodings.compact) job) :
    Sound encodings fanout ⟨jobs.created ++ new⟩ := by
  refine ⟨?_, List.forall_mem_append.mpr ⟨sound.source, source⟩,
    List.forall_mem_append.mpr ⟨sound.deliveries, deliveries⟩⟩
  rw [List.map_append]
  refine List.Nodup.append sound.distinct distinct fun key old added => ?_
  obtain ⟨first, hfirst, rfl⟩ := List.mem_map.mp old
  obtain ⟨second, hsecond, same⟩ := List.mem_map.mp added
  exact lookup_eq_none_iff.mp (unused second hsecond) first hfirst same.symm

theorem Sound.attempt (sound : Sound encodings fanout jobs) (put : UniqueBatchPut)
    (attempt : Attempt)
    (source : put.deduplicationKey = fanout.sourceKey →
      ∃ snapshot payload, fanout.Accepts encodings snapshot payload ∧
        put.content = (snapshotPut snapshot payload).content)
    (elsewhere : ∀ target ∈ fanout.targets,
      put.deduplicationKey ≠ fanout.deliveryKey encodings target) :
    Sound encodings fanout (jobs.attempt put attempt).2 ∧
      jobs.created <+: (jobs.attempt put attempt).2.created := by
  rcases attempt_cases put attempt jobs with same | ⟨absent, same⟩
  · rw [same]
    exact ⟨sound, List.prefix_refl _⟩
  · rw [same]
    refine ⟨sound.append (List.nodup_singleton _) (List.forall_mem_singleton.mpr absent)
      (List.forall_mem_singleton.mpr source) (List.forall_mem_singleton.mpr ?_),
      List.prefix_append _ _⟩
    exact fun target member used => absurd used (elsewhere target member)

/-- The stored snapshot as the dispatcher reads it, target by target. -/
structure Reads (encodings : Encodings) (fanout : Fanout) (decoded : FanoutSnapshot) : Prop where
  normal : Normal encodings decoded
  event : ∃ payload, decoded.event = { fanout.event with payload := payload }
  available : decoded.availableAt = fanout.availableAt
  expressible : encodings.expressible decoded.event.occurredAt = true
  targets : decoded.targets.Perm (fanout.targets.map fun target =>
    target.normalized.image encodings.compact)
  same : ∀ target ∈ fanout.targets,
    (target.normalized.image encodings.compact).kind = target.kind ∧
    (target.normalized.image encodings.compact).id = target.id

theorem reads_of_accepts (separable : Separable encodings fanout) {snapshot : FanoutSnapshot}
    (accepts : fanout.Accepts encodings snapshot payload) :
    Reads encodings fanout (snapshot.image encodings.compact) := by
  obtain ⟨accepted, encoded⟩ := accepts
  have normal := normal_of_normalize accepted
  obtain ⟨rfl, _⟩ := normalizeFanoutSnapshot_eq_ok_iff.mp accepted
  have sorted := sortTargets_perm (fanout.targets.map FanoutTarget.normalized)
  have formed : ∀ target ∈ sortTargets (fanout.targets.map FanoutTarget.normalized),
      Utf8.valid target.id = true := by
    intro target member
    obtain ⟨item, hitem, rfl⟩ := List.mem_map.mp (sorted.mem_iff.mp member)
    exact separable.wellFormed item hitem
  have event := normal.valid.eventChecked.image.2
  refine ⟨normal.image formed, ⟨_, event⟩, rfl, ?_, ?_, ?_⟩
  · change encodings.expressible (fanout.event.image encodings.compact).occurredAt = true
    rw [event]
    exact (encodings.snapshots.encodable_of_encode encoded).2.1
  · have images := sorted.map (FanoutTarget.image encodings.compact)
    rwa [List.map_map] at images
  · intro target member
    have inside := sorted.mem_iff.mpr (List.mem_map_of_mem member)
    obtain ⟨kind, id, _⟩ := normal.deliveryID_image formed target.normalized inside
    exact ⟨kind, id⟩

variable {decoded : FanoutSnapshot}

theorem Reads.mem (reads : Reads encodings fanout decoded) (member : target ∈ decoded.targets) :
    ∃ item ∈ fanout.targets, target = item.normalized.image encodings.compact := by
  obtain ⟨item, hitem, rfl⟩ := List.mem_map.mp (reads.targets.mem_iff.mp member)
  exact ⟨item, hitem, rfl⟩

theorem Reads.key (reads : Reads encodings fanout decoded) (member : target ∈ fanout.targets) :
    fanoutDeliveryDeduplicationKey (decoded.delivery encodings
      (target.normalized.image encodings.compact)).id = fanout.deliveryKey encodings target := by
  obtain ⟨payload, event⟩ := reads.event
  obtain ⟨kind, id⟩ := reads.same target member
  unfold deliveryKey FanoutEvent.deliveryID FanoutSnapshot.delivery
  rw [event, kind, id]

theorem Reads.keys (reads : Reads encodings fanout decoded)
    (distinct : (fanout.targets.map (fanout.event.deliveryID encodings)).Nodup) :
    (decoded.targets.map fun target =>
      fanoutDeliveryDeduplicationKey (decoded.delivery encodings target).id).Nodup := by
  refine (reads.targets.map _).nodup_iff.mpr ?_
  have same : (fanout.targets.map fun target => target.normalized.image encodings.compact).map
      (fun target => fanoutDeliveryDeduplicationKey (decoded.delivery encodings target).id) =
      (fanout.targets.map (fanout.event.deliveryID encodings)).map
        fanoutDeliveryDeduplicationKey := by
    rw [List.map_map, List.map_map]
    exact List.map_congr_left fun target member => reads.key member
  rw [same]
  exact distinct.map fun _ _ => fanoutDeliveryDeduplicationKey_injective

theorem Reads.isDelivery (reads : Reads encodings fanout decoded)
    (separable : Separable encodings fanout) (member : target ∈ fanout.targets)
    (delivers : Delivers encodings decoded (target.normalized.image encodings.compact) job) :
    IsDelivery encodings fanout.event fanout.availableAt target job := by
  obtain ⟨payload, event⟩ := reads.event
  obtain ⟨kind, id⟩ := reads.same target member
  have formed : Utf8.valid (target.normalized.image encodings.compact).id = true := by
    rw [id]
    exact separable.wellFormed target member
  have isDelivery := isDelivery_of_delivers reads.normal
    (reads.targets.mem_iff.mpr (List.mem_map_of_mem member)) formed delivers
  rw [reads.available] at isDelivery
  exact isDelivery.of_same (by rw [event]) (by rw [event]) (by rw [event]) (by rw [event]) kind id

theorem Accepts.unique {first second : FanoutSnapshot} {firstPayload secondPayload : Bytes}
    (one : fanout.Accepts encodings first firstPayload)
    (other : fanout.Accepts encodings second secondPayload) :
    first = second ∧ firstPayload = secondPayload := by
  have same : first = second := Except.ok.inj (one.1.symm.trans other.1)
  subst same
  exact ⟨rfl, Option.some.inj (one.2.symm.trans other.2)⟩

/-- The source job holds the snapshot, and the dispatcher works on its image. -/
theorem Sound.stored (sound : Sound encodings fanout jobs) (separable : Separable encodings fanout)
    (found : jobs.lookup fanout.sourceKey = some job) :
    ∃ snapshot payload, fanout.Accepts encodings snapshot payload ∧ ∀ attempts commit,
      handleFanout encodings job.content.payload attempts commit jobs =
        runInTx commit (dispatchTargets encodings (snapshot.image encodings.compact) attempts 0
          (snapshot.image encodings.compact).targets) jobs := by
  obtain ⟨member, key⟩ := of_lookup found
  obtain ⟨snapshot, payload, accepts, content⟩ := sound.source job member key
  refine ⟨snapshot, payload, accepts, fun attempts commit => ?_⟩
  rw [content]
  unfold handleFanout
  rw [show (snapshotPut snapshot payload).content.payload = payload from rfl,
    encodings.snapshots.decodes accepts.2]
  dsimp only
  rw [(reads_of_accepts separable accepts).normal.normalize]

structure Dispatch (encodings : Encodings) (fanout : Fanout) (jobs : UniqueJobs)
    (answer : TxResult × UniqueJobs) : Prop where
  sound : Sound encodings fanout answer.2
  benign : ∀ error, answer.1.error = some error → error.is .errIdempotencyConflict = false
  complete : answer.1.committed = true → ∀ target ∈ fanout.targets, ∃ job ∈ answer.2.created,
    job.deduplicationKey = fanout.deliveryKey encodings target
  new : ∃ new, answer.2.created = jobs.created ++ new ∧ ∀ job ∈ new,
    ∃ target ∈ fanout.targets, IsDelivery encodings fanout.event fanout.availableAt target job

theorem runInTx_error {commit : Outcome} {work : UniqueJobs → Option OutboxError × UniqueJobs}
    (benign : commit.Benign)
    (works : ∀ cause, (work jobs).1 = some cause → cause.is .errIdempotencyConflict = false)
    (failed : (runInTx commit work jobs).1.error = some error) :
    error.is .errIdempotencyConflict = false := by
  unfold runInTx at failed
  rcases worked : work jobs with ⟨cause, after⟩
  rw [worked] at failed works
  cases cause with
  | some cause =>
    cases failed
    exact works error rfl
  | none =>
    cases commit with
    | executed => cases failed
    | failed cause =>
      cases failed
      exact benign
    | lost cause =>
      cases failed
      exact benign

theorem dispatch_of_sound (sound : Sound encodings fanout jobs)
    (separable : Separable encodings fanout) (found : jobs.lookup fanout.sourceKey = some job)
    {attempts : Nat → Attempt} {commit : Outcome}
    (benign : ∀ index, (attempts index).outcome.Benign) (benignCommit : commit.Benign) :
    Dispatch encodings fanout jobs
      (handleFanout encodings job.content.payload attempts commit jobs) := by
  obtain ⟨snapshot, payload, accepts, handled⟩ := sound.stored separable found
  have reads := reads_of_accepts separable accepts
  have separate := separable.distinct accepts
  rw [handled]
  obtain ⟨new, created, delivered, distinct, unused⟩ := @dispatchTargets_new encodings
    (snapshot.image encodings.compact) attempts 0 (snapshot.image encodings.compact).targets jobs
  -- Every new job is the delivery to one of the targets.
  have targeted : ∀ job ∈ new, ∃ target ∈ fanout.targets,
      Delivers encodings (snapshot.image encodings.compact)
        (target.normalized.image encodings.compact) job := by
    intro job member
    obtain ⟨target, inside, delivers⟩ := delivered job member
    obtain ⟨item, hitem, rfl⟩ := reads.mem inside
    exact ⟨item, hitem, delivers⟩
  have keyed : ∀ {job : UniqueJob} {target : FanoutTarget}, target ∈ fanout.targets →
      Delivers encodings (snapshot.image encodings.compact)
        (target.normalized.image encodings.compact) job →
      job.deduplicationKey = fanout.deliveryKey encodings target := by
    rintro job target member ⟨_, _, key, _⟩
    exact key.trans (reads.key member)
  have soundAfter : Sound encodings fanout ⟨jobs.created ++ new⟩ := by
    refine sound.append distinct unused (fun job member key => ?_) (fun job member target inside
      key => ?_)
    · obtain ⟨target, inside, delivers⟩ := targeted job member
      exact absurd (key.symm.trans (keyed inside delivers)) (sourceKey_ne_deliveryKey target)
    · obtain ⟨other, hother, delivers⟩ := targeted job member
      have same : other = target := List.inj_on_of_nodup_map separate hother inside
        (fanoutDeliveryDeduplicationKey_injective ((keyed hother delivers).symm.trans key))
      rw [← same]
      exact ⟨snapshot, payload, accepts, delivers⟩
  have agree : ∀ target ∈ (snapshot.image encodings.compact).targets,
      Agree encodings (snapshot.image encodings.compact) jobs target := by
    intro target inside old hold key
    obtain ⟨item, hitem, rfl⟩ := reads.mem inside
    obtain ⟨other, otherPayload, otherAccepts, delivers⟩ :=
      sound.deliveries old hold item hitem (key.trans (reads.key hitem))
    rwa [← (accepts.unique otherAccepts).1] at delivers
  have version : 0 < (snapshot.image encodings.compact).event.schemaVersion :=
    reads.normal.valid.eventChecked.version
  constructor
  · rcases runInTx_cases commit (dispatchTargets encodings (snapshot.image encodings.compact)
      attempts 0 (snapshot.image encodings.compact).targets) jobs with ⟨same, _⟩ | ⟨_, same, _⟩
    · rw [same]
      exact sound
    · rw [same]
      rcases after : dispatchTargets encodings (snapshot.image encodings.compact) attempts 0
        (snapshot.image encodings.compact).targets jobs with ⟨error, ⟨left⟩⟩
      rw [after] at created
      dsimp only at created
      subst created
      exact soundAfter
  · intro error failed
    refine runInTx_error benignCommit (fun cause caused => ?_) failed
    exact dispatchTargets_benign benign version (reads.normal.exists_delivery reads.expressible)
      (reads.keys separate) agree (Prod.ext caused rfl)
  · intro committed target member
    rcases runInTx_cases commit (dispatchTargets encodings (snapshot.image encodings.compact)
      attempts 0 (snapshot.image encodings.compact).targets) jobs with
      ⟨_, uncommitted⟩ | ⟨finished, same, _⟩
    · rw [uncommitted] at committed
      cases committed
    · obtain ⟨job, hjob, delivers⟩ := dispatchTargets_done (Prod.ext finished rfl) _
        (reads.targets.mem_iff.mpr (List.mem_map_of_mem member))
      rw [same]
      exact ⟨job, hjob, keyed member delivers⟩
  · rcases runInTx_cases commit (dispatchTargets encodings (snapshot.image encodings.compact)
      attempts 0 (snapshot.image encodings.compact).targets) jobs with ⟨same, _⟩ | ⟨_, same, _⟩
    · rw [same]
      exact ⟨[], (List.append_nil _).symm, nofun⟩
    · rw [same]
      refine ⟨new, created, fun job member => ?_⟩
      obtain ⟨target, inside, delivers⟩ := targeted job member
      exact ⟨target, inside, reads.isDelivery separable inside delivers⟩

/-- What a put of the event does and answers. -/
structure Put (encodings : Encodings) (fanout : Fanout) (jobs : UniqueJobs)
    (answer : Except OutboxError JobID × UniqueJobs) : Prop where
  sound : Sound encodings fanout answer.2
  grows : jobs.created <+: answer.2.created
  benign : ∀ error, answer.1 = .error error → error.is .errIdempotencyConflict = false
  answered : ∀ id, answer.1 = .ok id → ∃ job ∈ answer.2.created,
    job.deduplicationKey = fanout.sourceKey ∧ job.jobID = id

theorem put_of_sound (sound : Sound encodings fanout jobs) {targets : List FanoutTarget}
    (same : targets.Perm fanout.targets) {attempt : Attempt} (benign : attempt.outcome.Benign) :
    Put encodings fanout jobs
      (putFanout encodings true fanout.event targets fanout.availableAt attempt jobs) := by
  unfold putFanout
  rw [if_neg (by decide)]
  split
  · rename_i error refused
    refine ⟨sound, List.prefix_refl _, fun cause caused => ?_, by simp⟩
    cases caused
    exact (normalizeFanoutSnapshot_error refused).2
  · rename_i snapshot accepted
    split
    · refine ⟨sound, List.prefix_refl _, fun cause caused => ?_, by simp⟩
      cases caused
      rfl
    · rename_i payload encoded
      have accepts : fanout.Accepts encodings snapshot payload :=
        ⟨normalizeFanoutSnapshot_perm same accepted, encoded⟩
      have event : snapshot.event = fanout.event :=
        congrArg FanoutSnapshot.event (normalizeFanoutSnapshot_eq_ok_iff.mp accepted).1
      have key : (snapshotPut snapshot payload).deduplicationKey = fanout.sourceKey := by
        unfold snapshotPut sourceKey
        rw [event]
      obtain ⟨soundAfter, grows⟩ := sound.attempt (snapshotPut snapshot payload) attempt
        (fun _ => ⟨snapshot, payload, accepts, rfl⟩)
        (fun target _ used => sourceKey_ne_deliveryKey target (key.symm.trans used))
      split
      · rename_i error after answered
        rw [answered] at soundAfter grows
        refine ⟨soundAfter, grows, fun cause caused => ?_, by simp⟩
        cases caused
        change error.is .errIdempotencyConflict = false
        refine attempt_benign (fun context => validateUniquePut_eq_ok_iff.mpr ?_) ?_ benign answered
        · exact ⟨by simp [snapshotPut, fanoutEventDeduplicationKey, bytes], Int.one_pos⟩
        · intro job member used
          obtain ⟨other, otherPayload, otherAccepts, content⟩ :=
            sound.source job member (used.trans key)
          obtain ⟨rfl, rfl⟩ := accepts.unique otherAccepts
          exact content
      · rename_i id after answered
        rw [answered] at soundAfter grows
        refine ⟨soundAfter, grows, by simp, fun other identical => ?_⟩
        cases identical
        obtain ⟨job, member, used, sameID, _⟩ := attempt_ok answered
        exact ⟨job, member, used.trans key, sameID⟩

end Steps

/-! ## Whole histories -/

structure Answers (encodings : Encodings) (fanout : Fanout)
    (transition : Transition UniqueJobs Operation Answer) : Prop where
  grows : transition.before.created <+: transition.after.created
  put : ∀ targets attempt result, transition.input = .put targets attempt →
    transition.output = .put result →
    (∀ error, result = .error error → error.is .errIdempotencyConflict = false) ∧
    ∀ id, result = .ok id → ∃ job ∈ transition.after.created,
      job.deduplicationKey = fanout.sourceKey ∧ job.jobID = id
  handled : ∀ result, transition.output = .handled result →
    (∀ error, result.error = some error → error.is .errIdempotencyConflict = false) ∧
    (result.committed = true → ∀ target ∈ fanout.targets, ∃ job ∈ transition.after.created,
      job.deduplicationKey = fanout.deliveryKey encodings target) ∧
    ∃ new, transition.after.created = transition.before.created ++ new ∧ ∀ job ∈ new,
      ∃ target ∈ fanout.targets, IsDelivery encodings fanout.event fanout.availableAt target job

section Runs

variable {encodings : Encodings} {fanout : Fanout}

theorem step_answers (separable : Separable encodings fanout) {jobs : UniqueJobs}
    (sound : Sound encodings fanout jobs) {operation : Operation}
    (admissible : fanout.Admissible encodings operation) :
    Sound encodings fanout (fanout.step encodings operation jobs).2 ∧
      Answers encodings fanout ((fanout.machine encodings).transition jobs operation) := by
  cases operation with
  | put targets attempt =>
    have answer := put_of_sound sound admissible.1 admissible.2
    refine ⟨answer.sound, answer.grows, ?_, nofun⟩
    intro _ _ result _ output
    cases output
    exact ⟨answer.benign, answer.answered⟩
  | handle attempts commit =>
    unfold machine Machine.transition Fanout.step
    dsimp only
    split
    · exact ⟨sound, List.prefix_refl _, nofun, nofun⟩
    · rename_i job found
      have answer := dispatch_of_sound sound separable found admissible.1 admissible.2
      obtain ⟨new, created, delivered⟩ := answer.new
      refine ⟨answer.sound, ?_, nofun, ?_⟩
      · change jobs.created <+: (handleFanout _ _ _ _ jobs).2.created
        rw [created]
        exact List.prefix_append _ _
      · intro result output
        cases output
        exact ⟨answer.benign, answer.complete, new, created, delivered⟩
  | other put attempt =>
    obtain ⟨after, grows⟩ := sound.attempt put attempt
      (fun used => absurd used admissible.1) admissible.2
    exact ⟨after, grows, nofun, nofun⟩

/-- Along a history everything created stays, and every answer is as it should be. -/
theorem history_answers (separable : Separable encodings fanout) (operations : List Operation)
    (admissible : ∀ operation ∈ operations, fanout.Admissible encodings operation) :
    Sound encodings fanout ((fanout.machine encodings).final ⟨[]⟩ operations) ∧
      ∀ transition ∈ (fanout.machine encodings).trace ⟨[]⟩ operations,
        Answers encodings fanout transition ∧
          transition.after.created <+:
            ((fanout.machine encodings).final ⟨[]⟩ operations).created := by
  have run := (fanout.machine encodings).invariant
    (fun jobs trace => (∀ transition ∈ trace, fanout.Admissible encodings transition.input) →
      Sound encodings fanout jobs ∧ ∀ transition ∈ trace,
        Answers encodings fanout transition ∧ transition.after.created <+: jobs.created)
    ⟨[]⟩ (fun _ => ⟨⟨List.nodup_nil, nofun, nofun⟩, nofun⟩) ?_ operations
  · refine run fun transition member => admissible _ ?_
    rw [← (fanout.machine encodings).trace_inputs ⟨[]⟩ operations]
    exact List.mem_map_of_mem member
  · intro jobs trace operation holds allowed
    obtain ⟨before, last⟩ := List.forall_mem_append.mp allowed
    obtain ⟨sound, earlier⟩ := holds before
    obtain ⟨after, answers⟩ := step_answers separable sound (last _ (List.mem_singleton_self _))
    refine ⟨after, List.forall_mem_append.mpr ⟨fun transition member => ?_,
      List.forall_mem_singleton.mpr ⟨answers, List.prefix_refl _⟩⟩⟩
    exact ⟨(earlier transition member).1, (earlier transition member).2.trans answers.grows⟩

end Runs

/-- The fan-out of the event is delivered exactly once, along a history that ends
with these jobs. -/
structure ExactlyOnce (encodings : Encodings) (fanout : Fanout) (jobs : UniqueJobs)
    (trace : List (Transition UniqueJobs Operation Answer)) : Prop where
  /-- Every successful put returns the identifier of the one source job. -/
  source : ∀ transition ∈ trace, ∀ targets attempt id,
    transition.input = .put targets attempt → transition.output = .put (.ok id) →
    ∃ job, jobs.created.filter (fun other => other.deduplicationKey = fanout.sourceKey) = [job] ∧
      job.jobID = id
  /-- No put of the event conflicts. -/
  putsAgree : ∀ transition ∈ trace, ∀ targets attempt error,
    transition.input = .put targets attempt → transition.output = .put (.error error) →
    error.is .errIdempotencyConflict = false
  /-- No key is created twice. -/
  createdOnce : (jobs.created.map UniqueJob.deduplicationKey).Nodup
  /-- No dispatch conflicts. -/
  dispatchesAgree : ∀ transition ∈ trace, ∀ result error,
    transition.output = .handled result → result.error = some error →
    error.is .errIdempotencyConflict = false
  /-- A dispatch creates deliveries only. -/
  dispatchesDeliver : ∀ transition ∈ trace, ∀ result, transition.output = .handled result →
    ∃ new, transition.after.created = transition.before.created ++ new ∧ ∀ job ∈ new,
      ∃ target ∈ fanout.targets, IsDelivery encodings fanout.event fanout.availableAt target job
  /-- After a committed dispatch every target has exactly one delivery. -/
  complete : ∀ transition ∈ trace, ∀ result, transition.output = .handled result →
    result.committed = true → ∀ target ∈ fanout.targets, ∃ job,
      jobs.created.filter (fun other =>
        other.deduplicationKey = fanout.deliveryKey encodings target) = [job] ∧
      IsDelivery encodings fanout.event fanout.availableAt target job
  /-- Normalization is idempotent. -/
  idempotent : ∀ snapshot normalized, normalizeFanoutSnapshot encodings snapshot = .ok normalized →
    normalizeFanoutSnapshot encodings normalized = .ok normalized
  /-- Normalization does not depend on the order of the targets, and refuses either
  every order or none. -/
  unordered : ∀ event first second availableAt, first.Perm second →
    (normalizeFanoutSnapshot encodings ⟨event, first, availableAt⟩).toOption =
      (normalizeFanoutSnapshot encodings ⟨event, second, availableAt⟩).toOption

theorem fanout_exactly_once {encodings : Encodings} {fanout : Fanout}
    (separable : Separable encodings fanout) (operations : List Operation)
    (admissible : ∀ operation ∈ operations, fanout.Admissible encodings operation) :
    ExactlyOnce encodings fanout ((fanout.machine encodings).final ⟨[]⟩ operations)
      ((fanout.machine encodings).trace ⟨[]⟩ operations) := by
  obtain ⟨sound, answers⟩ := history_answers separable operations admissible
  constructor
  · intro transition member targets attempt id input output
    obtain ⟨answer, grows⟩ := answers transition member
    obtain ⟨job, hjob, key, same⟩ := (answer.put targets attempt _ input output).2 id rfl
    refine ⟨job, ?_, same⟩
    rw [← key]
    exact filter_key_eq_singleton sound.distinct (grows.subset hjob)
  · intro transition member targets attempt error input output
    exact ((answers transition member).1.put targets attempt _ input output).1 error rfl
  · exact sound.distinct
  · intro transition member result error output failed
    exact ((answers transition member).1.handled result output).1 error failed
  · intro transition member result output
    exact ((answers transition member).1.handled result output).2.2
  · intro transition member result output committed target inside
    obtain ⟨answer, grows⟩ := answers transition member
    obtain ⟨job, hjob, key⟩ := (answer.handled result output).2.1 committed target inside
    refine ⟨job, ?_, ?_⟩
    · rw [← key]
      exact filter_key_eq_singleton sound.distinct (grows.subset hjob)
    · obtain ⟨snapshot, payload, accepts, delivers⟩ :=
        sound.deliveries job (grows.subset hjob) target inside key
      exact (reads_of_accepts separable accepts).isDelivery separable inside delivers
  · exact fun snapshot normalized accepted => normalizeFanoutSnapshot_idempotent accepted
  · intro event first second availableAt same
    cases accepted : normalizeFanoutSnapshot encodings ⟨event, first, availableAt⟩ with
    | ok normalized => rw [normalizeFanoutSnapshot_perm same accepted]
    | error error =>
      cases other : normalizeFanoutSnapshot encodings ⟨event, second, availableAt⟩ with
      | error reason => rfl
      | ok normalized =>
        rw [normalizeFanoutSnapshot_perm same.symm other] at accepted
        cases accepted

end Fanout

namespace Sample

/-- One event for two targets. -/
def fanout : Fanout :=
  ⟨event, [plainTarget, mirrorTarget], 0⟩

/-- A put whose answer is lost, its retry with the targets in the other order, a
dispatch that fails at its second target, and two that commit. -/
def history : List Fanout.Operation :=
  [.put fanout.targets ⟨⟨1⟩, .lost (.leaf .contextDeadlineExceeded)⟩,
    .put fanout.targets.reverse ⟨⟨2⟩, .executed⟩,
    .handle (fun index => ⟨⟨BitVec.ofNat 128 (3 + index)⟩,
      if index = 1 then .failed (.leaf .contextCanceled) else .executed⟩) .executed,
    .handle (fun index => ⟨⟨BitVec.ofNat 128 (5 + index)⟩, .executed⟩) .executed,
    .handle (fun index => ⟨⟨BitVec.ofNat 128 (7 + index)⟩, .executed⟩) .executed]

theorem fanout_separable : fanout.Separable encodings :=
  ⟨by decide +kernel, by decide +kernel⟩

theorem history_admissible : ∀ operation ∈ history, fanout.Admissible encodings operation := by
  simp only [history, List.forall_mem_cons]
  refine ⟨⟨List.Perm.refl _, rfl⟩, ⟨List.reverse_perm _, trivial⟩, ⟨fun index => ?_, trivial⟩,
    ⟨fun _ => trivial, trivial⟩, ⟨fun _ => trivial, trivial⟩, nofun⟩
  dsimp only
  split
  · rfl
  · trivial

end Sample

/-- Five operations on one event leave its source job and one delivery per target. -/
theorem two_targets_exactly_once :
    ((Sample.fanout.machine Sample.encodings).final ⟨[]⟩ Sample.history).created.length = 3 ∧
    Fanout.ExactlyOnce Sample.encodings Sample.fanout
      ((Sample.fanout.machine Sample.encodings).final ⟨[]⟩ Sample.history)
      ((Sample.fanout.machine Sample.encodings).trace ⟨[]⟩ Sample.history) :=
  ⟨by decide +kernel,
    Fanout.fanout_exactly_once Sample.fanout_separable Sample.history Sample.history_admissible⟩

end OutboxFormal
