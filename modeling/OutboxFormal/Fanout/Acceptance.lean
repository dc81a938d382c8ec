import OutboxFormal.Fanout.Dispatch
import OutboxFormal.Library.Frames

/-!
# Accepted fan-outs

A target identifier may be any byte string within its length, but encoding
replaces ill-formed UTF-8 in it. The stored snapshot then names another target,
whose identifier may even be too long to pass the checks again. An accepted
fan-out is dispatched to its targets exactly when their identifiers are
well-formed UTF-8 and their delivery identifiers differ.
-/

namespace OutboxFormal

open Library Storage

/-- The job delivers the event to the target, and its payload decodes to it. -/
structure IsDelivery (encodings : Encodings) (event : FanoutEvent) (availableAt : Int)
    (target : FanoutTarget) (job : UniqueJob) : Prop where
  key : job.deduplicationKey = fanoutDeliveryDeduplicationKey (event.deliveryID encodings target)
  name : job.content.name = fanoutDeliveryJobName target.kind event.topic
  version : job.content.schemaVersion = event.schemaVersion
  available : job.content.availableAt = availableAt
  decoded : ∃ delivery, decodeFanoutDelivery encodings job.content.payload = .ok delivery ∧
    delivery.id = event.deliveryID encodings target ∧
    delivery.event.id = event.id ∧ delivery.event.topic = event.topic ∧
    delivery.event.schemaVersion = event.schemaVersion ∧
    delivery.event.occurredAt = event.occurredAt ∧
    delivery.target.kind = target.kind ∧ delivery.target.id = target.id

structure Dispatched (encodings : Encodings) (event : FanoutEvent) (targets : List FanoutTarget)
    (availableAt : Int) (jobs : UniqueJobs) (answer : TxResult × UniqueJobs) : Prop where
  succeeded : answer.1.error = none
  deliveries : ∃ order new, order.Perm targets ∧ answer.2.created = jobs.created ++ new ∧
    List.Forall₂ (IsDelivery encodings event availableAt) order new

theorem exists_of_forall₂ {α β : Type} {related : α → β → Prop} {first : List α}
    {second : List β} (all : List.Forall₂ related first second) {value : α}
    (member : value ∈ first) : ∃ other ∈ second, related value other := by
  induction all with
  | nil => cases member
  | cons here _ ih =>
    rcases List.mem_cons.mp member with rfl | later
    · exact ⟨_, List.mem_cons_self, here⟩
    · obtain ⟨other, hother, found⟩ := ih later
      exact ⟨other, List.mem_cons_of_mem _ hother, found⟩

section Acceptance

variable {encodings : Encodings} {event : FanoutEvent} {targets : List FanoutTarget}
variable {availableAt : Int} {snapshot : FanoutSnapshot} {payload : Bytes}

theorem fanoutDeliveryDeduplicationKey_injective {first second : MessageID}
    (same : fanoutDeliveryDeduplicationKey first = fanoutDeliveryDeduplicationKey second) :
    first = second := by
  obtain ⟨firstUUID⟩ := first
  obtain ⟨secondUUID⟩ := second
  exact congrArg MessageID.mk (uuidString_injective (List.append_cancel_left same))

theorem fanoutEventDeduplicationKey_ne (eventID deliveryID : MessageID) :
    fanoutEventDeduplicationKey eventID ≠ fanoutDeliveryDeduplicationKey deliveryID := by
  intro same
  have letter := congrArg (fun key => key[7]?) same
  have event : (fanoutEventDeduplicationKey eventID)[7]? = some 101 := rfl
  have delivery : (fanoutDeliveryDeduplicationKey deliveryID)[7]? = some 100 := rfl
  rw [event, delivery] at letter
  exact absurd letter (by decide)

theorem sortTargets_map_normalized (targets : List FanoutTarget) :
    sortTargets (targets.map FanoutTarget.normalized) =
      (sortTargets targets).map FanoutTarget.normalized :=
  (List.map_insertionSort TargetOrder TargetOrder FanoutTarget.normalized targets
    fun _ _ _ _ => Iff.rfl).symm

/-- The payload of a delivery decodes to an identifier that is well formed. -/
theorem valid_of_delivers {target : FanoutTarget} {job : UniqueJob} {delivery : FanoutDelivery}
    (delivers : Delivers encodings snapshot target job)
    (decoded : decodeFanoutDelivery encodings job.content.payload = .ok delivery) :
    Utf8.valid delivery.target.id = true := by
  obtain ⟨payload, encoded, _, content⟩ := delivers
  obtain ⟨raw, found, _, _, _, rfl⟩ := decodeFanoutDelivery_eq_ok_iff.mp decoded
  rw [content, show (deliveryPut encodings snapshot target payload).content.payload = payload
    from rfl, encodings.deliveries.decodes encoded] at found
  cases found
  exact Utf8.valid_toValid _

/-- The delivery of a normal snapshot decodes to itself, up to compaction. -/
theorem isDelivery_of_delivers {target : FanoutTarget} {job : UniqueJob}
    (normal : Normal encodings snapshot) (member : target ∈ snapshot.targets)
    (wellFormed : Utf8.valid target.id = true)
    (delivers : Delivers encodings snapshot target job) :
    IsDelivery encodings snapshot.event snapshot.availableAt target job := by
  obtain ⟨payload, encoded, key, content⟩ := delivers
  obtain ⟨eventValid, sameEvent⟩ := normal.valid.eventChecked.image
  obtain ⟨sameTarget, targetValid, targetNormal⟩ :=
    (normal.valid.targetsChecked target member).1.image (normal.fixed target member) wellFormed
  have decodes : decodeFanoutDelivery encodings payload =
      .ok ((snapshot.delivery encodings target).image encodings.compact) := by
    refine decodeFanoutDelivery_eq_ok_iff.mpr ⟨_, encodings.deliveries.decodes encoded,
      eventValid, targetValid, ?_, ?_⟩
    · change _ = fanoutDeliveryID encodings (snapshot.event.image encodings.compact).id
        (target.image encodings.compact).kind (target.image encodings.compact).id
      rw [sameEvent, sameTarget]
      rfl
    · change _ = { (snapshot.delivery encodings target).image encodings.compact with
        target := (target.image encodings.compact).normalized }
      rw [targetNormal]
      rfl
  refine ⟨key, by rw [content]; rfl, by rw [content]; rfl, by rw [content]; rfl, ?_⟩
  rw [content]
  refine ⟨_, decodes, rfl, rfl, ?_, rfl, rfl, ?_, ?_⟩
  · change (snapshot.event.image encodings.compact).topic = _
    rw [sameEvent]
  · change (target.image encodings.compact).kind = _
    rw [sameTarget]
  · change (target.image encodings.compact).id = _
    rw [sameTarget]

theorem IsDelivery.of_same {other : FanoutEvent} {target image : FanoutTarget} {job : UniqueJob}
    (delivery : IsDelivery encodings other availableAt image job) (id : other.id = event.id)
    (topic : other.topic = event.topic) (version : other.schemaVersion = event.schemaVersion)
    (occurred : other.occurredAt = event.occurredAt) (kind : image.kind = target.kind)
    (targetID : image.id = target.id) : IsDelivery encodings event availableAt target job := by
  obtain ⟨key, name, schema, available, decoded⟩ := delivery
  have sameID : other.deliveryID encodings image = event.deliveryID encodings target := by
    unfold FanoutEvent.deliveryID
    rw [id, kind, targetID]
  rw [sameID, id, topic, version, occurred, kind, targetID] at decoded
  exact ⟨by rw [key, sameID], by rw [name, kind, topic], by rw [schema, version],
    available, decoded⟩

theorem Normal.exists_delivery (normal : Normal encodings snapshot)
    (expressible : encodings.expressible snapshot.event.occurredAt = true) :
    ∀ target ∈ snapshot.targets, ∃ payload,
      encodings.deliveries.encode (snapshot.delivery encodings target) = some payload := by
  intro target member
  refine encodings.deliveries.exists_encode
    ⟨normal.valid.eventChecked.payload, expressible, ?_⟩
  have checked := (normal.valid.targetsChecked target member).1.snapshot
  rwa [show target.snapshotOrEmpty = target.snapshot from
    congrArg FanoutTarget.snapshot (normal.fixed target member)] at checked

theorem handleFanout_eq (normal : Normal encodings snapshot)
    (wellFormed : ∀ target ∈ snapshot.targets, Utf8.valid target.id = true)
    (encoded : encodings.snapshots.encode snapshot = some payload) (attempts : Nat → Attempt)
    (commit : Outcome) (jobs : UniqueJobs) :
    handleFanout encodings payload attempts commit jobs =
      runInTx commit (dispatchTargets encodings (snapshot.image encodings.compact) attempts 0
        (snapshot.image encodings.compact).targets) jobs := by
  unfold handleFanout
  rw [encodings.snapshots.decodes encoded]
  dsimp only
  rw [(normal.image wellFormed).normalize]

/-- Kind, identifier and delivery identifier of every target survive. -/
theorem Normal.deliveryID_image (normal : Normal encodings snapshot)
    (wellFormed : ∀ target ∈ snapshot.targets, Utf8.valid target.id = true) :
    ∀ target ∈ snapshot.targets,
      (target.image encodings.compact).kind = target.kind ∧
      (target.image encodings.compact).id = target.id ∧
      (snapshot.event.image encodings.compact).deliveryID encodings
        (target.image encodings.compact) = snapshot.event.deliveryID encodings target := by
  intro target member
  have same := ((normal.valid.targetsChecked target member).1.image (normal.fixed target member)
    (wellFormed target member)).1
  unfold FanoutEvent.deliveryID
  rw [normal.valid.eventChecked.image.2, same]
  exact ⟨rfl, rfl, rfl⟩

/-- With every statement executed, the dispatcher creates the deliveries. -/
theorem handleFanout_executed (normal : Normal encodings snapshot)
    (wellFormed : ∀ target ∈ snapshot.targets, Utf8.valid target.id = true)
    (encoded : encodings.snapshots.encode snapshot = some payload) (ids : Nat → JobID)
    {jobs : UniqueJobs} (unused : ∀ target ∈ snapshot.targets, jobs.lookup
      (fanoutDeliveryDeduplicationKey (snapshot.event.deliveryID encodings target)) = none)
    (distinct : (snapshot.targets.map (snapshot.event.deliveryID encodings)).Nodup) :
    ∃ new, handleFanout encodings payload (fun index => ⟨ids index, .executed⟩) .executed jobs =
        (⟨none, true⟩, ⟨jobs.created ++ new⟩) ∧
      List.Forall₂ (IsDelivery encodings snapshot.event snapshot.availableAt) snapshot.targets
        new := by
  have image := normal.image wellFormed
  have images := normal.deliveryID_image wellFormed
  have keys : ((snapshot.image encodings.compact).targets.map fun target =>
      fanoutDeliveryDeduplicationKey
        ((snapshot.image encodings.compact).delivery encodings target).id).Nodup := by
    have same : (snapshot.image encodings.compact).targets.map (fun target =>
        fanoutDeliveryDeduplicationKey
          ((snapshot.image encodings.compact).delivery encodings target).id) =
        (snapshot.targets.map (snapshot.event.deliveryID encodings)).map
          fanoutDeliveryDeduplicationKey := by
      rw [List.map_map]
      refine List.map_map.trans (List.map_congr_left fun target member => ?_)
      exact congrArg fanoutDeliveryDeduplicationKey (images target member).2.2
    rw [same]
    exact distinct.map fun _ _ => fanoutDeliveryDeduplicationKey_injective
  obtain ⟨new, dispatched, delivered⟩ := @dispatchTargets_fresh encodings
    (snapshot.image encodings.compact) (fun index => ⟨ids index, .executed⟩) (fun _ => rfl)
    normal.valid.eventChecked.version 0 _
    (image.exists_delivery (encodings.snapshots.encodable_of_encode encoded).2.1) keys jobs
    (List.forall_mem_map.mpr fun target member => by
      rw [← unused target member, ← (images target member).2.2]
      rfl)
  refine ⟨new, ?_, ?_⟩
  · rw [handleFanout_eq normal wellFormed encoded]
    simp only [runInTx, dispatched]
  · have members : ∀ target ∈ snapshot.targets, target ∈ snapshot.targets := fun _ member => member
    refine ((List.forall₂_and_left _ _).mpr
      ⟨members, List.forall₂_map_left_iff.mp delivered⟩).imp ?_
    rintro target job ⟨member, delivers⟩
    have formed : Utf8.valid (target.image encodings.compact).id = true := by
      rw [(images target member).2.1]
      exact wellFormed target member
    refine (isDelivery_of_delivers image (List.mem_map_of_mem member) formed delivers).of_same
      rfl ?_ rfl rfl (images target member).1 (images target member).2.1
    change (snapshot.event.image encodings.compact).topic = snapshot.event.topic
    rw [normal.valid.eventChecked.image.2]

/-- Whatever happens, the dispatcher only adds deliveries of one snapshot, each
under a key of its own. -/
theorem handleFanout_new (payload : Bytes) (attempts : Nat → Attempt) (commit : Outcome)
    (jobs : UniqueJobs) :
    ∃ (decoded : FanoutSnapshot) (new : List UniqueJob),
      (handleFanout encodings payload attempts commit jobs).2.created = jobs.created ++ new ∧
      (∀ job ∈ new, ∃ target ∈ decoded.targets, Delivers encodings decoded target job) ∧
      (new.map UniqueJob.deduplicationKey).Nodup := by
  have idle : ∀ decoded : FanoutSnapshot, ∃ (other : FanoutSnapshot) (new : List UniqueJob),
      jobs.created = jobs.created ++ new ∧
      (∀ job ∈ new, ∃ target ∈ other.targets, Delivers encodings other target job) ∧
      (new.map UniqueJob.deduplicationKey).Nodup := fun decoded =>
    ⟨decoded, [], (List.append_nil _).symm, nofun, List.nodup_nil⟩
  have blank : FanoutSnapshot := ⟨⟨.nil, [], 0, [], 0⟩, [], 0⟩
  unfold handleFanout
  split
  · exact idle blank
  · split
    · exact idle blank
    · rename_i decoded _
      obtain ⟨new, created, delivered, distinct, _⟩ := @dispatchTargets_new encodings decoded
        attempts 0 decoded.targets jobs
      rcases runInTx_cases commit
        (dispatchTargets encodings decoded attempts 0 decoded.targets) jobs
        with ⟨same, _⟩ | ⟨_, same, _⟩
      · rw [same]
        exact idle decoded
      · rw [same]
        exact ⟨decoded, new, created, delivered, distinct⟩

/-- An accepted fan-out is dispatched to its targets exactly when their
identifiers are well-formed UTF-8 and no two delivery identifiers coincide. -/
theorem accepted_fanout_dispatched_iff
    (accepted : normalizeFanoutSnapshot encodings ⟨event, targets, availableAt⟩ = .ok snapshot)
    (encoded : encodings.snapshots.encode snapshot = some payload) (ids : Nat → JobID)
    (jobs : UniqueJobs) (unused : ∀ target ∈ targets, jobs.lookup
      (fanoutDeliveryDeduplicationKey (event.deliveryID encodings target)) = none) :
    Dispatched encodings event targets availableAt jobs
        (handleFanout encodings payload (fun index => ⟨ids index, .executed⟩) .executed jobs) ↔
      (∀ target ∈ targets, Utf8.valid target.id = true) ∧
        (targets.map (event.deliveryID encodings)).Nodup := by
  constructor
  · rintro ⟨_, order, new, same, created, deliveries⟩
    obtain ⟨decoded, added, addedSame, delivered, distinct⟩ := @handleFanout_new encodings payload
      (fun index => ⟨ids index, .executed⟩) .executed jobs
    rw [created] at addedSame
    rw [← List.append_cancel_left addedSame] at delivered distinct
    constructor
    · intro target member
      obtain ⟨job, hjob, isDelivery⟩ := exists_of_forall₂ deliveries (same.mem_iff.mpr member)
      obtain ⟨delivery, decodes, _, _, _, _, _, _, sameID⟩ := isDelivery.decoded
      obtain ⟨source, _, delivers⟩ := delivered job hjob
      rw [← sameID]
      exact valid_of_delivers delivers decodes
    · have keys : (order.map (event.deliveryID encodings)).map fanoutDeliveryDeduplicationKey =
          new.map UniqueJob.deduplicationKey := by
        rw [← List.forall₂_eq_eq_eq, List.map_map, List.forall₂_map_left_iff,
          List.forall₂_map_right_iff]
        exact deliveries.imp fun _ _ isDelivery => isDelivery.key.symm
      rw [← keys] at distinct
      exact (same.map _).nodup_iff.mp (List.Nodup.of_map _ distinct)
  · rintro ⟨wellFormed, distinct⟩
    have normal := normal_of_normalize accepted
    obtain ⟨rfl, _⟩ := normalizeFanoutSnapshot_eq_ok_iff.mp accepted
    have sorted := sortTargets_perm targets
    dsimp only at normal encoded
    rw [sortTargets_map_normalized] at normal encoded
    have formed : ∀ target ∈ (sortTargets targets).map FanoutTarget.normalized,
        Utf8.valid target.id = true := by
      refine List.forall_mem_map.mpr fun target member => ?_
      exact wellFormed target (sorted.mem_iff.mp member)
    have distinctSorted : (((sortTargets targets).map FanoutTarget.normalized).map
        (event.deliveryID encodings)).Nodup := by
      rw [List.map_map]
      exact (sorted.map (event.deliveryID encodings)).nodup_iff.mpr distinct
    obtain ⟨new, handled, delivered⟩ := handleFanout_executed normal formed encoded ids
      (List.forall_mem_map.mpr fun target member => unused target (sorted.mem_iff.mp member))
      distinctSorted
    rw [handled]
    refine ⟨rfl, sortTargets targets, new, sorted, rfl, ?_⟩
    exact (List.forall₂_map_left_iff.mp delivered).imp fun _ _ isDelivery =>
      isDelivery.of_same rfl rfl rfl rfl rfl rfl

end Acceptance

/-! ## A target that encoding changes -/

namespace Sample

/-- The fields of a target, in order. -/
def targetFields (target : FanoutTarget) : List Bytes := [target.kind, target.id, target.snapshot]

def readTargets : List Bytes → Option (List FanoutTarget)
  | [] => some []
  | kind :: id :: snapshot :: rest => (readTargets rest).map (⟨kind, id, snapshot⟩ :: ·)
  | _ => none

theorem readTargets_fields (targets : List FanoutTarget) :
    readTargets (targets.flatMap targetFields) = some targets := by
  induction targets with
  | nil => rfl
  | cons target rest ih =>
    change (readTargets (rest.flatMap targetFields)).map _ = _
    rw [ih]
    rfl

def eventFields (event : FanoutEvent) : List Bytes :=
  [Frames.ofNat event.id.uuid.toNat, event.topic, Frames.ofInt event.schemaVersion,
    event.payload, Frames.ofInt event.occurredAt]

def readEvent (id topic version payload occurredAt : Bytes) : FanoutEvent :=
  ⟨⟨BitVec.ofNat 128 (Frames.toNat id)⟩, topic, Frames.toInt version, payload,
    Frames.toInt occurredAt⟩

theorem readEvent_fields (event : FanoutEvent) :
    readEvent (Frames.ofNat event.id.uuid.toNat) event.topic (Frames.ofInt event.schemaVersion)
      event.payload (Frames.ofInt event.occurredAt) = event := by
  simp [readEvent, Frames.toNat_ofNat, Frames.toInt_ofInt]

def readSnapshot : List Bytes → Option FanoutSnapshot
  | id :: topic :: version :: payload :: occurredAt :: availableAt :: rest =>
    (readTargets rest).map fun targets =>
      ⟨readEvent id topic version payload occurredAt, targets, Frames.toInt availableAt⟩
  | _ => none

def snapshotFields (snapshot : FanoutSnapshot) : List Bytes :=
  eventFields snapshot.event ++ Frames.ofInt snapshot.availableAt ::
    snapshot.targets.flatMap targetFields

theorem readSnapshot_fields (snapshot : FanoutSnapshot) :
    readSnapshot (snapshotFields snapshot) = some snapshot := by
  change (readTargets (snapshot.targets.flatMap targetFields)).map _ = _
  rw [readTargets_fields, Option.map_some, readEvent_fields, Frames.toInt_ofInt]

def readDelivery : List Bytes → Option FanoutDelivery
  | [delivery, id, topic, version, payload, occurredAt, kind, target, snapshot] =>
    some ⟨⟨BitVec.ofNat 128 (Frames.toNat delivery)⟩,
      readEvent id topic version payload occurredAt, ⟨kind, target, snapshot⟩⟩
  | _ => none

def deliveryFields (delivery : FanoutDelivery) : List Bytes :=
  Frames.ofNat delivery.id.uuid.toNat ::
    (eventFields delivery.event ++ targetFields delivery.target)

theorem readDelivery_fields (delivery : FanoutDelivery) :
    readDelivery (deliveryFields delivery) = some delivery := by
  change some (FanoutDelivery.mk _ _ _) = _
  rw [readEvent_fields, Frames.toNat_ofNat, BitVec.ofNat_toNat, BitVec.setWidth_eq]

def codec {α : Type} (image : α → α) (fields : α → List Bytes) (read : List Bytes → Option α)
    (reads : ∀ value, read (fields value) = some value) {encodable : α → Prop}
    [DecidablePred encodable] : Codec α encodable image where
  encode value := if encodable value then some (Frames.frames (fields (image value))) else none
  decode text := (Frames.readAll text).bind read
  encodes value := by
    by_cases possible : encodable value <;> simp [possible]
  decodes := by
    intro value text encoded
    split at encoded
    · cases encoded
      rw [Frames.readAll_frames, Option.bind_some, reads]
    · cases encoded

/-- A raw message is any text, and a delivery's identifier is the length of its
name. -/
def encodings : Encodings where
  valid raw := !raw.isEmpty
  compact raw := raw
  expressible _ := true
  newSHA1 _ name := BitVec.ofNat 128 name.length
  valid_compact _ valid := valid
  invalid_nil := rfl
  snapshots := codec _ snapshotFields readSnapshot readSnapshot_fields
  deliveries := codec _ deliveryFields readDelivery readDelivery_fields

def event : FanoutEvent := ⟨⟨1⟩, bytes "orders", 1, bytes "null", second⟩

/-- A target whose identifier is so many bytes that start no encoding. -/
def target (length : Nat) : FanoutTarget :=
  ⟨bytes "webhook", List.replicate length 0xFF, []⟩

def plainTarget : FanoutTarget := ⟨bytes "webhook", bytes "subscription", []⟩

def mirrorTarget : FanoutTarget := ⟨bytes "webhook", bytes "mirror", bytes "true"⟩

/-- A repository that holds the delivery of another target. -/
def delivered : UniqueJobs :=
  ⟨[⟨fanoutDeliveryDeduplicationKey (event.deliveryID encodings (target 2)), ⟨7⟩,
    ⟨fanoutDeliveryJobName (target 2).kind event.topic, 1, event.payload, 0⟩⟩]⟩

end Sample

/-- A fan-out to two targets is dispatched beside the delivery of a third. -/
theorem plain_fanout_dispatched :
    ∃ snapshot payload,
      normalizeFanoutSnapshot Sample.encodings
        ⟨Sample.event, [Sample.plainTarget, Sample.mirrorTarget], 0⟩ = .ok snapshot ∧
      Sample.encodings.snapshots.encode snapshot = some payload ∧
      Dispatched Sample.encodings Sample.event [Sample.plainTarget, Sample.mirrorTarget] 0
        Sample.delivered (handleFanout Sample.encodings payload
          (fun index => ⟨⟨BitVec.ofNat 128 index⟩, .executed⟩) .executed Sample.delivered) := by
  have accepted : normalizeFanoutSnapshot Sample.encodings
      ⟨Sample.event, [Sample.plainTarget, Sample.mirrorTarget], 0⟩ =
        .ok ⟨Sample.event, [Sample.mirrorTarget, Sample.plainTarget.normalized], 0⟩ := by decide
  obtain ⟨payload, encoded⟩ := @Codec.exists_encode _ _ _ Sample.encodings.snapshots
    ⟨Sample.event, [Sample.mirrorTarget, Sample.plainTarget.normalized], 0⟩ (by decide)
  refine ⟨_, payload, accepted, encoded, ?_⟩
  refine (accepted_fanout_dispatched_iff accepted encoded _ Sample.delivered ?_).mpr ⟨?_, ?_⟩
  · decide +kernel
  · decide
  · decide +kernel

/-- A target identifier of 171 ill-formed bytes is accepted and stored, and grows
to 513 bytes when it is encoded, so that the dispatcher refuses the snapshot. -/
theorem illformed_target_undispatchable :
    ∃ snapshot payload,
      normalizeFanoutSnapshot Sample.encodings ⟨Sample.event, [Sample.target 171], 0⟩ =
        .ok snapshot ∧
      Sample.encodings.snapshots.encode snapshot = some payload ∧
      handleFanout Sample.encodings payload (fun _ => ⟨⟨1⟩, .executed⟩) .executed ⟨[]⟩ =
        (⟨some (invalidFanout ": invalid target id"), false⟩, ⟨[]⟩) ∧
      ¬ Dispatched Sample.encodings Sample.event [Sample.target 171] 0 ⟨[]⟩
        (handleFanout Sample.encodings payload (fun _ => ⟨⟨1⟩, .executed⟩) .executed ⟨[]⟩) := by
  have accepted : normalizeFanoutSnapshot Sample.encodings
      ⟨Sample.event, [Sample.target 171], 0⟩ =
        .ok ⟨Sample.event, [(Sample.target 171).normalized], 0⟩ := by decide +kernel
  obtain ⟨payload, encoded⟩ := @Codec.exists_encode _ _ _ Sample.encodings.snapshots
    ⟨Sample.event, [(Sample.target 171).normalized], 0⟩ (by decide)
  refine ⟨_, payload, accepted, encoded, ?_⟩
  have refused : normalizeFanoutSnapshot Sample.encodings
      (FanoutSnapshot.image Sample.encodings.compact
        ⟨Sample.event, [(Sample.target 171).normalized], 0⟩) =
      .error (invalidFanout ": invalid target id") := by decide +kernel
  have handled : handleFanout Sample.encodings payload (fun _ => ⟨⟨1⟩, .executed⟩) .executed ⟨[]⟩ =
      (⟨some (invalidFanout ": invalid target id"), false⟩, ⟨[]⟩) := by
    unfold handleFanout
    rw [Sample.encodings.snapshots.decodes encoded]
    dsimp only
    rw [refused]
  refine ⟨handled, fun dispatched => ?_⟩
  have succeeded := dispatched.succeeded
  rw [handled] at succeeded
  cases succeeded

end OutboxFormal
