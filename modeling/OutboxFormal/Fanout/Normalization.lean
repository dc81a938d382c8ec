import OutboxFormal.Fanout.Snapshot

/-!
# Canonical snapshots

Normalization accepts a snapshot exactly when the event and every target pass
their checks and no two targets share kind and identifier. What it returns does
not depend on the order of the targets, passes again, and survives encoding when
the target identifiers are well-formed UTF-8.
-/

namespace OutboxFormal

open Library

variable {snapshot : FanoutSnapshot} {event : FanoutEvent} {target first second : FanoutTarget}

variable {encodings : Encodings}

/-! ## Acceptance -/

structure ValidEvent (encodings : Encodings) (event : FanoutEvent) : Prop where
  named : event.id ≠ .nil
  topic : validFanoutToken event.topic true = true
  short : (fanoutDeliveryJobName (bytes "consumer") event.topic).length ≤ 255
  version : 0 < event.schemaVersion
  occurred : event.occurredAt ≠ 0
  payload : encodings.valid event.payload = true

structure ValidTarget (encodings : Encodings) (target : FanoutTarget) : Prop where
  kind : validFanoutToken target.kind false = true
  identified : isBlank target.id = false
  short : target.id.length ≤ 512
  shortKind : (fanoutDeliveryJobName target.kind (bytes "topic")).length ≤ 255
  snapshot : encodings.valid target.snapshotOrEmpty = true

def FanoutTarget.normalized (target : FanoutTarget) : FanoutTarget :=
  { target with snapshot := target.snapshotOrEmpty }

/-- The capability name of the target's deliveries fits its column. -/
def Nameable (topic : Bytes) (target : FanoutTarget) : Prop :=
  (fanoutDeliveryJobName target.kind topic).length ≤ 255

structure ValidSnapshot (encodings : Encodings) (event : FanoutEvent)
    (targets : List FanoutTarget) : Prop where
  eventChecked : ValidEvent encodings event
  targetsChecked : ∀ target ∈ targets, ValidTarget encodings target ∧ Nameable event.topic target
  distinct : (targets.map FanoutTarget.key).Nodup

theorem MessageID.validate_eq_ok_iff {id : MessageID} : id.validate = .ok () ↔ id ≠ .nil := by
  unfold MessageID.validate MessageID.isZero
  split <;> simp_all

theorem normalizeFanoutEvent_eq_ok_iff {normalized : FanoutEvent} :
    normalizeFanoutEvent encodings event = .ok normalized ↔
      normalized = event ∧ ValidEvent encodings event := by
  unfold normalizeFanoutEvent
  constructor
  · intro accepted
    split at accepted
    · cases accepted
    · rename_i named
      split_ifs at accepted with topic short version occurred payload
      cases accepted
      refine ⟨rfl, MessageID.validate_eq_ok_iff.mp named, ?_, by omega, by omega, occurred, ?_⟩
      · simpa using topic
      · simpa using payload
  · rintro ⟨rfl, named, topic, short, version, occurred, payload⟩
    rw [MessageID.validate_eq_ok_iff.mpr named]
    dsimp only
    rw [if_neg (by simp [topic]), if_neg (by omega), if_neg (by omega), if_neg occurred,
      if_neg (by simp [payload])]

theorem normalizeFanoutTarget_eq_ok_iff {normalized : FanoutTarget} :
    normalizeFanoutTarget encodings target = .ok normalized ↔
      normalized = target.normalized ∧ ValidTarget encodings target := by
  unfold normalizeFanoutTarget
  constructor
  · intro accepted
    split_ifs at accepted with kind identified shortKind snapshot
    cases accepted
    rw [not_or] at identified
    refine ⟨rfl, ?_, ?_, by omega, by omega, ?_⟩
    · simpa using kind
    · simpa using identified.1
    · simpa using snapshot
  · rintro ⟨rfl, kind, identified, short, shortKind, snapshot⟩
    rw [if_neg (by simp [kind]), if_neg (by simp [identified]; omega), if_neg (by omega),
      if_neg (by simp [snapshot])]
    rfl

theorem normalizeFanoutTargets_eq_ok_iff {topic : Bytes} {seen : List Bytes}
    {items targets : List FanoutTarget} :
    normalizeFanoutTargets encodings topic seen items = .ok targets ↔
      targets = items.map FanoutTarget.normalized ∧
        (∀ item ∈ items, ValidTarget encodings item ∧ Nameable topic item) ∧
        (items.map FanoutTarget.key).Nodup ∧ ∀ item ∈ items, item.key ∉ seen := by
  induction items generalizing seen targets with
  | nil =>
    simp only [normalizeFanoutTargets, Except.ok.injEq, List.map_nil]
    refine ⟨fun same => ⟨same.symm, nofun, List.nodup_nil, nofun⟩, fun accepted =>
      accepted.1.symm⟩
  | cons item rest ih =>
    unfold normalizeFanoutTargets
    constructor
    · intro accepted
      split at accepted
      · cases accepted
      · rename_i target normalizes
        obtain ⟨rfl, valid⟩ := normalizeFanoutTarget_eq_ok_iff.mp normalizes
        split_ifs at accepted with long duplicate
        split at accepted
        · cases accepted
        · rename_i others accepts
          cases accepted
          obtain ⟨rfl, checked, distinct, unseen⟩ := ih.mp accepts
          have first : Nameable topic item := Nat.le_of_not_lt long
          have fresh : ∀ other ∈ rest, other.key ≠ item.key := fun other member same =>
            unseen other member (same ▸ List.mem_cons_self)
          refine ⟨rfl, List.forall_mem_cons.mpr ⟨⟨valid, first⟩, checked⟩, ?_, ?_⟩
          · refine List.nodup_cons.mpr ⟨fun member => ?_, distinct⟩
            obtain ⟨other, hother, same⟩ := List.mem_map.mp member
            exact fresh other hother same
          · refine List.forall_mem_cons.mpr ⟨duplicate, fun other member old => ?_⟩
            exact unseen other member (List.mem_cons_of_mem _ old)
    · rintro ⟨rfl, checked, distinct, unseen⟩
      obtain ⟨⟨valid, first⟩, checked⟩ := List.forall_mem_cons.mp checked
      obtain ⟨absent, distinct⟩ := List.nodup_cons.mp distinct
      obtain ⟨unseenFirst, unseen⟩ := List.forall_mem_cons.mp unseen
      rw [normalizeFanoutTarget_eq_ok_iff.mpr ⟨rfl, valid⟩]
      dsimp only
      have accepts : normalizeFanoutTargets encodings topic (item.normalized.key :: seen) rest =
          .ok (rest.map FanoutTarget.normalized) := by
        refine ih.mpr ⟨rfl, checked, distinct, fun other member old => ?_⟩
        rcases List.mem_cons.mp old with same | old
        · exact absent (List.mem_map.mpr ⟨other, member, same⟩)
        · exact unseen other member old
      have short : ¬ 255 < (fanoutDeliveryJobName item.normalized.kind topic).length :=
        Nat.not_lt.mpr first
      have unseenKey : item.normalized.key ∉ seen := unseenFirst
      rw [if_neg short, if_neg unseenKey, accepts]
      rfl

/-- Normalization accepts exactly the snapshots that pass their checks. -/
theorem normalizeFanoutSnapshot_eq_ok_iff {normalized : FanoutSnapshot} :
    normalizeFanoutSnapshot encodings snapshot = .ok normalized ↔
      normalized = ⟨snapshot.event, sortTargets (snapshot.targets.map FanoutTarget.normalized),
        snapshot.availableAt⟩ ∧ ValidSnapshot encodings snapshot.event snapshot.targets := by
  unfold normalizeFanoutSnapshot
  constructor
  · intro accepted
    split at accepted
    · cases accepted
    · rename_i event normalizes
      obtain ⟨rfl, valid⟩ := normalizeFanoutEvent_eq_ok_iff.mp normalizes
      split at accepted
      · cases accepted
      · rename_i targets accepts
        obtain ⟨rfl, checked, distinct, _⟩ := normalizeFanoutTargets_eq_ok_iff.mp accepts
        cases accepted
        exact ⟨rfl, valid, checked, distinct⟩
  · rintro ⟨rfl, valid, checked, distinct⟩
    rw [normalizeFanoutEvent_eq_ok_iff.mpr ⟨rfl, valid⟩]
    dsimp only
    rw [normalizeFanoutTargets_eq_ok_iff.mpr ⟨rfl, checked, distinct, fun _ _ => List.not_mem_nil⟩]

/-- A delivery is accepted when its parts pass their checks and its identifier is
the one derived from them. -/
theorem decodeFanoutDelivery_eq_ok_iff {payload : Bytes} {delivery : FanoutDelivery} :
    decodeFanoutDelivery encodings payload = .ok delivery ↔
      ∃ raw, encodings.deliveries.decode payload = some raw ∧ ValidEvent encodings raw.event ∧
        ValidTarget encodings raw.target ∧
        raw.id = fanoutDeliveryID encodings raw.event.id raw.target.kind raw.target.id ∧
        delivery = { raw with target := raw.target.normalized } := by
  unfold decodeFanoutDelivery
  constructor
  · intro accepted
    split at accepted
    · cases accepted
    · rename_i raw decoded
      split at accepted
      · cases accepted
      · rename_i event normalizes
        obtain ⟨rfl, valid⟩ := normalizeFanoutEvent_eq_ok_iff.mp normalizes
        split at accepted
        · cases accepted
        · rename_i target normalizes
          obtain ⟨rfl, validTarget⟩ := normalizeFanoutTarget_eq_ok_iff.mp normalizes
          split at accepted
          · cases accepted
          · rename_i same
            cases accepted
            exact ⟨raw, decoded, valid, validTarget, not_not.mp same, rfl⟩
  · rintro ⟨raw, decoded, valid, validTarget, same, rfl⟩
    rw [decoded]
    dsimp only
    rw [normalizeFanoutEvent_eq_ok_iff.mpr ⟨rfl, valid⟩,
      normalizeFanoutTarget_eq_ok_iff.mpr ⟨rfl, validTarget⟩]
    dsimp only
    exact if_neg (not_not.mpr same)

/-! ## Errors -/

theorem normalizeFanoutTargets_error {topic : Bytes} {seen : List Bytes}
    {items : List FanoutTarget} {error : OutboxError}
    (refused : normalizeFanoutTargets encodings topic seen items = .error error) :
    error.is .errInvalidFanout = true ∧ error.is .errIdempotencyConflict = false := by
  induction items generalizing seen with
  | nil => cases refused
  | cons item rest ih =>
    unfold normalizeFanoutTargets normalizeFanoutTarget at refused
    split at refused
    · rename_i cause failed
      cases refused
      split_ifs at failed <;> (cases failed; exact ⟨rfl, rfl⟩)
    · split_ifs at refused
      · cases refused
        exact ⟨rfl, rfl⟩
      · cases refused
        exact ⟨rfl, rfl⟩
      · split at refused
        · rename_i cause failed
          cases refused
          exact ih failed
        · cases refused

/-- Every refusal is an `ErrInvalidFanout`, and never a conflict. -/
theorem normalizeFanoutSnapshot_error {error : OutboxError}
    (refused : normalizeFanoutSnapshot encodings snapshot = .error error) :
    error.is .errInvalidFanout = true ∧ error.is .errIdempotencyConflict = false := by
  unfold normalizeFanoutSnapshot at refused
  split at refused
  · rename_i cause failed
    cases refused
    unfold normalizeFanoutEvent at failed
    split at failed
    · rename_i reason unnamed
      cases failed
      unfold MessageID.validate at unnamed
      split at unnamed
      · cases unnamed
        exact ⟨rfl, rfl⟩
      · cases unnamed
    · split_ifs at failed <;> (cases failed; exact ⟨rfl, rfl⟩)
  · split at refused
    · rename_i cause failed
      cases refused
      exact normalizeFanoutTargets_error failed
    · cases refused

/-! ## Order -/

/-- What `sort.Slice` compares. -/
def FanoutTarget.sortKey (target : FanoutTarget) : Lex (List Nat × List Nat) :=
  toLex (target.kind.map UInt8.toNat, target.id.map UInt8.toNat)

theorem map_toNat_injective {first second : Bytes}
    (same : first.map UInt8.toNat = second.map UInt8.toNat) : first = second :=
  List.map_injective_iff.mpr (fun _ _ => UInt8.toNat_inj.mp) same

theorem targetLess_iff :
    targetLess first second = true ↔ first.sortKey < second.sortKey := by
  unfold targetLess bytesLess FanoutTarget.sortKey
  rw [Prod.Lex.toLex_lt_toLex]
  split
  · rename_i same
    simp [same]
  · rename_i different
    have unequal : first.kind.map UInt8.toNat ≠ second.kind.map UInt8.toNat :=
      fun same => different (map_toNat_injective same)
    simp [unequal]

/-- The order in which `sort.Slice` leaves the targets. -/
abbrev TargetOrder (first second : FanoutTarget) : Prop := targetLess second first = false

theorem targetOrder_iff :
    TargetOrder first second ↔ first.sortKey ≤ second.sortKey := by
  rw [← not_lt, ← targetLess_iff, Bool.not_eq_true]

instance : Std.Total TargetOrder where
  total first second := by
    simp only [targetOrder_iff]
    exact le_total _ _

instance : IsTrans FanoutTarget TargetOrder where
  trans first second third := by
    simp only [targetOrder_iff]
    exact le_trans

theorem sortTargets_perm (targets : List FanoutTarget) : (sortTargets targets).Perm targets :=
  List.perm_insertionSort TargetOrder targets

theorem pairwise_sortTargets (targets : List FanoutTarget) :
    (sortTargets targets).Pairwise TargetOrder := List.pairwise_insertionSort TargetOrder targets

theorem key_eq_of_tied (forward : TargetOrder first second) (backward : TargetOrder second first) :
    first.key = second.key := by
  have same := le_antisymm (targetOrder_iff.mp forward) (targetOrder_iff.mp backward)
  obtain ⟨kinds, ids⟩ := Prod.mk.inj (toLex.injective same)
  unfold FanoutTarget.key
  rw [map_toNat_injective kinds, map_toNat_injective ids]

/-- Sorting is canonical: with distinct keys there is one sorted arrangement, so
it does not matter that `sort.Slice` is not stable. -/
theorem sorted_unique {first second : List FanoutTarget} (same : first.Perm second)
    (distinct : (first.map FanoutTarget.key).Nodup) (sortedFirst : first.Pairwise TargetOrder)
    (sortedSecond : second.Pairwise TargetOrder) : first = second := by
  refine List.Perm.eq_of_pairwise ?_ sortedFirst sortedSecond same
  intro one other hone hother forward backward
  exact List.inj_on_of_nodup_map distinct hone (same.mem_iff.mpr hother)
    (key_eq_of_tied forward backward)

theorem sortTargets_eq_of_perm {first second : List FanoutTarget} (same : first.Perm second)
    (distinct : (first.map FanoutTarget.key).Nodup) : sortTargets first = sortTargets second := by
  refine sorted_unique ((sortTargets_perm first).trans (same.trans (sortTargets_perm second).symm))
    ?_ (pairwise_sortTargets first) (pairwise_sortTargets second)
  exact ((sortTargets_perm first).map FanoutTarget.key).nodup_iff.mpr distinct

theorem sortTargets_eq_self {targets : List FanoutTarget} (sorted : targets.Pairwise TargetOrder) :
    sortTargets targets = targets := sorted.insertionSort_eq

/-! ## Normal forms -/

theorem ValidTarget.normalized (valid : ValidTarget encodings target) :
    ValidTarget encodings target.normalized ∧ target.normalized.normalized = target.normalized := by
  have nonempty : target.normalized.snapshot.isEmpty = false := by
    cases empty : target.normalized.snapshot.isEmpty with
    | false => rfl
    | true =>
      have nothing : target.snapshotOrEmpty = [] := List.isEmpty_iff.mp empty
      have checked := valid.snapshot
      rw [nothing, encodings.invalid_nil] at checked
      cases checked
  have same : target.normalized.snapshotOrEmpty = target.normalized.snapshot := by
    simp [FanoutTarget.snapshotOrEmpty, nonempty]
  refine ⟨⟨valid.kind, valid.identified, valid.short, valid.shortKind, ?_⟩, ?_⟩
  · rw [same]
    exact valid.snapshot
  · unfold FanoutTarget.normalized at same ⊢
    rw [same]

structure Normal (encodings : Encodings) (snapshot : FanoutSnapshot) : Prop where
  valid : ValidSnapshot encodings snapshot.event snapshot.targets
  fixed : ∀ target ∈ snapshot.targets, target.normalized = target
  sorted : snapshot.targets.Pairwise TargetOrder

theorem Normal.normalize (normal : Normal encodings snapshot) :
    normalizeFanoutSnapshot encodings snapshot = .ok snapshot := by
  refine normalizeFanoutSnapshot_eq_ok_iff.mpr ⟨?_, normal.valid⟩
  have same : snapshot.targets.map FanoutTarget.normalized = snapshot.targets := by
    conv_rhs => rw [← List.map_id snapshot.targets]
    exact List.map_congr_left normal.fixed
  rw [same, sortTargets_eq_self normal.sorted]

theorem map_key_normalized (targets : List FanoutTarget) :
    (targets.map FanoutTarget.normalized).map FanoutTarget.key = targets.map FanoutTarget.key := by
  rw [List.map_map]
  rfl

theorem normal_of_normalize {normalized : FanoutSnapshot}
    (accepted : normalizeFanoutSnapshot encodings snapshot = .ok normalized) :
    Normal encodings normalized := by
  obtain ⟨rfl, valid⟩ := normalizeFanoutSnapshot_eq_ok_iff.mp accepted
  have member : ∀ target ∈ sortTargets (snapshot.targets.map FanoutTarget.normalized),
      ∃ item ∈ snapshot.targets, item.normalized = target := fun target sorted =>
    List.mem_map.mp ((sortTargets_perm _).mem_iff.mp sorted)
  refine ⟨⟨valid.eventChecked, fun target sorted => ?_, ?_⟩, fun target sorted => ?_,
    pairwise_sortTargets _⟩
  · obtain ⟨item, hitem, rfl⟩ := member target sorted
    obtain ⟨checked, nameable⟩ := valid.targetsChecked item hitem
    exact ⟨checked.normalized.1, nameable⟩
  · refine ((sortTargets_perm _).map FanoutTarget.key).nodup_iff.mpr ?_
    rw [map_key_normalized]
    exact valid.distinct
  · obtain ⟨item, hitem, rfl⟩ := member target sorted
    exact (valid.targetsChecked item hitem).1.normalized.2

theorem normalizeFanoutSnapshot_idempotent {normalized : FanoutSnapshot}
    (accepted : normalizeFanoutSnapshot encodings snapshot = .ok normalized) :
    normalizeFanoutSnapshot encodings normalized = .ok normalized :=
  (normal_of_normalize accepted).normalize

/-- The order of the targets does not matter. -/
theorem normalizeFanoutSnapshot_perm {first second : List FanoutTarget} {availableAt : Int}
    {normalized : FanoutSnapshot} (same : first.Perm second)
    (accepted : normalizeFanoutSnapshot encodings ⟨event, first, availableAt⟩ = .ok normalized) :
    normalizeFanoutSnapshot encodings ⟨event, second, availableAt⟩ = .ok normalized := by
  obtain ⟨rfl, valid⟩ := normalizeFanoutSnapshot_eq_ok_iff.mp accepted
  refine normalizeFanoutSnapshot_eq_ok_iff.mpr ⟨?_, valid.eventChecked, fun target member =>
    valid.targetsChecked target (same.mem_iff.mpr member), ?_⟩
  · rw [sortTargets_eq_of_perm (same.map FanoutTarget.normalized)]
    rw [map_key_normalized]
    exact valid.distinct
  · exact (same.map FanoutTarget.key).nodup_iff.mp valid.distinct

/-! ## Through the encoding -/

theorem lt_of_within {low high byte bound : UInt8} (inside : Utf8.within low high byte = true)
    (below : high < bound) : byte < bound := by
  simp only [Utf8.within, Bool.and_eq_true, decide_eq_true_eq] at inside
  exact UInt8.lt_of_le_of_lt inside.2 below

theorem toValid_of_token {value : Bytes} {allowDot : Bool}
    (token : validFanoutToken value allowDot = true) : Utf8.toValid value = value := by
  refine Utf8.toValid_eq_self_iff.mpr (Utf8.valid_of_plain fun byte member => ?_)
  have allowed := List.all_eq_true.mp (Bool.and_eq_true_iff.mp token).2 byte member
  simp only [tokenByte, Bool.or_eq_true, Bool.and_eq_true, beq_iff_eq] at allowed
  rcases allowed with ((((lower | upper) | digit) | rfl) | rfl) | ⟨_, rfl⟩
  · exact lt_of_within lower (by decide)
  · exact lt_of_within upper (by decide)
  · exact lt_of_within digit (by decide)
  · decide
  · decide
  · decide

theorem ValidEvent.image (valid : ValidEvent encodings event) :
    ValidEvent encodings (event.image encodings.compact) ∧
      event.image encodings.compact =
        { event with payload := encodings.compact event.payload } := by
  have topic := toValid_of_token valid.topic
  have same : event.image encodings.compact =
      { event with payload := encodings.compact event.payload } := by
    unfold FanoutEvent.image
    rw [topic]
  rw [same]
  exact ⟨⟨valid.named, valid.topic, valid.short, valid.version, valid.occurred,
    encodings.valid_compact _ valid.payload⟩, rfl⟩

/-- A target in normal form whose identifier is well formed keeps kind and
identifier, and stays in normal form. -/
theorem ValidTarget.image (valid : ValidTarget encodings target)
    (fixed : target.normalized = target) (wellFormed : Utf8.valid target.id = true) :
    target.image encodings.compact =
        { target with snapshot := encodings.compact target.snapshot } ∧
      ValidTarget encodings (target.image encodings.compact) ∧
      (target.image encodings.compact).normalized = target.image encodings.compact := by
  have kind := toValid_of_token valid.kind
  have id := Utf8.toValid_eq_self_iff.mpr wellFormed
  have same : target.image encodings.compact =
      { target with snapshot := encodings.compact target.snapshot } := by
    unfold FanoutTarget.image
    rw [kind, id]
  have snapshot : target.snapshotOrEmpty = target.snapshot := congrArg FanoutTarget.snapshot fixed
  have compacted := encodings.valid_compact _ valid.snapshot
  rw [snapshot] at compacted
  have nonempty : (encodings.compact target.snapshot).isEmpty = false := by
    cases hcompact : encodings.compact target.snapshot with
    | nil =>
      rw [hcompact, encodings.invalid_nil] at compacted
      cases compacted
    | cons => rfl
  have raw : FanoutTarget.snapshotOrEmpty
      { target with snapshot := encodings.compact target.snapshot } =
        encodings.compact target.snapshot := by
    simp [FanoutTarget.snapshotOrEmpty, nonempty]
  rw [same]
  refine ⟨rfl, ⟨valid.kind, valid.identified, valid.short, valid.shortKind, ?_⟩, ?_⟩
  · rw [raw]
    exact compacted
  · unfold FanoutTarget.normalized
    rw [raw]

theorem Normal.image (normal : Normal encodings snapshot)
    (wellFormed : ∀ target ∈ snapshot.targets, Utf8.valid target.id = true) :
    Normal encodings (snapshot.image encodings.compact) := by
  have images := fun target member => (normal.valid.targetsChecked target member).1.image
    (normal.fixed target member) (wellFormed target member)
  obtain ⟨eventValid, sameEvent⟩ := normal.valid.eventChecked.image
  have keys : ∀ target ∈ snapshot.targets,
      (target.image encodings.compact).key = target.key ∧
      (target.image encodings.compact).sortKey = target.sortKey := by
    intro target member
    rw [(images target member).1]
    exact ⟨rfl, rfl⟩
  refine ⟨⟨eventValid, ?_, ?_⟩, ?_, ?_⟩
  · refine List.forall_mem_map.mpr fun target member => ⟨(images target member).2.1, ?_⟩
    change Nameable (snapshot.event.image encodings.compact).topic _
    rw [sameEvent, (images target member).1]
    exact (normal.valid.targetsChecked target member).2
  · change ((snapshot.targets.map (FanoutTarget.image encodings.compact)).map
      FanoutTarget.key).Nodup
    have same : snapshot.targets.map (FanoutTarget.key ∘ FanoutTarget.image encodings.compact) =
        snapshot.targets.map FanoutTarget.key :=
      List.map_congr_left fun target member => (keys target member).1
    rw [List.map_map, same]
    exact normal.valid.distinct
  · exact List.forall_mem_map.mpr fun target member => (images target member).2.2
  · refine List.pairwise_map.mpr (normal.sorted.imp_of_mem fun {first second} hfirst hsecond => ?_)
    rw [targetOrder_iff, targetOrder_iff, (keys first hfirst).2, (keys second hsecond).2]
    exact id

end OutboxFormal
