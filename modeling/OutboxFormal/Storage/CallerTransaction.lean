import OutboxFormal.Storage.Staging

/-!
# Unique batches inside a caller's transaction

`PutVersionedUniqueBatch` and the `CreateJobVersionedUniqueBatch` it calls.
With a transaction already attached to the context the repository's own
`RunInTx` finalizes nothing, so what a failed batch wrote before its failure
stays visible to the rest of that transaction.
-/

namespace OutboxFormal.Storage

open Library

/-! ## The service's batch put -/

def serviceTexts : UniqueBatchTexts where
  emptyKey index := s!"outbox unique batch item {index} has an empty deduplication key"
  duplicateKey index key :=
    s!"outbox unique batch item {index} duplicates deduplication key " ++ "\"" ++
      printed key ++ "\""
  capability index := s!"outbox unique batch item {index}"

/-- The checks the service makes before it calls the repository. -/
def validateServiceBatch (items : List UniqueBatchPut) : Except OutboxError Unit :=
  if items.length = 0 then .error (.text "outbox unique batch is empty")
  else if maxReservationBatchSize < items.length then
    .error (.text ("outbox unique batch contains " ++ toString items.length ++
      " items; maximum is " ++ toString maxReservationBatchSize))
  else validateUniqueBatchFrom serviceTexts 0 [] items

def checkBatchResults (items : List UniqueBatchPut) (results : List UniquePutResult) :
    Except OutboxError (List UniquePutResult) :=
  if results.length ≠ items.length then
    .error (.text ("unique batch repository returned " ++ toString results.length ++
      " results for " ++ toString items.length ++ " items"))
  else
    match results.findIdx? fun result => result.jobID.isZero with
    | some index =>
      .error (.text s!"unique batch repository returned an empty JobID at index {index}")
    | none => .ok results

/-- `PutVersionedUniqueBatch`; `create` is the configured repository, if any. -/
def putVersionedUniqueBatch (create : Option (DatabaseCall (List UniquePutResult)))
    (items : List UniqueBatchPut) : DatabaseCall (List UniquePutResult) := fun database =>
  match create with
  | none => (.error (.leaf .errUniqueRepositoryNotConfigured), database)
  | some create =>
    checkedCall (validateServiceBatch items) (fun before =>
      match create before with
      | (.error error, after) =>
        (.error (errorContext "create unique versioned job batch" error), after)
      | (.ok results, after) => (checkBatchResults items results, after)) database

theorem validateServiceBatch_eq_ok_iff {items : List UniqueBatchPut} :
    validateServiceBatch items = .ok () ↔ ValidBatch items := by
  unfold validateServiceBatch ValidBatch ValidPut
  split
  · rename_i hempty
    simp [hempty]
  split
  · rename_i hcount
    simp only [reduceCtorEq, false_iff]
    rintro ⟨⟨_, _⟩, _⟩
    omega
  · rw [validateUniqueBatchFrom_eq_ok_iff]
    simp only [List.not_mem_nil, not_false_eq_true, true_and]
    exact ⟨fun accepted => ⟨by omega, accepted⟩, fun accepted => accepted.2⟩

/-! ## What a failed batch leaves -/

/-- A call that fails with a conflict, or whose items are not valid, leaves both
tables of the transaction as they were. -/
def StagesNothing (puts : List UniqueBatchPut) (call : DatabaseCall (List UniquePutResult))
    (database : Database) : Prop :=
  ∀ error, (call database).1 = .error error →
    error.is .errIdempotencyConflict = true ∨ ¬ ValidBatch puts →
    (call database).2.jobs = database.jobs ∧ (call database).2.keys = database.keys

/-- The inputs on which a failed batch leaves nothing: the repository owns the
transaction, or no item is both new and staged before a conflict is noticed. The
last case is a new key that an active job already carries: the single statement
of PostgreSQL then fails as a whole. -/
def LeavesNothing (backend : Backend) (attached : Bool) (puts : List UniqueBatchPut)
    (prepared : List PreparedUniqueBatchPut) (database : Database) : Prop :=
  attached = false ∨ ¬ ValidBatch puts ∨ ¬ Conflicts database.keys prepared ∨
    newItems database.keys prepared = [] ∨
    backend = .pgsql ∧ ∃ item ∈ newItems database.keys prepared,
      activeKey database.jobs item.put.deduplicationKey = true

section Attached

variable {backend : Backend} {view : View} {digest : Digest}
variable {items : List (UniqueBatchPut × JobID)} {createdAt : Int} {database : Database}

theorem Backend.createJobVersionedUniqueBatch_invalid
    (invalid : ¬ ValidBatch (items.map Prod.fst)) :
    (backend.createJobVersionedUniqueBatch view digest items createdAt database).2 = database := by
  rw [Backend.createJobVersionedUniqueBatch_eq]
  rcases checkedCall_cases (validateUniqueBatch backend.validationContext (items.map Prod.fst)) _
    database with same | ⟨accepted, _⟩
  · exact same
  · exact absurd (validateUniqueBatch_eq_ok_iff.mp accepted) invalid

theorem Backend.createJobVersionedUniqueBatch_owned (owned : view.attached = false)
    {error : OutboxError}
    (failed : (backend.createJobVersionedUniqueBatch view digest items createdAt database).1 =
      .error error) :
    (backend.createJobVersionedUniqueBatch view digest items createdAt database).2 = database := by
  rw [Backend.createJobVersionedUniqueBatch_eq] at failed ⊢
  rcases checkedCall_cases (validateUniqueBatch backend.validationContext (items.map Prod.fst)) _
    database with same | ⟨_, same⟩
  · exact same
  · rw [same, owned, Manager.runReturning_outermost] at failed ⊢
    rcases hcallback : backend.stageUniqueBatch (prepareUniqueBatchPuts digest items createdAt)
      database with ⟨answer, after⟩
    rw [hcallback] at failed
    cases answer with
    | ok results => cases failed
    | error inner => rfl

/-- A valid batch in the caller's transaction keeps what its callback wrote. -/
theorem Backend.createJobVersionedUniqueBatch_attached (attached : view.attached = true)
    (valid : ValidBatch (items.map Prod.fst))
    {answer : Except OutboxError (List UniquePutResult)} {after : Database}
    (callback : backend.stageUniqueBatch (prepareUniqueBatchPuts digest items createdAt) database =
      (answer, after)) :
    backend.createJobVersionedUniqueBatch view digest items createdAt database =
      (answer.mapError (errorContext backend.uniqueBatchContext), after) := by
  simp only [Backend.createJobVersionedUniqueBatch_eq, checkedCall,
    validateUniqueBatch_eq_ok_iff.mpr valid, attached, Manager.runReturning_attached, callback]
  cases answer <;> rfl

theorem RegisteredWith.ne {stored : Int → Int} {prepared : List PreparedUniqueBatchPut}
    {keys registered : IdempotencyTable}
    (registration : RegisteredWith stored prepared keys registered)
    (new : newItems keys prepared ≠ []) : registered ≠ keys := by
  intro same
  have lengths := congrArg List.length registration
  rw [same, List.length_append, List.length_map] at lengths
  have positive := List.length_pos_iff.mpr new
  omega

theorem RegisteredWith.eq {stored : Int → Int} {prepared : List PreparedUniqueBatchPut}
    {keys registered : IdempotencyTable}
    (registration : RegisteredWith stored prepared keys registered)
    (nothing : newItems keys prepared = []) : registered = keys := by
  apply Table.ext
  rw [registration, nothing]
  simp

/-- The repository's batch put leaves nothing behind exactly on these inputs. -/
theorem Backend.stagesNothing_iff (fresh : FreshIDs (items.map Prod.snd) database) :
    StagesNothing (items.map Prod.fst)
        (backend.createJobVersionedUniqueBatch view digest items createdAt) database ↔
      LeavesNothing backend view.attached (items.map Prod.fst)
        (prepareUniqueBatchPuts digest items createdAt) database := by
  by_cases hattached : view.attached = false
  · refine iff_of_true (fun error failed _ => ?_) (Or.inl hattached)
    rw [backend.createJobVersionedUniqueBatch_owned hattached failed]
    exact ⟨rfl, rfl⟩
  by_cases hvalid : ValidBatch (items.map Prod.fst)
  swap
  · refine iff_of_true (fun error _ _ => ?_) (Or.inr (Or.inl hvalid))
    rw [backend.createJobVersionedUniqueBatch_invalid hvalid]
    exact ⟨rfl, rfl⟩
  have attached : view.attached = true := by simpa using hattached
  have prepared : Fresh (prepareUniqueBatchPuts digest items createdAt) database :=
    fresh.prepared hvalid.2.2
  constructor
  · -- A conflict met after new keys were registered leaves those keys.
    intro nothing
    by_contra hleaves
    simp only [LeavesNothing, not_or, not_and, not_exists, not_not] at hleaves
    obtain ⟨_, _, disagree, new, unused⟩ := hleaves
    have outcome := backend.stageUniqueBatch_outcome prepared fun hcase item hitem => by
      rcases hcase with hpgsql | agree
      · simpa using unused hpgsql item hitem
      · exact absurd disagree agree
    generalize hcall : backend.stageUniqueBatch (prepareUniqueBatchPuts digest items createdAt)
      database = staged at outcome
    cases outcome with
    | staged agree => exact agree disagree
    | conflict _ registration =>
      have answer := backend.createJobVersionedUniqueBatch_attached attached hvalid hcall
      have kept := nothing _ (congrArg Prod.fst answer) (Or.inl rfl)
      rw [answer] at kept
      exact registration.ne new kept.2
  · intro leaves error failed hkind
    rcases hcallback : backend.stageUniqueBatch (prepareUniqueBatchPuts digest items createdAt)
      database with ⟨answer, after⟩
    have call := backend.createJobVersionedUniqueBatch_attached attached hvalid hcallback
    rw [call] at failed ⊢
    cases answer with
    | ok results => cases failed
    | error inner =>
      cases failed
      have found := hkind.resolve_right (not_not.mpr hvalid)
      obtain ⟨disagree, unused⟩ := backend.stageUniqueBatch_conflicts prepared hcallback found
      have empty : newItems database.keys (prepareUniqueBatchPuts digest items createdAt) = [] := by
        rcases leaves with owned | invalid | agree | empty | ⟨hpgsql, item, hitem, active⟩
        · exact absurd owned hattached
        · exact absurd hvalid invalid
        · exact absurd disagree agree
        · exact empty
        · rw [unused hpgsql item hitem] at active
          cases active
      have outcome := backend.stageUniqueBatch_outcome prepared fun _ item hitem => by
        rw [empty] at hitem
        cases hitem
      rw [hcallback] at outcome
      cases outcome with
      | conflict _ registration sublist rows =>
        rw [empty] at sublist
        rw [List.sublist_nil.mp sublist, List.map_nil, List.append_nil] at rows
        exact ⟨Table.ext rows, registration.eq empty⟩

/-- The service adds its checks in front and keeps what the repository did. -/
theorem putVersionedUniqueBatch_stagesNothing_iff :
    StagesNothing (items.map Prod.fst)
        (putVersionedUniqueBatch
          (some (backend.createJobVersionedUniqueBatch view digest items createdAt))
          (items.map Prod.fst)) database ↔
      StagesNothing (items.map Prod.fst)
        (backend.createJobVersionedUniqueBatch view digest items createdAt) database := by
  by_cases hvalid : ValidBatch (items.map Prod.fst)
  swap
  · refine iff_of_true (fun error _ _ => ?_) (fun error _ _ => ?_)
    · cases hcheck : validateServiceBatch (items.map Prod.fst) with
      | error refused => simp [putVersionedUniqueBatch, checkedCall, hcheck]
      | ok _ => exact absurd (validateServiceBatch_eq_ok_iff.mp hcheck) hvalid
    · rw [backend.createJobVersionedUniqueBatch_invalid hvalid]
      exact ⟨rfl, rfl⟩
  unfold StagesNothing
  simp only [putVersionedUniqueBatch, checkedCall, validateServiceBatch_eq_ok_iff.mpr hvalid,
    not_not.mpr hvalid, or_false]
  rcases hcall : backend.createJobVersionedUniqueBatch view digest items createdAt database with
    ⟨answer, after⟩
  cases answer with
  | error inner =>
    constructor
    · intro service error failed found
      cases failed
      exact service _ rfl found
    · intro repository error failed found
      cases failed
      exact repository inner rfl found
  | ok results =>
    refine iff_of_true (fun error failed found => ?_) (fun error failed _ => by cases failed)
    -- The checks of the results report texts, never a conflict.
    exfalso
    simp only [checkBatchResults] at failed
    split at failed
    · cases failed
      cases found
    · split at failed
      · cases failed
        cases found
      · cases failed

end Attached

/-- A batch put that reports a conflict or is not valid leaves both tables of
the transaction as they were exactly when `LeavesNothing` holds of its inputs,
for the repositories and for the service over them. -/
theorem failed_unique_batch_stages_nothing_iff (backend : Backend) (view : View)
    (digest : Digest) (items : List (UniqueBatchPut × JobID)) (createdAt : Int)
    (database : Database) (fresh : FreshIDs (items.map Prod.snd) database) :
    (StagesNothing (items.map Prod.fst)
        (backend.createJobVersionedUniqueBatch view digest items createdAt) database ↔
      LeavesNothing backend view.attached (items.map Prod.fst)
        (prepareUniqueBatchPuts digest items createdAt) database) ∧
    (StagesNothing (items.map Prod.fst)
        (putVersionedUniqueBatch
          (some (backend.createJobVersionedUniqueBatch view digest items createdAt))
          (items.map Prod.fst)) database ↔
      LeavesNothing backend view.attached (items.map Prod.fst)
        (prepareUniqueBatchPuts digest items createdAt) database) := by
  refine ⟨backend.stagesNothing_iff fresh, ?_⟩
  rw [putVersionedUniqueBatch_stagesNothing_iff]
  exact backend.stagesNothing_iff fresh

/-! ## A batch that fails half way -/

/-- A digest without collisions that can be evaluated. -/
def transparentDigest : Digest where
  rfc3339Nano time := bytes (toString time)
  sha256Hex value := value

/-- A call inside a caller's transaction that nothing else interferes with. -/
def callersView : View where
  attached := true
  lockedJobs _ := false
  lockedKeys _ := false
  collation := bytesLe
  snapshots := []

/-- The database after one put of the key `a`. -/
def stagedOnce (backend : Backend) : Database :=
  (repository backend transparentDigest).final .empty
    [.createJobVersionedUniqueResult callersView ⟨bytes "a", ⟨bytes "job", 1, bytes "1", 0⟩⟩ ⟨1⟩ 0]

/-- A put of other content under `a`, together with the new key `b`. -/
def conflictingItems : List (UniqueBatchPut × JobID) :=
  [(⟨bytes "b", ⟨bytes "job", 1, bytes "2", 0⟩⟩, ⟨2⟩),
   (⟨bytes "a", ⟨bytes "job", 1, bytes "3", 0⟩⟩, ⟨3⟩)]

theorem stagedOnce_fresh (backend : Backend) :
    FreshIDs (conflictingItems.map Prod.snd) (stagedOnce backend) := by
  cases backend <;>
    exact { nodup := by decide, unregistered := by decide, inactive := by decide }

theorem failed_unique_batch_conflictingItems :
    FreshIDs (conflictingItems.map Prod.snd) (stagedOnce .sqlite) ∧
    (StagesNothing (conflictingItems.map Prod.fst)
        (Backend.sqlite.createJobVersionedUniqueBatch callersView transparentDigest
          conflictingItems 0) (stagedOnce .sqlite) ↔
      LeavesNothing .sqlite true (conflictingItems.map Prod.fst)
        (prepareUniqueBatchPuts transparentDigest conflictingItems 0) (stagedOnce .sqlite)) :=
  ⟨stagedOnce_fresh .sqlite, (failed_unique_batch_stages_nothing_iff .sqlite callersView
    transparentDigest conflictingItems 0 (stagedOnce .sqlite) (stagedOnce_fresh .sqlite)).1⟩

/-- The key `b` after a batch put and whether a job carries it. -/
def leftover (backend : Backend) : Option OutboxError × Bool × Bool :=
  let result := putVersionedUniqueBatch
    (some (backend.createJobVersionedUniqueBatch callersView transparentDigest conflictingItems 0))
    (conflictingItems.map Prod.fst) (stagedOnce backend)
  (match result.1 with
    | .error error => some error
    | .ok _ => none,
    (result.2.keys.get? (bytes "b")).isSome, activeKey result.2.jobs (bytes "b"))

/-- In every backend the batch fails with a conflict and leaves the key `b`
registered: without a job in MySQL and SQLite, with one in PostgreSQL. -/
theorem attached_unique_batch_leaves_key :
    (leftover .sqlite).2 = (true, false) ∧ (leftover .mysql).2 = (true, false) ∧
      (leftover .pgsql).2 = (true, true) ∧
      ∀ backend ∈ [Backend.sqlite, .mysql, .pgsql],
        ((leftover backend).1.any (GoError.is .errIdempotencyConflict)) = true ∧
        ((stagedOnce backend).keys.get? (bytes "b")).isSome = false := by
  decide

end OutboxFormal.Storage
