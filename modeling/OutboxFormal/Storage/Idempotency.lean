import OutboxFormal.Storage.CallerTransaction

/-!
# The registry invariant over histories

A history of repository calls in which the unique puts own their transactions
and every generated identifier is new. The registry then remembers, for every
key, the one job that was inserted for it and the fingerprint of the content it
was put with; every active job with a key agrees with the registry.
-/

namespace OutboxFormal.Storage

open Library

variable {trace : List CallStep} {call : Call} {database after : Database} {stored : Int → Int}
variable {digest : Digest}

variable {key : Bytes} {answer : Answer} {id : JobID} {row : IdempotencyKey}

/-! ## Histories -/

def Call.puts : Call → List (UniqueBatchPut × JobID)
  | .createJobVersionedUniqueResult _ put id _ => [(put, id)]
  | .createJobVersionedUniqueBatch _ items _ => items
  | _ => []

def Call.newIDs : Call → List JobID
  | .createJobVersioned id _ _ => [id]
  | call => call.puts.map Prod.snd

/-- A unique put is an outermost transaction. -/
def Call.outermost : Call → Bool
  | .createJobVersionedUniqueResult view _ _ _ => !view.attached
  | .createJobVersionedUniqueBatch view _ _ => !view.attached
  | _ => true

/-- Generated identifiers are new, and unique puts own their transactions. -/
structure Admissible (history : List Call) : Prop where
  fresh : (history.flatMap Call.newIDs).Nodup
  outermost : ∀ call ∈ history, call.outermost = true

/-- No two contents put in a history share a fingerprint. -/
def NoCollision (digest : Digest) (history : List Call) : Prop :=
  ∀ first ∈ history.flatMap Call.puts, ∀ second ∈ history.flatMap Call.puts,
    jobFingerprint digest first.1.content = jobFingerprint digest second.1.content →
    first.1.content = second.1.content

theorem Admissible.earlier {earlier later : List Call}
    (admissible : Admissible (earlier ++ later)) : Admissible earlier where
  fresh := by
    have nodup := admissible.fresh
    rw [List.flatMap_append] at nodup
    exact (List.nodup_append.mp nodup).1
  outermost call member := admissible.outermost call (List.mem_append_left later member)

theorem Call.puts_ids {put : UniqueBatchPut} (member : (put, id) ∈ call.puts) :
    id ∈ call.newIDs := by
  cases call with
  | createJobVersionedUniqueResult | createJobVersionedUniqueBatch =>
    exact List.mem_map.mpr ⟨(put, id), member, rfl⟩
  | _ => cases member

/-! ## Jobs inserted for a key -/

def CallStep.insertedFor (key : Bytes) (step : CallStep) : List JobID :=
  (step.after.jobs.rows.filter fun job =>
    decide (job.deduplicationKey = some key) && (step.before.jobs.get? job.id).isNone).map Job.id

def insertedSince (key : Bytes) (trace : List CallStep) : List JobID :=
  trace.foldl (fun inserted step =>
    if (step.before.keys.get? key).isNone then step.insertedFor key
    else inserted ++ step.insertedFor key) []

theorem insertedSince_append (key : Bytes) (trace : List CallStep) (step : CallStep) :
    insertedSince key (trace ++ [step]) =
      if (step.before.keys.get? key).isNone then step.insertedFor key
      else insertedSince key trace ++ step.insertedFor key := by
  simp only [insertedSince, List.foldl_append, List.foldl_cons, List.foldl_nil]

/-! ## What a call can do to the registry -/

def SameContent (first second : Job) : Prop :=
  first.id = second.id ∧ first.deduplicationKey = second.deduplicationKey ∧
    first.name = second.name ∧ first.schemaVersion = second.schemaVersion ∧
    first.payload = second.payload

theorem RowStep.sameContent {event : RowEvent} {before : Option Job} {job : Job}
    (step : RowStep stored event before (some job)) :
    event = .inserted job ∨ ∃ old, before = some old ∧ SameContent old job := by
  generalize hafter : some job = after at step
  cases step with
  | kept row => exact Or.inr ⟨job, hafter.symm, rfl, rfl, rfl, rfl, rfl⟩
  | inserted isNew =>
    cases hafter
    exact Or.inl rfl
  | claimed | extended | released | rescheduled | deferred =>
    cases hafter
    exact Or.inr ⟨_, rfl, rfl, rfl, rfl, rfl, rfl⟩
  | deleted => cases hafter

def Call.prepared (digest : Digest) : Call → List PreparedUniqueBatchPut
  | .createJobVersionedUniqueResult _ put id createdAt =>
    prepareUniqueBatchPuts digest [(put, id)] createdAt
  | .createJobVersionedUniqueBatch _ items createdAt =>
    prepareUniqueBatchPuts digest items createdAt
  | _ => []

def Call.prunes : Call → Bool
  | .pruneJobIdempotencyKeys .. => true
  | _ => false

/-- The three ways a call can move the jobs and the registry. -/
inductive RegistryStep (stored : Int → Int) (digest : Digest) (call : Call)
    (before after : Database) : Prop where
  | rows (keys : after.keys = before.keys)
      (jobs : ∀ job ∈ after.jobs.rows, (∃ old ∈ before.jobs.rows, SameContent old job) ∨
        job.deduplicationKey = none ∧ job.id ∈ call.newIDs)
  | staged (items : List PreparedUniqueBatchPut)
      (within : items.Sublist (call.prepared digest))
      (distinct : (items.map fun item => item.put.deduplicationKey).Nodup)
      (new : ∀ item ∈ items, before.keys.get? item.put.deduplicationKey = none)
      (rows : Staged stored items before after)
  | pruned (prunes : call.prunes = true) (jobs : after.jobs = before.jobs)
      (selected : IdempotencyKey → Bool) (keys : after.keys = before.keys.delete selected)
      (inactive : ∀ row ∈ before.keys.rows, selected row = true →
        activeKey before.jobs row.deduplicationKey = false)

section Steps

variable (backend : Backend) (digest : Digest)

theorem Backend.createFailedJobVersioned_keys (id jobID : JobID) (name : Bytes)
    (schemaVersion : Int) (payload : Bytes) (reason : String) (failedAt createdAt : Int)
    (database : Database) :
    (backend.createFailedJobVersioned id jobID name schemaVersion payload reason failedAt
      createdAt database).2.keys = database.keys := by
  have insertion : ∀ (refused : OutboxError) (stored : Int → Int) (createdAt : Int),
      (Storage.createFailedJobVersioned refused stored id jobID name schemaVersion payload
        reason failedAt createdAt database).2.keys = database.keys := by
    intro refused stored createdAt
    rcases checkedCall_cases _ _ database with same | ⟨_, same⟩
    · exact congrArg Database.keys same
    · unfold Storage.createFailedJobVersioned
      rw [same]
      split <;> rfl
  cases backend <;> exact insertion _ _ _

/-- A call whose events insert nothing keeps the content of every row. -/
theorem RegistryStep.of_events (keys : (call.run backend digest database).2.keys = database.keys)
    (events : ∀ id job, call.events backend.stored digest (call.run backend digest database).1 id
      (.inserted job) → job.deduplicationKey = none ∧ job.id ∈ call.newIDs) :
    RegistryStep backend.stored digest call database (call.run backend digest database).2 := by
  refine .rows keys fun job hjob => ?_
  obtain ⟨event, hevent, hstep⟩ := call.run_row backend digest database job.id
  rw [Table.get?_eq_some_iff.mpr ⟨hjob, rfl⟩] at hstep
  rcases hstep.sameContent with rfl | ⟨old, hold, same⟩
  · exact Or.inr (events job.id job hevent)
  · exact Or.inl ⟨old, (Table.get?_eq_some_iff.mp hold).1, same⟩

theorem RegistryStep.unchanged {before : Database} (same : after = before) :
    RegistryStep backend.stored digest call before after := by
  subst same
  exact .rows rfl fun job hjob => Or.inl ⟨job, hjob, rfl, rfl, rfl, rfl, rfl⟩

theorem PutOutcome.registryStep {call : Call} {before after : Database}
    {answer : Except OutboxError (List UniquePutResult)}
    (outcome : PutOutcome backend.stored (call.prepared digest) before answer after)
    (distinct : ((call.prepared digest).map fun item => item.put.deduplicationKey).Nodup) :
    RegistryStep backend.stored digest call before after := by
  cases outcome with
  | staged agree rows =>
    refine .staged _ (newItems_sublist _ _) ?_ ?_ rows
    · exact ((newItems_sublist _ _).map _).nodup distinct
    · exact fun item hitem => (mem_newItems.mp hitem).2
  | conflict => exact .unchanged backend digest rfl

theorem pruneCandidates_inactive {collation : Bytes → Bytes → Bool} {locked : Bytes → Bool}
    {before : Int} {limit : Nat}
    (member : key ∈ pruneCandidates collation locked before limit database) :
    activeKey database.jobs key = false := by
  obtain ⟨row, hrow, rfl⟩ := List.mem_map.mp member
  have selected := (List.mem_insertionSort _).mp (List.mem_of_mem_take hrow)
  have clauses := (List.mem_filter.mp selected).2
  simp only [Bool.and_eq_true, Bool.not_eq_true'] at clauses
  exact clauses.1.2

def keyIn (candidates : List Bytes) (row : IdempotencyKey) : Bool :=
  decide (row.deduplicationKey ∈ candidates)

/-- A prune is refused without effect, or deletes its candidates and counts them. -/
theorem Backend.pruneJobIdempotencyKeys_cases (view : View) (before limit : Int)
    (database : Database) :
    ((backend.pruneJobIdempotencyKeys view before limit database).2 = database) ∨
    ∃ candidates : List Bytes, candidates.length ≤ limit.toNat ∧
      (∀ key ∈ candidates, activeKey database.jobs key = false) ∧
      backend.pruneJobIdempotencyKeys view before limit database =
        (.ok (database.keys.matching (keyIn candidates)).length,
          { database with keys := database.keys.delete (keyIn candidates) }) := by
  have pruning : ∀ (context : String) (stored : Int → Int) (collation : Bytes → Bytes → Bool)
      (locked : Bytes → Bool),
      let call := Storage.pruneJobIdempotencyKeys context stored collation locked before limit
      (call database).2 = database ∨
      ∃ candidates : List Bytes, candidates.length ≤ limit.toNat ∧
        (∀ key ∈ candidates, activeKey database.jobs key = false) ∧
        call database =
          (.ok (database.keys.matching (keyIn candidates)).length,
            { database with keys := database.keys.delete (keyIn candidates) }) := by
    intro context stored collation locked call
    simp only [call, Storage.pruneJobIdempotencyKeys]
    split
    · exact Or.inl rfl
    · refine Or.inr ⟨pruneCandidates collation locked (stored before) limit.toNat database,
        ?_, fun key hkey => pruneCandidates_inactive hkey, rfl⟩
      rw [pruneCandidates, List.length_map, List.length_take]
      exact Nat.min_le_left _ _
  cases backend <;> exact pruning _ _ _ _

theorem Backend.createJobVersionedUniqueResult_invalid {view : View} {put : UniqueBatchPut}
    {id : JobID} {createdAt : Int} {database : Database} (invalid : ¬ ValidPut put) :
    (∃ error, (backend.createJobVersionedUniqueResult view digest put id createdAt database).1 =
      .error error) ∧
    (backend.createJobVersionedUniqueResult view digest put id createdAt database).2 =
      database := by
  have refused : ∀ (context : String) (call : DatabaseCall UniquePutResult),
      (∃ error, (checkedCall (validateUniquePut context put) call database).1 = .error error) ∧
      (checkedCall (validateUniquePut context put) call database).2 = database := by
    intro context call
    cases hcheck : validateUniquePut context put with
    | error error => exact ⟨⟨error, rfl⟩, rfl⟩
    | ok _ => exact absurd (validateUniquePut_eq_ok_iff.mp hcheck) invalid
  cases backend <;> exact refused _ _

theorem Call.registryStep {call : Call} {database : Database}
    (fresh : FreshIDs call.newIDs database) (outermost : call.outermost = true)
    (covered : Covered database) :
    RegistryStep backend.stored digest call database (call.run backend digest database).2 := by
  cases call with
  | createJobVersioned id createdAt content =>
    refine .of_events backend digest rfl fun wanted job hevent => ?_
    obtain ⟨row, ⟨hrow, _⟩, ⟨⟩⟩ := hevent.resolve_left RowEvent.noConfusion
    rw [List.mem_singleton.mp hrow]
    exact ⟨rfl, List.mem_singleton_self id⟩
  | createJobVersionedUniqueResult view put id createdAt =>
    by_cases hvalid : ValidPut put
    · have prepared : Fresh (prepareUniqueBatchPuts digest [(put, id)] createdAt) database :=
        FreshIDs.prepared fresh (List.nodup_singleton _)
      have outcome := backend.createJobVersionedUniqueResult_outcome view digest hvalid prepared
        covered
      exact @PutOutcome.registryStep backend digest
        (.createJobVersionedUniqueResult view put id createdAt) _ _ _ outcome prepared.keys
    · exact .unchanged backend digest
        (backend.createJobVersionedUniqueResult_invalid digest hvalid).2
  | createJobVersionedUniqueBatch view items createdAt =>
    by_cases hvalid : ValidBatch (items.map Prod.fst)
    · have prepared : Fresh (prepareUniqueBatchPuts digest items createdAt) database :=
        FreshIDs.prepared fresh hvalid.2.2
      have owned : view.attached = false := by simpa [Call.outermost] using outermost
      have outcome := backend.createJobVersionedUniqueBatch_outcome view digest owned hvalid
        prepared covered
      exact @PutOutcome.registryStep backend digest
        (.createJobVersionedUniqueBatch view items createdAt) _ _ _ outcome prepared.keys
    · exact .unchanged backend digest (backend.createJobVersionedUniqueBatch_invalid hvalid)
  | findAndReserveJobsForCapabilities | findAndReserveJobsForCapabilityBounded =>
    refine .of_events backend digest rfl fun wanted job hevent => ?_
    rcases hevent with ⟨_, _⟩ | ⟨_, _⟩ <;> contradiction
  | extendJobLeases | releaseUnstartedJobsWithLease | deleteJobWithLease
  | rescheduleJobWithLease =>
    refine .of_events backend digest rfl fun wanted job hevent => ?_
    rcases hevent with _ | ⟨_, _⟩ <;> contradiction
  | applyBatchJobOutcomes | deferJobWithLease =>
    refine .of_events backend digest rfl fun wanted job hevent => ?_
    rcases hevent with _ | ⟨_, _, _, _, ⟨_, _⟩ | ⟨_, _⟩ | ⟨_, _⟩⟩ <;> contradiction
  | createFailedJobVersioned id jobID name schemaVersion payload reason failedAt createdAt =>
    refine .of_events backend digest
      (backend.createFailedJobVersioned_keys id jobID name schemaVersion payload reason failedAt
        createdAt database) fun _ _ hevent => RowEvent.noConfusion hevent
  | pruneJobIdempotencyKeys view before limit =>
    rcases backend.pruneJobIdempotencyKeys_cases view before limit database with
      same | ⟨candidates, _, inactive, hcall⟩
    · exact .unchanged backend digest same
    · have after : (Call.run backend digest (.pruneJobIdempotencyKeys view before limit)
          database).2 = { database with keys := database.keys.delete (keyIn candidates) } :=
        congrArg Prod.snd hcall
      rw [after]
      exact .pruned rfl rfl _ rfl fun row _ hselected =>
        inactive _ (of_decide_eq_true hselected)

end Steps

/-! ## The invariant -/

def putsOf (trace : List CallStep) : List (UniqueBatchPut × JobID) :=
  (trace.map Transition.input).flatMap Call.puts

def idsOf (trace : List CallStep) : List JobID :=
  (trace.map Transition.input).flatMap Call.newIDs

def Carries (job : Job) (content : Content) : Prop :=
  job.name = content.name ∧ job.schemaVersion = content.schemaVersion ∧
    job.payload = content.payload

/-- A registry row survives every call of a trace but a prune. -/
def Stable (trace : List CallStep) : Prop :=
  ∀ step ∈ trace, ∀ key row, step.before.keys.get? key = some row →
    step.after.keys.get? key = some row ∨
      step.input.prunes = true ∧ step.after.keys.get? key = none

structure RegistryInvariant (digest : Digest) (database : Database) (trace : List CallStep) :
    Prop where
  active : ∀ job ∈ database.jobs.rows, ∀ key, job.deduplicationKey = some key →
    ∃ row content, database.keys.get? key = some row ∧ row.jobID = job.id ∧
      (⟨key, content⟩, job.id) ∈ putsOf trace ∧
      row.fingerprint = jobFingerprint digest content ∧ Carries job content
  sourced : ∀ key row, database.keys.get? key = some row →
    ∃ content, (⟨key, content⟩, row.jobID) ∈ putsOf trace ∧
      row.fingerprint = jobFingerprint digest content
  once : ∀ key row, database.keys.get? key = some row → insertedSince key trace = [row.jobID]
  used : ∀ job ∈ database.jobs.rows, job.id ∈ idsOf trace
  stable : Stable trace

theorem putsOf_append (trace : List CallStep) (step : CallStep) :
    putsOf (trace ++ [step]) = putsOf trace ++ step.input.puts := by
  simp [putsOf]

theorem idsOf_append (trace : List CallStep) (step : CallStep) :
    idsOf (trace ++ [step]) = idsOf trace ++ step.input.newIDs := by
  simp [idsOf]

theorem mem_putsOf_append {put : UniqueBatchPut × JobID} (step : CallStep)
    (member : put ∈ putsOf trace) : put ∈ putsOf (trace ++ [step]) := by
  rw [putsOf_append]
  exact List.mem_append_left _ member

theorem mem_idsOf_append (step : CallStep) (member : id ∈ idsOf trace) :
    id ∈ idsOf (trace ++ [step]) := by
  rw [idsOf_append]
  exact List.mem_append_left _ member

theorem Stable.append {step : CallStep} (stable : Stable trace)
    (last : ∀ key row, step.before.keys.get? key = some row →
      step.after.keys.get? key = some row ∨
        step.input.prunes = true ∧ step.after.keys.get? key = none) :
    Stable (trace ++ [step]) := by
  intro other hother
  rcases List.mem_append.mp hother with hother | hother
  · exact stable other hother
  · rw [List.mem_singleton.mp hother]
    exact last

theorem putsOf_ids {put : UniqueBatchPut} (member : (put, id) ∈ putsOf trace) :
    id ∈ idsOf trace := by
  obtain ⟨call, hcall, hput⟩ := List.mem_flatMap.mp member
  exact List.mem_flatMap.mpr ⟨call, hcall, Call.puts_ids hput⟩

theorem Call.mem_prepared {item : PreparedUniqueBatchPut} (member : item ∈ call.prepared digest) :
    (item.put, item.jobID) ∈ call.puts ∧
      item.fingerprint = jobFingerprint digest item.put.content := by
  cases call with
  | createJobVersionedUniqueResult | createJobVersionedUniqueBatch =>
    obtain ⟨pair, hpair, rfl⟩ := List.mem_map.mp member
    exact ⟨hpair, rfl⟩
  | _ => cases member

theorem RegistryInvariant.covered (invariant : RegistryInvariant digest database trace) :
    Covered database := by
  intro job hjob key hkey
  obtain ⟨row, _, hrow, _⟩ := invariant.active job hjob key hkey
  rw [hrow]
  rfl

/-- The identifiers of an admissible next call occur nowhere yet. -/
theorem RegistryInvariant.freshIDs (invariant : RegistryInvariant digest database trace)
    (admissible : Admissible (trace.map Transition.input ++ [call])) :
    FreshIDs call.newIDs database := by
  have nodup := admissible.fresh
  rw [List.flatMap_append, List.nodup_append, List.flatMap_singleton] at nodup
  obtain ⟨_, ids, disjoint⟩ := nodup
  refine { nodup := ids, unregistered := ?_, inactive := ?_ }
  · intro id hid row hrow same
    obtain ⟨content, hput, _⟩ :=
      invariant.sourced _ row (Table.get?_eq_some_iff.mpr ⟨hrow, rfl⟩)
    exact disjoint _ (putsOf_ids hput) id hid same
  · intro id hid job hjob same
    exact disjoint _ (invariant.used job hjob) id hid same

section Preservation

variable {stored : Int → Int} {digest : Digest} {trace : List CallStep}
variable {before after : Database} {call : Call} {items : List PreparedUniqueBatchPut}

theorem Staged.get?_cases (staged : Staged stored items before after)
    (found : after.keys.get? key = some row) :
    before.keys.get? key = some row ∨
      ∃ item ∈ items, item.put.deduplicationKey = key ∧ row = item.keyRow stored := by
  obtain ⟨hrow, hkey⟩ := Table.get?_eq_some_iff.mp found
  rw [staged.keys, List.mem_append, List.mem_map] at hrow
  rcases hrow with hrow | ⟨item, hitem, rfl⟩
  · exact Or.inl (Table.get?_eq_some_iff.mpr ⟨hrow, hkey⟩)
  · exact Or.inr ⟨item, hitem, hkey, rfl⟩

theorem Staged.get?_kept (staged : Staged stored items before after)
    (found : before.keys.get? key = some row) :
    after.keys.get? key = some row := by
  obtain ⟨hrow, hkey⟩ := Table.get?_eq_some_iff.mp found
  exact Table.get?_eq_some_iff.mpr ⟨staged.keys ▸ List.mem_append_left _ hrow, hkey⟩

theorem insertedFor_eq_nil (old : ∀ job ∈ after.jobs.rows, job.deduplicationKey = some key →
      (before.jobs.get? job.id).isSome = true) :
    CallStep.insertedFor key ⟨before, call, answer, after⟩ = [] := by
  rw [CallStep.insertedFor, List.map_eq_nil_iff, List.filter_eq_nil_iff]
  intro job hjob selected
  simp only [Bool.and_eq_true, decide_eq_true_eq] at selected
  have present := old job hjob selected.1
  rw [Option.isNone_iff_eq_none.mp selected.2] at present
  cases present

theorem Staged.insertedFor_eq (staged : Staged stored items before after)
    {item : PreparedUniqueBatchPut} (member : item ∈ items)
    (distinct : (items.map fun other => other.put.deduplicationKey).Nodup)
    (inactive : ∀ job ∈ before.jobs.rows, job.id ≠ item.jobID) :
    CallStep.insertedFor item.put.deduplicationKey ⟨before, call, answer, after⟩ =
      [item.jobID] := by
  have absent : before.jobs.get? item.jobID = none := Table.get?_eq_none_iff.mpr inactive
  have nothing : (before.jobs.rows.filter fun job =>
      decide (job.deduplicationKey = some item.put.deduplicationKey) &&
        (before.jobs.get? job.id).isNone) = [] := by
    rw [List.filter_eq_nil_iff]
    intro job hjob selected
    simp [Table.get?_eq_some_iff.mpr ⟨hjob, rfl⟩] at selected
  have one : ((items.map (PreparedUniqueBatchPut.jobRow stored)).filter fun job =>
      decide (job.deduplicationKey = some item.put.deduplicationKey) &&
        (before.jobs.get? job.id).isNone) = [item.jobRow stored] := by
    rw [List.filter_map]
    have first : items.filter ((fun job : Job =>
        decide (job.deduplicationKey = some item.put.deduplicationKey) &&
          (before.jobs.get? job.id).isNone) ∘ PreparedUniqueBatchPut.jobRow stored) = [item] := by
      refine (List.filter_congr fun other hother => ?_).trans
        (@filter_key_eq_singleton _ _ _ (fun other => other.put.deduplicationKey) _ _ distinct
          member)
      by_cases same : other.put.deduplicationKey = item.put.deduplicationKey
      · rw [List.inj_on_of_nodup_map distinct hother member same]
        simp [PreparedUniqueBatchPut.jobRow, newJob, absent]
      · simp [PreparedUniqueBatchPut.jobRow, newJob, same]
    rw [first]
    rfl
  simp only [CallStep.insertedFor, staged.jobs, List.filter_append, nothing, one]
  rfl

/-- A registered key for which nothing was inserted keeps its one job. -/
theorem RegistryInvariant.once_of_idle {step : CallStep}
    (invariant : RegistryInvariant digest step.before trace)
    (registered : step.before.keys.get? key = some row) (idle : step.insertedFor key = []) :
    insertedSince key (trace ++ [step]) = [row.jobID] := by
  rw [insertedSince_append, idle, List.append_nil, registered]
  exact invariant.once key row registered

theorem RegistryInvariant.rows (invariant : RegistryInvariant digest before trace)
    (keys : after.keys = before.keys)
    (jobs : ∀ job ∈ after.jobs.rows, (∃ old ∈ before.jobs.rows, SameContent old job) ∨
      job.deduplicationKey = none ∧ job.id ∈ call.newIDs) :
    RegistryInvariant digest after (trace ++ [⟨before, call, answer, after⟩]) := by
  refine { active := ?_, sourced := ?_, once := ?_, used := ?_, stable := ?_ }
  · intro job hjob key hkey
    rcases jobs job hjob with ⟨old, hold, hid, hsame, hname, hversion, hpayload⟩ | ⟨hnone, _⟩
    · obtain ⟨row, content, hrow, hrowID, hput, hprint, carries⟩ :=
        invariant.active old hold key (hsame.trans hkey)
      rw [keys]
      exact ⟨row, content, hrow, hrowID.trans hid, hid ▸ mem_putsOf_append _ hput, hprint,
        hname ▸ carries.1, hversion ▸ carries.2.1, hpayload ▸ carries.2.2⟩
    · rw [hnone] at hkey
      cases hkey
  · intro key row found
    rw [keys] at found
    obtain ⟨content, hput, hprint⟩ := invariant.sourced key row found
    exact ⟨content, mem_putsOf_append _ hput, hprint⟩
  · intro key row found
    rw [keys] at found
    apply invariant.once_of_idle found
    apply insertedFor_eq_nil
    intro job hjob hkey
    rcases jobs job hjob with ⟨old, hold, same⟩ | ⟨hnone, _⟩
    · exact Table.isSome_get?_of_mem hold same.1
    · rw [hnone] at hkey
      cases hkey
  · intro job hjob
    rcases jobs job hjob with ⟨old, hold, same⟩ | ⟨_, hnew⟩
    · exact same.1 ▸ mem_idsOf_append _ (invariant.used old hold)
    · rw [idsOf_append]
      exact List.mem_append_right _ hnew
  · exact invariant.stable.append fun key row found => Or.inl (keys ▸ found)

theorem RegistryInvariant.pruned {selected : IdempotencyKey → Bool}
    (invariant : RegistryInvariant digest before trace) (prunes : call.prunes = true)
    (jobs : after.jobs = before.jobs) (keys : after.keys = before.keys.delete selected)
    (inactive : ∀ row ∈ before.keys.rows, selected row = true →
      activeKey before.jobs row.deduplicationKey = false) :
    RegistryInvariant digest after (trace ++ [⟨before, call, answer, after⟩]) := by
  have keyKept : ∀ {key : Bytes} {row : IdempotencyKey}, after.keys.get? key = some row →
      before.keys.get? key = some row := by
    intro key row found
    rw [keys, Table.get?_delete, Option.filter_eq_some_iff] at found
    exact found.1
  refine { active := ?_, sourced := ?_, once := ?_, used := ?_, stable := ?_ }
  · intro job hjob key hkey
    rw [jobs] at hjob
    obtain ⟨row, content, hrow, hrowID, hput, hprint, carries⟩ :=
      invariant.active job hjob key hkey
    refine ⟨row, content, ?_, hrowID, mem_putsOf_append _ hput, hprint, carries⟩
    rw [keys, Table.get?_delete, hrow]
    -- The row's key is carried by an active job, so the prune did not select it.
    have kept : selected row = false := by
      obtain ⟨hmember, hsame⟩ := Table.get?_eq_some_iff.mp hrow
      by_contra hselected
      have idle := inactive row hmember (by simpa using hselected)
      simp only [activeKey, List.any_eq_false, decide_eq_true_eq] at idle
      exact idle job hjob (hkey.trans (congrArg some hsame.symm))
    simp [kept]
  · intro key row found
    obtain ⟨content, hput, hprint⟩ := invariant.sourced key row (keyKept found)
    exact ⟨content, mem_putsOf_append _ hput, hprint⟩
  · intro key row found
    apply invariant.once_of_idle (keyKept found)
    apply insertedFor_eq_nil
    intro job hjob _
    rw [jobs] at hjob
    exact Table.isSome_get?_of_mem hjob rfl
  · intro job hjob
    rw [jobs] at hjob
    exact mem_idsOf_append _ (invariant.used job hjob)
  · refine invariant.stable.append fun key row found => ?_
    rw [keys, Table.get?_delete, found]
    cases hselected : selected row with
    | true => exact Or.inr ⟨prunes, by simp [hselected]⟩
    | false => exact Or.inl (by simp [hselected])

theorem RegistryInvariant.staged (invariant : RegistryInvariant digest before trace)
    (within : items.Sublist (call.prepared digest))
    (distinct : (items.map fun item => item.put.deduplicationKey).Nodup)
    (new : ∀ item ∈ items, before.keys.get? item.put.deduplicationKey = none)
    (rows : Staged stored items before after) (fresh : FreshIDs call.newIDs before) :
    RegistryInvariant digest after (trace ++ [⟨before, call, answer, after⟩]) := by
  have newPut : ∀ item ∈ items, (item.put, item.jobID) ∈
      putsOf (trace ++ [(⟨before, call, answer, after⟩ : CallStep)]) ∧
      item.fingerprint = jobFingerprint digest item.put.content := by
    intro item hitem
    obtain ⟨hput, hprint⟩ := Call.mem_prepared (within.subset hitem)
    rw [putsOf_append]
    exact ⟨List.mem_append_right _ hput, hprint⟩
  have newID : ∀ item ∈ items, item.jobID ∈ call.newIDs := fun item hitem =>
    Call.puts_ids (Call.mem_prepared (within.subset hitem)).1
  refine { active := ?_, sourced := ?_, once := ?_, used := ?_, stable := ?_ }
  · intro job hjob key hkey
    rw [rows.jobs, List.mem_append, List.mem_map] at hjob
    rcases hjob with hjob | ⟨item, hitem, rfl⟩
    · obtain ⟨row, content, hrow, hrowID, hput, hprint, carries⟩ :=
        invariant.active job hjob key hkey
      exact ⟨row, content, rows.get?_kept hrow, hrowID, mem_putsOf_append _ hput, hprint, carries⟩
    · cases hkey
      refine ⟨item.keyRow stored, item.put.content, ?_, rfl, (newPut item hitem).1,
        (newPut item hitem).2, rfl, rfl, rfl⟩
      refine Table.get?_eq_some_iff.mpr ⟨?_, rfl⟩
      rw [rows.keys]
      exact List.mem_append_right _ (List.mem_map_of_mem hitem)
  · intro key row found
    rcases rows.get?_cases found with hold | ⟨item, hitem, rfl, rfl⟩
    · obtain ⟨content, hput, hprint⟩ := invariant.sourced key row hold
      exact ⟨content, mem_putsOf_append _ hput, hprint⟩
    · exact ⟨item.put.content, newPut item hitem⟩
  · intro key row found
    rcases rows.get?_cases found with hold | ⟨item, hitem, rfl, rfl⟩
    · apply invariant.once_of_idle hold
      apply insertedFor_eq_nil
      intro job hjob hkey
      rw [rows.jobs, List.mem_append, List.mem_map] at hjob
      rcases hjob with hjob | ⟨item, hitem, rfl⟩
      · exact Table.isSome_get?_of_mem hjob rfl
      · -- A registered key is not staged again.
        cases hkey
        rw [new item hitem] at hold
        cases hold
    · rw [insertedSince_append,
        rows.insertedFor_eq hitem distinct (fresh.inactive _ (newID item hitem))]
      simp [new item hitem, PreparedUniqueBatchPut.keyRow]
  · intro job hjob
    rw [rows.jobs, List.mem_append, List.mem_map] at hjob
    rcases hjob with hjob | ⟨item, hitem, rfl⟩
    · exact mem_idsOf_append _ (invariant.used job hjob)
    · rw [idsOf_append]
      exact List.mem_append_right _ (newID item hitem)
  · exact invariant.stable.append fun key row found => Or.inl (rows.get?_kept found)

theorem RegistryInvariant.step (invariant : RegistryInvariant digest before trace)
    (change : RegistryStep stored digest call before after) (fresh : FreshIDs call.newIDs before) :
    RegistryInvariant digest after (trace ++ [⟨before, call, answer, after⟩]) := by
  cases change with
  | rows keys jobs => exact invariant.rows keys jobs
  | staged items within distinct new rows => exact invariant.staged within distinct new rows fresh
  | pruned prunes jobs selected keys inactive => exact invariant.pruned prunes jobs keys inactive

end Preservation

/-! ## Histories from an empty database -/

section Histories

variable (backend : Backend) (digest : Digest)

theorem history_registry {history : List Call} (admissible : Admissible history) :
    RegistryInvariant digest ((repository backend digest).final .empty history)
      ((repository backend digest).trace .empty history) := by
  have run := (repository backend digest).invariant
    (fun database trace => Admissible (trace.map Transition.input) →
      RegistryInvariant digest database trace) .empty ?_ ?_ history
  · rw [Machine.trace_inputs] at run
    exact run admissible
  · intro _
    exact
      { active := fun job hjob => by cases hjob
        sourced := fun key row found => by cases found
        once := fun key row found => by cases found
        used := fun job hjob => by cases hjob
        stable := fun step hstep => by cases hstep }
  · intro database trace call invariant hadmissible
    rw [List.map_append, List.map_singleton] at hadmissible
    have before := invariant hadmissible.earlier
    have fresh := before.freshIDs hadmissible
    have outermost := hadmissible.outermost call (List.mem_append_right _ List.mem_cons_self)
    exact before.step (call.registryStep backend digest fresh outermost before.covered) fresh

/-- The content a key was registered with: that of the put whose identifier the
registry row carries. -/
def RegisteredContent (history : List Call) (row : IdempotencyKey) (content : Content) : Prop :=
  (⟨row.deduplicationKey, content⟩, row.jobID) ∈ history.flatMap Call.puts

theorem Call.puts_sublist (call : Call) : (call.puts.map Prod.snd).Sublist call.newIDs := by
  cases call with
  | createJobVersioned => exact List.nil_sublist _
  | _ => exact List.Sublist.refl _

/-- Identifiers are generated once, so an identifier belongs to one put. -/
theorem Admissible.put_unique {history : List Call} (admissible : Admissible history)
    {first second : UniqueBatchPut} (hfirst : (first, id) ∈ history.flatMap Call.puts)
    (hsecond : (second, id) ∈ history.flatMap Call.puts) : first = second := by
  have sublist : ∀ calls : List Call,
      ((calls.flatMap Call.puts).map Prod.snd).Sublist (calls.flatMap Call.newIDs) := by
    intro calls
    induction calls with
    | nil => exact List.Sublist.refl _
    | cons call rest ih =>
      rw [List.flatMap_cons, List.flatMap_cons, List.map_append]
      exact call.puts_sublist.append ih
  have nodup := (sublist history).nodup admissible.fresh
  exact congrArg Prod.fst (List.inj_on_of_nodup_map nodup hfirst hsecond rfl)

variable {backend digest} {history : List Call} {call : Call} {database : Database}

theorem RegistryInvariant.fingerprint (invariant : RegistryInvariant digest database trace)
    (inputs : trace.map Transition.input = history) (admissible : Admissible history)
    {content : Content} (found : database.keys.get? key = some row)
    (registered : RegisteredContent history row content) :
    row.fingerprint = jobFingerprint digest content := by
  obtain ⟨original, hput, hprint⟩ := invariant.sourced key row found
  rw [putsOf, inputs] at hput
  have hkey := (Table.get?_eq_some_iff.mp found).2
  rw [RegisteredContent, hkey] at registered
  cases admissible.put_unique hput registered
  exact hprint

/-- A put conflicts when one of its keys was registered with other content. -/
theorem conflicts_iff (invariant : RegistryInvariant digest database trace)
    (inputs : trace.map Transition.input = history) (admissible : Admissible history)
    (noCollision : NoCollision digest (history ++ [call])) :
    Conflicts database.keys (call.prepared digest) ↔
      ∃ item ∈ call.prepared digest, ∃ row content,
        database.keys.get? item.put.deduplicationKey = some row ∧
        RegisteredContent history row content ∧ content ≠ item.put.content := by
  constructor
  · rintro ⟨item, hitem, row, hrow, hne⟩
    obtain ⟨content, hput, hprint⟩ := invariant.sourced _ row hrow
    rw [putsOf, inputs] at hput
    refine ⟨item, hitem, row, content, hrow, ?_, ?_⟩
    · rw [RegisteredContent, (Table.get?_eq_some_iff.mp hrow).2]
      exact hput
    · rintro rfl
      exact hne (hprint.trans (Call.mem_prepared hitem).2.symm)
  · rintro ⟨item, hitem, row, content, hrow, registered, hne⟩
    have hprint := invariant.fingerprint inputs admissible hrow registered
    obtain ⟨hnew, hitemPrint⟩ := Call.mem_prepared hitem
    have first : (⟨row.deduplicationKey, content⟩, row.jobID) ∈
        (history ++ [call]).flatMap Call.puts := by
      rw [List.flatMap_append]
      exact List.mem_append_left _ registered
    have second : (item.put, item.jobID) ∈ (history ++ [call]).flatMap Call.puts := by
      rw [List.flatMap_append, List.flatMap_singleton]
      exact List.mem_append_right _ hnew
    refine ⟨item, hitem, row, hrow, fun same => hne ?_⟩
    exact noCollision _ first _ second (hprint.symm.trans (same.trans hitemPrint))

/-! ## Replays, conflicts and prunes -/

theorem Staged.eq_of_nil {before : Database} (staged : Staged stored [] before after) :
    after = before := by
  obtain ⟨hkeys, hjobs, hfailed⟩ := staged
  rw [List.map_nil, List.append_nil] at hkeys hjobs
  cases before
  cases after
  cases hfailed
  cases Table.ext hkeys
  cases Table.ext hjobs
  rfl

/-- What a put answers: the registered job of a replayed key, a new job for a
new key, and a conflict for a key registered with other content. -/
structure Answers (history : List Call) (keys : IdempotencyTable)
    (items : List (UniqueBatchPut × JobID)) (database : Database)
    (answer : Except OutboxError (List UniquePutResult)) (after : Database) : Prop where
  conflict : (∃ item ∈ items, ∃ row content, keys.get? item.1.deduplicationKey = some row ∧
      RegisteredContent history row content ∧ content ≠ item.1.content) →
    (∃ error, answer = .error error ∧ error.is .errIdempotencyConflict = true) ∧
      after = database
  results : (∀ item ∈ items, ∀ row content, keys.get? item.1.deduplicationKey = some row →
      RegisteredContent history row content → content = item.1.content) →
    answer = .ok (items.map fun item =>
      match keys.get? item.1.deduplicationKey with
      | some row => ⟨row.jobID, false⟩
      | none => ⟨item.2, true⟩)
  replay : (∀ item ∈ items, ∃ row, keys.get? item.1.deduplicationKey = some row) →
    after = database

/-- The intended outcome of a put, in terms of the contents put before. -/
theorem PutOutcome.answers {items : List (UniqueBatchPut × JobID)} {createdAt : Int}
    {answer : Except OutboxError (List UniquePutResult)}
    (outcome : PutOutcome stored (prepareUniqueBatchPuts digest items createdAt) database answer
      after) (conflicts : Conflicts database.keys (prepareUniqueBatchPuts digest items createdAt) ↔
      ∃ item ∈ items, ∃ row content, database.keys.get? item.1.deduplicationKey = some row ∧
        RegisteredContent history row content ∧ content ≠ item.1.content) :
    Answers history database.keys items database answer after := by
  cases outcome with
  | staged agree rows =>
    refine { conflict := ?_, results := ?_, replay := ?_ }
    · intro disagree
      exact absurd (conflicts.mpr disagree) agree
    · intro _
      rw [prepareUniqueBatchPuts, List.map_map]
      rfl
    · intro registered
      have nothing : newItems database.keys (prepareUniqueBatchPuts digest items createdAt) =
          [] := by
        rw [newItems, List.filter_eq_nil_iff]
        intro item hitem absent
        obtain ⟨pair, hpair, rfl⟩ := List.mem_map.mp hitem
        obtain ⟨row, hrow⟩ := registered pair hpair
        simp [hrow] at absent
      rw [nothing] at rows
      exact rows.eq_of_nil
  | @conflict error disagree found =>
    refine { conflict := ?_, results := ?_, replay := ?_ }
    · intro _
      exact ⟨⟨error, rfl, found⟩, rfl⟩
    · intro agree
      obtain ⟨item, hitem, row, content, hrow, registered, hne⟩ := conflicts.mp disagree
      exact absurd (agree item hitem row content hrow registered) hne
    · intro _
      rfl

/-- A prune removes at most `limit` keys and never the key of an active job. -/
theorem Backend.pruneJobIdempotencyKeys_bound (view : View) (before limit : Int) :
    let after := (backend.pruneJobIdempotencyKeys view before limit database).2
    after.jobs = database.jobs ∧
    (∀ row ∈ after.keys.rows, row ∈ database.keys.rows) ∧
    (database.keys.rows.filter fun row => decide (row ∉ after.keys.rows)).length ≤
      limit.toNat ∧
    ∀ row ∈ database.keys.rows, row ∉ after.keys.rows →
      activeKey database.jobs row.deduplicationKey = false := by
  intro after
  rcases backend.pruneJobIdempotencyKeys_cases view before limit database with
    same | ⟨candidates, bound, inactive, hcall⟩
  · have unchanged : after = database := same
    rw [unchanged]
    refine ⟨rfl, fun row hrow => hrow, ?_, fun row hrow habsent => absurd hrow habsent⟩
    rw [List.filter_eq_nil_iff.mpr (by simp)]
    exact Nat.zero_le _
  · have pruned : after = { database with keys := database.keys.delete (keyIn candidates) } :=
      congrArg Prod.snd hcall
    rw [pruned]
    have removed : ∀ row ∈ database.keys.rows,
        (row ∉ (database.keys.delete (keyIn candidates)).rows ↔ keyIn candidates row = true) := by
      intro row hrow
      rw [Table.mem_delete]
      simp [hrow]
    refine ⟨rfl, fun row hrow => (Table.mem_delete.mp hrow).1, ?_, ?_⟩
    · have selected : (database.keys.rows.filter fun row =>
          decide (row ∉ (database.keys.delete (keyIn candidates)).rows)) =
          database.keys.matching (keyIn candidates) :=
        List.filter_congr fun row hrow => by
          rw [Bool.eq_iff_iff, decide_eq_true_eq, removed row hrow]
      rw [selected]
      have keys := List.subperm_of_subset (database.keys.nodup_map_matching (keyIn candidates))
        (fun key hkey => by
          obtain ⟨row, hrow, rfl⟩ := List.mem_map.mp hkey
          exact of_decide_eq_true (Table.mem_matching.mp hrow).2 : _ ⊆ candidates)
      have length := keys.length_le
      rw [List.length_map] at length
      exact length.trans bound
    · intro row hrow habsent
      exact inactive _ (of_decide_eq_true ((removed row hrow).mp habsent))

theorem conflicts_items_iff {items : List (UniqueBatchPut × JobID)} {createdAt : Int}
    (prepared : call.prepared digest = prepareUniqueBatchPuts digest items createdAt)
    (invariant : RegistryInvariant digest database trace)
    (inputs : trace.map Transition.input = history) (admissible : Admissible history)
    (noCollision : NoCollision digest (history ++ [call])) :
    Conflicts database.keys (prepareUniqueBatchPuts digest items createdAt) ↔
      ∃ item ∈ items, ∃ row content, database.keys.get? item.1.deduplicationKey = some row ∧
        RegisteredContent history row content ∧ content ≠ item.1.content := by
  rw [← prepared, conflicts_iff invariant inputs admissible noCollision, prepared]
  constructor
  · rintro ⟨item, hitem, found⟩
    obtain ⟨pair, hpair, rfl⟩ := List.mem_map.mp hitem
    exact ⟨pair, hpair, found⟩
  · rintro ⟨pair, hpair, found⟩
    exact ⟨_, List.mem_map_of_mem hpair, found⟩

/-- The registry over every admissible history, on every backend. An active job
with a key agrees with the registry row of the key and with the put that created
it, and is the only active job with the key. A registered row changes only by a
prune, and one job was inserted for its key since it was registered. A further
put of registered keys answers with the registered jobs or fails with a conflict
and changes nothing in both cases. A prune removes at most `limit` keys, none of
them carried by an active job. -/
theorem idempotency_registry (backend : Backend) (digest : Digest) (history : List Call)
    (admissible : Admissible history) :
    let database := (repository backend digest).final .empty history
    let trace := (repository backend digest).trace .empty history
    (∀ job ∈ database.jobs.rows, ∀ key, job.deduplicationKey = some key →
      (∃ row content, database.keys.get? key = some row ∧ row.jobID = job.id ∧
        RegisteredContent history row content ∧
        row.fingerprint = jobFingerprint digest content ∧ Carries job content) ∧
      ∀ other ∈ database.jobs.rows, other.deduplicationKey = some key → other = job) ∧
    (Stable trace ∧ ∀ key row, database.keys.get? key = some row →
      insertedSince key trace = [row.jobID]) ∧
    ((∀ view put id createdAt,
        let call := Call.createJobVersionedUniqueResult view put id createdAt
        let result := backend.createJobVersionedUniqueResult view digest put id createdAt database
        Admissible (history ++ [call]) → NoCollision digest (history ++ [call]) →
        (ValidPut put →
          Answers history database.keys [(put, id)] database (single result).1 (single result).2) ∧
        (¬ ValidPut put → (∃ error, result.1 = .error error) ∧ result.2 = database)) ∧
      ∀ view items createdAt,
        let call := Call.createJobVersionedUniqueBatch view items createdAt
        let result := backend.createJobVersionedUniqueBatch view digest items createdAt database
        Admissible (history ++ [call]) → NoCollision digest (history ++ [call]) →
        (ValidBatch (items.map Prod.fst) →
          Answers history database.keys items database result.1 result.2) ∧
        (¬ ValidBatch (items.map Prod.fst) → result.2 = database)) ∧
    ∀ view before limit,
      let after := (backend.pruneJobIdempotencyKeys view before limit database).2
      after.jobs = database.jobs ∧
      (∀ row ∈ after.keys.rows, row ∈ database.keys.rows) ∧
      (database.keys.rows.filter fun row => decide (row ∉ after.keys.rows)).length ≤
        limit.toNat ∧
      ∀ row ∈ database.keys.rows, row ∉ after.keys.rows →
        activeKey database.jobs row.deduplicationKey = false := by
  intro database trace
  have inputs : trace.map Transition.input = history := Machine.trace_inputs _ _ _
  have invariant : RegistryInvariant digest database trace :=
    history_registry backend digest admissible
  refine ⟨fun job hjob key hkey => ⟨?_, ?_⟩, ⟨invariant.stable, invariant.once⟩, ⟨?_, ?_⟩,
    fun view before limit => backend.pruneJobIdempotencyKeys_bound view before limit⟩
  · obtain ⟨row, content, hrow, hid, hput, hprint, carries⟩ :=
      invariant.active job hjob key hkey
    refine ⟨row, content, hrow, hid, ?_, hprint, carries⟩
    rw [putsOf, inputs] at hput
    rw [RegisteredContent, (Table.get?_eq_some_iff.mp hrow).2, hid]
    exact hput
  · -- Both jobs carry the identifier the registry has for the key.
    intro other hother hotherKey
    obtain ⟨row, _, hrow, hid, _⟩ := invariant.active job hjob key hkey
    obtain ⟨otherRow, _, hotherRow, hotherID, _⟩ := invariant.active other hother key hotherKey
    rw [hrow] at hotherRow
    cases hotherRow
    exact database.jobs.row_unique hother hjob (hotherID.symm.trans hid)
  · intro view put id createdAt call result next noCollision
    refine ⟨fun valid => ?_, fun invalid =>
      backend.createJobVersionedUniqueResult_invalid digest invalid⟩
    have fresh : FreshIDs ([(put, id)].map Prod.snd) database :=
      invariant.freshIDs (inputs ▸ next : Admissible (trace.map Transition.input ++ [call]))
    exact (backend.createJobVersionedUniqueResult_outcome view digest valid
      (fresh.prepared (List.nodup_singleton _)) invariant.covered).answers
      (conflicts_items_iff rfl invariant inputs admissible noCollision)
  · intro view items createdAt call result next noCollision
    refine ⟨fun valid => ?_, fun invalid => backend.createJobVersionedUniqueBatch_invalid invalid⟩
    have fresh : FreshIDs (items.map Prod.snd) database :=
      invariant.freshIDs (inputs ▸ next : Admissible (trace.map Transition.input ++ [call]))
    have owned : view.attached = false := by
      simpa [call, Call.outermost] using
        next.outermost call (List.mem_append_right _ List.mem_cons_self)
    exact (backend.createJobVersionedUniqueBatch_outcome view digest owned valid
      (fresh.prepared valid.2.2) invariant.covered).answers
      (conflicts_items_iff rfl invariant inputs admissible noCollision)

end Histories

/-- A put outside any transaction that nothing else interferes with. -/
def ownView : View := { callersView with attached := false }

/-- Two keys staged by one batch, then an ordinary put. -/
def stagedHistory : List Call :=
  [.createJobVersionedUniqueBatch ownView
    [(⟨bytes "a", ⟨bytes "job", 1, bytes "1", 0⟩⟩, ⟨1⟩),
     (⟨bytes "b", ⟨bytes "job", 1, bytes "2", 0⟩⟩, ⟨2⟩)] 0,
   .createJobVersioned ⟨3⟩ 0 ⟨bytes "job", 1, bytes "1", 0⟩]

/-- A later put of other content under `a`. -/
def conflictingPut : UniqueBatchPut := ⟨bytes "a", ⟨bytes "job", 1, bytes "3", 0⟩⟩

theorem idempotency_registry_conflictingPut :
    Admissible (stagedHistory ++
      [.createJobVersionedUniqueResult ownView conflictingPut ⟨4⟩ 0]) ∧
    Answers stagedHistory
      ((repository .mysql transparentDigest).final .empty stagedHistory).keys
      [(conflictingPut, ⟨4⟩)] ((repository .mysql transparentDigest).final .empty stagedHistory)
      (single (Backend.mysql.createJobVersionedUniqueResult ownView transparentDigest
        conflictingPut ⟨4⟩ 0
        ((repository .mysql transparentDigest).final .empty stagedHistory))).1
      (single (Backend.mysql.createJobVersionedUniqueResult ownView transparentDigest
        conflictingPut ⟨4⟩ 0
        ((repository .mysql transparentDigest).final .empty stagedHistory))).2 := by
  have next : Admissible (stagedHistory ++
      [.createJobVersionedUniqueResult ownView conflictingPut ⟨4⟩ 0]) :=
    { fresh := by decide
      outermost := by
        intro call hcall
        simp only [stagedHistory, List.cons_append, List.nil_append, List.mem_cons,
          List.not_mem_nil, or_false] at hcall
        rcases hcall with rfl | rfl | rfl <;> rfl }
  have noCollision : NoCollision transparentDigest (stagedHistory ++
      [.createJobVersionedUniqueResult ownView conflictingPut ⟨4⟩ 0]) := by
    unfold NoCollision
    decide
  obtain ⟨_, _, ⟨answers, _⟩, _⟩ :=
    idempotency_registry .mysql transparentDigest stagedHistory next.earlier
  exact ⟨next, (answers ownView conflictingPut ⟨4⟩ 0 next noCollision).1 ⟨by decide, by decide⟩⟩

end OutboxFormal.Storage
