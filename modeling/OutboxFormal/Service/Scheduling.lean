import Mathlib.Data.List.Chain
import OutboxFormal.Service.GroupRuns
import OutboxFormal.Service.Scripts

/-!
# The schedule of a worker

A call of `processWorkerWork` serves at most one group. Its batch loop starts at
the cursor and stops behind the capability it served, and a flag alternates
between batches and single work. No ready work waits for more than a bounded
number of calls.
-/

namespace OutboxFormal

open Library GoError
open Library.Program (Returns returns_bind returns_step)

variable {index distance length : Nat}

/-! ## The loop over the batch capabilities -/

namespace Scheduling

variable {s : Service} {events : History Answer} {capabilities : List JobCapability}
variable {capability : JobCapability} {cursor cursor' : Nat} {processed : Bool}
variable {error : Option OutboxError}

/-- The capability at the index was paused, or a claim found none of its jobs. -/
def Skipped (s : Service) (events : History Answer) (capabilities : List JobCapability)
    (index : Nat) : Prop :=
  ∀ capability, capabilities[index]? = some capability →
    (∃ now, ⟨.batchCapabilityPaused s.process capability now, true⟩ ∈ events) ∨
      Returns events (s.findAndProcessExecutionBatch capability) (false, none)

theorem not_skipped (ready : BatchReady s events capability)
    (found : capabilities[index]? = some capability) : ¬ Skipped s events capabilities index := by
  intro skipped
  rcases skipped capability found with ⟨now, paused⟩ | idle
  · cases ready.unpaused now true paused
  · cases ((returns_findAndProcessExecutionBatch idle).2 ready.claims rfl).1

/-- How the loop over the indices ends. -/
inductive BatchEnd (s : Service) (events : History Answer) (capabilities : List JobCapability)
    (cursor : Nat) (indices : List Nat) : Bool → Option OutboxError → Nat → Prop
  | processed {passed rest : List Nat} {index : Nat} {served : JobCapability}
      {error : Option OutboxError} (split : indices = passed ++ index :: rest)
      (passes : ∀ other ∈ passed, Skipped s events capabilities other)
      (serves : capabilities[index]? = some served)
      (ran : Returns events (s.findAndProcessExecutionBatch served) (true, error)) :
      BatchEnd s events capabilities cursor indices true error ((index + 1) % capabilities.length)
  | failed {error : OutboxError} (reported : ⟨.returned (.group (some error)), ()⟩ ∈ events) :
      BatchEnd s events capabilities cursor indices false (some error) cursor
  | idle (passes : ∀ other ∈ indices, Skipped s events capabilities other) :
      BatchEnd s events capabilities cursor indices false none cursor

theorem BatchEnd.skip {rest : List Nat} (skipped : Skipped s events capabilities index)
    (ended : BatchEnd s events capabilities cursor rest processed error cursor') :
    BatchEnd s events capabilities cursor (index :: rest) processed error cursor' := by
  cases ended with
  | @processed passed rest' found served error split passes serves ran =>
    exact .processed (split ▸ rfl : index :: rest = (index :: passed) ++ found :: rest')
      (List.forall_mem_cons.mpr ⟨skipped, passes⟩) serves ran
  | failed reported => exact .failed reported
  | idle passes => exact .idle (List.forall_mem_cons.mpr ⟨skipped, passes⟩)

/-- Errors of a batch group are not those of a draining service. -/
theorem BatchEnd.undrained {indices : List Nat} (undrained : Undrained events)
    (ended : BatchEnd s events capabilities cursor indices processed error cursor') :
    errorsIs error .errServiceDraining = false := by
  cases ended with
  | processed split passes serves ran =>
    cases error with
    | none => rfl
    | some error => exact undrained error (returns_findAndProcessExecutionBatch ran).1
  | failed reported => exact undrained _ reported
  | idle passes => rfl

theorem returns_processBatchFrom {indices : List Nat}
    (ran : Returns events (s.processBatchFrom capabilities cursor indices)
      (processed, error, cursor')) :
    BatchEnd s events capabilities cursor indices processed error cursor' := by
  induction indices with
  | nil =>
    cases ran
    exact .idle nofun
  | cons index rest ih =>
    unfold Service.processBatchFrom at ran
    cases found : capabilities[index]? with
    | none =>
      rw [found] at ran
      exact (ih ran).skip fun capability found' => by cases found.symm.trans found'
    | some tried =>
      have skips : (∃ now, ⟨.batchCapabilityPaused s.process tried now, true⟩ ∈ events) ∨
          Returns events (s.findAndProcessExecutionBatch tried) (false, none) →
          Skipped s events capabilities index := by
        intro reason other found'
        cases found.symm.trans found'
        exact reason
      rw [found] at ran
      obtain ⟨now, -, ran⟩ := returns_step.mp ran
      obtain ⟨paused, checked, ran⟩ := returns_step.mp ran
      cases paused with
      | true => exact (ih ran).skip (skips (Or.inl ⟨now, checked⟩))
      | false =>
        obtain ⟨⟨ran', failure⟩, group, ran⟩ := returns_bind.mp ran
        cases ran' with
        | true =>
          cases ran
          exact .processed (List.nil_append (index :: rest)).symm nofun found group
        | false =>
          cases failure with
          | some failure =>
            cases ran
            exact .failed (returns_findAndProcessExecutionBatch group).1
          | none => exact (ih ran).skip (skips (Or.inr group))

/-! ### The distance to a capability -/

/-- The indices in the order a call tries them. -/
def rotation (length cursor : Nat) : List Nat :=
  (List.range length).map fun offset => (cursor % length + offset) % length

/-- The index is `distance` places after the cursor. -/
def Waits (length cursor index distance : Nat) : Prop :=
  distance < length ∧ (cursor % length + distance) % length = index

theorem exists_waits (cursor : Nat) (inside : index < length) :
    ∃ distance, Waits length cursor index distance := by
  have start : cursor % length < length := Nat.mod_lt _ (by omega)
  refine ⟨(index + (length - cursor % length)) % length, Nat.mod_lt _ (by omega), ?_⟩
  rw [Nat.add_mod_mod, show cursor % length + (index + (length - cursor % length)) =
    index + length by omega, Nat.add_mod_right, Nat.mod_eq_of_lt inside]

theorem Waits.nearer {cursor offset : Nat} (waits : Waits length cursor index distance)
    (earlier : offset < distance) :
    Waits length (((cursor % length + offset) % length + 1) % length) index
      (distance - (offset + 1)) := by
  obtain ⟨inside, same⟩ := waits
  refine ⟨by omega, ?_⟩
  calc ((((cursor % length + offset) % length + 1) % length) % length + (distance - (offset + 1)))
        % length
      = ((cursor % length + offset) % length + (1 + (distance - (offset + 1)))) % length := by
        rw [Nat.mod_mod, Nat.mod_add_mod, Nat.add_assoc]
    _ = (cursor % length + distance) % length := by
        rw [Nat.mod_add_mod]
        congr 1
        omega
    _ = index := same

theorem rotation_getElem? {cursor offset : Nat} (inside : offset < length) :
    (rotation length cursor)[offset]? = some ((cursor % length + offset) % length) := by
  simp [rotation, inside]

theorem returns_processOneAvailableBatch (nonempty : capabilities ≠ [])
    (ran : Returns events (s.processOneAvailableBatch capabilities cursor)
      (processed, error, cursor')) :
    BatchEnd s events capabilities cursor (rotation capabilities.length cursor) processed error
      cursor' := by
  unfold Service.processOneAvailableBatch at ran
  rw [if_neg (by simpa using nonempty)] at ran
  exact returns_processBatchFrom ran

/-! ## Progress of a call -/

variable {singles batches : List JobCapability} {schedule after : WorkerSchedule} {didWork : Bool}

/-- A worker that prefers single work may spend one call on it. -/
def patience (schedule : WorkerSchedule) : Nat := if schedule.preferBatch then 0 else 1

theorem patience_le_one (schedule : WorkerSchedule) : patience schedule ≤ 1 := by
  unfold patience
  split <;> omega

theorem oneBatch_undrained (undrained : Undrained events)
    (ran : Returns events (s.processOneAvailableBatch capabilities cursor)
      (processed, error, cursor')) : errorsIs error .errServiceDraining = false := by
  cases capabilities with
  | nil =>
    cases ran
    rfl
  | cons first rest => exact (returns_processOneAvailableBatch (by simp) ran).undrained undrained

section Progress

variable (ready : BatchReady s events capability) (found : batches[index]? = some capability)
  (waits : Waits batches.length schedule.batchCursor index distance)
include ready found waits

/-- The loop serves the ready capability, or one before it and moves the cursor
nearer, or it fails. -/
theorem oneBatch_progress
    (ran : Returns events (s.processOneAvailableBatch batches schedule.batchCursor)
      (processed, error, cursor')) :
    (processed = true ∧ (error = none → BatchExecuted s events capability)) ∨
      (processed = true ∧ ∃ nearer, nearer < distance ∧
        Waits batches.length cursor' index nearer) ∨
      processed = false ∧ error.isSome = true := by
  have nonempty : batches ≠ [] := by
    rintro rfl
    cases found
  have reaches : (rotation batches.length schedule.batchCursor)[distance]? = some index := by
    rw [rotation_getElem? waits.1, waits.2]
  cases returns_processOneAvailableBatch nonempty ran with
  | @processed passed rest servedIndex served error split passes serves group =>
    have place : (rotation batches.length schedule.batchCursor)[passed.length]? =
        some servedIndex := by
      simp [split]
    have inside : passed.length < batches.length := by
      have bound := (List.getElem?_eq_some_iff.mp place).1
      simpa [rotation] using bound
    rcases Nat.lt_trichotomy passed.length distance with before | same | after
    · rw [rotation_getElem? inside] at place
      cases place
      exact Or.inr (Or.inl ⟨rfl, distance - (passed.length + 1), by omega, waits.nearer before⟩)
    · rw [same, reaches] at place
      cases place
      rw [found] at serves
      cases serves
      exact Or.inl ⟨rfl, fun clean =>
        ((returns_findAndProcessExecutionBatch group).2 ready.claims clean).2⟩
    · -- The capability is ready, so the loop would have stopped at it.
      have among : index ∈ passed := by
        rw [split, List.getElem?_append_left after] at reaches
        exact List.mem_of_getElem? reaches
      exact absurd (passes index among) (not_skipped ready found)
  | failed reported => exact Or.inr (Or.inr ⟨rfl, rfl⟩)
  | idle passes =>
    exact absurd (passes index (List.mem_of_getElem? reaches)) (not_skipped ready found)

/-- What a call does with the end of its batch loop: `last` is reached when no
batch was processed, and reports an error. -/
theorem afterBatch_progress
    (ran : Returns events (s.processOneAvailableBatch batches schedule.batchCursor)
      (processed, error, cursor')) {last : Go (Bool × Option OutboxError × WorkerSchedule)}
    (fails : ∀ failure, error = some failure →
      last = .ret (false, some failure, { schedule with batchCursor := cursor' }))
    (finished : Returns events (if errorsIs error .errServiceDraining then
        return (false, none, { schedule with batchCursor := cursor' })
      else if processed then
        return (true, error, { batchCursor := cursor', preferBatch := false })
      else last : Go _) (didWork, none, after)) :
    BatchExecuted s events capability ∨ ∃ nearer, nearer < distance ∧
      Waits batches.length after.batchCursor index nearer := by
  rw [oneBatch_undrained ready.undrained ran, if_neg Bool.false_ne_true] at finished
  rcases oneBatch_progress ready found waits ran with
    ⟨rfl, executed⟩ | ⟨rfl, nearer, closer, waits⟩ | ⟨rfl, failed⟩
  · cases finished
    exact Or.inl (executed rfl)
  · cases finished
    exact Or.inr ⟨nearer, closer, waits⟩
  · obtain ⟨failure, rfl⟩ := Option.isSome_iff_exists.mp failed
    rw [if_neg Bool.false_ne_true, fails failure rfl] at finished
    cases finished

theorem singleFirst_progress (alternates : schedule.preferBatch = false)
    (ran : Returns events (s.processSingleFirst singles batches schedule) (didWork, none, after)) :
    BatchExecuted s events capability ∨ (∃ nearer, nearer < distance ∧
        Waits batches.length after.batchCursor index nearer) ∨
      after = { schedule with preferBatch := true } := by
  obtain ⟨⟨worked, failure⟩, -, ran⟩ := returns_bind.mp ran
  cases worked with
  | true =>
    cases ran
    exact Or.inr (Or.inr rfl)
  | false =>
    cases failure with
    | some failure => cases ran
    | none =>
      dsimp only at ran
      rw [if_neg (by simp [alternates])] at ran
      obtain ⟨⟨processed, error, cursor'⟩, batch, finished⟩ := returns_bind.mp ran
      rcases afterBatch_progress ready found waits batch (by rintro failure rfl; rfl) finished with
        executed | closer
      · exact Or.inl executed
      · exact Or.inr (Or.inl closer)

/-- A call serves the capability, or brings its turn nearer. -/
theorem turn_progress
    (ran : Returns events (s.processWorkerWork singles batches schedule) (didWork, none, after)) :
    BatchExecuted s events capability ∨
      ∃ nearer, Waits batches.length after.batchCursor index nearer ∧
        2 * nearer + patience after < 2 * distance + patience schedule := by
  have patient := patience_le_one after
  by_cases prefers : schedule.preferBatch = true
  · rw [Service.processWorkerWork, if_pos prefers] at ran
    obtain ⟨⟨processed, error, cursor'⟩, batch, finished⟩ := returns_bind.mp ran
    rcases afterBatch_progress ready found waits batch (by rintro failure rfl; rfl) finished with
      executed | ⟨nearer, closer, waits⟩
    · exact Or.inl executed
    · exact Or.inr ⟨nearer, waits, by omega⟩
  · rw [Service.processWorkerWork, if_neg prefers] at ran
    have alternates : schedule.preferBatch = false := by simpa using prefers
    have impatient : patience schedule = 1 := by simp [patience, alternates]
    rcases singleFirst_progress ready found waits alternates ran with
      executed | ⟨nearer, closer, waits⟩ | rfl
    · exact Or.inl executed
    · exact Or.inr ⟨nearer, waits, by omega⟩
    · refine Or.inr ⟨distance, waits, ?_⟩
      rw [impatient]
      simp [patience]

end Progress

/-! ### Single work -/

theorem singleFirst_executes (ready : SingleReady s events singles)
    (ran : Returns events (s.processSingleFirst singles batches schedule) (didWork, none, after)) :
    SingleExecuted s events := by
  obtain ⟨⟨worked, failure⟩, tried, ran⟩ := returns_bind.mp ran
  obtain ⟨capability, member, -⟩ := ready.unpaused
  unfold Service.processOneAvailableSingle at tried
  rw [if_neg (by simpa using List.ne_nil_of_mem member)] at tried
  obtain ⟨result, group, tried⟩ := returns_bind.mp tried
  obtain ⟨executes, hasJobs, undrained⟩ := returns_findAndProcessBatch ready group
  cases result with
  | none => exact executes rfl
  | some error =>
    rw [errorsIs_some] at hasJobs undrained
    simp only [hasJobs, undrained, Bool.false_eq_true, or_self, if_false] at tried
    cases tried
    cases ran

/-- A call executes single work, or it was the call of a batch. -/
theorem turn_single (ready : SingleReady s events singles)
    (ran : Returns events (s.processWorkerWork singles batches schedule) (didWork, none, after)) :
    SingleExecuted s events ∨ schedule.preferBatch = true ∧ after.preferBatch = false := by
  by_cases prefers : schedule.preferBatch = true
  · rw [Service.processWorkerWork, if_pos prefers] at ran
    obtain ⟨⟨processed, error, cursor'⟩, batch, finished⟩ := returns_bind.mp ran
    dsimp only at finished
    rw [oneBatch_undrained ready.undrained batch, if_neg Bool.false_ne_true] at finished
    cases processed with
    | true =>
      cases finished
      exact Or.inr ⟨prefers, rfl⟩
    | false =>
      cases error with
      | some failure => cases finished
      | none => exact Or.inl (singleFirst_executes ready finished)
  · rw [Service.processWorkerWork, if_neg prefers] at ran
    exact Or.inl (singleFirst_executes ready ran)

end Scheduling

/-! ## Sequences of calls -/

/-- A call of `processWorkerWork` that returned without an error. -/
structure Service.Turn (s : Service) (singles batches : List JobCapability) where
  before : WorkerSchedule
  after : WorkerSchedule
  didWork : Bool
  events : History Answer
  returns : (s.processWorkerWork singles batches before).After events
    (.ret (didWork, none, after))

/-- Each call starts from the schedule the call before it left. -/
def Service.Consecutive {s : Service} {singles batches : List JobCapability}
    (turns : List (s.Turn singles batches)) : Prop :=
  turns.IsChain fun first second => second.before = first.after

theorem Scheduling.served_within {s : Service} {singles batches : List JobCapability}
    {capability : JobCapability} (found : batches[index]? = some capability)
    {turns : List (s.Turn singles batches)} (consecutive : Service.Consecutive turns)
    (ready : ∀ turn ∈ turns, BatchReady s turn.events capability) {bound : Nat}
    (enough : bound < turns.length) (near : ∀ first ∈ turns.head?, ∃ distance,
      Waits batches.length first.before.batchCursor index distance ∧
        2 * distance + patience first.before ≤ bound) :
    ∃ turn ∈ turns.take (bound + 1), BatchExecuted s turn.events capability := by
  induction turns generalizing bound with
  | nil => simp at enough
  | cons first rest ih =>
    obtain ⟨distance, waits, within⟩ := near first rfl
    rcases turn_progress (ready first List.mem_cons_self) found waits first.returns.returns with
      executed | ⟨nearer, waits, decreases⟩
    · exact ⟨first, by simp, executed⟩
    · cases bound with
      | zero => omega
      | succ bound =>
        have tail := List.isChain_cons.mp consecutive
        obtain ⟨turn, member, executed⟩ := ih tail.2
          (fun turn member => ready turn (List.mem_cons_of_mem _ member))
          (by simpa using enough) (fun second head => by
            rw [tail.1 second head]
            exact ⟨nearer, waits, by omega⟩)
        exact ⟨turn, by simp [member], executed⟩

/-- A batch capability that is ready at every call is executed within the first
`2 * n` calls, and single work that is ready within any two consecutive ones. -/
theorem ready_work_is_executed (s : Service) (singles batches : List JobCapability)
    (turns : List (s.Turn singles batches)) (consecutive : Service.Consecutive turns) :
    (∀ capability ∈ batches, (∀ turn ∈ turns, BatchReady s turn.events capability) →
      2 * batches.length ≤ turns.length →
      ∃ turn ∈ turns.take (2 * batches.length), BatchExecuted s turn.events capability) ∧
    ((∀ turn ∈ turns, SingleReady s turn.events singles) →
      ∀ first second, [first, second] <:+: turns →
        SingleExecuted s first.events ∨ SingleExecuted s second.events) := by
  constructor
  · intro capability member ready enough
    obtain ⟨index, inside, found⟩ := List.mem_iff_getElem.mp member
    have located : batches[index]? = some capability := by simp [inside, found]
    obtain ⟨bound, same⟩ : ∃ bound, 2 * batches.length = bound + 1 :=
      ⟨2 * batches.length - 1, by omega⟩
    rw [same] at enough ⊢
    refine Scheduling.served_within located consecutive ready enough fun first _ => ?_
    obtain ⟨distance, waits⟩ := Scheduling.exists_waits first.before.batchCursor inside
    have := waits.1
    have := Scheduling.patience_le_one first.before
    exact ⟨distance, waits, by omega⟩
  · intro ready first second adjacent
    have chain : second.before = first.after := by
      have pair := List.IsChain.infix consecutive adjacent
      simpa using pair
    have readyFirst := ready first (adjacent.subset (by simp))
    have readySecond := ready second (adjacent.subset (by simp))
    rcases Scheduling.turn_single readyFirst first.returns.returns with executed | ⟨-, alternates⟩
    · exact Or.inl executed
    · rcases Scheduling.turn_single readySecond second.returns.returns with executed | ⟨prefers, -⟩
      · exact Or.inr executed
      · rw [chain, alternates] at prefers
        cases prefers

/-! ## Two calls of a small service -/

namespace Sample

/-- The capability of the execution batches. -/
def bulk : JobCapability := ⟨[], 2⟩

def bulkRow (id : UUID) : Job := { row id with schemaVersion := 2 }

/-- Single jobs, and batches of up to two jobs. -/
def mixed : Service := { single with batchJobs := [(bulk, ⟨second, 3, 2, 10, 0⟩)] }

/-- Surroundings in which every claim yields jobs and every handler succeeds. -/
def plenty : (effect : Effect) → Option (Answer effect)
  | .now => some 1
  | .newLeaseToken => some token
  | .withCancelCause _ => some 0
  | .cause _ | .err _ | .getError _ => some none
  | .isDraining _ | .batchCapabilityPaused .. => some false
  | .lock _ => some (.ofJobs [bulkRow 1, bulkRow 2, row 3])
  | .lockContext _ _ => some (.ok (.ofJobs [bulkRow 1, bulkRow 2, row 3]))
  | .claim _ request =>
    some (if request.method.batch?.isSome then [bulkRow 1, bulkRow 2] else [row 3], none)
  | .handled _ => some (.returned none)
  | .handledBatch _ _ => some (.returned ([⟨⟨2⟩, none⟩, ⟨⟨1⟩, none⟩], none))
  | .leased .. => some (1, none)
  | .runInTx _ _ => some none
  | .releaseUnstartedJobsWithLease _ jobIDs _ _ => some (jobIDs.length, none)
  | .cancelCause _ _ | .claimRLock _ | .claimRUnlock _ | .newManager .. | .store _ _ | .unlock _
  | .stop _ | .waitDone _ | .handle .. | .handleBatch .. | .resetBatchRetryStreak _ _
  | .returned (.group none) => some ()
  | _ => none

section Plenty

variable {s : Service} {events : History Answer}
variable (answered : ∀ event ∈ events, plenty event.effect = some event.answer)
include answered

theorem unpaused_plenty (capability : JobCapability) : s.Unpaused events capability :=
  fun _ _ member => (Option.some.inj (answered _ member)).symm

theorem yields_plenty (kind : Option JobCapability) : s.ClaimsYield events kind := by
  intro deadline request answer member _
  have same : (_, none) = answer := Option.some.inj (answered _ member)
  exact ⟨(congrArg Prod.snd same).symm,
    fun cause asked => (Option.some.inj (answered _ asked)).symm⟩

theorem silent_plenty (error : OutboxError) : ⟨.returned (.group (some error)), ()⟩ ∉ events := by
  intro member
  cases answered _ member

theorem ready_plenty (capability : JobCapability) :
    BatchReady s events capability ∧ SingleReady s events [capability] := by
  have undrained : Undrained events := fun error told => absurd told (silent_plenty answered error)
  exact ⟨⟨unpaused_plenty answered _, yields_plenty answered _, undrained⟩,
    ⟨_, List.mem_singleton_self _, unpaused_plenty answered _⟩, yields_plenty answered _, undrained,
    fun _ _ _ error told => absurd told (silent_plenty answered error)⟩

end Plenty

theorem exists_plentyTurn {before after : WorkerSchedule}
    (ran : ∃ events, (mixed.processWorkerWork [capability] [bulk] before).run plenty =
      some ((true, none, after), events)) :
    ∃ turn : mixed.Turn [capability] [bulk], turn.before = before ∧ turn.after = after ∧
      BatchReady mixed turn.events bulk ∧ SingleReady mixed turn.events [capability] := by
  obtain ⟨events, ran⟩ := ran
  have answered := Program.answers_of_run ran
  exact ⟨⟨before, after, true, events, Program.after_of_run ran⟩, rfl, rfl,
    (ready_plenty answered _).1, (ready_plenty answered _).2⟩

end Sample

/-- Two calls serve the batch and the single job. -/
theorem ready_batch_is_executed :
    ∃ first second : Sample.mixed.Turn [Sample.capability] [Sample.bulk],
      Service.Consecutive [first, second] ∧
      (∃ turn ∈ [first, second], BatchExecuted Sample.mixed turn.events Sample.bulk) ∧
      (SingleExecuted Sample.mixed first.events ∨ SingleExecuted Sample.mixed second.events) := by
  obtain ⟨first, -, left, ready⟩ := @Sample.exists_plentyTurn ⟨0, true⟩ ⟨0, false⟩ ⟨_, rfl⟩
  obtain ⟨second, started, -, ready'⟩ := @Sample.exists_plentyTurn ⟨0, false⟩ ⟨0, true⟩ ⟨_, rfl⟩
  have consecutive : Service.Consecutive [first, second] := by
    simp [Service.Consecutive, left, started]
  have both : ∀ turn ∈ [first, second], BatchReady Sample.mixed turn.events Sample.bulk ∧
      SingleReady Sample.mixed turn.events [Sample.capability] := by
    intro turn member
    rcases List.mem_pair.mp member with rfl | rfl
    · exact ready
    · exact ready'
  obtain ⟨batch, single⟩ := ready_work_is_executed Sample.mixed [Sample.capability] [Sample.bulk] _
    consecutive
  exact ⟨first, second, consecutive, batch Sample.bulk (List.mem_singleton_self _)
    (fun turn member => (both turn member).1) le_rfl,
    single (fun turn member => (both turn member).2) first second (List.infix_refl _)⟩

end OutboxFormal
