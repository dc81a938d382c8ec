import OutboxFormal.Library.Chronicle
import OutboxFormal.Service.Deferrals
import OutboxFormal.Service.StartedWork

/-!
# Deferred capabilities stay paused

The pauses of a service live in memory and are shared by its workers. A pause
check that comes late enough removes a pause; every other step moves a pause
forward or leaves it alone. Over the common record of all threads, a defer that
is stored and not yet over has its pause in memory, so that every pause check
before its time answers that the capability is paused.
-/

namespace OutboxFormal

open Library

variable {capability : JobCapability} {process thread : Nat} {until_ now : Int} {effect : Effect}
variable {event : Event Answer} {state : Deferring} {record : Record Answer}
variable {answer : Answer effect} {δ : Type} {outside : Outside δ} {world after : World δ}

/-! ## Pauses in memory -/

namespace BatchState

variable {state : BatchState} {other : JobCapability}

theorem pause_eq (state : BatchState) (capability : JobCapability) (until_ : Int) :
    (state.pause capability until_).batchPaused = Function.update state.batchPaused capability
      (max (state.batchPaused capability) until_) := by
  unfold pause
  split
  · rename_i earlier
    rw [max_eq_right earlier.le]
  · rename_i later
    rw [max_eq_left (not_lt.mp later), Function.update_eq_self]

theorem le_pause (state : BatchState) (capability : JobCapability) (until_ : Int) :
    until_ ≤ (state.pause capability until_).batchPaused capability := by
  rw [pause_eq, Function.update_self]
  exact le_max_right _ _

theorem pause_forward (until_ : Int) :
    state.batchPaused other ≤ (state.pause capability until_).batchPaused other := by
  rw [pause_eq]
  by_cases same : other = capability
  · rw [same, Function.update_self]
    exact le_max_left _ _
  · rw [Function.update_of_ne same]

/-- A check of another capability, or one that comes too early, removes nothing. -/
theorem check_kept (kept : other ≠ capability ∨ state.paused other now = true) :
    (state.check capability now).batchPaused other = state.batchPaused other := by
  unfold check
  split
  · rfl
  · rename_i ended
    refine Function.update_of_ne ?_ _ _
    rintro rfl
    exact kept.elim (fun different => different rfl) ended

/-- A pause until an instant after the zero time holds before that instant. -/
theorem paused_of_le (positive : 0 < until_) (early : now < until_)
    (paused : until_ ≤ state.batchPaused capability) : state.paused capability now = true :=
  decide_eq_true ⟨by omega, by omega⟩

end BatchState

namespace World

/-- When the pauses of a service end. -/
def pauses (world : World δ) (process : Nat) : JobCapability → Int :=
  (world.processes process).batchState.batchPaused

theorem pauses_setProcess {state : ProcessState}
    (same : state.batchState = (world.processes process).batchState) :
    (world.setProcess process state).pauses = world.pauses := by
  funext other
  by_cases changed : other = process
  · subst changed
    simp [pauses, setProcess, same]
  · simp [pauses, setProcess, changed]

theorem pauses_cancelProcess (process : Nat) (cause : OutboxError) :
    (world.cancelProcess process cause).pauses = world.pauses := by
  unfold cancelProcess
  split
  · rfl
  · have kept : ({ world.processes process with cause := some cause } : ProcessState).batchState =
      (world.processes process).batchState := rfl
    exact pauses_setProcess kept

theorem pauses_setBatchState (process : Nat) (state : BatchState) :
    (world.setBatchState process state).pauses =
      Function.update world.pauses process state.batchPaused := by
  funext other
  by_cases changed : other = process
  · subst changed
    simp [pauses, setBatchState, setProcess]
  · simp [pauses, setBatchState, setProcess, changed]

end World

/-- The effects that may change a pause. -/
def Effect.ofPauses : Effect → Bool
  | .batchCapabilityPaused .. | .pauseBatchCapability .. | .nextBatchRetry .. => true
  | _ => false

namespace World

theorem react_pauses (other : effect.ofPauses = false)
    (reacts : world.react thread effect answer = some after) :
    after.pauses = world.pauses := by
  cases effect with
  | cancelCause group cause =>
    cases reacts
    rfl
  | notifyWorkerExit process =>
    cases reacts
    exact pauses_cancelProcess _ _
  | cause | err | isDraining | fillWait | waitForWorker =>
    obtain ⟨-, rfl⟩ := ensure_eq_some.mp reacts
    rfl
  | claimRLock process | claimRUnlock process =>
    cases reacts
    exact pauses_setProcess rfl
  | resetBatchRetryStreak process capability =>
    cases reacts
    exact (pauses_setBatchState _ _).trans (Function.update_eq_self ..)
  | newManager | returned =>
    cases reacts
    rfl
  | withCancelCause parent =>
    cases parent with
    | run process =>
      simp only [react] at reacts
      split at reacts
      · cases reacts
        rfl
      · cases reacts
    | _ => cases reacts
  | lockContext group ctx =>
    cases answer with
    | error cause =>
      obtain ⟨-, rfl⟩ := ensure_eq_some.mp reacts
      rfl
    | ok ledger =>
      obtain ⟨state, -, -, rfl⟩ := onManager_eq_some.mp reacts
      rfl
  | lock | store | unlock | setError | getError | stop | waitDone | closeDone | tick =>
    obtain ⟨state, -, -, rfl⟩ := onManager_eq_some.mp reacts
    rfl
  | batchCapabilityPaused | pauseBatchCapability | nextBatchRetry => cases other
  | _ => cases reacts

theorem performs_pauses (other : effect.ofPauses = false)
    (performs : (services outside).perform thread world effect answer after) :
    after.pauses = world.pauses := by
  simp only [services] at performs
  split at performs
  · exact react_pauses other performs
  · obtain ⟨next, -, rfl⟩ := performs
    rfl

theorem moves_pauses (moves : World.Moves outside world after) : after.pauses = world.pauses := by
  cases moves with
  | cancel process cause => exact pauses_cancelProcess _ _
  | beginDrain process free => exact pauses_setProcess rfl
  | outside moves => rfl

/-- A pause check answers from the pauses and forgets one that is over. -/
theorem performs_check {answer : Bool} (performs : (services outside).perform thread world
      (.batchCapabilityPaused process capability now) answer after) :
    answer = (world.processes process).batchState.paused capability now ∧
      after = world.setBatchState process
        ((world.processes process).batchState.check capability now) := by
  have reacts : world.react thread (.batchCapabilityPaused process capability now) answer =
    some after := performs
  simp only [react] at reacts
  split at reacts
  · rename_i answered
    exact ⟨answered, (Option.some.inj reacts).symm⟩
  · cases reacts

/-- Only a check of the capability can shorten its pause. -/
theorem performs_forward (performs : (services outside).perform thread world effect answer after)
    (unchecked : ∀ now, effect ≠ .batchCapabilityPaused process capability now) :
    world.pauses process capability ≤ after.pauses process capability := by
  -- A new pause map of one service, pointwise not before the old one.
  have updated : ∀ (service : Nat) (state : BatchState),
      (service = process →
        (world.processes service).batchState.batchPaused capability ≤
          state.batchPaused capability) →
      world.pauses process capability ≤
        (world.setBatchState service state).pauses process capability := by
    intro service state later
    rw [pauses_setBatchState]
    by_cases same : process = service
    · rw [same, Function.update_self]
      exact later same.symm
    · rw [Function.update_of_ne same]
  cases effect with
  | pauseBatchCapability service paused until_ =>
    cases (performs : some _ = some after)
    exact updated _ _ fun _ => BatchState.pause_forward until_
  | nextBatchRetry service paused now =>
    have reacts : world.react thread (.nextBatchRetry service paused now) answer =
      some after := performs
    simp only [react] at reacts
    split at reacts
    · cases reacts
      exact updated _ _ fun _ => BatchState.pause_forward _
    · cases reacts
  | batchCapabilityPaused service checked now =>
    obtain ⟨-, rfl⟩ := performs_check performs
    refine updated _ _ fun same => (BatchState.check_kept (.inl ?_)).ge
    rintro rfl
    exact unchecked now (same ▸ rfl)
  | _ => exact (congrFun (congrFun (performs_pauses rfl performs) process) capability).ge

end World

/-! ## Events about pauses -/

inductive PausesUntil (process : Nat) (capability : JobCapability) (until_ : Int) :
    Event Answer → Prop where
  | pause : PausesUntil process capability until_
      ⟨.pauseBatchCapability process capability until_, ()⟩
  | retry (now : Int) : PausesUntil process capability until_
      ⟨.nextBatchRetry process capability now, until_⟩

def checksAfter (process : Nat) (capability : JobCapability) (until_ : Int) : Event Answer → Bool
  | ⟨.batchCapabilityPaused service checked now, _⟩ =>
    decide (service = process ∧ checked = capability ∧ until_ ≤ now)
  | _ => false

theorem exists_check (checks : checksAfter process capability until_ event = true) :
    ∃ now answer, event = ⟨.batchCapabilityPaused process capability now, answer⟩ ∧
      until_ ≤ now := by
  unfold checksAfter at checks
  split at checks
  · obtain ⟨rfl, rfl, late⟩ := of_decide_eq_true checks
    exact ⟨_, _, rfl, late⟩
  · cases checks

namespace World

variable (performs : (services outside).perform thread world effect answer after)
include performs

theorem performs_paused (pauses : PausesUntil process capability until_ ⟨effect, answer⟩) :
    until_ ≤ after.pauses process capability := by
  have updated : ∀ state : BatchState, until_ ≤ state.batchPaused capability →
      until_ ≤ (world.setBatchState process state).pauses process capability := by
    intro state later
    rw [pauses_setBatchState, Function.update_self]
    exact later
  cases pauses with
  | pause =>
    cases (performs : some _ = some after)
    exact updated _ (BatchState.le_pause _ _ _)
  | retry now =>
    have reacts : world.react thread (.nextBatchRetry process capability now) until_ =
      some after := performs
    simp only [react] at reacts
    split at reacts
    · rename_i answered
      cases reacts
      refine updated _ ?_
      rw [answered]
      exact BatchState.le_pause _ _ _
    · cases reacts

/-- A pause that is not over survives every step. -/
theorem performs_kept (positive : 0 < until_)
    (goes_on : checksAfter process capability until_ ⟨effect, answer⟩ = false)
    (paused : until_ ≤ world.pauses process capability) :
    until_ ≤ after.pauses process capability := by
  by_cases checked : ∃ now, effect = .batchCapabilityPaused process capability now
  · obtain ⟨now, rfl⟩ := checked
    have early : now < until_ := by
      refine not_le.mp fun late => absurd goes_on (Bool.not_eq_false _ ▸ ?_)
      exact decide_eq_true ⟨rfl, rfl, late⟩
    obtain ⟨-, rfl⟩ := performs_check performs
    rw [pauses_setBatchState, Function.update_self, BatchState.check_kept
      (.inr (BatchState.paused_of_le positive early paused))]
    exact paused
  · exact paused.trans (performs_forward performs fun now same => checked ⟨now, same⟩)

end World

/-! ## Records -/

/-- A pause until this time was made, and no check ended it since. -/
def Standing (process : Nat) (capability : JobCapability) (until_ : Int) : Record Answer → Prop
  | [] => False
  | (_, event) :: record =>
    (PausesUntil process capability until_ event ∨ Standing process capability until_ record) ∧
      checksAfter process capability until_ event = false

/-- The event stores a defer until this time, for a worker whose history is
condensed in the state: of the job it handed to a handler last, or of an item of
the batch that its last pause check began. -/
def Deferring.stores (state : Deferring) (process : Nat) (capability : JobCapability)
    (until_ : Int) : Event Answer → Bool
  | ⟨.leased _ (.defer availableAt) jobID _ _, answer⟩ =>
    decide (answer = (1, none) ∧ availableAt = until_ ∧
      (∃ job ∈ state.job, job.id = jobID ∧ claimedCapability job = capability) ∧
      ∃ place ∈ state.place, place.1 = process)
  | ⟨.runInTx _ (.applyOutcomes _ _ outcomes), failure⟩ =>
    decide (failure = none ∧ state.place = some (process, capability) ∧
      ∃ outcome ∈ outcomes, outcome.kind = .defer ∧ outcome.availableAt = until_)
  | _ => false

/-- A defer until this time was stored, and no check ended it since. -/
def deferred (process : Nat) (capability : JobCapability) (until_ : Int) : Record Answer → Bool
  | [] => false
  | (thread, event) :: record =>
    ((deferring.state (Record.of record thread)).stores process capability until_ event ||
      deferred process capability until_ record) &&
      !checksAfter process capability until_ event

/-- What a step has to meet: defers end after the zero time, a single job is
deferred with the positive schema version it was admitted under, and no pause
check falls between a defer and its pause or, too late for the pause, between a
pause and the outcomes it was made for. -/
def orderly (record : Record Answer) (thread : Nat) : Event Answer → Bool
  | ⟨.leased _ (.defer until_) _ _ _, answer⟩ =>
    decide (answer = (1, none) → 0 < until_ ∧
      ∀ job ∈ (deferring.state (record.of thread)).job, 0 < job.schemaVersion)
  | ⟨.runInTx _ (.applyOutcomes _ _ outcomes), failure⟩ =>
    decide (failure = none → ∀ outcome ∈ outcomes, outcome.kind = .defer → 0 < outcome.availableAt)
  | ⟨.batchCapabilityPaused process capability now, _⟩ =>
    record.all fun entry =>
      let state := deferring.state (record.of entry.1)
      decide ((∀ pause ∈ state.owed, (pause.1, pause.2.1) ≠ (process, capability)) ∧
        ∀ pause ∈ state.pending, pause.1 = process → pause.2.1 = capability → now < pause.2.2)
  | _ => true

namespace Deferring

theorem stores_cases (stores : state.stores process capability until_ event = true) :
    (∃ ctx token now job checked,
      event = ⟨.leased ctx (.defer until_) job.id token now, (1, none)⟩ ∧
      state.job = some job ∧ claimedCapability job = capability ∧
      state.place = some (process, checked)) ∨
    ∃ ctx token jobs outcomes outcome,
      event = ⟨.runInTx ctx (.applyOutcomes token jobs outcomes), none⟩ ∧
      state.place = some (process, capability) ∧ outcome ∈ outcomes ∧ outcome.kind = .defer ∧
      outcome.availableAt = until_ := by
  unfold Deferring.stores at stores
  split at stores
  · obtain ⟨rfl, rfl, ⟨job, handled, rfl, admitted⟩, place, found, rfl⟩ := of_decide_eq_true stores
    exact .inl ⟨_, _, _, job, place.2, rfl, handled, admitted, found⟩
  · obtain ⟨rfl, place, outcome, member, defers, time⟩ := of_decide_eq_true stores
    exact .inr ⟨_, _, _, _, outcome, rfl, place, member, defers, time⟩
  · cases stores

end Deferring

theorem orderly_positive (steps : orderly record thread event = true)
    (stores : (deferring.state (record.of thread)).stores process capability until_ event = true) :
    0 < until_ := by
  rcases Deferring.stores_cases stores with ⟨_, _, _, _, _, rfl, -⟩ |
    ⟨_, _, _, _, outcome, rfl, -, member, defers, rfl⟩
  · exact (of_decide_eq_true steps rfl).1
  · exact of_decide_eq_true steps rfl outcome member defers

/-- At an orderly check no thread owes a pause of the capability, and no pending
pause of it is over. -/
theorem orderly_check {answer : Bool}
    (steps : orderly record thread ⟨.batchCapabilityPaused process capability now, answer⟩ = true)
    (other : Nat) (until_ : Int) :
    (deferring.state (record.of other)).owed ≠ some (process, capability, until_) ∧
      ((process, capability, until_) ∈ (deferring.state (record.of other)).pending →
        now < until_) := by
  by_cases present : ∃ entry ∈ record, entry.1 = other
  · obtain ⟨entry, member, rfl⟩ := present
    obtain ⟨owes, pends⟩ := of_decide_eq_true (List.all_eq_true.mp steps entry member)
    exact ⟨fun owed => owes _ owed rfl, fun pending => pends _ pending rfl rfl⟩
  · rw [Record.of_eq_nil fun entry member same => present ⟨entry, member, same⟩]
    exact ⟨nofun, nofun⟩

structure Kept (record : Record Answer) : Prop where
  pending : ∀ thread process capability until_,
    (process, capability, until_) ∈ (deferring.state (record.of thread)).pending →
    Standing process capability until_ record
  covered : ∀ process capability until_, deferred process capability until_ record = true →
    0 < until_ ∧ (Standing process capability until_ record ∨
      ∃ thread, (deferring.state (record.of thread)).owed = some (process, capability, until_))

/-- The state of a thread after an event of its own or of another thread. -/
theorem state_recorded (other : Nat) :
    deferring.state (Record.of ((thread, ⟨effect, answer⟩) :: record) other) =
      if other = thread then (deferring.state (record.of thread)).next effect answer
      else deferring.state (record.of other) := by
  split
  · rename_i same
    rw [same, Record.of_cons_self]
    rfl
  · rename_i different
    rw [Record.of_cons_ne (Ne.symm different)]

theorem Deferring.pending_next
    (member : (process, capability, until_) ∈ (state.next effect answer).pending) :
    PausesUntil process capability until_ ⟨effect, answer⟩ ∨
      (process, capability, until_) ∈ state.pending := by
  cases effect with
  | pauseBatchCapability service paused time =>
    simp only [Deferring.next] at member
    split at member
    · exact .inr member
    · rcases List.mem_cons.mp member with same | member
      · cases same
        exact .inl .pause
      · exact .inr member
  | nextBatchRetry service paused now =>
    rcases List.mem_cons.mp member with same | member
    · cases same
      exact .inl (.retry now)
    · exact .inr member
  | runInTx ctx callback => cases member
  | returned result =>
    cases result with
    | group error => cases member
    | runWorker error => exact .inr member
  | leased ctx method jobID token now =>
    cases method with
    | defer availableAt =>
      simp only [Deferring.next] at member
      split at member <;> exact .inr member
    | _ => exact .inr member
  | _ => exact .inr member

/-- A pause that stood before a step that does not end it stands after it. -/
theorem Standing.step (standing : Standing process capability until_ record)
    (goes_on : checksAfter process capability until_ event = false) :
    Standing process capability until_ ((thread, event) :: record) :=
  ⟨.inr standing, goes_on⟩

theorem standing_of_pauses (pauses : PausesUntil process capability until_ event) :
    Standing process capability until_ ((thread, event) :: record) := by
  refine ⟨.inl pauses, ?_⟩
  cases pauses <;> rfl

theorem Kept.pending_step (kept : Kept record)
    (steps : orderly record thread ⟨effect, answer⟩ = true) :
    ∀ other process capability until_,
      (process, capability, until_) ∈
        (deferring.state (Record.of ((thread, ⟨effect, answer⟩) :: record) other)).pending →
      Standing process capability until_ ((thread, ⟨effect, answer⟩) :: record) := by
  intro other process capability until_ member
  have remains : ∀ other, (process, capability, until_) ∈
      (deferring.state (record.of other)).pending →
      Standing process capability until_ ((thread, ⟨effect, answer⟩) :: record) := by
    intro other pending
    refine (kept.pending other _ _ _ pending).step (Bool.eq_false_iff.mpr fun checks => ?_)
    obtain ⟨now, paused, same, late⟩ := exists_check checks
    rw [same] at steps
    exact absurd ((orderly_check steps other until_).2 pending) (not_lt.mpr late)
  rw [state_recorded] at member
  split at member
  · rcases Deferring.pending_next member with pauses | pending
    · exact standing_of_pauses pauses
    · exact remains thread pending
  · exact remains other member

theorem Deferring.owed_next {checked : JobCapability} {ctx : Ctx} {token : LeaseToken} {job : Job}
    (handled : state.job = some job) (place : state.place = some (process, checked))
    (versioned : 0 < job.schemaVersion) :
    (state.next (.leased ctx (.defer until_) job.id token now) (1, none)).owed =
      some (process, claimedCapability job, until_) := by
  have same : normalizeSchemaVersion job.schemaVersion = job.schemaVersion :=
    if_neg (not_le.mpr versioned)
  simp [Deferring.next, pauseOf, place, handled, claimedCapability, same]

theorem Kept.covered_step (kept : Kept record)
    (steps : orderly record thread ⟨effect, answer⟩ = true)
    (allowed : deferring.allowed (deferring.state (record.of thread)) effect) :
    ∀ process capability until_,
      deferred process capability until_ ((thread, ⟨effect, answer⟩) :: record) = true →
      0 < until_ ∧ (Standing process capability until_ ((thread, ⟨effect, answer⟩) :: record) ∨
        ∃ other, (deferring.state (Record.of ((thread, ⟨effect, answer⟩) :: record) other)).owed =
          some (process, capability, until_)) := by
  intro process capability until_ remains
  obtain ⟨earlier, goes_on⟩ := Bool.and_eq_true_iff.mp remains
  have goes_on : checksAfter process capability until_ ⟨effect, answer⟩ = false :=
    by simpa using goes_on
  rcases Bool.or_eq_true_iff.mp earlier with stores | earlier
  · refine ⟨orderly_positive steps stores, ?_⟩
    rcases Deferring.stores_cases stores with
      ⟨ctx, token, now, job, checked, same, handled, rfl, place⟩ |
      ⟨ctx, token, jobs, outcomes, outcome, same, place, member, defers, rfl⟩
    · refine .inr ⟨thread, ?_⟩
      cases same
      rw [state_recorded, if_pos rfl]
      exact Deferring.owed_next handled place ((of_decide_eq_true steps rfl).2 job handled)
    · cases same
      obtain ⟨service, asked, found, paused⟩ := allowed.2
      cases place.symm.trans found
      exact .inl ((kept.pending thread _ _ _ (paused _ member defers)).step goes_on)
  · obtain ⟨positive, standing | ⟨other, owes⟩⟩ := kept.covered _ _ _ earlier
    · exact ⟨positive, .inl (standing.step goes_on)⟩
    · refine ⟨positive, ?_⟩
      by_cases same : other = thread
      · subst same
        obtain rfl := allowed.1 _ _ _ owes
        exact .inl (standing_of_pauses .pause)
      · refine .inr ⟨other, ?_⟩
        rw [state_recorded, if_neg same]
        exact owes

/-! ## Claims -/

/-- The latest check of the thread's current call that left the capability free:
its service, its time, and what was on record before it. -/
def freeCheck (thread : Nat) (capability : JobCapability) :
    Record Answer → Option (Nat × Int × Record Answer)
  | [] => none
  | (performer, event) :: record =>
    if performer = thread then
      match event with
      | ⟨.batchCapabilityPaused process checked now, false⟩ =>
        if checked = capability then some (process, now, record)
        else freeCheck thread capability record
      | ⟨.returned (.group _), _⟩ => none
      | _ => freeCheck thread capability record
    else freeCheck thread capability record

theorem freeCheck_always {step : Record Answer → Nat → Event Answer → Prop}
    {first record : Record Answer}
    (found : freeCheck thread capability record = some (process, now, first))
    (always : record.Always step) :
    step first thread ⟨.batchCapabilityPaused process capability now, false⟩ := by
  induction record with
  | nil => cases found
  | cons entry record ih =>
    obtain ⟨performer, event⟩ := entry
    unfold freeCheck at found
    split at found
    · rename_i same
      split at found
      · split at found
        · rename_i checked
          cases found
          rw [← same, ← checked]
          exact always.1
        · exact ih found always.2
      · cases found
      · exact ih found always.2
    · exact ih found always.2

theorem Deferring.free_next (member : capability ∈ (state.next effect answer).free) :
    (∃ process now, (⟨effect, answer⟩ : Event Answer) =
      ⟨.batchCapabilityPaused process capability now, false⟩) ∨
      capability ∈ state.free ∧ ∀ err, effect ≠ .returned (.group err) := by
  cases effect with
  | batchCapabilityPaused process checked now =>
    cases answer with
    | true => exact .inr ⟨member, by simp⟩
    | false =>
      rcases List.mem_cons.mp member with rfl | member
      · exact .inl ⟨process, now, rfl⟩
      · exact .inr ⟨member, by simp⟩
  | returned result =>
    cases result with
    | group error => cases member
    | runWorker error => exact .inr ⟨member, by simp⟩
  | pauseBatchCapability process paused until_ =>
    simp only [Deferring.next] at member
    split at member <;> exact .inr ⟨member, by simp⟩
  | leased ctx method jobID token now =>
    cases method with
    | defer availableAt =>
      simp only [Deferring.next] at member
      split at member <;> exact .inr ⟨member, by simp⟩
    | _ => exact .inr ⟨member, by simp⟩
  | _ => exact .inr ⟨member, by simp⟩

theorem freeCheck_of_free (record : Record Answer)
    (member : capability ∈ (deferring.state (record.of thread)).free) :
    ∃ process now first, freeCheck thread capability record = some (process, now, first) := by
  induction record with
  | nil => cases member
  | cons entry record ih =>
    obtain ⟨performer, effect, answer⟩ := entry
    rw [state_recorded] at member
    split at member
    · rename_i same
      subst same
      rcases Deferring.free_next member with ⟨process, now, checks⟩ | ⟨member, inside⟩
      · rw [checks]
        exact ⟨process, now, record, by simp [freeCheck]⟩
      · unfold freeCheck
        rw [if_pos rfl]
        split
        · split
          · exact ⟨_, _, _, rfl⟩
          · exact ih member
        · rename_i ends
          cases ends
          exact absurd rfl (inside _)
        · exact ih member
    · rename_i different
      unfold freeCheck
      rw [if_neg fun same => different same.symm]
      exact ih member

/-! ## Every interleaving -/

/-- A pause check before the end of a stored defer answers that it is paused. -/
def Refuses (older : Record Answer) (_ : Nat) (event : Event Answer) : Prop :=
  ∀ process capability now answer until_,
    event = ⟨.batchCapabilityPaused process capability now, answer⟩ →
    deferred process capability until_ older = true → now < until_ → answer = true

/-- A claim passes a capability only if a pause check of the same call left it
free, at a time at which no stored defer held it back. -/
def Asks (older : Record Answer) (thread : Nat) (event : Event Answer) : Prop :=
  ∀ ctx request answer, event = ⟨.claim ctx request, answer⟩ →
    ∀ capability ∈ request.method.capabilities,
      ∃ process now first, freeCheck thread capability older = some (process, now, first) ∧
        ∀ until_, deferred process capability until_ first = true → until_ ≤ now

/-- A defer that the repositories accepted was stored for some capability. -/
def Attributed (older : Record Answer) (thread : Nat) (event : Event Answer) : Prop :=
  ∀ until_, ((∃ ctx jobID token now,
      event = ⟨.leased ctx (.defer until_) jobID token now, (1, none)⟩) ∨
    ∃ ctx token jobs outcomes, event = ⟨.runInTx ctx (.applyOutcomes token jobs outcomes), none⟩ ∧
      ∃ outcome ∈ outcomes, outcome.kind = .defer ∧ outcome.availableAt = until_) →
    ∃ process capability,
      (deferring.state (older.of thread)).stores process capability until_ event = true

def Ordered (record : Record Answer) : Prop :=
  record.Always fun older thread event => orderly older thread event = true

instance (record : Record Answer) : Decidable (Ordered record) :=
  Record.decidableAlways record

/-- The invariant of a run. -/
structure Sound (world : World δ) (record : Record Answer) : Prop where
  standing : ∀ process capability until_, 0 < until_ →
    Standing process capability until_ record → until_ ≤ world.pauses process capability
  stored : record.Always Attributed
  kept : Ordered record → Kept record
  refuses : Ordered record → record.Always Refuses
  asks : Ordered record → record.Always Asks

theorem sound_start : Sound world [] where
  standing := nofun
  stored := trivial
  kept _ := ⟨nofun, nofun⟩
  refuses _ := trivial
  asks _ := trivial

theorem Sound.refuses_step (sound : Sound world record)
    (steps : orderly record thread ⟨effect, answer⟩ = true) (before : Ordered record)
    (performs : (services outside).perform thread world effect answer after) :
    Refuses record thread ⟨effect, answer⟩ := by
  intro process capability now paused until_ checks remains early
  cases checks
  obtain ⟨positive, standing | ⟨other, owes⟩⟩ := (sound.kept before).covered _ _ _ remains
  · have stands := sound.standing _ _ _ positive standing
    obtain ⟨answered, -⟩ := World.performs_check performs
    rw [answered]
    exact BatchState.paused_of_le positive early stands
  · exact absurd owes (orderly_check steps other until_).1

theorem Sound.asks_step (sound : Sound world record) (before : Ordered record)
    (allowed : deferring.allowed (deferring.state (record.of thread)) effect) :
    Asks record thread ⟨effect, answer⟩ := by
  intro ctx request rows claims capability member
  cases claims
  obtain ⟨process, now, first, found⟩ := freeCheck_of_free record (allowed.2 capability member)
  refine ⟨process, now, first, found, fun until_ remains => ?_⟩
  -- The check answered that the capability was not paused.
  have refuses := freeCheck_always found (sound.refuses before)
  exact not_lt.mp fun early =>
    Bool.false_ne_true (refuses process capability now false until_ rfl remains early)

theorem stored_step (allowed : deferring.allowed (deferring.state (record.of thread)) effect) :
    Attributed record thread ⟨effect, answer⟩ := by
  rintro until_ (⟨ctx, jobID, token, now, defers⟩ |
    ⟨ctx, token, jobs, outcomes, stores, outcome, member, kind, time⟩)
  · cases defers
    obtain ⟨⟨job, handled, same⟩, place, found⟩ := allowed.2
    exact ⟨place.1, _, decide_eq_true ⟨rfl, rfl, ⟨job, handled, same, rfl⟩, place, found, rfl⟩⟩
  · cases stores
    obtain ⟨process, capability, place, -⟩ := allowed.2
    exact ⟨process, capability, decide_eq_true ⟨rfl, place, outcome, member, kind, time⟩⟩

theorem recording_sound : Recording (services outside) (fun _ => deferring) Sound where
  spawns effect _ child member := by
    cases effect with
    | newManager manager ledger rounds =>
      obtain rfl := List.mem_singleton.mp member
      exact Deferring.watched_run manager rounds
    | _ => cases member
  expects _ _ _ _ := trivial
  performs := by
    intro world record thread role effect answer after sound allowed performs
    refine ⟨?_, ⟨stored_step allowed, sound.stored⟩, ?_, ?_, ?_⟩
    · rintro process capability until_ positive ⟨pauses | standing, goes_on⟩
      · exact World.performs_paused performs pauses
      · exact World.performs_kept performs positive goes_on
          (sound.standing _ _ _ positive standing)
    · rintro ⟨steps, before⟩
      exact ⟨(sound.kept before).pending_step steps,
        (sound.kept before).covered_step steps allowed⟩
    · rintro ⟨steps, before⟩
      exact ⟨sound.refuses_step steps before performs, sound.refuses before⟩
    · rintro ⟨-, before⟩
      exact ⟨sound.asks_step before allowed, sound.asks before⟩
  moves := by
    intro world record after sound moves
    refine ⟨?_, sound.stored, sound.kept, sound.refuses, sound.asks⟩
    rw [World.moves_pauses moves]
    exact sound.standing

/-- In every run whose steps are orderly, a deferred capability stays paused
until its durable time: accepted defers are on record, a pause check before the
time of one answers that the capability is paused, and a claim passes only
capabilities that no stored defer held back at the time of their check. In any
world at all, only a check of a capability shortens its pause. -/
theorem deferred_capability_stays_paused (outside : Outside δ)
    (config : Config Role (World δ) Answer)
    (last : Config Role (World δ × Record Answer) Answer) (started : Started config)
    (reaches : (services outside).recorded.Reaches ⟨(config.world, []), config.threads⟩ last)
    (ordered : Ordered last.world.2) :
    last.world.2.Always Attributed ∧ last.world.2.Always Refuses ∧ last.world.2.Always Asks ∧
      ∀ thread (world after : World δ) effect answer process capability,
        (services outside).perform thread world effect answer after →
        (∀ now, effect ≠ .batchCapabilityPaused process capability now) →
        world.pauses process capability ≤ after.pauses process capability := by
  have fresh : ∀ thread ∈ config.threads, thread.history = [] := by
    intro thread member
    obtain ⟨s, index, rfl⟩ := started.2 thread member
    rfl
  have watched : ∀ thread ∈ config.threads, thread.Watched fun _ => deferring := by
    intro thread member
    obtain ⟨s, index, rfl⟩ := started.2 thread member
    exact Deferring.watched_worker s index
  have sound : Sound last.world.1 last.world.2 :=
    recording_sound.reaches fresh watched sound_start reaches
  refine ⟨sound.stored, sound.refuses ordered, sound.asks ordered, ?_⟩
  exact fun _ _ _ _ _ _ _ performs unchecked => World.performs_forward performs unchecked

/-! ## A row without a schema version -/

/-- The latest event is a claim of the capability although a defer until this
time was stored when the call checked it. -/
def overtakes (capability : JobCapability) (until_ : Int) : Record Answer → Bool
  | (thread, ⟨.claim _ request, _⟩) :: older =>
    decide (capability ∈ request.method.capabilities) &&
      (freeCheck thread capability older).any fun check =>
        decide (check.2.1 < until_) && deferred check.1 capability until_ check.2.2
  | _ => false

theorem not_asks_of_overtakes (passed : overtakes capability until_ record = true) :
    ¬ record.Always Asks := by
  unfold overtakes at passed
  split at passed
  · obtain ⟨member, check⟩ := Bool.and_eq_true_iff.mp passed
    intro always
    obtain ⟨process, now, first, found, free⟩ :=
      always.1 _ _ _ rfl capability (of_decide_eq_true member)
    rw [found] at check
    obtain ⟨early, held⟩ := Bool.and_eq_true_iff.mp check
    exact absurd (free until_ held) (not_le.mpr (of_decide_eq_true early))
  · cases passed

namespace Sample

/-- The handler asks to be called again at instant 9. -/
def deferAnswers (rows : List Job) (world : World Unit × Record Answer) :
    (effect : Effect) → Option (Answer effect)
  | .handled _ => some (.returned (some (.mark (.deferAt 9) (.text "later"))))
  | effect => answers rows world.1 effect

/-- A worker defers the row it claimed, and begins its next round. -/
def deferral (version : Int) : Option (Config Role (World Unit × Record Answer) Answer) :=
  let work := ScriptLine.thread 0 (deferAnswers [{ row 1 with schemaVersion := version }])
  scripted.recorded.play ⟨((start single).world, []), (start single).threads⟩
    (List.replicate 35 work ++ List.replicate 2 (.thread 1 fun world => stopped world.1) ++
      List.replicate 17 work)

end Sample

/-- The row was claimed under version 1 but reported with version 0: its defer
pauses a capability that no claim asks for, and the next claim passes version 1. -/
theorem deferred_capability_claimed :
    ∃ last, (services anything).recorded.Reaches
        ⟨((Sample.start Sample.single).world, []), (Sample.start Sample.single).threads⟩ last ∧
      overtakes Sample.capability 9 last.world.2 = true ∧ ¬ last.world.2.Always Asks := by
  have ends : (Sample.deferral 0).map (fun last => overtakes Sample.capability 9 last.world.2) =
      some true := by decide +kernel
  obtain ⟨last, plays, passed⟩ := Option.map_eq_some_iff.mp ends
  exact ⟨last, Interpreter.play_reaches plays, passed, not_asks_of_overtakes passed⟩

theorem deferred_capability_paused :
    ∃ last, (services anything).recorded.Reaches
        ⟨((Sample.start Sample.single).world, []), (Sample.start Sample.single).threads⟩ last ∧
      Ordered last.world.2 ∧ deferred 0 Sample.capability 9 last.world.2 = true ∧
      last.world.2.Always Attributed ∧ last.world.2.Always Refuses ∧ last.world.2.Always Asks := by
  have ends : (Sample.deferral 1).map (fun last => decide (Ordered last.world.2) &&
      deferred 0 Sample.capability 9 last.world.2) = some true := by decide +kernel
  obtain ⟨last, plays, held⟩ := Option.map_eq_some_iff.mp ends
  obtain ⟨ordered, remains⟩ := Bool.and_eq_true_iff.mp held
  have started : Started (Sample.start Sample.single) :=
    ⟨⟨(), rfl⟩, fun thread member => ⟨Sample.single, 1, List.mem_singleton.mp member⟩⟩
  have reaches := Interpreter.play_reaches plays
  obtain ⟨stored, refuses, asks, -⟩ := deferred_capability_stays_paused anything _ last started
    reaches (of_decide_eq_true ordered)
  exact ⟨last, reaches, of_decide_eq_true ordered, remains, stored, refuses, asks⟩

end OutboxFormal
