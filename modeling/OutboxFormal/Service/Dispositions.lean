import OutboxFormal.Library.Runs
import OutboxFormal.Service.Footprints
import OutboxFormal.Service.Scripts

/-!
# One classification of failures

What a handler error leads to, read off the tree of the error: the typed
wrappers in the order `errors.As` meets them, the attempt limit, and the retry
policy. The single path and the batch path both follow it, at one completion
time; they differ where neither a time nor a policy is given.
-/

namespace OutboxFormal

open Library Storage GoError
open Library.Monitor (wp_bind wp_imp wp_mono wp_onExit wp_only wp_seq wp_step)

variable {ctx : Ctx} {configured : Bool} {policy : RetryAttempt → RetryDelay}
variable {now maxAttempts : Int} {error : OutboxError}

/-! ## The classification -/

/-- What becomes of a failed job. -/
inductive Settlement where
  | dlq (reason : String)
  | defer (availableAt : Int)
  | retry (availableAt : Int)
  /-- The lease runs out by itself. -/
  | leased
  /-- The retry policy failed and nothing is stored. -/
  | failed (error : OutboxError)
  deriving DecidableEq, Repr

def Disposition.deferTime? : Disposition → Option Int
  | .deferAt time => some time
  | _ => none

def Disposition.retryTime? : Disposition → Option Int
  | .retryAt time => some time
  | _ => none

/-- The counted failure a retry policy is asked about. -/
def retryAttempt (job : Job) (error : OutboxError) : RetryAttempt :=
  ⟨job.id, claimedCapability job, job.attempts, error⟩

/-- A retry of this failure is scheduled by the policy. -/
def asksPolicy (configured : Bool) (error : OutboxError) : Bool :=
  configured && (error.marks.findSome? Disposition.retryTime?).isNone

/-- The retry policy decides this failure. -/
def consultsPolicy (configured : Bool) (maxAttempts : Int) (job : Job) (error : OutboxError) :
    Bool :=
  decide (.permanent ∉ error.marks) && (error.marks.findSome? Disposition.deferTime?).isNone &&
    decide (job.attempts < maxAttempts) && asksPolicy configured error

/-- What the retry policy is asked about this failure. -/
def questions (configured : Bool) (maxAttempts : Int) (job : Job) (error : OutboxError) :
    List RetryAttempt :=
  if consultsPolicy configured maxAttempts job error then [retryAttempt job error] else []

/-- A policy's answer; a panic and a negative delay fail closed. -/
def RetryDelay.settlement (now : Int) : RetryDelay → Settlement
  | .panicked value stack =>
    .failed (leafError .errRetryPolicy (": panic: " ++ value ++ "\nstack:\n" ++ stack))
  | .delay duration =>
    if duration < 0 then
      .failed (leafError .errRetryPolicy s!": negative delay {duration}ns")
    else .retry (now + duration)

/-- The retry of a counted failure at `now`. -/
def retrySettlement (configured : Bool) (policy : RetryAttempt → RetryDelay) (now : Int)
    (job : Job) (error : OutboxError) : Settlement :=
  match error.marks.findSome? Disposition.retryTime? with
  | some time => .retry (max now time)
  | none => if configured then (policy (retryAttempt job error)).settlement now else .leased

/-- The classification of a failure at `now`. -/
def settlement (configured : Bool) (policy : RetryAttempt → RetryDelay) (now maxAttempts : Int)
    (job : Job) (error : OutboxError) : Settlement :=
  if .permanent ∈ error.marks then .dlq ("permanent failure: " ++ errorText error)
  else
    match error.marks.findSome? Disposition.deferTime? with
    | some time => .defer (max now time)
    | none =>
      if maxAttempts ≤ job.attempts then .dlq ("max attempts exceeded: " ++ errorText error)
      else retrySettlement configured policy now job error

/-- The outcome of a batch item: a job the single path leaves leased is retried
after the backoff. -/
def Settlement.outcome (now : Int) (job : Job) : Settlement → Except OutboxError BatchJobOutcome
  | .dlq reason => .ok (dlqExecutionBatchOutcome job reason)
  | .defer availableAt => .ok { jobID := job.id, kind := .defer, availableAt := availableAt }
  | .retry availableAt => .ok { jobID := job.id, kind := .retry, availableAt := availableAt }
  | .leased =>
    .ok { jobID := job.id, kind := .retry, availableAt := now + batchAttemptBackoff job.attempts }
  | .failed error => .error error

/-- The outcome of one item of an accepted result. -/
def batchOutcome (configured : Bool) (policy : RetryAttempt → RetryDelay) (now maxAttempts : Int) :
    Job × Option OutboxError → Except OutboxError BatchJobOutcome
  | (job, none) => .ok { jobID := job.id, kind := .success }
  | (job, some error) => (settlement configured policy now maxAttempts job error).outcome now job

/-! ## The predicates of the source -/

theorem notBefore_eq_max (now time : Int) : notBefore now time = max now time := by
  unfold notBefore
  split <;> omega

theorem isPermanent_iff (error : OutboxError) :
    isPermanent error = true ↔ .permanent ∈ error.marks := by
  rw [isPermanent, findMark_eq_findSome?, List.findSome?_isSome_iff]
  constructor
  · rintro ⟨mark, member, found⟩
    cases mark with
    | permanent => exact member
    | retryAt time => cases found
    | deferAt time => cases found
  · intro member
    exact ⟨.permanent, member, rfl⟩

theorem deferTime_eq (error : OutboxError) :
    deferTime error = error.marks.findSome? Disposition.deferTime? :=
  findMark_eq_findSome? Disposition.deferTime? error

theorem retryAtTime_eq (error : OutboxError) :
    retryAtTime error = error.marks.findSome? Disposition.retryTime? :=
  findMark_eq_findSome? Disposition.retryTime? error

theorem backoffFrom_nonneg (steps : Nat) {delay : Int} (nonneg : 0 ≤ delay) :
    0 ≤ backoffFrom steps delay := by
  induction steps generalizing delay with
  | zero =>
    simp only [backoffFrom, batchRetryMaximum, second]
    omega
  | succ steps ih =>
    rw [backoffFrom]
    split
    · split
      · decide
      · exact ih (by omega)
    · simp only [batchRetryMaximum, second]
      omega

theorem retrySettlement_cases (configured : Bool) (policy : RetryAttempt → RetryDelay) (now : Int)
    (job : Job) (error : OutboxError) :
    (∃ time, now ≤ time ∧ retrySettlement configured policy now job error = .retry time) ∨
      (error.marks.findSome? Disposition.retryTime? = none ∧ configured = false ∧
        retrySettlement configured policy now job error = .leased) ∨
      ∃ failure, failure.is .errRetryPolicy = true ∧ asksPolicy configured error = true ∧
        retrySettlement configured policy now job error = .failed failure := by
  unfold retrySettlement
  split
  · exact Or.inl ⟨_, le_max_left _ _, rfl⟩
  · rename_i unscheduled
    by_cases asked : configured = true
    · rw [if_pos asked]
      have asks : asksPolicy configured error = true := by simp [asksPolicy, asked, unscheduled]
      cases policy (retryAttempt job error) with
      | panicked value stack => exact Or.inr (Or.inr ⟨_, rfl, asks, rfl⟩)
      | delay duration =>
        rw [RetryDelay.settlement]
        split
        · exact Or.inr (Or.inr ⟨_, rfl, asks, rfl⟩)
        · exact Or.inl ⟨_, by omega, rfl⟩
    · rw [if_neg asked]
      exact Or.inr (Or.inl ⟨unscheduled, by simpa using asked, rfl⟩)

theorem settlement_cases (configured : Bool) (policy : RetryAttempt → RetryDelay)
    (now maxAttempts : Int) (job : Job) (error : OutboxError) :
    (∃ reason, settlement configured policy now maxAttempts job error = .dlq reason) ∨
      (∃ time, now ≤ time ∧
        settlement configured policy now maxAttempts job error = .defer time) ∨
      (∃ time, now ≤ time ∧
        settlement configured policy now maxAttempts job error = .retry time) ∨
      settlement configured policy now maxAttempts job error = .leased ∨
      ∃ failure, failure.is .errRetryPolicy = true ∧
        consultsPolicy configured maxAttempts job error = true ∧
        settlement configured policy now maxAttempts job error = .failed failure := by
  unfold settlement
  split
  · exact Or.inl ⟨_, rfl⟩
  · rename_i lasting
    split
    · exact Or.inr (Or.inl ⟨_, le_max_left _ _, rfl⟩)
    · rename_i undeferred
      split
      · exact Or.inl ⟨_, rfl⟩
      · rename_i attempts
        rcases retrySettlement_cases configured policy now job error with
          retried | ⟨-, -, kept⟩ | ⟨failure, fails, asks, same⟩
        · exact Or.inr (Or.inr (Or.inl retried))
        · exact Or.inr (Or.inr (Or.inr (Or.inl kept)))
        · refine Or.inr (Or.inr (Or.inr (Or.inr ⟨failure, fails, ?_, same⟩)))
          simp [consultsPolicy, lasting, undeferred, asks, Int.not_le.mp attempts]

theorem batchAttemptBackoff_nonneg (attempt : Int) : 0 ≤ batchAttemptBackoff attempt :=
  backoffFrom_nonneg _ (by decide)

theorem settlement_failed {job : Job} {failure : OutboxError}
    (failed : settlement configured policy now maxAttempts job error = .failed failure) :
    failure.is .errRetryPolicy = true ∧ consultsPolicy configured maxAttempts job error = true := by
  rcases settlement_cases configured policy now maxAttempts job error with
    ⟨reason, same⟩ | ⟨time, -, same⟩ | ⟨time, -, same⟩ | same | ⟨refusal, fails, consults, same⟩
  all_goals
    rw [same] at failed
    cases failed
  exact ⟨fails, consults⟩

/-- No persisted time is before the completion time. -/
theorem now_le_availableAt {job : Job} {outcome : BatchJobOutcome}
    (settled : (settlement configured policy now maxAttempts job error).outcome now job =
      .ok outcome) (requeues : outcome.kind.requeues = true) : now ≤ outcome.availableAt := by
  rcases settlement_cases configured policy now maxAttempts job error with
    ⟨reason, same⟩ | ⟨time, later, same⟩ | ⟨time, later, same⟩ | same | ⟨refusal, -, -, same⟩
  all_goals
    rw [same] at settled
    cases settled
  · cases requeues
  · exact later
  · exact later
  · have nonneg := batchAttemptBackoff_nonneg job.attempts
    dsimp only
    omega

/-! ## What a path does -/

/-- A storage call of a finalization. -/
inductive Stored where
  | leased (method : LeasedMethod) (jobID : JobID) (leaseToken : LeaseToken) (now : Int)
  | transaction (callback : TxCallback)
  deriving DecidableEq, Repr

/-- What a path did so far, the latest first. -/
structure Deeds where
  stored : List Stored := []
  /-- Questions to the retry policy. -/
  consulted : List RetryAttempt := []
  /-- Jobs whose handler began. -/
  begun : List JobID := []
  /-- Clock readings. -/
  readings : List Int := []
  /-- The mutex or a row was not to be had, a lease was given up, the service
  drains, or the context of a finalization is over. -/
  lost : Bool := false
  deriving DecidableEq, Repr

def Ledger.lacks (ledger : Ledger) (rows : List JobID) : Bool :=
  ledger.outstanding.rows.isEmpty || rows.any fun id => (ledger.outstanding.get? id).isNone

namespace Deeds

def store (deeds : Deeds) (call : Stored) : Deeds := { deeds with stored := call :: deeds.stored }

/-- One more event of a path that relies on the leases of these rows. -/
def next (rows : List JobID) (deeds : Deeds) : (effect : Effect) → Answer effect → Deeds
  | .now, time => { deeds with readings := time :: deeds.readings }
  | .leased _ method jobID leaseToken now, _ => deeds.store (.leased method jobID leaseToken now)
  | .runInTx _ callback, _ => deeds.store (.transaction callback)
  | .retryDelay attempt, _ => { deeds with consulted := attempt :: deeds.consulted }
  | .handle _ job, _ => { deeds with begun := job.id :: deeds.begun }
  | .setError _ _, _ => { deeds with lost := true }
  | .isDraining _, draining => { deeds with lost := deeds.lost || draining }
  | .err _, error => { deeds with lost := deeds.lost || error.isSome }
  | .lock _, ledger | .lockContext _ _, .ok ledger =>
    { deeds with lost := deeds.lost || ledger.lacks rows }
  | .lockContext _ _, .error _ => { deeds with lost := true }
  | _, _ => deeds

/-- Nothing was stored, asked or begun in between. -/
structure Kept (before after : Deeds) : Prop where
  stored : after.stored = before.stored
  consulted : after.consulted = before.consulted
  begun : after.begun = before.begun
  readings : before.readings ⊆ after.readings
  lost : before.lost = true → after.lost = true

/-- The path gave up before it stored anything. -/
structure Stopped (before : Deeds) (failure : Option OutboxError) (after : Deeds) : Prop where
  kept : Kept before after
  fails : failure.isSome = true
  lost : after.lost = true

/-- What the path did up to an error explains the error. -/
def Blamed (before : Deeds) (failure : Option OutboxError) (after : Deeds) : Prop :=
  Kept before after ∧ (failure.isSome = true → after.lost = true)

/-- The path ended as it should unless it gave up. -/
abbrev Ended (before : Deeds) (meets : Option OutboxError → Deeds → Prop)
    (result : Option OutboxError) (after : Deeds) : Prop :=
  meets result after ∨ Stopped before result after

/-- Effects that store nothing, ask no policy and begin no handler. -/
def silent : Effect → Bool
  | .leased .. | .runInTx _ _ | .retryDelay _ | .handle _ _ => false
  | _ => true

variable {rows : List JobID} {before middle after : Deeds}

theorem Kept.refl (deeds : Deeds) : Kept deeds deeds := ⟨rfl, rfl, rfl, List.Subset.refl _, id⟩

theorem Kept.trans (first : Kept before middle) (second : Kept middle after) : Kept before after :=
  ⟨second.stored.trans first.stored, second.consulted.trans first.consulted,
    second.begun.trans first.begun, List.Subset.trans first.readings second.readings,
    fun lost => second.lost (first.lost lost)⟩

theorem Kept.store (kept : Kept before after) (call : Stored) :
    Kept (before.store call) (after.store call) :=
  ⟨congrArg (call :: ·) kept.stored, kept.consulted, kept.begun, kept.readings, kept.lost⟩

theorem Kept.consult (kept : Kept before after) (ask : List RetryAttempt → List RetryAttempt) :
    Kept { before with consulted := ask before.consulted }
      { after with consulted := ask after.consulted } :=
  ⟨kept.stored, congrArg ask kept.consulted, kept.begun, kept.readings, kept.lost⟩

theorem Kept.begin (kept : Kept before after) (id : JobID) :
    Kept { before with begun := id :: before.begun } { after with begun := id :: after.begun } :=
  ⟨kept.stored, kept.consulted, congrArg (id :: ·) kept.begun, kept.readings, kept.lost⟩

theorem kept_lost (deeds : Deeds) {lost : Bool} (more : deeds.lost = true → lost = true) :
    Kept deeds { deeds with lost := lost } :=
  ⟨rfl, rfl, rfl, List.Subset.refl _, more⟩

theorem kept_next (deeds : Deeds) {effect : Effect} (isSilent : silent effect = true)
    (answer : Answer effect) : Kept deeds (deeds.next rows effect answer) := by
  cases effect with
  | now => exact ⟨rfl, rfl, rfl, List.subset_cons_self _ _, id⟩
  | setError => exact kept_lost deeds fun _ => rfl
  | isDraining | err | lock => exact kept_lost deeds fun lost => by rw [lost, Bool.true_or]
  | lockContext =>
    cases answer with
    | error => exact kept_lost deeds fun _ => rfl
    | ok => exact kept_lost deeds fun lost => by rw [lost, Bool.true_or]
  | leased | runInTx | retryDelay | handle => cases isSilent
  | _ => exact .refl _

end Deeds

/-- The storage call of the single path. -/
def Settlement.calls (now : Int) (job : Job) : Settlement → List Stored
  | .dlq reason => [.transaction (.dlqBatch job reason)]
  | .defer availableAt => [.leased (.defer availableAt) job.id job.leaseToken now]
  | .retry availableAt => [.leased (.reschedule availableAt) job.id job.leaseToken now]
  | .leased | .failed _ => []

/-- A repository without `DeferJobsRepository` cannot store a deferral. -/
def Service.lacksMethod (s : Service) : Settlement → Bool
  | .defer _ => !s.deferJobsRepository
  | _ => false

/-- The single path stores what the settlement says, unless a lease fails first or
the repository cannot; it stores nothing for a job it leaves leased or a policy
that failed. -/
structure Settlement.Followed (settled : Settlement) (s : Service) (now : Int) (job : Job)
    (result : Option OutboxError) (deeds : Deeds) : Prop where
  stores : deeds.stored = settled.calls now job ∨
    deeds.stored = [] ∧ result.isSome = true ∧ (deeds.lost = true ∨ s.lacksMethod settled = true)
  kept : settled = .leased → result = none
  refused : ∀ error, settled = .failed error → result = some error

/-- Every effect is recorded. -/
def recording (rows : List JobID) (expected : (effect : Effect) → Answer effect → Prop) :
    Monitor Answer Deeds where
  start := {}
  next := Deeds.next rows
  allowed _ _ := True
  expects _ := expected

section

variable {rows : List JobID} {expected : (effect : Effect) → Answer effect → Prop} {α : Type}

/-- What is recorded from here on, by a program that always returns. -/
abbrev Records (rows : List JobID) (expected : (effect : Effect) → Answer effect → Prop)
    (program : Go α) (returns : α → Deeds → Prop) : Deeds → Prop :=
  (recording rows expected).wp program returns fun _ => False

/-- What a run that returned recorded. -/
theorem recorded_of_after {program : Go α} {events : History Answer} {value : α}
    {returns : α → Deeds → Prop} (after : program.After events (.ret value))
    (answered : ∀ event ∈ events, expected event.effect event.answer)
    (meets : Records rows expected program returns {}) :
    returns value ((recording rows expected).state events) := by
  have ended := after.wp meets fun event member _ => answered event member
  have same : (recording rows expected).advance {} events =
      (recording rows expected).state events := by
    clear ended after answered
    induction events with
    | nil => rfl
    | cons event earlier ih => exact congrArg (fun deeds => Deeds.next rows deeds _ _) ih
  rw [same] at ended
  exact ended

/-! ### Leases -/

namespace Recording

open Deeds

variable {deeds middle : Deeds} {m : BatchLeaseManager} {ledger : Ledger}
variable {meets : Option OutboxError → Deeds → Prop}

theorem silent_leases (effect : Effect) (lease : effect.ofLeases = true) :
    silent effect = true := by
  cases effect <;> first | rfl | cases lease

variable (kept : Kept deeds middle)
include kept

theorem wp_silently {effect : Effect} {next : Answer effect → Go α} {returns : α → Deeds → Prop}
    (isSilent : silent effect = true)
    (rest : ∀ answer, expected effect answer → Kept deeds (middle.next rows effect answer) →
      Records rows expected (next answer) returns (middle.next rows effect answer)) :
    Records rows expected (.perform effect >>= next) returns middle :=
  wp_step trivial fun answer answered => rest answer answered (kept.trans (kept_next _ isSilent _))

theorem wp_silent {program : Go α} (only : program.Only fun effect => silent effect = true) :
    Records rows expected program (fun _ last => Kept deeds last) middle :=
  wp_only Kept.refl (fun _ _ _ => Kept.trans) (fun _ _ _ => trivial)
    (fun _ _ answer isSilent => kept_next _ isSilent answer) only fun _ _ => kept.trans

theorem wp_failLeaseLocked (error : OutboxError) :
    Records rows expected (m.failLeaseLocked error) (Blamed deeds) middle :=
  wp_silently kept rfl fun _ _ kept => wp_silently kept rfl fun _ _ kept => ⟨kept, fun _ => rfl⟩

theorem wp_checkLeasesLocked (now : Int) :
    Records rows expected (m.checkLeasesLocked ledger now)
      (fun result last => Blamed deeds result.1 last) middle := by
  unfold BatchLeaseManager.checkLeasesLocked
  split
  · exact ⟨kept, nofun⟩
  · split
    · exact wp_seq (wp_failLeaseLocked kept _) fun _ _ blamed => blamed
    · exact wp_silently kept rfl fun _ _ kept => ⟨kept, nofun⟩

theorem wp_enterExtension (jobIDs : List JobID) (until_ affected : Int)
    (failure : Option OutboxError) :
    Records rows expected (m.enterExtension ledger jobIDs until_ affected failure)
      (fun result last => Blamed deeds result.1 last) middle := by
  cases failure with
  | some error => exact wp_seq (wp_failLeaseLocked kept _) fun _ _ blamed => blamed
  | none =>
    unfold BatchLeaseManager.enterExtension
    dsimp only
    split
    · exact wp_seq (wp_failLeaseLocked kept _) fun _ _ blamed => blamed
    · exact wp_silently kept rfl fun _ _ kept => wp_silently kept rfl fun _ _ kept =>
        wp_checkLeasesLocked kept _

/-- A renewal that fails has given up a lease. -/
theorem wp_ensureLeasesLocked (ctx : Ctx) (requiredUntil targetUntil : Int) :
    Records rows expected (m.ensureLeasesLocked ctx ledger requiredUntil targetUntil)
      (fun result last => Blamed deeds result.1 last) middle := by
  refine wp_silently kept rfl fun now _ kept => wp_seq (wp_checkLeasesLocked kept now) ?_
  rintro ⟨error, ledger⟩ last blamed
  cases error with
  | some error => exact blamed
  | none =>
    dsimp only
    split
    · refine wp_silently blamed.1 rfl fun _ _ kept => ?_
      split
      · exact ⟨kept, nofun⟩
      · refine wp_silently kept rfl fun answer _ kept => ?_
        refine wp_seq (wp_silent kept ?_) fun failure _ kept => wp_enterExtension kept _ _ _ failure
        cases answer.2 with
        | some error => exact Program.only_pure
        | none => exact Program.only_perform rfl
    · exact blamed

theorem wp_batchStartError (process : Nat)
    (alive : ∀ cause, expected (.cause ctx) cause → cause = none) :
    Records rows expected (batchStartError ctx process) (Blamed deeds) middle := by
  refine wp_silently kept rfl fun cause answered kept => ?_
  cases alive cause answered
  refine wp_silently kept rfl fun draining _ kept => ?_
  cases draining with
  | true => exact ⟨kept, fun _ => Bool.or_true _⟩
  | false => exact ⟨kept, nofun⟩

theorem wp_locked {body : Ledger → Go (Option OutboxError)}
    (inside : ∀ ledger last, Kept deeds last → (ledger.lacks rows = true → last.lost = true) →
      Records rows expected (body ledger) (Blamed deeds) last) :
    Records rows expected (m.locked body) (Blamed deeds) middle :=
  wp_silently kept rfl fun ledger _ kept => wp_onExit.mpr (wp_mono
    (inside ledger _ kept fun lacking => by simp [Deeds.next, lacking])
    (fun _ _ blamed => ⟨trivial, fun _ _ => blamed⟩) fun _ absurd => absurd.elim)

/-- A refused admission has a lost lease or a draining service for its reason. -/
theorem wp_admitBatch (process : Nat)
    (alive : ∀ cause, expected (.cause ctx) cause → cause = none) :
    Records rows expected (m.admitBatch ctx process) (Blamed deeds) middle := by
  refine wp_locked kept fun ledger last kept lacking => ?_
  refine wp_seq (wp_batchStartError (.refl last) process alive) fun refused started blamed => ?_
  cases refused with
  | some error => exact ⟨kept.trans blamed.1, blamed.2⟩
  | none =>
    dsimp only
    split
    · rename_i empty
      exact ⟨kept.trans blamed.1, fun _ =>
        blamed.1.lost (lacking (by simp [Ledger.lacks, empty]))⟩
    · refine wp_silently (kept.trans blamed.1) rfl fun now _ kept =>
        wp_seq (wp_checkLeasesLocked kept now) ?_
      rintro ⟨error, ledger⟩ last blamed
      cases error with
      | some error => exact blamed
      | none =>
        dsimp only
        split
        · refine wp_seq (wp_ensureLeasesLocked blamed.1 ctx _ _) ?_
          rintro ⟨error, ledger⟩ last blamed
          cases error with
          | some error => exact blamed
          | none => exact wp_batchStartError blamed.1 process alive
        · exact wp_batchStartError blamed.1 process alive

/-- The callback runs under the mutex with the row in the ledger, or the path
stops. -/
theorem wp_lockedContext {body : Ledger → Go (Option OutboxError)} (ctx : Ctx)
    (inside : ∀ ledger last, Kept deeds last → (ledger.lacks rows = true → last.lost = true) →
      Records rows expected (body ledger) (Ended deeds meets) last) :
    Records rows expected (m.lockedContext ctx body) (Ended deeds meets) middle := by
  refine wp_silently kept rfl fun answer _ kept => ?_
  cases answer with
  | error cause =>
    exact wp_silently kept rfl fun _ _ kept => Or.inr ⟨kept, rfl, rfl⟩
  | ok ledger =>
    refine wp_onExit.mpr (wp_mono (inside ledger _ kept fun lacking => ?_)
      (fun _ _ met => ⟨trivial, fun _ _ => met⟩) fun _ absurd => absurd.elim)
    simp [Deeds.next, lacking]

theorem wp_finalizeLocked {requiredUntil targetUntil : Int}
    {finalization : Go (Option OutboxError)} {drop : Ledger → Ledger}
    (finalizes : ∀ last, Kept deeds last → Records rows expected finalization meets last) :
    Records rows expected
      (m.finalizeLocked ctx ledger requiredUntil targetUntil finalization drop)
      (Ended deeds meets) middle := by
  refine wp_seq (wp_ensureLeasesLocked kept ctx _ _) ?_
  rintro ⟨error, renewed⟩ last blamed
  cases error with
  | some error => exact Or.inr ⟨blamed.1, rfl, blamed.2 rfl⟩
  | none =>
    refine wp_silently blamed.1 rfl fun error _ kept => ?_
    cases error with
    | some error => exact Or.inr ⟨kept, rfl, Bool.or_true _⟩
    | none =>
      refine wp_seq (finalizes _ kept) fun result last met => ?_
      cases result with
      | some error => exact Or.inl met
      | none => exact ⟨trivial, fun _ _ => Or.inl met⟩

theorem wp_finalize {jobID : JobID} {finalization : Ctx → Go (Option OutboxError)} (ctx : Ctx)
    (watched : jobID ∈ rows) (finalizes : ∀ finalizeCtx last, Kept deeds last →
      Records rows expected (finalization finalizeCtx) meets last) :
    Records rows expected (m.finalize ctx jobID finalization) (Ended deeds meets) middle := by
  refine wp_silently kept rfl fun now _ kept =>
    wp_lockedContext kept _ fun ledger last kept lost => ?_
  dsimp only
  split
  · rename_i missing
    refine Or.inr ⟨kept, rfl, lost ?_⟩
    simp only [Ledger.lacks, Bool.or_eq_true, List.any_eq_true]
    exact Or.inr ⟨jobID, watched, missing⟩
  · exact wp_finalizeLocked kept (finalizes _)

theorem wp_finalizeAll {leaseUntil : Int} {finalization : Go (Option OutboxError)}
    (finalizes : ∀ last, Kept deeds last → Records rows expected finalization meets last) :
    Records rows expected (m.finalizeAll ctx leaseUntil finalization)
      (Ended deeds meets) middle := by
  refine wp_lockedContext kept ctx fun ledger last kept lost => ?_
  split
  · rename_i empty
    exact Or.inr ⟨kept, rfl, lost (by simp [Ledger.lacks, empty])⟩
  · exact wp_finalizeLocked kept finalizes

/-- The outcomes are stored at once, unless the leases fail first. -/
theorem wp_applyExecutionBatchOutcomes {s : Service} (ctx : Ctx)
    (jobs : List Job) (outcomes : List BatchJobOutcome) :
    Records rows expected (s.applyExecutionBatchOutcomes ctx m jobs outcomes)
      (Ended deeds fun _ =>
        Kept (deeds.store (.transaction (.applyOutcomes m.leaseToken jobs outcomes))))
      middle := by
  refine wp_silently kept rfl fun now _ kept => ?_
  refine wp_seq (wp_finalizeAll kept fun last kept => ⟨trivial, fun _ _ => kept.store _⟩) ?_
  intro result last ended
  cases result with
  | some error => exact ended
  | none =>
    rcases ended with stored | stopped
    · have observes : (s.observeBatchOutcomes jobs outcomes).Only fun effect =>
          silent effect = true :=
        only_observeBatchOutcomes (by rfl) (fun _ => rfl) jobs outcomes
      exact wp_seq (wp_silent stored observes) fun _ _ kept => Or.inl kept
    · cases stopped.fails

end Recording

end

/-! ## The single path -/

/-- A completion time, a retry policy, and a context that stays alive while a
single handler fails with an error. -/
structure Completion where
  now : Int
  policy : RetryAttempt → RetryDelay
  ctx : Ctx
  error : OutboxError

namespace Completion

open Deeds Recording

def Expected (completion : Completion) : (effect : Effect) → Answer effect → Prop
  | .now, time => time = completion.now
  | .retryDelay attempt, answer => answer = completion.policy attempt
  | .handled _, ended => ended = .returned (some completion.error)
  | .cause ctx, cause =>
    ctx = completion.ctx ∨ (∃ deadline, ctx = .withDeadline completion.ctx deadline) → cause = none
  | _, _ => True

def Answered (completion : Completion) (events : History Answer) : Prop :=
  ∀ event ∈ events, completion.Expected event.effect event.answer

/-- The clock stands still while the path is recorded. -/
abbrev monitor (completion : Completion) (rows : List JobID) : Monitor Answer Deeds :=
  recording rows completion.Expected

abbrev Records (completion : Completion) (rows : List JobID) {α : Type} (program : Go α) :
    (α → Deeds → Prop) → Deeds → Prop :=
  OutboxFormal.Records rows completion.Expected program

/-- The classification of a failure at the completion time. -/
abbrev settle (completion : Completion) (s : Service) (maxAttempts : Int) (job : Job)
    (error : OutboxError) : Settlement :=
  settlement s.retryPolicy completion.policy completion.now maxAttempts job error

variable {completion : Completion} {rows : List JobID} {deeds middle : Deeds}
variable {s : Service} {m : BatchLeaseManager} {job : Job}

section Single

section

variable (kept : Kept deeds middle)
include kept

theorem wp_observeJobOutcome (kind : RuntimeOutcomeKind) (availableAt : Int) :
    completion.Records rows (s.observeJobOutcome job kind availableAt)
      (fun _ last => Kept deeds last) middle :=
  wp_silent kept (only_observeJobOutcome (show silent .now = true from rfl) (fun _ => rfl) job kind
    availableAt)

theorem wp_dlqBatch (ctx : Ctx) (reason : String) :
    completion.Records rows (s.dlqBatch ctx job reason)
      (fun _ last => Kept (deeds.store (.transaction (.dlqBatch job reason))) last) middle := by
  refine wp_step trivial fun failure _ => ?_
  cases failure with
  | some error => exact kept.store _
  | none => exact wp_seq (wp_observeJobOutcome (kept.store _) _ _) fun _ _ kept => kept

/-- The fenced call of a defer or a reschedule, with the time clamped. -/
theorem wp_deferLeased (ctx : Ctx) (availableAt : Int) :
    completion.Records rows (s.deferLeased ctx job availableAt)
      (fun result last => Kept (deeds.store (.leased (.defer (max completion.now availableAt))
          job.id job.leaseToken completion.now)) last ∨
        Kept deeds last ∧ result.isSome = true ∧ s.deferJobsRepository = false) middle := by
  unfold Service.deferLeased
  split
  · rename_i missing
    exact Or.inr ⟨kept, rfl, by simpa using missing⟩
  · refine wp_silently kept rfl ?_
    rintro now rfl kept
    rw [notBefore_eq_max]
    refine wp_step trivial ?_
    rintro ⟨affected, failure⟩ -
    cases failure with
    | some error => exact Or.inl (kept.store _)
    | none =>
      dsimp only
      split
      · exact Or.inl (kept.store _)
      · refine wp_silently (kept.store _) rfl fun _ _ kept => ?_
        exact wp_seq (wp_observeJobOutcome kept _ _) fun _ _ kept => Or.inl kept

theorem wp_rescheduleLeased (ctx : Ctx) (availableAt : Int) :
    completion.Records rows (s.rescheduleLeased ctx job availableAt)
      (fun _ last => Kept (deeds.store (.leased (.reschedule (max completion.now availableAt))
        job.id job.leaseToken completion.now)) last) middle := by
  refine wp_silently kept rfl ?_
  rintro now rfl kept
  rw [notBefore_eq_max]
  refine wp_step trivial ?_
  rintro ⟨affected, failure⟩ -
  cases failure with
  | some error => exact kept.store _
  | none =>
    dsimp only
    split
    · exact kept.store _
    · exact wp_seq (wp_observeJobOutcome (kept.store _) _ _) fun _ _ kept => kept

end

/-- A scheduled retry: an explicit time, the answer of the policy, or the legacy
delay. -/
theorem wp_retryTime (error : OutboxError) (legacyDelay : Int) :
    completion.Records rows (s.retryTime job error completion.now legacyDelay)
      (fun result last => last = { deeds with
          consulted := if asksPolicy s.retryPolicy error then
            retryAttempt job error :: deeds.consulted else deeds.consulted } ∧
        match retrySettlement s.retryPolicy completion.policy completion.now job error with
        | .retry time => result = (time, none)
        | .failed failure => result.2 = some failure
        | _ => result = (completion.now + legacyDelay, none)) deeds := by
  unfold Service.retryTime retrySettlement asksPolicy
  rw [retryAtTime_eq]
  cases error.marks.findSome? Disposition.retryTime? with
  | some time =>
    dsimp only
    rw [notBefore_eq_max]
    exact ⟨by simp, rfl⟩
  | none =>
    dsimp only
    by_cases asked : s.retryPolicy = true
    · simp only [asked, if_true, Option.isNone_none, Bool.and_self]
      refine wp_bind.mpr (wp_step trivial ?_)
      intro answer expected
      have same : answer = completion.policy (retryAttempt job error) := expected
      rw [← same]
      cases answer with
      | panicked value stack => exact ⟨rfl, rfl⟩
      | delay duration =>
        simp only [RetryDelay.settlement]
        by_cases negative : duration < 0
        · simp only [negative, if_true]
          exact ⟨rfl, rfl⟩
        · simp only [negative, if_false]
          exact ⟨rfl, rfl⟩
    · simp only [asked, if_false, Bool.false_eq_true, Bool.false_and]
      exact ⟨rfl, rfl⟩

/-- What the single path did with a job whose handler failed. -/
structure SettledAs (completion : Completion) (s : Service) (job : Job) (settled : Settlement)
    (consulted : List RetryAttempt) (result : Option OutboxError) (deeds : Deeds) : Prop where
  followed : settled.Followed s completion.now job result deeds
  begun : deeds.begun = [job.id]
  consulted : deeds.consulted = consulted

/-- The handler of the job began and nothing is stored. -/
def started (job : Job) (consulted : List RetryAttempt) : Deeds :=
  { begun := [job.id], consulted := consulted }

theorem wp_finalize_one {call : Stored} {settled : Settlement} {consulted : List RetryAttempt}
    {ctx : Ctx} {finalization : Ctx → Go (Option OutboxError)}
    (calls : settled.calls completion.now job = [call]) (kept : Kept (started job consulted) middle)
    (finalizes : ∀ finalizeCtx last, Kept (started job consulted) last →
      completion.Records [job.id] (finalization finalizeCtx)
        (fun result last => Kept ((started job consulted).store call) last ∨
          Kept (started job consulted) last ∧ result.isSome = true ∧
            s.lacksMethod settled = true) last) :
    completion.Records [job.id] (m.finalize ctx job.id finalization)
      (completion.SettledAs s job settled consulted) middle := by
  have followed : ∀ {result last}, _ → settled.Followed s completion.now job result last :=
    fun stores => ⟨stores, fun same => (by subst same; cases calls),
      fun error same => (by subst same; cases calls)⟩
  refine wp_imp (wp_finalize kept ctx (List.mem_singleton_self _) finalizes) ?_
  rintro result last ((stored | ⟨kept, failed, missing⟩) | ⟨kept, failed, lost⟩)
  · exact ⟨followed (Or.inl (stored.stored.trans calls.symm)), stored.begun, stored.consulted⟩
  · exact ⟨followed (Or.inr ⟨kept.stored, failed, Or.inr missing⟩), kept.begun, kept.consulted⟩
  · exact ⟨followed (Or.inr ⟨kept.stored, failed, Or.inl lost⟩), kept.begun, kept.consulted⟩

theorem wp_finalize_dlq (kept : Kept (started job []) middle) (ctx : Ctx) (reason : String) :
    completion.Records [job.id]
      (m.finalize ctx job.id fun finalizeCtx => s.dlqBatch finalizeCtx job reason)
      (completion.SettledAs s job (.dlq reason) []) middle :=
  wp_finalize_one rfl kept fun finalizeCtx _ kept =>
    wp_imp (wp_dlqBatch kept finalizeCtx reason) (fun _ _ => Or.inl)

theorem wp_finalize_retry (ctx : Ctx) {time : Int} {consulted : List RetryAttempt}
    (kept : Kept (started job consulted) middle) (later : completion.now ≤ time) :
    completion.Records [job.id]
      (m.finalize ctx job.id fun finalizeCtx => s.rescheduleLeased finalizeCtx job time)
      (completion.SettledAs s job (.retry time) consulted) middle := by
  refine wp_finalize_one rfl kept fun finalizeCtx _ kept => ?_
  refine wp_imp (wp_rescheduleLeased kept finalizeCtx time) ?_
  intro result last stored
  rw [max_eq_right later] at stored
  exact Or.inl stored

/-- The last case of the switch of `processBatchJob`. -/
theorem wp_retryFailedJob (kept : Kept (started job []) middle) (ctx : Ctx) (error : OutboxError)
    (scheduled : (error.marks.findSome? Disposition.retryTime?).isSome = true ∨
      s.retryPolicy = true) :
    completion.Records [job.id]
      (do
        let now ← Go.now
        match ← s.retryTime job error now 0 with
        | (_, some error) => return some error
        | (availableAt, none) =>
          m.finalize ctx job.id fun finalizeCtx => s.rescheduleLeased finalizeCtx job availableAt)
      (completion.SettledAs s job
        (retrySettlement s.retryPolicy completion.policy completion.now job error)
        (if asksPolicy s.retryPolicy error then [retryAttempt job error] else [])) middle := by
  refine wp_silently kept rfl ?_
  rintro now rfl kept
  refine wp_seq (wp_retryTime error 0) ?_
  rintro ⟨availableAt, failure⟩ last ⟨rfl, decided⟩
  have asked := kept.consult fun before => if asksPolicy s.retryPolicy error then
    retryAttempt job error :: before else before
  rcases retrySettlement_cases s.retryPolicy completion.policy completion.now job error with
    ⟨time, later, same⟩ | ⟨unscheduled, unset, -⟩ | ⟨refusal, -, -, same⟩
  · rw [same] at decided ⊢
    cases decided
    exact wp_finalize_retry ctx asked later
  · rw [unscheduled, unset] at scheduled
    simp at scheduled
  · rw [same] at decided ⊢
    cases decided
    exact ⟨⟨Or.inl asked.stored, nofun, fun error same => by cases same; rfl⟩, asked.begun,
      asked.consulted⟩

/-- The switch of `processBatchJob`. -/
theorem wp_finishFailedJob (kept : Kept (started job []) middle) (ctx : Ctx) (handler : JobHandler)
    (error : OutboxError) :
    completion.Records [job.id] (s.finishFailedJob ctx m handler job error)
      (completion.SettledAs s job (completion.settle s handler.maxAttempts job error)
        (questions s.retryPolicy handler.maxAttempts job error)) middle := by
  unfold Service.finishFailedJob settle settlement questions consultsPolicy
  by_cases lasting : .permanent ∈ error.marks
  · simp only [isPermanent_iff, lasting, if_true, not_true_eq_false, decide_false, Bool.false_and,
      Bool.false_eq_true, if_false]
    exact wp_finalize_dlq kept ctx _
  · simp only [isPermanent_iff, lasting, if_false, not_false_eq_true, decide_true, Bool.true_and,
      deferTime_eq]
    cases error.marks.findSome? Disposition.deferTime? with
    | some time =>
      simp only [Option.isNone_some, Bool.false_and, Bool.false_eq_true, if_false]
      refine wp_finalize_one rfl kept fun finalizeCtx _ kept => ?_
      refine wp_imp (wp_deferLeased kept finalizeCtx time) ?_
      rintro result last (stored | ⟨kept, failed, missing⟩)
      · exact Or.inl stored
      · exact Or.inr ⟨kept, failed, by simp [Service.lacksMethod, missing]⟩
    | none =>
      simp only [Option.isNone_none, Bool.true_and]
      by_cases exhausted : handler.maxAttempts ≤ job.attempts
      · simp only [exhausted, if_true, Int.not_lt.mpr exhausted, decide_false, Bool.false_and,
          Bool.false_eq_true, if_false]
        exact wp_finalize_dlq kept ctx _
      · simp only [exhausted, if_false, Int.not_le.mp exhausted, decide_true, Bool.true_and,
          retryAtTime_eq]
        by_cases scheduled : (error.marks.findSome? Disposition.retryTime?).isSome = true ∨
            s.retryPolicy = true
        · rw [if_pos scheduled]
          exact wp_retryFailedJob kept ctx error scheduled
        · -- The row stays leased.
          rw [if_neg scheduled]
          obtain ⟨unscheduled, unset⟩ : error.marks.findSome? Disposition.retryTime? = none ∧
              s.retryPolicy = false := by simpa using scheduled
          rw [retrySettlement, asksPolicy, unscheduled, unset]
          refine wp_seq (wp_silent kept (only_forget silent_leases _)) fun _ last kept => ?_
          exact ⟨⟨Or.inl kept.stored, fun _ => rfl, by simp⟩, kept.begun, kept.consulted⟩

/-- The handler is not started only if the admission fails. -/
theorem wp_processBatchJob {handler : JobHandler}
    (registered : s.jobs.lookup (claimedCapability job) = some handler) :
    completion.Records [job.id] (s.processBatchJob completion.ctx m job)
      (fun result last => (result.1 = false ∧ Stopped {} result.2 last) ∨
        result.1 = true ∧ completion.SettledAs s job
          (completion.settle s handler.maxAttempts job completion.error)
          (questions s.retryPolicy handler.maxAttempts job completion.error) result.2 last) {} := by
  unfold Service.processBatchJob
  rw [registered]
  refine wp_seq (wp_admitBatch (.refl _) _ fun cause alive => alive (Or.inl rfl)) ?_
  intro refused last blamed
  cases refused with
  | some error => exact Or.inl ⟨rfl, blamed.1, rfl, blamed.2 rfl⟩
  | none =>
    -- The handler returns the error, and neither context is over.
    refine wp_bind.mpr (wp_silently blamed.1 rfl fun now _ kept => ?_)
    refine wp_bind.mpr (wp_step trivial fun _ _ => wp_step trivial ?_)
    rintro ended rfl
    refine wp_step trivial fun cause uncancelled => ?_
    cases uncancelled (Or.inr ⟨_, rfl⟩)
    refine wp_step trivial fun cause uncancelled => ?_
    cases uncancelled (Or.inl rfl)
    exact wp_seq (wp_finishFailedJob (kept.begin job.id) _ handler _)
      fun _ _ settled => Or.inr ⟨rfl, settled⟩

end Single

/-! ### The batch path -/

section Batch

variable {capability : JobCapability} {registration : BatchJobRegistration}

theorem wp_itemOutcome (job : Job) (itemErr : Option OutboxError) :
    completion.Records rows (s.itemOutcome capability registration completion.now job itemErr)
      (fun outcome last =>
        outcome = batchOutcome s.retryPolicy completion.policy completion.now
          registration.maxAttempts (job, itemErr) ∧
        last.stored = deeds.stored ∧
        ∀ attempt ∈ last.consulted, attempt ∈ deeds.consulted ∨ ∃ error, itemErr = some error ∧
          attempt ∈ questions s.retryPolicy registration.maxAttempts job error) deeds := by
  cases itemErr with
  | none => exact ⟨rfl, rfl, fun _ => Or.inl⟩
  | some error =>
    unfold Service.itemOutcome batchOutcome settlement
    by_cases lasting : .permanent ∈ error.marks
    · simp only [isPermanent_iff, lasting, if_true]
      exact ⟨rfl, rfl, fun _ => Or.inl⟩
    · simp only [isPermanent_iff, lasting, if_false, deferTime_eq]
      cases undeferred : error.marks.findSome? Disposition.deferTime? with
      | some time =>
        refine wp_step trivial fun _ _ => ?_
        rw [notBefore_eq_max]
        exact ⟨rfl, rfl, fun _ => Or.inl⟩
      | none =>
        dsimp only
        by_cases exhausted : registration.maxAttempts ≤ job.attempts
        · simp only [exhausted, if_true]
          exact ⟨rfl, rfl, fun _ => Or.inl⟩
        · simp only [exhausted, if_false]
          refine wp_seq (wp_retryTime error _) ?_
          rintro ⟨availableAt, failure⟩ last ⟨rfl, decided⟩
          have asked : ∀ attempt ∈ (if asksPolicy s.retryPolicy error then
              retryAttempt job error :: deeds.consulted else deeds.consulted),
              attempt ∈ deeds.consulted ∨ ∃ failure, some error = some failure ∧
                attempt ∈ questions s.retryPolicy registration.maxAttempts job failure := by
            intro attempt member
            split at member
            · rename_i asks
              have consults : consultsPolicy s.retryPolicy registration.maxAttempts job error =
                  true := by
                simp [consultsPolicy, lasting, undeferred, asks, Int.not_le.mp exhausted]
              rcases List.mem_cons.mp member with rfl | member
              · exact Or.inr ⟨error, rfl, by simp [questions, consults]⟩
              · exact Or.inl member
            · exact Or.inl member
          rcases retrySettlement_cases s.retryPolicy completion.policy completion.now job error
            with ⟨time, -, same⟩ | ⟨-, -, same⟩ | ⟨refusal, -, -, same⟩
          all_goals
            rw [same] at decided ⊢
            cases decided
            exact ⟨rfl, rfl, asked⟩

theorem wp_itemOutcomes (items : List (Job × Option OutboxError)) :
    completion.Records rows (s.itemOutcomes capability registration completion.now items)
      (fun outcomes last =>
        outcomes = items.mapM (batchOutcome s.retryPolicy completion.policy completion.now
          registration.maxAttempts) ∧
        last.stored = deeds.stored ∧
        ∀ attempt ∈ last.consulted, attempt ∈ deeds.consulted ∨ ∃ job error,
          (job, some error) ∈ items ∧
            attempt ∈ questions s.retryPolicy registration.maxAttempts job error) deeds := by
  induction items generalizing deeds with
  | nil => exact ⟨rfl, rfl, fun _ => Or.inl⟩
  | cons item rest ih =>
    obtain ⟨job, itemErr⟩ := item
    refine wp_seq (wp_itemOutcome job itemErr) ?_
    rintro outcome last ⟨same, stored, asked⟩
    have asked' : ∀ attempt ∈ last.consulted, attempt ∈ deeds.consulted ∨ ∃ job' error,
        (job', some error) ∈ (job, itemErr) :: rest ∧
          attempt ∈ questions s.retryPolicy registration.maxAttempts job' error := by
      intro attempt member
      rcases asked attempt member with earlier | ⟨error, rfl, asks⟩
      · exact Or.inl earlier
      · exact Or.inr ⟨job, error, List.mem_cons_self, asks⟩
    rw [List.mapM_cons, ← same]
    cases outcome with
    | error error => exact ⟨rfl, stored, asked'⟩
    | ok outcome =>
      refine wp_seq ih ?_
      rintro outcomes final ⟨sames, stored', later⟩
      rw [← sames]
      cases outcomes with
      | error _ | ok _ =>
        refine ⟨rfl, stored'.trans stored, fun attempt member => ?_⟩
        rcases later attempt member with earlier | ⟨job', error, among, asks⟩
        · exact asked' attempt earlier
        · exact Or.inr ⟨job', error, List.mem_cons_of_mem _ among, asks⟩

/-- The outcomes of an accepted result, or the refusal of the policy. -/
def BatchFollowed (completion : Completion) (configured : Bool) (maxAttempts : Int)
    (token : LeaseToken) (jobs : List Job) (errs : List (Option OutboxError))
    (failure : Option OutboxError) (deeds : Deeds) : Prop :=
  match (jobs.zip errs).mapM (batchOutcome configured completion.policy completion.now
      maxAttempts) with
  | .error refusal => failure = some refusal ∧ deeds.stored = []
  | .ok outcomes =>
    deeds.stored = [.transaction (.applyOutcomes token jobs outcomes)] ∨
      deeds.stored = [] ∧ failure.isSome = true ∧ deeds.lost = true

theorem wp_finishExecutionBatch (ctx : Ctx) (jobs : List Job) {items : List BatchJobItem}
    {result : BatchResult} {errs : List (Option OutboxError)}
    (accepted : validateBatchResult items result = .ok errs) :
    completion.Records rows
      (s.finishExecutionBatch ctx m capability registration jobs items result none)
      (fun failure last =>
        completion.BatchFollowed s.retryPolicy registration.maxAttempts m.leaseToken jobs errs
          failure last ∧
        ∀ attempt ∈ last.consulted, ∃ job error, (job, some error) ∈ jobs.zip errs ∧
          attempt ∈ questions s.retryPolicy registration.maxAttempts job error) {} := by
  simp only [Service.finishExecutionBatch, accepted]
  refine wp_step trivial fun _ _ => wp_step trivial ?_
  rintro now rfl
  refine wp_seq (wp_itemOutcomes _) ?_
  rintro outcomes last ⟨same, unstored, asked⟩
  have consulted := fun attempt member => (asked attempt member).resolve_left nofun
  simp only [BatchFollowed, ← same]
  cases outcomes with
  | error refusal => exact ⟨⟨rfl, unstored⟩, consulted⟩
  | ok outcomes =>
    refine wp_imp (wp_applyExecutionBatchOutcomes (.refl last) ctx jobs outcomes) ?_
    rintro failure final (stored | ⟨kept, fails, lost⟩)
    · refine ⟨Or.inl ?_, stored.consulted ▸ consulted⟩
      exact stored.stored.trans (congrArg (_ :: ·) unstored)
    · exact ⟨Or.inr ⟨kept.stored.trans unstored, fails, lost⟩, kept.consulted ▸ consulted⟩

end Batch

end Completion

/-! ## Both paths -/

theorem settlement_of_consultsPolicy {job : Job}
    (consults : consultsPolicy configured maxAttempts job error = true) :
    settlement configured policy now maxAttempts job error =
      (policy (retryAttempt job error)).settlement now := by
  simp only [consultsPolicy, asksPolicy, Bool.and_eq_true, decide_eq_true_eq,
    Option.isNone_iff_eq_none] at consults
  obtain ⟨⟨⟨lasting, undeferred⟩, counted⟩, asked, unscheduled⟩ := consults
  simp only [settlement, lasting, undeferred, Int.not_le.mpr counted, retrySettlement,
    unscheduled, asked, if_true, if_false]

/-- Both paths follow one classification of failures. In every run the single path
starts the handler unless its admission fails, stores the call the classification
prescribes unless a lease fails first, and the batch path stores the outcomes it
prescribes; the retry policy is asked only where it decides. -/
theorem single_and_batch_settle_alike (s : Service) (m : BatchLeaseManager)
    (completion : Completion) {job : Job} {handler : JobHandler} (ctx : Ctx)
    (capability : JobCapability) (registration : BatchJobRegistration) (jobs : List Job)
    {items : List BatchJobItem} {result : BatchResult} {errs : List (Option OutboxError)}
    (registered : s.jobs.lookup (claimedCapability job) = some handler)
    (accepted : validateBatchResult items result = .ok errs) :
    (∀ events started failure,
      (s.processBatchJob completion.ctx m job).After events (.ret (started, failure)) →
      completion.Answered events →
      let deeds := (completion.monitor [job.id]).state events
      (started = false ∧ Deeds.Stopped {} failure deeds) ∨
        started = true ∧ completion.SettledAs s job
          (completion.settle s handler.maxAttempts job completion.error)
          (questions s.retryPolicy handler.maxAttempts job completion.error) failure deeds) ∧
      (∀ events failure,
        (s.finishExecutionBatch ctx m capability registration jobs items result none).After events
          (.ret failure) →
        completion.Answered events →
        let deeds := (completion.monitor []).state events
        completion.BatchFollowed s.retryPolicy registration.maxAttempts m.leaseToken jobs errs
            failure deeds ∧
          ∀ attempt ∈ deeds.consulted, ∃ job error, (job, some error) ∈ jobs.zip errs ∧
            attempt ∈ questions s.retryPolicy registration.maxAttempts job error) ∧
      ∀ maxAttempts job error,
        (consultsPolicy s.retryPolicy maxAttempts job error = true →
          completion.settle s maxAttempts job error =
            (completion.policy (retryAttempt job error)).settlement completion.now) ∧
        (∀ failure, completion.settle s maxAttempts job error = .failed failure →
          failure.is .errRetryPolicy = true ∧
            consultsPolicy s.retryPolicy maxAttempts job error = true) ∧
        ∀ outcome,
          (completion.settle s maxAttempts job error).outcome completion.now job = .ok outcome →
          outcome.kind.requeues = true → completion.now ≤ outcome.availableAt := by
  refine ⟨fun events started failure ran answered => ?_, fun events failure ran answered => ?_, ?_⟩
  · exact recorded_of_after ran answered (Completion.wp_processBatchJob registered)
  · exact recorded_of_after ran answered (Completion.wp_finishExecutionBatch ctx jobs accepted)
  · intro maxAttempts job error
    exact ⟨settlement_of_consultsPolicy, fun _ => settlement_failed, fun _ => now_le_availableAt⟩

/-! ## A deferral inside a join -/

namespace Sample

def joined : OutboxError := joinTwo (.text "first") (.mark (.deferAt 9) (.text "second"))

/-- The completion of a job that fails with the deferral. -/
def deferred : Completion := ⟨5, fun _ => .delay 0, .group 0, joined⟩

def manager : BatchLeaseManager := ⟨0, token, second⟩

def pair : List Job := [row 1, row 2]

def registered : BatchJobRegistration := ⟨second, 3, 2, 10, 0⟩

/-- The answers for the two rows, in the other order. -/
def swapped : BatchResult := [⟨⟨2⟩, none⟩, ⟨⟨1⟩, some joined⟩]

def finishing : Go (Option OutboxError) :=
  single.finishExecutionBatch (.run 0) manager capability registered pair
    (pair.map Service.batchJobItem) swapped none

/-- Surroundings with live leases in which every call succeeds. -/
def obliging : (effect : Effect) → Option (Answer effect)
  | .now => some 5
  | .cause _ | .err _ | .runInTx _ _ => some none
  | .isDraining _ => some false
  | .lock _ => some (.ofJobs pair)
  | .lockContext _ _ => some (.ok (.ofJobs pair))
  | .handled _ => some (.returned (some joined))
  | .leased .. => some (1, none)
  | .store _ _ | .unlock _ | .handle _ _ | .pauseBatchCapability .. | .resetBatchRetryStreak _ _
  | .emitOutcome _ => some ()
  | _ => none

theorem answered_obliging {events : History Answer}
    (answered : ∀ event ∈ events, obliging event.effect = some event.answer) :
    deferred.Answered events := by
  rintro ⟨effect, answer⟩ member
  have same := answered _ member
  cases effect with
  | now | handled => exact (Option.some.inj same).symm
  | cause ctx => exact fun _ => (Option.some.inj same).symm
  | retryDelay attempt => cases same
  | _ => trivial

end Sample

/-- The single path defers the first of two rows, and the batch path defers it and
acknowledges the second. -/
theorem single_and_batch_settle_deferral :
    (∃ events, (Sample.single.processBatchJob (.group 0) Sample.manager (Sample.row 1)).After events
        (.ret (true, none)) ∧ Sample.deferred.Answered events ∧
      ((Sample.deferred.monitor [⟨1⟩]).state events).stored =
        [.leased (.defer 9) ⟨1⟩ Sample.token 5]) ∧
    ∃ events, Sample.finishing.After events (.ret none) ∧ Sample.deferred.Answered events ∧
      ((Sample.deferred.monitor []).state events).stored =
        [.transaction (.applyOutcomes Sample.token Sample.pair
          [{ jobID := ⟨1⟩, kind := .defer, availableAt := 9 },
            { jobID := ⟨2⟩, kind := .success }])] := by
  obtain ⟨single, batch, -⟩ := single_and_batch_settle_alike Sample.single Sample.manager
    Sample.deferred (.run 0) Sample.capability Sample.registered Sample.pair
    (show Sample.single.jobs.lookup (claimedCapability (Sample.row 1)) = some ⟨second, 3⟩ by decide)
    (show validateBatchResult (Sample.pair.map Service.batchJobItem) Sample.swapped =
      .ok [some Sample.joined, none] by decide)
  constructor
  · obtain ⟨events, ran⟩ : ∃ events, (Sample.single.processBatchJob (.group 0) Sample.manager
        (Sample.row 1)).run Sample.obliging = some ((true, none), events) := ⟨_, rfl⟩
    have answered := Sample.answered_obliging (Program.answers_of_run ran)
    refine ⟨events, Program.after_of_run ran, answered, ?_⟩
    rcases single events true none (Program.after_of_run ran) answered with
      ⟨unstarted, -⟩ | ⟨-, settled⟩
    · cases unstarted
    · rcases settled.followed.stores with stored | ⟨-, fails, -⟩
      · exact stored
      · cases fails
  · obtain ⟨events, ran⟩ : ∃ events, Sample.finishing.run Sample.obliging = some (none, events) :=
      ⟨_, rfl⟩
    have answered := Sample.answered_obliging (Program.answers_of_run ran)
    refine ⟨events, Program.after_of_run ran, answered, ?_⟩
    rcases (batch events none (Program.after_of_run ran) answered).1 with stored | ⟨-, fails, -⟩
    · exact stored
    · cases fails

end OutboxFormal
