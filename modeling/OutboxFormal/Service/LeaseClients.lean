import OutboxFormal.Service.LeaseSections
import OutboxFormal.Service.Scripts

/-!
# The clients of a lease manager

The eight operations on the ledger as programs of concurrent clients: the
heartbeat, the fill loop, the admission, the finalizations and the ways a row
leaves. Every interleaving keeps the cached bound, and a finalization reaches
the storage only under sufficient leases.
-/

namespace OutboxFormal

open Library GoError Storage
open Library.Monitor (wp_bind wp_imp wp_mono wp_of_observed wp_onExit wp_seq wp_step wp_within)
open Library.Program (only_bind only_perform only_pure)

variable {ctx : Ctx} {jobs : List Job}

variable {now : Int} {result : Option OutboxError × Ledger}

/-! ## Callbacks -/

/-- The program of a finalization that runs under a context: it leaves the
ledgers alone and calls the storage under that context only. -/
structure Callback (ctx : Ctx) where
  program : Go (Option OutboxError)
  within : program.Within fun effect => effect.aside = true ∨ effect.storageCtx = some ctx

namespace Callback

variable (s : Service) (ctx : Ctx) (job : Job)

/-- A storage call under the context, then effects aside. -/
theorem within_stored {effect : Effect} {next : Answer effect → Go (Option OutboxError)}
    (stores : effect.storageCtx = some ctx)
    (later : ∀ answer, (next answer).Only fun effect => effect.aside = true) :
    (Program.perform effect >>= next).Within fun effect =>
      effect.aside = true ∨ effect.storageCtx = some ctx :=
  ⟨Or.inr stores, fun answer => (later answer).within.mono fun _ => Or.inl⟩

theorem only_observed (kind : RuntimeOutcomeKind) (availableAt : Int) :
    (s.observeJobOutcome job kind availableAt).Only fun effect => effect.aside = true := by
  apply only_observeJobOutcome
  · rfl
  · exact fun _ => rfl

theorem only_settled {failed : OutboxError → OutboxError} {observed : Go Unit}
    (observes : observed.Only fun effect => effect.aside = true)
    (answer : Int × Option OutboxError) :
    Program.Only (fun effect : Effect => effect.aside = true) (match answer with
      | (_, some error) => return some (failed error)
      | (affected, none) =>
        if affected ≠ 1 then return some (.leaf .errLeaseLost)
        else do
          observed
          return none : Go (Option OutboxError)) := by
  obtain ⟨affected, failure⟩ := answer
  cases failure with
  | some error => exact only_pure
  | none =>
    dsimp only
    split
    · exact only_pure
    · exact only_bind observes fun _ => only_pure

def ackBatch : Callback ctx where
  program := s.ackBatch ctx job
  within := ⟨Or.inl rfl, fun _ => within_stored ctx rfl
    (only_settled (only_observed s job .ackConfirmed 0))⟩

def rescheduleLeased (availableAt : Int) : Callback ctx where
  program := s.rescheduleLeased ctx job availableAt
  within := ⟨Or.inl rfl, fun now => within_stored ctx rfl
    (only_settled (only_observed s job .retryPersisted (notBefore now availableAt)))⟩

def deferLeased (availableAt : Int) : Callback ctx where
  program := s.deferLeased ctx job availableAt
  within := by
    unfold Service.deferLeased
    split
    · trivial
    · exact ⟨Or.inl rfl, fun _ => within_stored ctx rfl (only_settled (only_bind
        (only_perform rfl) fun _ => only_observed s job .deferPersisted _))⟩

def dlqBatch (reason : String) : Callback ctx where
  program := s.dlqBatch ctx job reason
  within := within_stored ctx rfl fun failure => by
    cases failure with
    | some error => exact only_pure
    | none => exact only_bind (only_observed s job .dlqCommitted 0) fun _ => only_pure

/-- The transaction of `applyExecutionBatchOutcomes`. -/
def applyOutcomes (token : LeaseToken) (jobs : List Job) (outcomes : List BatchJobOutcome) :
    Callback ctx where
  program := Go.runInTx ctx (.applyOutcomes token jobs outcomes)
  within := ⟨Or.inr rfl, fun _ => trivial⟩

end Callback

/-! ## Operations -/

/-- The operations on a manager, with the callbacks of the finalizations. The
service calls `finalizeAll` in `applyExecutionBatchOutcomes` only. -/
inductive Operation where
  | extend (ctx : Ctx)
  | add (jobs : List Job)
  | admitBatch (ctx : Ctx) (process : Nat)
  | finalize (ctx : Ctx) (jobID : JobID) (callback : (finalizeCtx : Ctx) → Callback finalizeCtx)
  | finalizeAll (ctx : Ctx) (leaseUntil : Int) (finalizeCtx : Ctx) (callback : Callback finalizeCtx)
  | applyExecutionBatchOutcomes (s : Service) (ctx : Ctx) (jobs : List Job)
      (outcomes : List BatchJobOutcome)
  | forget (jobID : JobID)
  | forgetAll
  | releaseUnstarted (ctx : Ctx)

namespace Operation

def call (m : BatchLeaseManager) : Operation → Go Unit
  | extend ctx => do let _ ← m.extend ctx
  | add jobs => do let _ ← m.add jobs
  | admitBatch ctx process => do let _ ← m.admitBatch ctx process
  | finalize ctx jobID callback => do
      let _ ← m.finalize ctx jobID fun finalizeCtx => (callback finalizeCtx).program
  | finalizeAll ctx leaseUntil _ callback => do
      let _ ← m.finalizeAll ctx leaseUntil callback.program
  | applyExecutionBatchOutcomes s ctx jobs outcomes => do
      let _ ← s.applyExecutionBatchOutcomes ctx m jobs outcomes
  | forget jobID => m.forget jobID
  | forgetAll => m.forgetAll
  | releaseUnstarted ctx => do let _ ← m.releaseUnstarted ctx

/-- A client makes one call after the other. -/
def session (m : BatchLeaseManager) : List Operation → Go Unit
  | [] => return ()
  | operation :: rest => do
      operation.call m
      session m rest

def OfService : Operation → Prop
  | finalizeAll _ _ _ _ => False
  | _ => True

/-- The leases a finalization asks for are enough for its callback. -/
def Observes (duties : Duties) : Operation → Prop
  | finalizeAll _ leaseUntil finalizeCtx _ => duties.Met finalizeCtx leaseUntil
  | _ => True

theorem observes_free (operation : Operation) : operation.Observes .free := by
  cases operation with
  | finalizeAll ctx leaseUntil finalizeCtx callback => exact Duties.met_free finalizeCtx leaseUntil
  | _ => trivial

theorem OfService.observes {operation : Operation} (ofService : operation.OfService)
    (duties : Duties) : operation.Observes duties := by
  cases operation with
  | finalizeAll ctx leaseUntil finalizeCtx callback => exact ofService.elim
  | _ => trivial

end Operation

/-! ## Every operation is a client -/

section Operations

variable {m : BatchLeaseManager} {duties : Duties} {ledger : Ledger} {renewal : Renewal} {α : Type}
variable {unwinds : Option Ledger × Renewal → Prop}

/-- The mutex is held at the end of a critical section. -/
def Holding (last : Option Ledger × Renewal) : Prop := last.1.isSome = true

/-- The mutex is free again. -/
def Released (last : Option Ledger × Renewal) : Prop := last.1 = none

/-- A section that starts and ends with the mutex in hand. -/
abbrev Keeps (m : BatchLeaseManager) (duties : Duties) (ledger : Ledger) (renewal : Renewal)
    (body : Go α) : Prop :=
  (m.recorded duties).wp body (fun _ => Holding) Holding (some ledger, renewal)

/-- A call that starts and ends without the mutex. -/
abbrev Frees (m : BatchLeaseManager) (duties : Duties) (renewal : Renewal) (call : Go α) : Prop :=
  (m.recorded duties).wp call (fun _ => Released) Released (none, renewal)

theorem wp_unlock {returns : Option Ledger × Renewal → Prop} (ended : returns (none, renewal)) :
    (m.recorded duties).wp (Go.unlock m.group) (fun _ => returns) unwinds
      (some ledger, renewal) := by
  refine ⟨⟨⟨duties.lenient _ _ rfl, fun _ _ => ?_⟩, trivial⟩, fun _ _ => ?_⟩
  · simp [BatchLeaseManager.guard, Guard.Disciplined]
  · have freed : (m.recorded duties).next (some ledger, renewal) (.unlock m.group) () =
        (none, renewal) := congrArg (·, renewal) next_unlock
    exact freed ▸ ended

theorem wp_critical {body : Go α}
    (critical : Keeps m duties ledger renewal body) :
    (m.recorded duties).wp (Program.onExit (Go.unlock m.group) (Go.unlock m.group) body)
      (fun _ => Released) Released (some ledger, renewal) := by
  have unlocks : ∀ last, Holding last → (m.recorded duties).wp (Go.unlock m.group)
      (fun _ => Released) Released last := by
    rintro ⟨held, last⟩ holding
    obtain ⟨after, rfl⟩ := Option.isSome_iff_exists.mp holding
    exact wp_unlock rfl
  exact wp_onExit.mpr (wp_mono critical (fun _ => unlocks) unlocks)

theorem wp_locked {body : Ledger → Go α}
    (critical : ∀ ledger, ledger.Bounded → Keeps m duties ledger renewal (body ledger)) :
    Frees m duties renewal (m.locked body) := by
  refine wp_step ⟨⟨duties.lenient _ _ rfl, fun ledger _ => ?_⟩, trivial⟩
    fun ledger expected => ?_
  · simp [BatchLeaseManager.guard, Guard.Disciplined]
  · have taken : (m.recorded duties).next (none, renewal) (.lock m.group) ledger =
        (some ledger, renewal) := congrArg (·, renewal) next_lock
    rw [taken]
    refine wp_critical (critical ledger (expected.2 ledger ?_))
    simp [BatchLeaseManager.guard]

theorem wp_lockedContext {body : Ledger → Go (Option OutboxError)}
    (critical : ∀ ledger, ledger.Bounded → Keeps m duties ledger renewal (body ledger)) :
    Frees m duties renewal (m.lockedContext ctx body) := by
  refine wp_step ⟨⟨duties.lenient _ _ rfl, fun answer _ => ?_⟩, trivial⟩
    fun answer expected => ?_
  · cases answer with
    | error cause => trivial
    | ok ledger => simp [BatchLeaseManager.guard, Guard.Disciplined]
  · cases answer with
    | error cause => exact wp_aside rfl fun _ _ => rfl
    | ok ledger =>
      have taken : (m.recorded duties).next (none, renewal) (.lockContext m.group ctx)
          (.ok ledger) = (some ledger, renewal) := congrArg (·, renewal) next_lockContext
      rw [taken]
      refine wp_critical (critical ledger (expected.2 ledger ?_))
      simp [BatchLeaseManager.guard]

theorem wp_extend (quiet : renewal.asked = []) :
    Frees m duties renewal (m.extend ctx) := by
  refine wp_locked fun ledger bounded => wp_aside rfl fun now _ => ?_
  refine wp_seq (wp_ensureLeasesLocked bounded quiet) ?_
  rintro result last ⟨held, -⟩
  exact Option.isSome_iff_exists.mpr ⟨_, held⟩

/-- Every entered row was checked against a reading of the clock. -/
theorem wp_addLocked (bounded : ledger.Bounded) :
    Keeps m duties ledger renewal (m.addLocked ledger jobs) := by
  induction jobs generalizing ledger renewal with
  | nil => exact rfl
  | cons job rest ih =>
    refine wp_aside rfl fun now positive => ?_
    cases checked : validateClaimedJobLease job m.leaseToken now with
    | some error => exact rfl
    | none =>
      dsimp only
      split
      · exact rfl
      · have entered := bounded.enter (deadlineOf_pos checked positive)
        exact wp_store entered (ih entered)

theorem wp_add :
    Frees m duties renewal (m.add jobs) :=
  wp_locked fun _ => wp_addLocked

theorem wp_batchStartError {process : Nat} {held : Option Ledger} :
    (m.recorded duties).wp (batchStartError ctx process)
      (fun _ last => last = (held, renewal)) unwinds (held, renewal) := by
  refine wp_aside rfl fun cause _ => ?_
  cases cause with
  | some error => exact rfl
  | none =>
    refine wp_aside rfl fun draining _ => ?_
    cases draining <;> exact rfl

theorem wp_admitBatch {process : Nat} (quiet : renewal.asked = []) :
    Frees m duties renewal (m.admitBatch ctx process) := by
  have boundary : ∀ {ledger : Ledger} {renewal : Renewal}, (m.recorded duties).wp
      (batchStartError ctx process) (fun _ => Holding) Holding (some ledger, renewal) := by
    intro ledger renewal
    refine wp_imp wp_batchStartError ?_
    rintro _ _ rfl
    exact rfl
  refine wp_locked fun ledger bounded => ?_
  refine wp_seq wp_batchStartError ?_
  rintro error _ rfl
  cases error with
  | some error => exact rfl
  | none =>
    dsimp only
    split
    · exact rfl
    · refine wp_aside rfl fun now _ => ?_
      refine wp_seq (wp_checkLeasesLocked bounded now) ?_
      rintro _ _ (⟨checked, -, -, -⟩ | ⟨-, -⟩)
      · dsimp only
        split
        · refine wp_seq (wp_ensureLeasesLocked checked quiet) ?_
          rintro ⟨error, after⟩ ⟨_, last⟩ ⟨rfl, -⟩
          cases error with
          | some error => exact rfl
          | none => exact boundary
        · exact boundary
      · exact rfl

theorem wp_asides {held : Option Ledger} {program : Go α}
    (asides : program.Only fun effect => effect.aside = true) :
    (m.recorded duties).wp program (fun _ last => last.1 = held) (fun last => last.1 = held)
      (held, renewal) := by
  refine wp_within ?_ asides.within rfl
  rintro ⟨_, before⟩ effect rfl aside
  exact ⟨⟨allowed_aside aside, trivial⟩, @next_aside m duties _ effect aside⟩

theorem wp_callback {callback : Callback ctx} {leaseUntil : Int} (met : duties.Met ctx leaseUntil)
    (leased : ledger.LeasedUntil leaseUntil) :
    (m.recorded duties).wp callback.program (fun _ last => last.1 = some ledger)
      (fun last => last.1 = some ledger) (some ledger, renewal) := by
  refine wp_within ?_ callback.within rfl
  rintro ⟨_, before⟩ effect rfl (aside | stores)
  · exact ⟨⟨allowed_aside aside, trivial⟩, @next_aside m duties _ effect aside⟩
  · refine ⟨⟨⟨met ledger effect stores leased, fun answer _ => ?_⟩, trivial⟩, fun answer => ?_⟩
    · cases effect with
      | leased | runInTx => trivial
      | _ => cases stores
    · cases effect with
      | leased | runInTx => rfl
      | _ => cases stores

/-- The callback runs under the leases its operation asked for. -/
theorem wp_finalizeLocked {finalizeCtx : Ctx} {requiredUntil targetUntil : Int}
    {callback : Callback finalizeCtx} {drop : Ledger → Ledger} (bounded : ledger.Bounded)
    (quiet : renewal.asked = []) (drops : ∀ after : Ledger, after.Bounded → (drop after).Bounded)
    (met : duties.Met finalizeCtx requiredUntil) :
    (m.recorded duties).wp
      (m.finalizeLocked ctx ledger requiredUntil targetUntil callback.program drop)
      (fun _ => Holding) Holding (some ledger, renewal) := by
  refine wp_seq (wp_ensureLeasesLocked bounded quiet) ?_
  rintro ⟨error, after⟩ ⟨_, last⟩ ⟨rfl, ensured⟩
  cases error with
  | some error => exact rfl
  | none =>
    refine wp_aside rfl fun elapsed _ => ?_
    cases elapsed with
    | some error => exact rfl
    | none =>
      have leased : after.LeasedUntil requiredUntil :=
        fun entry member => (ensured.succeeded rfl entry member).1
      refine wp_bind.mpr (wp_mono (wp_callback met leased) ?_ ?_)
      · rintro failure ⟨_, later⟩ rfl
        cases failure with
        | some error => exact rfl
        | none => exact wp_store (drops after ensured.bounded) rfl
      · rintro ⟨_, later⟩ rfl
        exact rfl

theorem wp_finalize {jobID : JobID} {callback : (finalizeCtx : Ctx) → Callback finalizeCtx}
    (quiet : renewal.asked = []) :
    Frees m duties renewal
      (m.finalize ctx jobID fun finalizeCtx => (callback finalizeCtx).program) := by
  refine wp_aside rfl fun now _ => wp_lockedContext fun ledger bounded => ?_
  dsimp only
  split
  · exact rfl
  · refine wp_finalizeLocked bounded quiet (fun after kept => kept.remove jobID) ?_
    exact duties.met_withDeadline _ _

theorem wp_finalizeAll {ctx finalizeCtx : Ctx} {leaseUntil : Int} (callback : Callback finalizeCtx)
    (quiet : renewal.asked = []) (met : duties.Met finalizeCtx leaseUntil) :
    Frees m duties renewal (m.finalizeAll ctx leaseUntil callback.program) := by
  refine wp_lockedContext fun ledger bounded => ?_
  split
  · exact rfl
  · exact wp_finalizeLocked bounded quiet (fun after _ => .clear after) met

theorem wp_applyExecutionBatchOutcomes {s : Service} {outcomes : List BatchJobOutcome}
    (quiet : renewal.asked = []) :
    Frees m duties renewal (s.applyExecutionBatchOutcomes ctx m jobs outcomes) := by
  refine wp_aside rfl fun now _ => wp_seq (wp_finalizeAll
    (.applyOutcomes _ m.leaseToken jobs outcomes) quiet (duties.met_withDeadline _ _)) ?_
  rintro failure ⟨_, last⟩ rfl
  cases failure with
  | some error => exact rfl
  | none =>
    have observes : (s.observeBatchOutcomes jobs outcomes).Only fun effect =>
        effect.aside = true := by
      apply only_observeBatchOutcomes
      · rfl
      · exact fun _ => rfl
    exact wp_bind.mpr (wp_asides observes)

theorem wp_releaseJobs {what : String} {jobIDs : List JobID} {token : LeaseToken} :
    (m.recorded duties).wp (releaseJobs what ctx jobIDs token)
      (fun _ last => last.1 = some ledger) unwinds (some ledger, renewal) := by
  refine wp_aside rfl fun _ _ => wp_aside rfl fun _ _ => wp_aside rfl fun answer _ => ?_
  obtain ⟨affected, failure⟩ := answer
  cases failure with
  | some error => exact rfl
  | none =>
    dsimp only
    split <;> exact rfl

theorem wp_releaseUnstarted :
    Frees m duties renewal (m.releaseUnstarted ctx) := by
  refine wp_locked fun ledger _ => ?_
  dsimp only
  split
  · exact rfl
  · refine wp_seq wp_releaseJobs ?_
    rintro failure ⟨_, last⟩ rfl
    cases failure with
    | some error => exact rfl
    | none => exact wp_store (.clear ledger) rfl

theorem wp_released {program : Go α}
    (meets : (m.recorded duties).wp program (fun _ => Released) Released (none, .start)) :
    (m.client duties).wp program (fun _ last => last = none) (fun last => last = none) none :=
  wp_of_observed meets

/-- Every operation takes the mutex, keeps the bound and gives the mutex back. -/
theorem wp_call {operation : Operation} (observes : operation.Observes duties) :
    (m.client duties).wp (operation.call m) (fun _ last => last = none)
      (fun last => last = none) none := by
  cases operation with
  | extend ctx => exact wp_bind.mpr (wp_released (wp_extend rfl))
  | add jobs => exact wp_bind.mpr (wp_released wp_add)
  | admitBatch ctx process => exact wp_bind.mpr (wp_released (wp_admitBatch rfl))
  | finalize ctx jobID callback =>
    exact wp_bind.mpr (wp_released (wp_finalize rfl))
  | finalizeAll ctx leaseUntil finalizeCtx callback =>
    exact wp_bind.mpr (wp_released (wp_finalizeAll callback rfl observes))
  | applyExecutionBatchOutcomes s ctx jobs outcomes =>
    exact wp_bind.mpr (wp_released (wp_applyExecutionBatchOutcomes rfl))
  | forget jobID =>
    exact wp_released (wp_locked fun ledger bounded => wp_store (bounded.remove jobID) rfl)
  | forgetAll =>
    exact wp_released (wp_locked fun ledger _ => wp_store (.clear ledger) rfl)
  | releaseUnstarted ctx => exact wp_bind.mpr (wp_released wp_releaseUnstarted)

theorem wp_session {operations : List Operation}
    (observe : ∀ operation ∈ operations, operation.Observes duties) :
    (m.client duties).wp (Operation.session m operations) (fun _ _ => True) (fun _ => True)
      none := by
  induction operations with
  | nil => trivial
  | cons operation rest ih =>
    refine wp_bind.mpr (wp_mono (wp_call (observe operation List.mem_cons_self)) ?_
      fun _ _ => trivial)
    rintro _ _ rfl
    exact ih fun other member => observe other (List.mem_cons_of_mem operation member)

end Operations

/-! ## Every interleaving -/

/-- The ledger of a new manager over claimed jobs, and its clients. -/
def leaseClients (m : BatchLeaseManager) (jobs : List Job) (sessions : List (List Operation)) :
    Config Unit (Guarded Ledger) Answer :=
  ⟨⟨.ofJobs jobs, none⟩, sessions.map fun operations =>
    .start ((), Operation.session m operations)⟩

/-- Every job passed `validateClaimedJobLease` at some reading of the clock. -/
def LeaseValidated (m : BatchLeaseManager) (jobs : List Job) : Prop :=
  ∀ job ∈ jobs, ∃ now, 0 < now ∧ validateClaimedJobLease job m.leaseToken now = none

section Interleavings

variable {m : BatchLeaseManager} {duties : Duties}
variable {sessions : List (List Operation)} {config : Config Unit (Guarded Ledger) Answer}

theorem keeps_leaseClients (validated : LeaseValidated m jobs)
    (observe : ∀ operations ∈ sessions, ∀ operation ∈ operations, operation.Observes duties)
    (reached : (m.guard.semantics Unit).Reaches (leaseClients m jobs sessions) config) :
    Supervision.Holds (fun _ => m.client duties) (m.guard.Keeps Ledger.Bounded duties.permits)
      config := by
  refine Guard.supervision.reaches ⟨⟨?_, ?_⟩, ?_⟩ reached
  · refine Ledger.bounded_ofJobs fun job member => ?_
    obtain ⟨now, positive, accepted⟩ := validated job member
    exact deadlineOf_pos accepted positive
  · intro index past found
    rw [leaseClients, List.map_map, List.getElem?_map] at found
    obtain ⟨operations, -, rfl⟩ := Option.map_eq_some_iff.mp found
    exact rfl
  · intro thread member
    obtain ⟨operations, listed, rfl⟩ := List.mem_map.mp member
    exact wp_session (observe operations listed)

end Interleavings

/-! ## Runs of the checks -/

/-- What the events of a renewal read, asked for and reported. -/
def Renewal.record (events : History Answer) : Renewal :=
  events.foldr (fun event renewal => renewal.next event.effect event.answer) .start

/-- The ledger behind the mutex after events of its holder. -/
def BatchLeaseManager.ledgerAfter (m : BatchLeaseManager) (ledger : Ledger)
    (events : History Answer) : Option Ledger :=
  events.foldr (fun event held => m.guard.next held event.effect event.answer) (some ledger)

section Runs

variable {m : BatchLeaseManager} {ledger : Ledger} {events : History Answer}

theorem advance_recorded :
    (m.recorded .free).advance (some ledger, .start) events =
      (m.ledgerAfter ledger events, Renewal.record events) := by
  induction events with
  | nil => rfl
  | cons event earlier ih =>
    exact congrArg (fun state => (m.recorded .free).next state event.effect event.answer) ih

theorem Checked.iff {renewal : Renewal} {last : Option Ledger × Renewal}
    (checked : Checked ledger renewal now result last) :
    result.1 = none ↔ ∀ entry ∈ ledger.outstanding.rows, now < entry.2 := by
  cases checked with
  | passed _ _ _ live => exact ⟨fun _ => live, fun _ => rfl⟩
  | expired member elapsed => exact ⟨nofun, fun live => absurd (live _ member) (not_lt.mpr elapsed)⟩

theorem only_answered : (m.checkLeasesLocked ledger now).Only fun effect =>
    ∀ answer, m.guard.possible effect answer ∧
      ∀ value, m.guard.step effect answer = .acquire value → value.Bounded := by
  unfold BatchLeaseManager.checkLeasesLocked
  split
  · exact only_pure
  · split
    · exact ⟨fun _ => ⟨trivial, nofun⟩, fun _ => ⟨fun _ => ⟨trivial, nofun⟩, fun _ => trivial⟩⟩
    · refine ⟨fun _ => ⟨trivial, fun value => ?_⟩, fun _ => trivial⟩
      simp [BatchLeaseManager.guard]

theorem check_agrees (bounded : ledger.Bounded)
    (runs : (m.checkLeasesLocked ledger now).After events (.ret result)) :
    result.1 = none ↔ ∀ entry ∈ ledger.outstanding.rows, now < entry.2 := by
  have checked := runs.wp (@wp_checkLeasesLocked m .free ledger .start (fun _ => False) bounded now)
    fun event member _ => (runs.only only_answered).2 event member event.answer
  exact checked.iff

theorem ensure_run {requiredUntil targetUntil : Int} (bounded : ledger.Bounded)
    (runs : (m.ensureLeasesLocked ctx ledger requiredUntil targetUntil).After events (.ret result))
    (ticks : ∀ time : Int, (⟨.now, time⟩ : Event Answer) ∈ events → 0 < time) :
    m.ledgerAfter ledger events = some result.2 ∧
      Ensured ledger requiredUntil targetUntil result (Renewal.record events) := by
  have footprint := (runs.only (only_ensureLeasesLocked (fun _ => id) ctx _ _)).2
  have ended := runs.wp (@wp_ensureLeasesLocked m .free ledger .start (fun _ => False) requiredUntil
    targetUntil ctx bounded rfl) ?_
  · rw [advance_recorded] at ended
    exact ended
  · rintro ⟨effect, answer⟩ member _
    have renews : effect.ofRenewals = true := footprint _ member
    cases effect with
    | now => exact ⟨ticks answer member, fun _ acquired => by cases acquired⟩
    | lock | lockContext | unlock => cases renews
    | store group after =>
      refine ⟨trivial, fun value acquired => ?_⟩
      simp only [BatchLeaseManager.guard] at acquired
      split at acquired <;> cases acquired
    | _ => exact ⟨trivial, fun _ acquired => by cases acquired⟩

end Runs

namespace Sample

def leases : BatchLeaseManager := ⟨0, token, 100 * second⟩

/-- Two claimed rows, the first of which expires ten seconds before the second. -/
def staggered : List Job :=
  [{ row 1 with reservedAt := some (10 * second) }, { row 2 with reservedAt := some (20 * second) }]

/-- A client that forgets the first row, and one that acknowledges the second. -/
def acknowledging : List (List Operation) :=
  [[.forget ⟨1⟩], [.finalize (.run 0) ⟨2⟩ fun finalizeCtx => .ackBatch single finalizeCtx (row 2)]]

def judge : (effect : Effect) → Answer effect → Bool
  | .now, time => decide (0 < time)
  | _, _ => true

def leasesInterpreter : Interpreter (leases.guard.semantics Unit) Empty :=
  leases.guard.interpreter Unit judge fun effect answer judged => by
    cases effect with
    | now =>
      have positive : (0 : Int) < answer := of_decide_eq_true judged
      exact positive
    | _ => trivial

def leaseAnswers (world : Guarded Ledger) : (effect : Effect) → Option (Answer effect)
  | .now => some (15 * second)
  | .lock _ => some world.value
  | .lockContext _ _ => some (.ok world.value)
  | .store _ _ | .unlock _ => some ()
  | .extendJobLeases _ ids _ _ _ => some (ids.length, none)
  | .cause _ | .err _ => some none
  | _ => none

/-- So many steps of the acknowledging client, after the other one has left. -/
def acknowledged (steps : Nat) : Option (Config Unit (Guarded Ledger) Answer) :=
  leasesInterpreter.play (leaseClients leases staggered acknowledging)
    (List.replicate 3 (.thread 0 leaseAnswers) ++ List.replicate steps (.thread 1 leaseAnswers))

/-- The effect a program performs next. -/
def pending : Go Unit → Option Effect
  | .call effect _ => some effect
  | _ => none

/-- The context of the storage call the second thread is about to make. -/
def storing (config : Config Unit (Guarded Ledger) Answer) : Option Ctx :=
  config.threads[1]?.bind fun thread => (pending thread.program).bind Effect.storageCtx

end Sample

/-- In every interleaving of clients the cached bound is a lower bound of the
outstanding deadlines, so a check finds every expired lease. -/
theorem cached_bound_hides_no_expired_lease {m : BatchLeaseManager} {jobs : List Job}
    {sessions : List (List Operation)} {config : Config Unit (Guarded Ledger) Answer}
    (validated : LeaseValidated m jobs)
    (reached : (m.guard.semantics Unit).Reaches (leaseClients m jobs sessions) config) :
    (∀ entry ∈ config.world.value.outstanding.rows,
        config.world.value.earliestUntil ≤ entry.2) ∧
      (config.world.value.outstanding.rows = [] → config.world.value.earliestUntil = 0) ∧
      (∀ id ∈ config.world.value.ids, id ∈ config.world.value.orderedIDs) ∧
      ∀ now events result,
        (m.checkLeasesLocked config.world.value now).After events (.ret result) →
        (result.1 = none ↔ ∀ entry ∈ config.world.value.outstanding.rows, now < entry.2) := by
  have kept := keeps_leaseClients validated (fun _ _ operation _ => operation.observes_free) reached
  have bounded : config.world.value.Bounded := kept.invariant.1
  exact ⟨bounded.bound, bounded.empty, bounded.ordered, fun _ _ _ => check_agrees bounded⟩

theorem leaseValidated_staggered : LeaseValidated Sample.leases Sample.staggered := by
  intro job member
  refine ⟨1, by decide, ?_⟩
  simp only [Sample.staggered, List.mem_cons, List.not_mem_nil, or_false] at member
  rcases member with rfl | rfl
  · decide
  · decide

/-- The bound is still the deadline of the row that left; a check past it goes by
the deadline of the row that stayed. -/
theorem cached_bound_hides_no_expired_lease_midway :
    ∃ config, (Sample.leases.guard.semantics Unit).Reaches
        (leaseClients Sample.leases Sample.staggered Sample.acknowledging) config ∧
      config.world.holder = some 1 ∧
      config.world.value.outstanding.rows = [(⟨2⟩, 20 * second)] ∧
      config.world.value.earliestUntil = 10 * second ∧
      ∀ now events result,
        (Sample.leases.checkLeasesLocked config.world.value now).After events (.ret result) →
        (result.1 = none ↔ now < 20 * second) := by
  have stale : (Sample.acknowledged 2).map (fun config => (config.world.holder,
      config.world.value.outstanding.rows, config.world.value.earliestUntil)) =
      some (some 1, [(⟨2⟩, 20 * second)], 10 * second) := by decide
  obtain ⟨config, plays, same⟩ := Option.map_eq_some_iff.mp stale
  simp only [Prod.mk.injEq] at same
  obtain ⟨holder, rows, bound⟩ := same
  have reached := Interpreter.play_reaches plays
  refine ⟨config, reached, holder, rows, bound, fun now events result runs => ?_⟩
  have checked := (cached_bound_hides_no_expired_lease leaseValidated_staggered reached).2.2.2
    now events result runs
  rw [rows, List.forall_mem_singleton] at checked
  exact checked

/-- In every interleaving of clients a renewal meets its specification, and a
storage call of a finalization is made by the holder of the mutex under leases
that outlive the deadline of its context by the margin. -/
theorem finalizations_run_under_leases {m : BatchLeaseManager} {jobs : List Job}
    {sessions : List (List Operation)} {config : Config Unit (Guarded Ledger) Answer}
    (validated : LeaseValidated m jobs)
    (reached : (m.guard.semantics Unit).Reaches (leaseClients m jobs sessions) config) :
    (∀ ctx requiredUntil targetUntil events result,
        (m.ensureLeasesLocked ctx config.world.value requiredUntil targetUntil).After events
          (.ret result) →
        (∀ time : Int, (⟨.now, time⟩ : Event Answer) ∈ events → 0 < time) →
        m.ledgerAfter config.world.value events = some result.2 ∧
          Ensured config.world.value requiredUntil targetUntil result (Renewal.record events)) ∧
      ((∀ operations ∈ sessions, ∀ operation ∈ operations, operation.OfService) →
        ∀ index history effect resume ctx,
          config.threads[index]? = some ⟨(), history, .call effect resume⟩ →
          effect.storageCtx = some ctx →
          config.world.holder = some index ∧ ∃ parent deadline,
            ctx = .withDeadline parent deadline ∧
              ∀ entry ∈ config.world.value.outstanding.rows, deadline + second ≤ entry.2) := by
  constructor
  · have kept := keeps_leaseClients validated (fun _ _ operation _ => operation.observes_free)
      reached
    intro ctx requiredUntil targetUntil events result runs ticks
    exact ensure_run kept.invariant.1 runs ticks
  · intro ofService index history effect resume ctx found stores
    have kept := keeps_leaseClients validated
      (fun operations listed operation member =>
        (ofService operations listed operation member).observes .covered) reached
    obtain ⟨past, allowed⟩ := kept.located found
    obtain ⟨ledger, parent, deadline, held, same, leased⟩ := allowed.1 ctx stores
    have hand := kept.invariant.2 index _ past
    rw [held] at hand
    split at hand
    · rename_i holds
      cases hand
      exact ⟨holds, parent, deadline, same, leased⟩
    · cases hand

/-- The acknowledgement is stored after the remaining lease has been renewed. -/
theorem finalizations_run_under_leases_of_ack :
    ∃ config, (Sample.leases.guard.semantics Unit).Reaches
        (leaseClients Sample.leases Sample.staggered Sample.acknowledging) config ∧
      config.world.holder = some 1 ∧
      Sample.storing config = some (.withDeadline (.withoutCancel (.run 0)) (20 * second)) ∧
      config.world.value.outstanding.rows = [(⟨2⟩, 121 * second + millisecond)] ∧
      ∀ entry ∈ config.world.value.outstanding.rows, 20 * second + second ≤ entry.2 := by
  have ends : (Sample.acknowledged 11).bind (fun config => (Sample.storing config).map
      fun ctx => (ctx, config.world.value.outstanding.rows)) =
      some (.withDeadline (.withoutCancel (.run 0)) (20 * second),
        [(⟨2⟩, 121 * second + millisecond)]) := by decide
  obtain ⟨config, plays, found⟩ := Option.bind_eq_some_iff.mp ends
  obtain ⟨ctx, stores, same⟩ := Option.map_eq_some_iff.mp found
  obtain ⟨rfl, rows⟩ := Prod.mk.inj same
  have reached := Interpreter.play_reaches plays
  obtain ⟨⟨_, history, program⟩, found, called⟩ := Option.bind_eq_some_iff.mp stores
  obtain ⟨effect, next, storage⟩ := Option.bind_eq_some_iff.mp called
  cases program with
  | ret | goexit => cases next
  | call effect' resume =>
    cases next
    obtain ⟨holder, parent, deadline, same, leased⟩ :=
      (finalizations_run_under_leases leaseValidated_staggered reached).2
        (by simp [Sample.acknowledging, Operation.OfService]) 1 history effect resume _ found
        storage
    cases same
    exact ⟨config, reached, holder, stores, rows, leased⟩

end OutboxFormal
