import OutboxFormal.Storage.Repository

/-!
# The row state invariant of the active queue

A history of repository calls determines, for every row, how often it was
claimed and how often a release or a defer affected it since it was inserted.
The attempt counter is the difference of the two, and the lease columns are
either both set or both empty.
-/

namespace OutboxFormal.Storage

open Library

variable {event : RowEvent} {stored : Int → Int} {before after : Option Job} {id : JobID}
variable {call : Call} {database : Database} {trace : List CallStep}

/-! ## Counting claims and refunds -/

abbrev CallStep := Transition Database Call Answer

def Call.givesBack : Call → JobID → Bool
  | .releaseUnstartedJobsWithLease ids _ _, id => decide (id ∈ ids)
  | .applyBatchJobOutcomes _ _ _ outcomes, id =>
    outcomes.any fun outcome => decide (outcome.jobID = id) && decide (outcome.kind = .defer)
  | .deferJobWithLease _ wanted _ _ _, id => decide (wanted = id)
  | _, _ => false

namespace CallStep

def inserts (step : CallStep) (id : JobID) : Bool :=
  (step.before.jobs.get? id).isNone && (step.after.jobs.get? id).isSome

/-- The call claimed the row: its answer contains it. -/
def claims (step : CallStep) (id : JobID) : Bool :=
  match step.output.claim with
  | .ok jobs => decide (id ∈ jobs.map Job.id)
  | .error _ => false

/-- The call is a release or a defer of the row, and it affected the row. -/
def refunds (step : CallStep) (id : JobID) : Bool :=
  step.input.givesBack id && decide (step.before.jobs.get? id ≠ step.after.jobs.get? id)

end CallStep

/-- Claims and refunds of a row since it was inserted. -/
structure Tally where
  claims : Nat
  refunds : Nat
  deriving DecidableEq, Repr

def Tally.count (id : JobID) (tally : Tally) (step : CallStep) : Tally :=
  if step.inserts id then ⟨0, 0⟩
  else
    { claims := tally.claims + if step.claims id then 1 else 0
      refunds := tally.refunds + if step.refunds id then 1 else 0 }

/-- The tally of a row over a history. -/
def tally (trace : List CallStep) (id : JobID) : Tally :=
  trace.foldl (Tally.count id) ⟨0, 0⟩

/-! ## Events and counters -/

def RowEvent.isClaim : RowEvent → Bool
  | .claimed .. => true
  | _ => false

def RowEvent.isRefund : RowEvent → Bool
  | .released .. | .deferred .. => true
  | _ => false

/-- A release or a defer changes the row it affects. -/
theorem RowStep.ne_of_isRefund (step : RowStep stored event before after)
    (refund : event.isRefund = true) : before ≠ after := by
  cases step with
  | released named isLeased attempted | deferred named isLeased attempted =>
    intro same
    have token := congrArg (Option.map Job.leaseToken) same
    simp only [Option.map_some, releaseRow, deferRow, rescheduleRow, Option.some.injEq] at token
    rw [(leased_iff.mp isLeased).1] at token
    exact named token
  | _ => cases refund

section Steps

variable (backend : Backend) (digest : Digest)

theorem Call.claim_run (call : Call) (database : Database) (id : JobID)
    (allowed : call.events backend.stored digest (call.run backend digest database).1 id event) :
    CallStep.claims ((repository backend digest).transition database call) id =
      event.isClaim := by
  have claimed : ∀ {token : LeaseToken} {now until_ : Int}
      {answer : Except OutboxError (List Job)},
      claimEvents token now until_ answer id event →
      (match answer with
        | .ok jobs => decide (id ∈ jobs.map Job.id)
        | .error _ => false) = event.isClaim := by
    rintro token now until_ answer (⟨rfl, absent⟩ | ⟨rfl, jobs, rfl, present⟩)
    · cases answer with
      | error error => rfl
      | ok jobs => simpa [RowEvent.isClaim] using absent jobs rfl
    · simpa [RowEvent.isClaim] using present
  cases call with
  | findAndReserveJobsForCapabilities view now until_ token capabilities limit =>
    exact claimed allowed
  | findAndReserveJobsForCapabilityBounded view now until_ token capability maxMessages
      maxBytes =>
      exact claimed allowed
  | createJobVersioned | createJobVersionedUniqueResult | createJobVersionedUniqueBatch =>
    rcases allowed with rfl | ⟨_, _, rfl⟩ <;> rfl
  | extendJobLeases | releaseUnstartedJobsWithLease | deleteJobWithLease
  | rescheduleJobWithLease =>
    rcases allowed with rfl | ⟨_, rfl⟩ <;> rfl
  | applyBatchJobOutcomes | deferJobWithLease =>
    rcases allowed with rfl | ⟨_, _, _, _, ⟨_, rfl⟩ | ⟨_, rfl⟩ | ⟨_, rfl⟩⟩ <;> rfl
  | createFailedJobVersioned | pruneJobIdempotencyKeys =>
    cases allowed
    rfl

/-- A batch gives back exactly the attempts of the rows it defers. -/
theorem outcomes_giveBack {token : LeaseToken} {now : Int} {outcomes : List BatchJobOutcome}
    (allowed : outcomeEvents token now outcomes id event) (changed : event ≠ .kept) :
    (outcomes.any fun outcome => decide (outcome.jobID = id) && decide (outcome.kind = .defer)) =
      event.isRefund := by
  rcases allowed with rfl | ⟨distinct, outcome, member, same, hkind⟩
  · exact absurd rfl changed
  -- With distinct identifiers the row has one outcome, so one kind.
  have unique : (outcomes.any fun other =>
      decide (other.jobID = id) && decide (other.kind = .defer)) = true ↔
      outcome.kind = .defer := by
    simp only [List.any_eq_true, Bool.and_eq_true, decide_eq_true_eq]
    constructor
    · rintro ⟨other, hother, hsame, hdefer⟩
      rwa [List.inj_on_of_nodup_map distinct hother member (hsame.trans same.symm)] at hdefer
    · exact fun hdefer => ⟨outcome, member, same, hdefer⟩
  rw [Bool.eq_iff_iff, unique]
  rcases hkind with ⟨hterminal, rfl⟩ | ⟨hretry, rfl⟩ | ⟨hdefer, rfl⟩
  · have : outcome.kind ≠ .defer := fun hdefer => by simp [hdefer,
      BatchJobOutcomeKind.terminal] at hterminal
    simpa [RowEvent.isRefund] using this
  · simp [RowEvent.isRefund, hretry]
  · simp [RowEvent.isRefund, hdefer]

/-- The events that give an attempt back are those of releases and defers. -/
theorem Call.givesBack_of_events {digest : Digest} {answer : Answer}
    (allowed : call.events stored digest answer id event) (changed : event ≠ .kept) :
    call.givesBack id = event.isRefund := by
  cases call with
  | findAndReserveJobsForCapabilities | findAndReserveJobsForCapabilityBounded =>
    rcases allowed with ⟨rfl, _⟩ | ⟨rfl, _⟩ <;> rfl
  | createJobVersioned | createJobVersionedUniqueResult | createJobVersionedUniqueBatch =>
    rcases allowed with rfl | ⟨_, _, rfl⟩ <;> rfl
  | extendJobLeases | deleteJobWithLease | rescheduleJobWithLease =>
    rcases allowed with rfl | ⟨_, rfl⟩ <;> rfl
  | releaseUnstartedJobsWithLease ids token now =>
    rcases allowed with rfl | ⟨member, rfl⟩
    · exact absurd rfl changed
    · simpa [Call.givesBack, RowEvent.isRefund] using member
  | applyBatchJobOutcomes attached token now outcomes =>
    exact outcomes_giveBack allowed changed
  | deferJobWithLease attached wanted token now availableAt =>
    simpa [Call.givesBack] using outcomes_giveBack allowed changed
  | createFailedJobVersioned | pruneJobIdempotencyKeys =>
    exact absurd allowed changed

/-- What one call does to a row, and what the counters see of it. -/
theorem Call.run_event (call : Call) (database : Database) (id : JobID) :
    ∃ event, RowStep backend.stored event (database.jobs.get? id)
        ((call.run backend digest database).2.jobs.get? id) ∧
      CallStep.claims ((repository backend digest).transition database call) id =
        event.isClaim ∧
      CallStep.refunds ((repository backend digest).transition database call) id =
        event.isRefund := by
  obtain ⟨event, hallowed, hstep⟩ := call.run_row backend digest database id
  refine ⟨event, hstep, call.claim_run backend digest database id hallowed, ?_⟩
  change (call.givesBack id && decide (database.jobs.get? id ≠
    (call.run backend digest database).2.jobs.get? id)) = event.isRefund
  by_cases hkept : event = .kept
  · subst hkept
    rw [hstep.eq_of_kept]
    simp [RowEvent.isRefund]
  · rw [Call.givesBack_of_events hallowed hkept]
    cases hrefund : event.isRefund with
    | false => rfl
    | true => simpa using hstep.ne_of_isRefund hrefund

/-! ## The invariant -/

/-- What holds of a stored row and of its counters. -/
structure RowInvariant (tally : Tally) (job : Job) : Prop where
  attempts_eq : job.attempts = tally.claims - tally.refunds
  attempts_nonneg : 0 ≤ job.attempts
  lease_iff : job.reservedAt = none ↔ job.leaseToken = .nil
  attempted : job.leaseToken ≠ .nil → 1 ≤ job.attempts

theorem RowInvariant.of_isNew {job : Job} (isNew : IsNew job) : RowInvariant ⟨0, 0⟩ job := by
  obtain ⟨hattempts, hreserved, htoken⟩ := isNew
  exact
    { attempts_eq := by simp [hattempts]
      attempts_nonneg := by omega
      lease_iff := by simp [hreserved, htoken]
      attempted := fun hne => absurd htoken hne }

theorem RowInvariant.pos_of_leased {tally : Tally} {job : Job} {token : LeaseToken} {now : Int}
    (invariant : RowInvariant tally job) (named : token ≠ .nil)
    (isLeased : leased token now job = true) : 0 < job.attempts := by
  have := invariant.attempted (by rw [(leased_iff.mp isLeased).1]; exact named)
  omega

/-- One event preserves the invariant, with the counters it moves. -/
theorem RowInvariant.step {after : Job} {counted : Tally}
    (rowStep : RowStep stored event before (some after))
    (invariant : ∀ job, before = some job → RowInvariant counted job) :
    RowInvariant
      (if before.isNone then ⟨0, 0⟩ else
        { claims := counted.claims + if event.isClaim then 1 else 0
          refunds := counted.refunds + if event.isRefund then 1 else 0 }) after := by
  generalize hafter : some after = result at rowStep
  cases rowStep with
  | kept row =>
    subst hafter
    simpa [RowEvent.isClaim, RowEvent.isRefund] using invariant after rfl
  | inserted isNew =>
    cases hafter
    exact RowInvariant.of_isNew isNew
  | @claimed now until_ token job named isReady =>
    cases hafter
    have before := invariant job rfl
    exact
      { attempts_eq := by
          have := before.attempts_eq
          simp only [reserveRow, RowEvent.isClaim, RowEvent.isRefund, Option.isNone_some]
          simp
          omega
        attempts_nonneg := by
          have := before.attempts_nonneg
          simp only [reserveRow]
          omega
        lease_iff := by simp [reserveRow, named]
        attempted := by
          intro _
          have := before.attempts_nonneg
          simp only [reserveRow]
          omega }
  | @extended now until_ token job named isLeased =>
    cases hafter
    have before := invariant job rfl
    have token := (leased_iff.mp isLeased).1
    exact
      { attempts_eq := by
          simpa [extendRow, RowEvent.isClaim, RowEvent.isRefund] using before.attempts_eq
        attempts_nonneg := before.attempts_nonneg
        lease_iff := by simp [extendRow, token, named]
        attempted := before.attempted }
  | @released now token job named isLeased attempted =>
    cases hafter
    have before := invariant job rfl
    exact
      { attempts_eq := by
          have := before.attempts_eq
          simp [releaseRow, RowEvent.isClaim, RowEvent.isRefund]
          omega
        attempts_nonneg := by
          simp only [releaseRow]
          omega
        lease_iff := by simp [releaseRow]
        attempted := fun hne => absurd rfl hne }
  | @rescheduled now availableAt token job named isLeased =>
    cases hafter
    have before := invariant job rfl
    exact
      { attempts_eq := by
          simpa [rescheduleRow, RowEvent.isClaim, RowEvent.isRefund] using before.attempts_eq
        attempts_nonneg := before.attempts_nonneg
        lease_iff := by simp [rescheduleRow]
        attempted := fun hne => absurd rfl hne }
  | @deferred now availableAt token job named isLeased attempted =>
    cases hafter
    have before := invariant job rfl
    exact
      { attempts_eq := by
          have := before.attempts_eq
          simp [deferRow, rescheduleRow, RowEvent.isClaim, RowEvent.isRefund]
          omega
        attempts_nonneg := by
          simp only [deferRow]
          omega
        lease_iff := by simp [deferRow, rescheduleRow]
        attempted := fun hne => absurd rfl hne }
  | deleted => cases hafter

theorem rowInvariant_call
    (invariant : ∀ id job, database.jobs.get? id = some job → RowInvariant (tally trace id) job) :
    ∀ id job, (call.run backend digest database).2.jobs.get? id = some job →
      RowInvariant
        (tally (trace ++ [(repository backend digest).transition database call]) id) job := by
  intro id job hjob
  obtain ⟨event, hstep, hclaims, hrefunds⟩ := call.run_event backend digest database id
  rw [hjob] at hstep
  have next := RowInvariant.step hstep (invariant id)
  have inserts : CallStep.inserts ((repository backend digest).transition database call) id =
      (database.jobs.get? id).isNone := by
    simp only [CallStep.inserts, Machine.transition, repository, hjob, Option.isSome_some,
      Bool.and_true]
  rw [tally, List.foldl_append, ← tally, List.foldl_cons, List.foldl_nil, Tally.count, inserts,
    hclaims, hrefunds]
  exact next

/-! ## Refunds alternate with claims -/

theorem RowStep.of_isRefund (step : RowStep stored event before after)
    (refund : event.isRefund = true) :
    (∃ job, before = some job ∧ job.leaseToken ≠ .nil) ∧
      ∀ job, after = some job → job.leaseToken = .nil := by
  cases step with
  | released named isLeased attempted | deferred named isLeased attempted =>
    refine ⟨⟨_, rfl, ?_⟩, ?_⟩
    · rw [(leased_iff.mp isLeased).1]
      exact named
    · rintro job ⟨⟩
      rfl
  | _ => cases refund

theorem RowStep.unleased (step : RowStep stored event before after)
    (noClaim : event.isClaim = false)
    (unleased : ∀ job, before = some job → job.leaseToken = .nil) :
    ∀ job, after = some job → job.leaseToken = .nil := by
  intro job hjob
  cases step with
  | kept row => exact unleased job hjob
  | inserted isNew =>
    cases hjob
    exact isNew.2.2
  | claimed => cases noClaim
  | deleted => cases hjob
  | extended named isLeased =>
    exact absurd ((leased_iff.mp isLeased).1 ▸ unleased _ rfl) named
  | released | rescheduled | deferred =>
    cases hjob
    rfl

/-- After a refund and until the next claim the row has no token. -/
def Refunded (id : JobID) (database : Database) (trace : List CallStep) : Prop :=
  ∀ earlier first later, trace = earlier ++ first :: later → first.refunds id = true →
    (∀ step ∈ later, step.claims id = false) →
    ∀ job, database.jobs.get? id = some job → job.leaseToken = .nil

/-- Between two refunds of a row lies a claim of it. -/
def Alternates (id : JobID) (trace : List CallStep) : Prop :=
  ∀ earlier first later second rest,
    trace = earlier ++ first :: later ++ second :: rest →
    first.refunds id = true → second.refunds id = true →
    ∃ claim ∈ later, claim.claims id = true

theorem refunded_call (refunded : Refunded id database trace) :
    Refunded id (call.run backend digest database).2
      (trace ++ [(repository backend digest).transition database call]) := by
  obtain ⟨event, hstep, hclaims, hrefunds⟩ := call.run_event backend digest database id
  intro earlier first later hsplit hfirst hlater
  rcases List.eq_nil_or_concat' later with rfl | ⟨before, last, rfl⟩
  · -- The refund is the last call.
    obtain ⟨-, hlast⟩ := List.append_inj' hsplit rfl
    cases hlast
    rw [hrefunds] at hfirst
    exact (hstep.of_isRefund hfirst).2
  · rw [← List.cons_append, ← List.append_assoc] at hsplit
    obtain ⟨hinit, hlast⟩ := List.append_inj' hsplit rfl
    cases hlast
    refine hstep.unleased ?_ (refunded earlier first before hinit hfirst fun step hmember =>
      hlater step (List.mem_append_left _ hmember))
    rw [← hclaims]
    exact hlater _ (List.mem_append_right _ (List.mem_singleton_self _))

theorem alternates_call (refunded : Refunded id database trace) (alternates : Alternates id trace) :
    Alternates id (trace ++ [(repository backend digest).transition database call]) := by
  intro earlier first later second rest hsplit hfirst hsecond
  rcases List.eq_nil_or_concat' rest with rfl | ⟨before, last, rfl⟩
  · -- The second refund is the last call, so its row carried a token before it.
    obtain ⟨hinit, hlast⟩ := List.append_inj' hsplit rfl
    cases hlast
    obtain ⟨event, hstep, _, hrefunds⟩ := call.run_event backend digest database id
    rw [hrefunds] at hsecond
    obtain ⟨job, hjob, htoken⟩ := (hstep.of_isRefund hsecond).1
    by_contra hnone
    push Not at hnone
    refine htoken (refunded earlier first later hinit hfirst (fun step hmember => ?_) job hjob)
    simpa using hnone step hmember
  · rw [← List.cons_append, ← List.append_assoc] at hsplit
    obtain ⟨hinit, _⟩ := List.append_inj' hsplit rfl
    exact alternates earlier first later second before hinit hfirst hsecond

/-! ## Histories -/

/-- Every history keeps the invariant of every row and alternates refunds with
claims. -/
theorem history_rows (history : List Call) :
    (∀ id job, ((repository backend digest).final .empty history).jobs.get? id = some job →
      RowInvariant (tally ((repository backend digest).trace .empty history) id) job) ∧
    ∀ id, Alternates id ((repository backend digest).trace .empty history) := by
  have run := (repository backend digest).invariant
    (fun database trace =>
      (∀ id job, database.jobs.get? id = some job → RowInvariant (tally trace id) job) ∧
      ∀ id, Refunded id database trace ∧ Alternates id trace)
    .empty ?_ ?_ history
  · exact ⟨run.1, fun id => (run.2 id).2⟩
  · refine ⟨fun id job hjob => (by cases hjob), fun id => ⟨?_, ?_⟩⟩
    · intro earlier first later hsplit
      simp at hsplit
    · intro earlier first later second rest hsplit
      simp at hsplit
  · rintro database trace call ⟨rows, refunds⟩
    exact ⟨rowInvariant_call backend digest rows, fun id =>
      ⟨refunded_call backend digest (refunds id).1,
        alternates_call backend digest (refunds id).1 (refunds id).2⟩⟩

/-- Over every history of calls from an empty database, on every backend: the
attempts of a row are its claims minus its refunds and never negative, its lease
columns are set together and only after a claim, so the `attempts > 0` guards
exclude no row that a live lease selects, and no claim is refunded twice. -/
theorem repository_row_state (history : List Call) :
    let database := (repository backend digest).final .empty history
    let trace := (repository backend digest).trace .empty history
    (∀ job ∈ database.jobs.rows,
      job.attempts = (tally trace job.id).claims - (tally trace job.id).refunds ∧
      0 ≤ job.attempts ∧
      (job.reservedAt = none ↔ job.leaseToken = .nil) ∧
      (job.leaseToken ≠ .nil → 1 ≤ job.attempts) ∧
      ∀ token now, token ≠ .nil → leased token (backend.stored now) job = true →
        0 < job.attempts) ∧
    ∀ (id : JobID) (earlier later rest : List CallStep) (first second : CallStep),
      trace = earlier ++ first :: later ++ second :: rest →
      first.refunds id = true → second.refunds id = true →
      ∃ claim ∈ later, CallStep.claims claim id = true := by
  obtain ⟨rows, alternates⟩ := history_rows backend digest history
  refine ⟨fun job hjob => ?_, fun id earlier later rest first second =>
    alternates id earlier first later second rest⟩
  have invariant := rows job.id job (Table.get?_eq_some_iff.mpr ⟨hjob, rfl⟩)
  exact ⟨invariant.attempts_eq, invariant.attempts_nonneg, invariant.lease_iff,
    invariant.attempted, fun token now named isLeased => invariant.pos_of_leased named isLeased⟩

end Steps

end OutboxFormal.Storage
