import OutboxFormal.Library.Runs
import OutboxFormal.Service.SingleSpecs

/-!
# What a finished group did

The events of a call of a worker show which capabilities were paused, what the
claims answered and which handlers began. Work is ready in a call whose claims for
it yield rows, and executed in a call that claimed rows and handed every one of
them to a handler. A group of ready work that ends without an error was executed.
-/

namespace OutboxFormal

open Library GoError
open Library.Program (Returns returns_bind returns_step)

/-- The capability that a claim for an execution batch asks for. -/
def ClaimMethod.batch? : ClaimMethod → Option JobCapability
  | .findAndReserveJobsForCapability capability _ => some capability
  | .findAndReserveJobsForCapabilityBounded capability _ _ => some capability
  | .findAndReserveJobsForCapabilities _ _ => none

/-! ## Ready work and executed work -/

section Readiness

variable (s : Service) (events : History Answer)

def Service.Unpaused (capability : JobCapability) : Prop :=
  ∀ now paused, ⟨.batchCapabilityPaused s.process capability now, paused⟩ ∈ events → paused = false

/-- The claims that open a group are answered with rows before their deadline.
The claims that fill a batch are made in the context of the group. -/
def Service.ClaimsYield (kind : Option JobCapability) : Prop :=
  ∀ deadline request (answer : List Job × Option OutboxError),
    ⟨.claim (.withDeadline (.run s.process) deadline) request, answer⟩ ∈ events →
    request.method.batch? = kind → answer.2 = none ∧
      ∀ cause, ⟨.cause (.withDeadline (.run s.process) deadline), cause⟩ ∈ events → cause = none

/-- No group ends because the service drains. A worker drops that error, and while
the service drains no claim yields rows. -/
def Undrained : Prop :=
  ∀ error, ⟨.returned (.group (some error)), ()⟩ ∈ events → error.is .errServiceDraining = false

/-- A claim that opened a group returned the rows. -/
def Service.Opened (kind : Option JobCapability) (token : LeaseToken) (rows : List Job) : Prop :=
  ∃ deadline request, ⟨.claim (.withDeadline (.run s.process) deadline) request, (rows, none)⟩ ∈
    events ∧ request.method.batch? = kind ∧ request.leaseToken = token

structure BatchReady (capability : JobCapability) : Prop where
  unpaused : s.Unpaused events capability
  claims : s.ClaimsYield events (some capability)
  undrained : Undrained events

structure SingleReady (capabilities : List JobCapability) : Prop where
  unpaused : ∃ capability ∈ capabilities, s.Unpaused events capability
  claims : s.ClaimsYield events none
  undrained : Undrained events
  /-- A worker also drops `ErrNoJobs`; a group with rows does not end with it. -/
  kept : ∀ token rows, s.Opened events none token rows →
    ∀ error, ⟨.returned (.group (some error)), ()⟩ ∈ events → error.is .errNoJobs = false

/-- One handler call covers every row that the claim of the batch returned. -/
def BatchExecuted (capability : JobCapability) : Prop :=
  ∃ token rows ctx items, s.Opened events (some capability) token rows ∧ rows ≠ [] ∧
    ⟨.handleBatch ctx token items, ()⟩ ∈ events ∧ ∀ row ∈ rows, Service.batchJobItem row ∈ items

/-- The handler of every row that the claim of a single group returned began. -/
def SingleExecuted : Prop :=
  ∃ token rows, s.Opened events none token rows ∧ rows ≠ [] ∧
    ∀ row ∈ rows, ∃ ctx, ⟨.handle ctx row, ()⟩ ∈ events

end Readiness

/-! ## Finished groups -/

section Groups

variable {s : Service} {events : History Answer} {capability : JobCapability} {token : LeaseToken}
variable {rows : List Job} {failure : Option OutboxError} {registration : BatchJobRegistration}
variable {m : BatchLeaseManager} {ctx : Ctx} {capabilities : List JobCapability}

theorem returns_reportGroup {claimedJobs : Nat} {retErr : Option OutboxError}
    (ran : Returns events (s.reportGroup claimedJobs retErr) failure) :
    failure = retErr ∧ ⟨.returned (.group retErr), ()⟩ ∈ events := by
  obtain ⟨_, -, ran⟩ := returns_bind.mp ran
  obtain ⟨_, reported, same⟩ := ran
  exact ⟨same.symm, reported⟩

/-- A claim that yields rows fails only because the service drains. -/
theorem returns_claimJobsWithLease {method : ClaimMethod}
    (yields : s.ClaimsYield events method.batch?)
    (ran : Returns events (s.claimJobsWithLease (.run s.process) token method) (rows, failure)) :
    failure = none ∧ s.Opened events method.batch? token rows ∨
      failure = some (.leaf .errServiceDraining) := by
  obtain ⟨_, -, draining, -, ran⟩ := ran
  cases draining with
  | true =>
    obtain ⟨_, -, same⟩ := ran
    cases same
    exact Or.inr rfl
  | false =>
    obtain ⟨now, -, ⟨jobs, claimErr⟩, claimed, claimCause, asked, _, -, ran⟩ := ran
    obtain ⟨clean, alive⟩ := yields _ _ _ claimed rfl
    cases alive _ asked
    obtain rfl : claimErr = none := clean
    cases ran
    exact Or.inl ⟨rfl, _, _, claimed, rfl, rfl⟩

theorem validateClaimedJobLease_notNoJobs {job : Job} {now : Int} :
    errorsIs (validateClaimedJobLease job token now) .errNoJobs = false := by
  unfold validateClaimedJobLease
  split
  · rfl
  · split <;> rfl

theorem returns_validateClaimedRows {seen : List JobID}
    (ran : Returns events (validateClaimedRows capability token seen rows) failure) :
    errorsIs failure .errNoJobs = false := by
  induction rows generalizing seen with
  | nil =>
    cases ran
    rfl
  | cons job rest ih =>
    unfold validateClaimedRows at ran
    split at ran
    · cases ran
      rfl
    · obtain ⟨now, -, ran⟩ := returns_step.mp ran
      have checked := @validateClaimedJobLease_notNoJobs token job now
      cases valid : validateClaimedJobLease job token now with
      | some error =>
        rw [valid] at ran checked
        cases ran
        exact checked
      | none =>
        rw [valid] at ran
        dsimp only at ran
        split at ran
        · cases ran
          rfl
        · exact ih ran

theorem returns_validateClaimedExecutionBatch {limit : Int}
    (ran : Returns events (validateClaimedExecutionBatch rows capability token limit) failure) :
    errorsIs failure .errNoJobs = false ∧ (failure = none → rows ≠ []) := by
  unfold validateClaimedExecutionBatch at ran
  split at ran
  · cases ran
    exact ⟨rfl, nofun⟩
  · rename_i nonempty
    refine ⟨?_, fun _ => by simpa using nonempty⟩
    split at ran
    · cases ran
      rfl
    · exact returns_validateClaimedRows ran

theorem validateBoundedPayloadFrom_notNoJobs {total index : Nat} {maxBytes used : Int} :
    errorsIs (validateBoundedPayloadFrom total maxBytes index used rows) .errNoJobs = false := by
  induction rows generalizing index used with
  | nil => rfl
  | cons job rest ih =>
    unfold validateBoundedPayloadFrom
    dsimp only
    split
    · split <;> rfl
    · split
      · rfl
      · exact ih

/-- A claim for an execution batch that yields rows does not report `ErrNoJobs`. -/
theorem returns_claimInitialExecutionBatch (yields : s.ClaimsYield events (some capability))
    (ran : Returns events (s.claimInitialExecutionBatch (.run s.process) capability registration)
      (rows, token, failure)) :
    errorsIs failure .errNoJobs = false ∧
      (failure = none → rows ≠ [] ∧ s.Opened events (some capability) token rows) := by
  obtain ⟨leaseToken, -, ran⟩ := returns_step.mp ran
  obtain ⟨⟨jobs, error⟩, ran, same⟩ := returns_bind.mp ran
  dsimp only at same
  cases same
  unfold Service.claimExecutionBatchForFill at ran
  split at ran
  all_goals
    obtain ⟨⟨jobs, claimErr⟩, claimed, ran⟩ := returns_bind.mp ran
    rcases returns_claimJobsWithLease yields claimed with ⟨rfl, opened⟩ | rfl
    case inr =>
      cases ran
      exact ⟨rfl, nofun⟩
    obtain ⟨invalid, checked, ran⟩ := returns_bind.mp ran
    obtain ⟨hasJobs, nonempty⟩ := returns_validateClaimedExecutionBatch checked
    cases invalid with
    | some error =>
      cases ran
      exact ⟨hasJobs, nofun⟩
    | none => ?_
  · have bounded := @validateBoundedPayloadFrom_notNoJobs jobs jobs.length 0 registration.maxBytes 0
    dsimp only [validateBoundedExecutionBatchPayload] at ran
    split at ran
    · rename_i error exceeds
      rw [exceeds] at bounded
      cases ran
      exact ⟨bounded, nofun⟩
    · cases ran
      exact ⟨rfl, fun _ => ⟨nonempty rfl, opened⟩⟩
  · cases ran
    exact ⟨rfl, fun _ => ⟨nonempty rfl, opened⟩⟩

/-- Filling a batch only adds rows to it. -/
theorem returns_fillRounds {deadline : Int} {rounds : Nat} {jobs : List Job} {usedBytes : Int}
    (ran : Returns events
      (s.fillRounds ctx m capability registration deadline rounds jobs usedBytes) (rows, failure)) :
    jobs ⊆ rows := by
  induction rounds generalizing jobs usedBytes with
  | zero =>
    obtain ⟨answer, -⟩ := ran
    cases answer
  | succ rounds ih =>
    unfold Service.fillRounds at ran
    split at ran
    · cases ran
      exact List.Subset.refl _
    · obtain ⟨now, -, ran⟩ := returns_step.mp ran
      split at ran
      · cases ran
        exact List.Subset.refl _
      · obtain ⟨⟨claimed, reached, error⟩, -, ran⟩ := returns_bind.mp ran
        cases reached with
        | true =>
          cases ran
          exact List.Subset.refl _
        | false =>
          cases error with
          | none =>
            obtain ⟨refused, -, ran⟩ := returns_bind.mp ran
            cases refused with
            | some error =>
              cases ran
              exact List.Subset.refl _
            | none =>
              obtain ⟨unreleased, -, ran⟩ := returns_bind.mp ran
              cases unreleased with
              | some error =>
                cases ran
                exact List.subset_append_left _ _
              | none =>
                dsimp only at ran
                split at ran
                · exact List.Subset.trans (List.subset_append_left _ _) (ih ran)
                · cases ran
                  exact List.subset_append_left _ _
          | some error =>
            dsimp only at ran
            split at ran
            · obtain ⟨now, -, ran⟩ := returns_step.mp ran
              split at ran
              · cases ran
                exact List.Subset.refl _
              · obtain ⟨waited, -, ran⟩ := returns_step.mp ran
                cases waited with
                | cancelled =>
                  obtain ⟨cause, -, same⟩ := returns_step.mp ran
                  cases same
                  exact List.Subset.refl _
                | drained =>
                  cases ran
                  exact List.Subset.refl _
                | elapsed => exact ih ran
            · cases ran
              exact List.Subset.refl _

theorem returns_fillExecutionBatch {initial : List Job}
    (ran : Returns events (s.fillExecutionBatch ctx m capability registration initial)
      (rows, failure)) : initial ⊆ rows := by
  unfold Service.fillExecutionBatch at ran
  dsimp only at ran
  split at ran
  · cases ran
    exact List.Subset.refl _
  · obtain ⟨now, -, ran⟩ := returns_step.mp ran
    exact returns_fillRounds ran

theorem returns_withManager {α : Type} {jobs : List Job} {work : BatchLeaseManager → Go α}
    {value : α} (ran : Returns events (s.withManager token jobs work) value) :
    ∃ m : BatchLeaseManager, m.leaseToken = token ∧ Returns events (work m) value := by
  obtain ⟨group, -, ran⟩ := returns_step.mp ran
  obtain ⟨_, -, ran⟩ := returns_step.mp ran.of_onExit
  exact ⟨⟨group, token, s.reserveFor⟩, rfl, ran.of_onExit⟩

theorem not_returns_abandonExecutionBatch {error : OutboxError} :
    ¬ Returns events (s.abandonExecutionBatch m error) none := by
  intro ran
  obtain ⟨heartbeatErr, -, ran⟩ := returns_bind.mp ran
  obtain ⟨releaseErr, -, same⟩ := returns_bind.mp ran
  cases join_eq_none_iff.mp same _ List.mem_cons_self

/-- Only a batch that was handed to its handler ends without an error. -/
theorem returns_runExecutionBatch
    (ran : Returns events (s.runExecutionBatch m capability registration rows) none) :
    ∃ ctx, ⟨.handleBatch ctx m.leaseToken (rows.map Service.batchJobItem), ()⟩ ∈ events := by
  obtain ⟨refused, -, ran⟩ := returns_bind.mp ran
  cases refused with
  | some error => exact absurd ran not_returns_abandonExecutionBatch
  | none =>
    obtain ⟨_, handled, -⟩ := returns_bind.mp ran
    obtain ⟨now, -, ran⟩ := returns_step.mp handled
    obtain ⟨_, began, -⟩ := returns_step.mp ran
    exact ⟨_, began⟩

theorem returns_processExecutionBatch {count : Nat}
    (ran : Returns events (s.processExecutionBatch capability registration m rows) (count, none)) :
    ∃ ctx items, ⟨.handleBatch ctx m.leaseToken items, ()⟩ ∈ events ∧
      ∀ row ∈ rows, Service.batchJobItem row ∈ items := by
  obtain ⟨⟨filled, failure⟩, fills, ran⟩ := returns_bind.mp ran
  cases failure with
  | some error =>
    obtain ⟨abandoned, left, same⟩ := returns_bind.mp ran
    cases same
    exact absurd left not_returns_abandonExecutionBatch
  | none =>
    obtain ⟨retErr, runs, same⟩ := returns_bind.mp ran
    cases same
    obtain ⟨ctx, began⟩ := returns_runExecutionBatch runs
    refine ⟨ctx, _, began, fun row member => List.mem_map_of_mem ?_⟩
    exact (List.perm_insertionSort _ filled).mem_iff.mpr (returns_fillExecutionBatch fills member)

/-- A batch group reports the error it returns. The group of a ready capability
claims rows, and ends without an error only after its handler began. -/
theorem returns_findAndProcessExecutionBatch {processed : Bool}
    (ran : Returns events (s.findAndProcessExecutionBatch capability) (processed, failure)) :
    ⟨.returned (.group failure), ()⟩ ∈ events ∧
      (s.ClaimsYield events (some capability) → failure = none →
        processed = true ∧ BatchExecuted s events capability) := by
  have report : ∀ {claimedJobs retErr} {claimed : Bool},
      Returns events (do return (claimed, ← s.reportGroup claimedJobs retErr))
        (processed, failure) →
      claimed = processed ∧ failure = retErr ∧ ⟨.returned (.group retErr), ()⟩ ∈ events := by
    intro claimedJobs retErr claimed ran
    obtain ⟨_, reported, same⟩ := returns_bind.mp ran
    cases same
    exact ⟨rfl, returns_reportGroup reported⟩
  unfold Service.findAndProcessExecutionBatch at ran
  split at ran
  · obtain ⟨-, rfl, told⟩ := report ran
    exact ⟨told, by simp⟩
  · split at ran
    · obtain ⟨-, rfl, told⟩ := report ran
      exact ⟨told, by simp⟩
    · obtain ⟨⟨jobs, token, claimErr⟩, claimed, ran⟩ := returns_bind.mp ran
      cases claimErr with
      | some error =>
        dsimp only at ran
        split at ran
        · rename_i idle
          obtain ⟨-, rfl, told⟩ := report ran
          refine ⟨told, fun yields => ?_⟩
          have hasJobs := (returns_claimInitialExecutionBatch yields claimed).1
          rw [errorsIs_some, idle] at hasJobs
          cases hasJobs
        · obtain ⟨-, rfl, told⟩ := report ran
          exact ⟨told, by simp⟩
      | none =>
        obtain ⟨⟨count, retErr⟩, worked, ran⟩ := returns_bind.mp ran
        obtain ⟨same, rfl, told⟩ := report ran
        refine ⟨told, fun yields clean => ⟨same.symm, ?_⟩⟩
        subst clean
        obtain ⟨m, rfl, processed⟩ := returns_withManager worked
        obtain ⟨ctx, items, began, covers⟩ := returns_processExecutionBatch processed
        obtain ⟨nonempty, opened⟩ := (returns_claimInitialExecutionBatch yields claimed).2 rfl
        exact ⟨m.leaseToken, jobs, ctx, items, opened, nonempty, began, covers⟩

/-! ### Single groups -/

theorem returns_validateClaimedLeases
    (ran : Returns events (validateClaimedLeases token rows) failure) :
    errorsIs failure .errNoJobs = false := by
  induction rows with
  | nil =>
    cases ran
    rfl
  | cons job rest ih =>
    obtain ⟨now, -, ran⟩ := returns_step.mp ran
    have checked := @validateClaimedJobLease_notNoJobs token job now
    cases valid : validateClaimedJobLease job token now with
    | some error =>
      rw [valid] at ran checked
      cases ran
      exact checked
    | none =>
      rw [valid] at ran
      exact ih ran

theorem returns_eligibleCapabilities {now : Int} {eligible : List JobCapability}
    (unpaused : s.Unpaused events capability) (member : capability ∈ capabilities)
    (ran : Returns events (s.eligibleCapabilities now capabilities) eligible) :
    capability ∈ eligible := by
  induction capabilities generalizing eligible with
  | nil => cases member
  | cons first rest ih =>
    obtain ⟨paused, asked, ran⟩ := returns_step.mp ran
    obtain ⟨others, checked, same⟩ := returns_bind.mp ran
    cases same
    rcases List.mem_cons.mp member with rfl | member
    · cases unpaused now paused asked
      exact List.mem_cons_self
    · cases paused with
      | true => exact ih member checked
      | false => exact List.mem_cons_of_mem _ (ih member checked)

theorem returns_processBatchJobs (ran : Returns events (s.processBatchJobs ctx m rows) none) :
    ∀ row ∈ rows, ∃ ctx, ⟨.handle ctx row, ()⟩ ∈ events := by
  induction rows with
  | nil => exact nofun
  | cons job rest ih =>
    obtain ⟨⟨started, failure⟩, worked, ran⟩ := returns_bind.mp ran
    cases failure with
    | some error =>
      cases started with
      | true =>
        obtain ⟨_, -, same⟩ := returns_bind.mp ran
        cases same
      | false => cases ran
    | none =>
      refine List.forall_mem_cons.mpr ⟨?_, ih ran⟩
      unfold Service.processBatchJob at worked
      split at worked
      · cases worked
      · obtain ⟨refused, -, worked⟩ := returns_bind.mp worked
        cases refused with
        | some error => cases worked
        | none =>
          obtain ⟨_, executed, -⟩ := returns_bind.mp worked
          obtain ⟨now, -, executed⟩ := returns_step.mp executed
          obtain ⟨_, handled, -⟩ := returns_bind.mp executed
          obtain ⟨_, began, -⟩ := returns_step.mp handled
          exact ⟨_, began⟩

/-- The claim of a single group with an unpaused capability yields rows, or fails
with another error than `ErrNoJobs`. -/
theorem returns_claimBatch (unpaused : s.Unpaused events capability)
    (member : capability ∈ capabilities) (yields : s.ClaimsYield events none)
    (ran : Returns events (s.claimBatch (.run s.process) capabilities) (rows, token, failure)) :
    errorsIs failure .errNoJobs = false ∧
      (failure = none → rows ≠ [] ∧ s.Opened events none token rows) := by
  unfold Service.claimBatch at ran
  rw [if_neg (by simpa using List.ne_nil_of_mem member)] at ran
  obtain ⟨now, -, ran⟩ := returns_step.mp ran
  obtain ⟨eligible, checked, ran⟩ := returns_bind.mp ran
  have member := returns_eligibleCapabilities unpaused member checked
  rw [if_neg (by simpa using List.ne_nil_of_mem member)] at ran
  obtain ⟨leaseToken, -, ran⟩ := returns_step.mp ran
  obtain ⟨⟨jobs, claimErr⟩, claimed, ran⟩ := returns_bind.mp ran
  rcases returns_claimJobsWithLease yields claimed with ⟨rfl, opened⟩ | rfl
  · dsimp only at ran
    split at ran
    · cases ran
      exact ⟨rfl, nofun⟩
    · rename_i nonempty
      split at ran
      · cases ran
        exact ⟨rfl, nofun⟩
      · obtain ⟨invalid, checked, ran⟩ := returns_bind.mp ran
        have hasJobs := returns_validateClaimedLeases checked
        cases invalid with
        | some error =>
          cases ran
          exact ⟨hasJobs, nofun⟩
        | none =>
          cases ran
          exact ⟨rfl, fun _ => ⟨by simpa using nonempty, opened⟩⟩
  · cases ran
    exact ⟨rfl, nofun⟩

/-- A ready single group hands every row to its handler, or it ends with an error
that the worker does not drop. -/
theorem returns_findAndProcessBatch (ready : SingleReady s events capabilities)
    (ran : Returns events (s.findAndProcessBatch capabilities) failure) :
    (failure = none → SingleExecuted s events) ∧ errorsIs failure .errNoJobs = false ∧
      errorsIs failure .errServiceDraining = false := by
  obtain ⟨capability, member, unpaused⟩ := ready.unpaused
  obtain ⟨⟨jobs, token, claimErr⟩, claimed, ran⟩ := returns_bind.mp ran
  obtain ⟨hasJobs, opened⟩ := returns_claimBatch unpaused member ready.claims claimed
  cases claimErr with
  | some error =>
    obtain ⟨rfl, reported⟩ := returns_reportGroup ran
    exact ⟨nofun, hasJobs, ready.undrained error reported⟩
  | none =>
    obtain ⟨nonempty, opened⟩ := opened rfl
    obtain ⟨retErr, worked, ran⟩ := returns_bind.mp ran
    obtain ⟨rfl, reported⟩ := returns_reportGroup ran
    cases failure with
    | some error =>
      exact ⟨nofun, ready.kept token jobs opened error reported, ready.undrained error reported⟩
    | none =>
      refine ⟨fun _ => ⟨token, jobs, opened, nonempty, ?_⟩, rfl, rfl⟩
      obtain ⟨m, -, worked⟩ := returns_withManager worked
      obtain ⟨processErr, processed, worked⟩ := returns_bind.mp worked
      obtain ⟨heartbeatErr, -, worked⟩ := returns_bind.mp worked
      obtain ⟨releaseErr, -, same⟩ := returns_bind.mp worked
      cases Custody.groupError_eq_none same
      exact returns_processBatchJobs processed

end Groups

end OutboxFormal
