import OutboxFormal.Service.Worker

/-!
# Footprints

Which effects the methods of the lease manager and the finalizations can have.
An observer that is blind to these effects can pass over the methods.
-/

namespace OutboxFormal

open Library Storage
open Library.Program (only_bind only_onExit only_perform only_pure only_step only_try)

def Effect.ofRenewals : Effect → Bool
  | .now | .cause _ | .cancelCause _ _ | .setError _ _ | .store _ _ | .extendJobLeases .. => true
  | _ => false

def Effect.ofLeases : Effect → Bool
  | .err _ | .lock _ | .lockContext _ _ | .unlock _ => true
  | effect => effect.ofRenewals

/-- The effects around a retry decision. -/
def Effect.ofRetries : Effect → Bool
  | .now | .retryDelay _ | .pauseBatchCapability .. | .resetBatchRetryStreak _ _
  | .nextBatchRetry .. => true
  | _ => false

def Effect.ofStops : Effect → Bool
  | .stop _ | .waitDone _ | .getError _ => true
  | _ => false

section Footprints

variable {kind : Effect → Prop} {α : Type}

/-! ## The lease manager -/

section Renewals

variable (renewals : ∀ effect : Effect, effect.ofRenewals = true → kind effect)
variable {m : BatchLeaseManager} {ledger : Ledger}

include renewals

theorem only_failLeaseLocked (error : OutboxError) : (m.failLeaseLocked error).Only kind :=
  only_step (renewals _ rfl) fun _ =>
    only_step (renewals _ rfl) fun _ => only_pure

theorem only_checkLeasesLocked (now : Int) : (m.checkLeasesLocked ledger now).Only kind := by
  unfold BatchLeaseManager.checkLeasesLocked
  split
  · exact only_pure
  · split
    · exact only_bind (only_failLeaseLocked renewals _) fun _ => only_pure
    · exact only_step (renewals _ rfl) fun _ => only_pure

theorem only_enterExtension (jobIDs : List JobID) (until_ affected : Int)
    (failure : Option OutboxError) :
    (m.enterExtension ledger jobIDs until_ affected failure).Only kind := by
  cases failure with
  | some error => exact only_bind (only_failLeaseLocked renewals _) fun _ => only_pure
  | none =>
    unfold BatchLeaseManager.enterExtension
    dsimp only
    split
    · exact only_bind (only_failLeaseLocked renewals _) fun _ => only_pure
    · exact only_step (renewals _ rfl) fun _ =>
        only_step (renewals _ rfl) fun _ =>
          only_checkLeasesLocked renewals _

theorem only_orCause (ctx : Ctx) (failure : Option OutboxError) :
    (BatchLeaseManager.orCause ctx failure).Only kind := by
  cases failure with
  | some error => exact only_pure
  | none => exact only_perform (renewals _ rfl)

theorem only_ensureLeasesLocked (ctx : Ctx) (requiredUntil targetUntil : Int) :
    (m.ensureLeasesLocked ctx ledger requiredUntil targetUntil).Only kind := by
  refine only_step (renewals _ rfl) fun now => ?_
  refine only_bind (only_checkLeasesLocked renewals now) ?_
  rintro ⟨error, checked⟩
  cases error with
  | some error => exact only_pure
  | none =>
    dsimp only
    split
    · refine only_step (renewals _ rfl) fun _ => ?_
      split
      · exact only_pure
      · exact only_step (renewals _ rfl) fun _ =>
          only_bind (only_orCause renewals _ _) fun _ => only_enterExtension renewals _ _ _ _
    · exact only_pure

end Renewals

section Releases

variable (ticks : kind .now)
variable (releases : ∀ ctx jobIDs leaseToken now,
  kind (.releaseUnstartedJobsWithLease ctx jobIDs leaseToken now))

include ticks releases

theorem only_releaseJobs (what : String) (ctx : Ctx) (jobIDs : List JobID)
    (leaseToken : LeaseToken) :
    (releaseJobs what ctx jobIDs leaseToken).Only kind := by
  refine only_step ticks fun _ => ?_
  refine only_step ticks fun _ => ?_
  refine only_step (releases _ _ _ _) ?_
  rintro ⟨affected, failure⟩
  cases failure with
  | some error => exact only_pure
  | none =>
    dsimp only
    split <;> exact only_pure

theorem only_releaseClaimedBatchTail (ctx : Ctx) (token : LeaseToken) (jobs : List Job) :
    (Service.releaseClaimedBatchTail ctx token jobs).Only kind := by
  unfold Service.releaseClaimedBatchTail
  split
  · exact only_pure
  · exact only_releaseJobs ticks releases _ _ _ _

theorem only_releaseCancelledClaim (ctx : Ctx) (token : LeaseToken) (jobs : List Job) :
    (Service.releaseCancelledClaim ctx token jobs).Only kind :=
  only_step ticks fun _ =>
    only_releaseClaimedBatchTail ticks releases _ _ _

end Releases

theorem only_batchStartError {process : Nat} {ctx : Ctx} (asks : kind (.cause ctx))
    (drains : kind (.isDraining process)) : (batchStartError ctx process).Only kind := by
  refine only_try (only_perform asks) (fun _ => only_pure) ?_
  refine only_step drains fun draining => ?_
  cases draining <;> exact only_pure

section Leases

variable (leases : ∀ effect : Effect, effect.ofLeases = true → kind effect)
variable {m : BatchLeaseManager} {ledger : Ledger}

include leases

theorem leases_renewals (effect : Effect) (renewal : effect.ofRenewals = true) : kind effect := by
  refine leases effect ?_
  cases effect <;> first | rfl | cases renewal

theorem only_locked {body : Ledger → Go α} (inside : ∀ ledger, (body ledger).Only kind) :
    (m.locked body).Only kind :=
  only_step (leases _ rfl) fun ledger =>
    only_onExit (inside ledger) (only_perform (leases _ rfl))

theorem only_extend (ctx : Ctx) : (m.extend ctx).Only kind :=
  only_locked leases fun _ =>
    only_step (leases _ rfl) fun _ =>
      only_bind (only_ensureLeasesLocked (leases_renewals leases) _ _ _) fun _ => only_pure

theorem only_run (ticks : kind (.tick m.group)) (halts : kind .halt)
    (closes : kind (.closeDone m.group)) (rounds : Nat) : (m.run rounds).Only kind := by
  refine only_onExit ?_ (only_perform closes)
  induction rounds with
  | zero => exact ⟨halts, nofun⟩
  | succ rounds ih =>
    refine only_step ticks fun ticked => ?_
    cases ticked with
    | false => exact only_pure
    | true =>
      exact only_try (only_extend leases _) (fun _ => only_pure) ih

theorem only_forget (jobID : JobID) : (m.forget jobID).Only kind :=
  only_locked leases fun _ => only_perform (leases _ rfl)

theorem only_forgetAll : m.forgetAll.Only kind :=
  only_locked leases fun _ => only_perform (leases _ rfl)

theorem only_addLocked (jobs : List Job) : (m.addLocked ledger jobs).Only kind := by
  induction jobs generalizing ledger with
  | nil => exact only_pure
  | cons job rest ih =>
    refine only_step (leases _ rfl) fun now => ?_
    split
    · exact only_pure
    · split
      · exact only_pure
      · exact only_step (leases _ rfl) fun _ => ih

theorem only_add (jobs : List Job) : (m.add jobs).Only kind :=
  only_locked leases fun _ => only_addLocked leases jobs

theorem only_admitBatch {process : Nat} (drains : kind (.isDraining process)) (ctx : Ctx) :
    (m.admitBatch ctx process).Only kind := by
  refine only_locked leases fun ledger => ?_
  refine only_try (only_batchStartError (leases _ rfl) drains) (fun _ => only_pure) ?_
  dsimp only
  split
  · exact only_pure
  · refine only_step (leases _ rfl) fun now => ?_
    refine only_bind (only_checkLeasesLocked (leases_renewals leases) now) ?_
    rintro ⟨error, checked⟩
    cases error with
    | some error => exact only_pure
    | none =>
      dsimp only
      split
      · refine only_bind (only_ensureLeasesLocked (leases_renewals leases) _ _ _) ?_
        rintro ⟨error, renewed⟩
        cases error with
        | some error => exact only_pure
        | none => exact only_batchStartError (leases _ rfl) drains
      · exact only_batchStartError (leases _ rfl) drains

theorem only_releaseUnstarted (releases : ∀ ctx jobIDs leaseToken now,
      kind (.releaseUnstartedJobsWithLease ctx jobIDs leaseToken now)) (ctx : Ctx) :
    (m.releaseUnstarted ctx).Only kind := by
  refine only_locked leases fun ledger => ?_
  dsimp only
  split
  · exact only_pure
  · refine only_try (only_releaseJobs (leases _ rfl) releases _ _ _ _) (fun _ => only_pure) ?_
    exact only_step (leases _ rfl) fun _ => only_pure

end Leases

theorem only_stopAndWait {m : BatchLeaseManager}
    (stops : ∀ effect : Effect, effect.ofStops = true → kind effect) : m.stopAndWait.Only kind :=
  only_step (stops _ rfl) fun _ =>
    only_step (stops _ rfl) fun _ =>
      only_perform (stops _ rfl)

/-! ## Telemetry and retry decisions -/

theorem only_observeJobOutcome {s : Service} (ticks : kind .now)
    (emits : ∀ event, kind (.emitOutcome event)) (job : Job) (outcome : RuntimeOutcomeKind)
    (availableAt : Int) : (s.observeJobOutcome job outcome availableAt).Only kind := by
  unfold Service.observeJobOutcome
  split
  · exact only_pure
  · exact only_step ticks fun _ => only_perform (emits _)

theorem only_observeLeaseLoss {s : Service} (ticks : kind .now)
    (emits : ∀ event, kind (.emitOutcome event)) (error : Option OutboxError) (claimedJobs : Nat) :
    (s.observeLeaseLoss error claimedJobs).Only kind := by
  unfold Service.observeLeaseLoss
  split
  · exact only_pure
  · exact only_step ticks fun _ => only_perform (emits _)

theorem only_observeBatchOutcomes {s : Service} (ticks : kind .now)
    (emits : ∀ event, kind (.emitOutcome event)) (jobs : List Job)
    (outcomes : List BatchJobOutcome) : (s.observeBatchOutcomes jobs outcomes).Only kind := by
  induction outcomes with
  | nil => exact only_pure
  | cons outcome rest ih =>
    unfold Service.observeBatchOutcomes
    split
    · exact ih
    · refine only_bind ?_ fun _ => ih
      unfold Service.observeBatchOutcome
      split <;> first
        | exact only_observeJobOutcome ticks emits _ _ _
        | exact only_pure

theorem only_retryTime {s : Service} (delays : ∀ attempt, kind (.retryDelay attempt)) (job : Job)
    (error : OutboxError) (now legacyDelay : Int) :
    (s.retryTime job error now legacyDelay).Only kind := by
  unfold Service.retryTime
  split
  · exact only_pure
  · split
    · refine only_bind (only_step (delays _) ?_) ?_
      · intro answer
        cases answer with
        | panicked value stack => exact only_pure
        | delay duration =>
          dsimp only
          split <;> exact only_pure
      · rintro ⟨delay, failure⟩
        cases failure <;> exact only_pure
    · exact only_pure

section Retries

variable (retries : ∀ effect : Effect, effect.ofRetries = true → kind effect) {s : Service}

include retries

theorem only_itemOutcome (capability : JobCapability) (registration : BatchJobRegistration)
    (now : Int) (job : Job) (itemErr : Option OutboxError) :
    (s.itemOutcome capability registration now job itemErr).Only kind := by
  cases itemErr with
  | none => exact only_pure
  | some error =>
    unfold Service.itemOutcome
    dsimp only
    split
    · exact only_pure
    · split
      · exact only_step (retries _ rfl) fun _ => only_pure
      · split
        · exact only_pure
        · refine only_bind (only_retryTime (fun _ => retries _ rfl) _ _ _ _) ?_
          rintro ⟨availableAt, failure⟩
          cases failure <;> exact only_pure

theorem only_itemOutcomes (capability : JobCapability) (registration : BatchJobRegistration)
    (now : Int) (items : List (Job × Option OutboxError)) :
    (s.itemOutcomes capability registration now items).Only kind := by
  induction items with
  | nil => exact only_pure
  | cons item rest ih =>
    obtain ⟨job, itemErr⟩ := item
    refine only_bind (only_itemOutcome retries _ _ _ _ _) fun outcome => ?_
    cases outcome with
    | error error => exact only_pure
    | ok outcome =>
      refine only_bind ih fun outcomes => ?_
      cases outcomes <;> exact only_pure

end Retries

/-! ## Finalizations -/

section Telemetry

variable (ticks : kind .now) (emits : ∀ event, kind (.emitOutcome event)) {s : Service}

include ticks emits

theorem only_ackBatch (deletes : ∀ ctx jobID token now, kind (.leased ctx .delete jobID token now))
    (ctx : Ctx) (job : Job) : (s.ackBatch ctx job).Only kind := by
  refine only_step ticks fun now => ?_
  refine only_step (deletes _ _ _ _) ?_
  rintro ⟨affected, failure⟩
  cases failure with
  | some error => exact only_pure
  | none =>
    dsimp only
    split
    · exact only_pure
    · exact only_bind (only_observeJobOutcome ticks emits _ _ _) fun _ => only_pure

theorem only_rescheduleLeased (reschedules : ∀ ctx availableAt jobID token now,
      kind (.leased ctx (.reschedule availableAt) jobID token now)) (ctx : Ctx) (job : Job)
    (availableAt : Int) :
    (s.rescheduleLeased ctx job availableAt).Only kind := by
  refine only_step ticks fun now => ?_
  refine only_step (reschedules _ _ _ _ _) ?_
  rintro ⟨affected, failure⟩
  cases failure with
  | some error => exact only_pure
  | none =>
    dsimp only
    split
    · exact only_pure
    · exact only_bind (only_observeJobOutcome ticks emits _ _ _) fun _ => only_pure

theorem only_dlqBatch (stores : ∀ ctx job reason, kind (.runInTx ctx (.dlqBatch job reason)))
    (ctx : Ctx) (job : Job) (reason : String) : (s.dlqBatch ctx job reason).Only kind := by
  refine only_try (only_perform (stores _ _ _)) (fun _ => only_pure) ?_
  exact only_bind (only_observeJobOutcome ticks emits _ _ _) fun _ => only_pure

end Telemetry

/-! ## Checks on claimed rows -/

section Checks

variable (ticks : kind .now)

include ticks

theorem only_validateClaimedLeases (leaseToken : LeaseToken) (jobs : List Job) :
    (validateClaimedLeases leaseToken jobs).Only kind := by
  induction jobs with
  | nil => exact only_pure
  | cons job rest ih =>
    refine only_step ticks fun now => ?_
    split
    · exact only_pure
    · exact ih

theorem only_validateClaimedRows (capability : JobCapability) (leaseToken : LeaseToken)
    (seen : List JobID) (jobs : List Job) :
    (validateClaimedRows capability leaseToken seen jobs).Only kind := by
  induction jobs generalizing seen with
  | nil => exact only_pure
  | cons job rest ih =>
    unfold validateClaimedRows
    split
    · exact only_pure
    · refine only_step ticks fun now => ?_
      split
      · exact only_pure
      · split
        · exact only_pure
        · exact ih _

theorem only_validateClaimedExecutionBatch (jobs : List Job) (capability : JobCapability)
    (leaseToken : LeaseToken) (limit : Int) :
    (validateClaimedExecutionBatch jobs capability leaseToken limit).Only kind := by
  unfold validateClaimedExecutionBatch
  split
  · exact only_pure
  · split
    · exact only_pure
    · exact only_validateClaimedRows ticks _ _ _ _

end Checks

/-! ## Claims -/

def ClaimMethod.capabilities : ClaimMethod → List JobCapability
  | .findAndReserveJobsForCapabilities capabilities _ => capabilities
  | .findAndReserveJobsForCapability capability _ => [capability]
  | .findAndReserveJobsForCapabilityBounded capability _ _ => [capability]

/-- The effects around a claim, and the claims for these capabilities. -/
def Effect.ofClaims (process : Nat) (capabilities : List JobCapability) : Effect → Prop
  | .now | .cause _ | .newLeaseToken | .releaseUnstartedJobsWithLease .. => True
  | .claimRLock service | .claimRUnlock service | .isDraining service => service = process
  | .claim _ request => request.method.capabilities = capabilities
  | _ => False

section Claims

variable {s : Service} {capabilities : List JobCapability}
variable (claims : ∀ effect : Effect, effect.ofClaims s.process capabilities → kind effect)

include claims

theorem only_claimJobsWithLease (ctx : Ctx) (token : LeaseToken) {method : ClaimMethod}
    (asks : method.capabilities = capabilities) :
    (s.claimJobsWithLease ctx token method).Only kind := by
  refine only_step (claims _ rfl) fun _ => ?_
  refine only_step (claims _ rfl) fun draining => ?_
  cases draining with
  | true =>
    exact only_step (claims _ rfl) fun _ => only_pure
  | false =>
    refine only_step (claims _ trivial) fun now => ?_
    refine only_step (claims _ asks) ?_
    rintro ⟨jobs, failure⟩
    refine only_step (claims _ trivial) fun cause => ?_
    refine only_step (claims _ rfl) fun _ => ?_
    cases failure with
    | some error => exact only_pure
    | none =>
      cases cause with
      | none => exact only_pure
      | some cause =>
        refine only_bind (only_releaseCancelledClaim (claims _ trivial)
          (fun _ _ _ _ => claims _ trivial) _ _ _) fun released => ?_
        cases released <;> exact only_pure

end Claims

section Collector

variable {s : Service} {capability : JobCapability}
variable (claims : ∀ effect : Effect, effect.ofClaims s.process [capability] → kind effect)

include claims

theorem only_claimExecutionBatchForFill (ctx : Ctx) (leaseToken : LeaseToken)
    (maxMessages maxBytes : Int) :
    (s.claimExecutionBatchForFill ctx capability leaseToken maxMessages maxBytes).Only kind := by
  unfold Service.claimExecutionBatchForFill
  split
  · refine only_bind (only_claimJobsWithLease claims _ _ rfl) ?_
    rintro ⟨jobs, failure⟩
    cases failure with
    | some error => exact only_pure
    | none =>
      refine only_try (only_validateClaimedExecutionBatch (claims _ trivial) _ _ _ _)
        (fun _ => only_pure) ?_
      dsimp only
      split <;> exact only_pure
  · refine only_bind (only_claimJobsWithLease claims _ _ rfl) ?_
    rintro ⟨jobs, failure⟩
    cases failure with
    | some error => exact only_pure
    | none =>
      exact only_try (only_validateClaimedExecutionBatch (claims _ trivial) _ _ _ _)
        (fun _ => only_pure) only_pure

theorem only_claimInitialExecutionBatch (ctx : Ctx) (registration : BatchJobRegistration) :
    (s.claimInitialExecutionBatch ctx capability registration).Only kind :=
  only_step (claims _ trivial) fun _ =>
    only_bind (only_claimExecutionBatchForFill claims _ _ _ _) fun _ =>
      only_pure

theorem only_claimExecutionBatchWithinFillWindow (ctx : Ctx) (leaseToken : LeaseToken)
    (maxMessages maxBytes deadline : Int) :
    (s.claimExecutionBatchWithinFillWindow ctx capability leaseToken maxMessages maxBytes
      deadline).Only kind := by
  refine only_step (claims _ trivial) fun now => ?_
  dsimp only
  split
  · exact only_pure
  · refine only_bind (only_claimExecutionBatchForFill claims _ _ _ _) ?_
    rintro ⟨jobs, failure⟩
    refine only_step (claims _ trivial) fun claimCause => ?_
    cases failure with
    | none => exact only_pure
    | some error =>
      dsimp only
      split
      · exact only_pure
      · refine only_try (only_perform (claims _ trivial)) (fun _ => only_pure) ?_
        dsimp only
        split <;> exact only_pure

variable (leases : ∀ effect : Effect, effect.ofLeases = true → kind effect)
variable (waits : ∀ ctx duration, kind (.fillWait ctx s.process duration)) (halts : kind .halt)

include leases waits halts

theorem only_fillRounds (ctx : Ctx) (m : BatchLeaseManager) (registration : BatchJobRegistration)
    (deadline : Int) (rounds : Nat) (jobs : List Job) (usedBytes : Int) :
    (s.fillRounds ctx m capability registration deadline rounds jobs usedBytes).Only kind := by
  induction rounds generalizing jobs usedBytes with
  | zero => exact ⟨halts, nofun⟩
  | succ rounds ih =>
    unfold Service.fillRounds
    split
    · exact only_pure
    · refine only_step (leases _ rfl) fun now => ?_
      dsimp only
      split
      · exact only_pure
      · refine only_bind
          (only_claimExecutionBatchWithinFillWindow claims _ _ _ _ _) ?_
        rintro ⟨claimed, timedOut, failure⟩
        cases timedOut with
        | true => exact only_pure
        | false =>
          cases failure with
          | none =>
            refine only_try (only_add leases _) (fun _ => only_pure) ?_
            refine only_try (only_releaseClaimedBatchTail (claims _ trivial)
              (fun _ _ _ _ => claims _ trivial) _ _ _) (fun _ => only_pure) ?_
            dsimp only
            split
            · exact ih _ _
            · exact only_pure
          | some error =>
            dsimp only
            split
            · refine only_step (leases _ rfl) fun now => ?_
              split
              · exact only_pure
              · refine only_step (waits _ _) fun wake => ?_
                cases wake with
                | cancelled =>
                  exact only_step (leases _ rfl) fun _ => only_pure
                | drained => exact only_pure
                | elapsed => exact ih _ _
            · exact only_pure

theorem only_fillExecutionBatch (ctx : Ctx) (m : BatchLeaseManager)
    (registration : BatchJobRegistration) (initial : List Job) :
    (s.fillExecutionBatch ctx m capability registration initial).Only kind := by
  unfold Service.fillExecutionBatch
  dsimp only
  split
  · exact only_pure
  · exact only_step (leases _ rfl) fun _ =>
      only_fillRounds claims leases waits halts _ _ _ _ _ _ _

end Collector

end Footprints

end OutboxFormal
