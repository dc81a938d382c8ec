import OutboxFormal.Service.Skeleton

/-!
# Defers and pauses of a worker

What the history of a worker says about its defers. A single job is deferred in
the repository first and pauses its capability afterwards; until then the worker
owes the pause. A batch pauses its capability first and stores its outcomes
afterwards; until then the pauses are pending. A capability is asked for only if
a pause check of the same call left it free.
-/

namespace OutboxFormal

open Library Storage
open Library.Monitor (leads_bind maintains_only maintains_perform maintains_pure wp_mono
  wp_seq wp_step)

/-- A pause of a capability of a service, and when it ends. -/
abbrev PauseUntil := Nat × JobCapability × Int

/-- What a worker has done towards its next defer. -/
structure Deferring where
  /-- The service and the capability of the last pause check. -/
  place : Option (Nat × JobCapability) := none
  /-- The capabilities that a check of the current call left free. -/
  free : List JobCapability := []
  /-- The job handed to its handler last. -/
  job : Option Job := none
  /-- Pauses for outcomes that are not stored yet. -/
  pending : List PauseUntil := []
  /-- The pause of a stored defer, until it is made. -/
  owed : Option PauseUntil := none

namespace Deferring

/-- The pause that follows a stored defer; its capability is read off the row as
the repository reported it. -/
def pauseOf (state : Deferring) (until_ : Int) : Option PauseUntil :=
  match state.place, state.job with
  | some (process, _), some job => some (process, ⟨job.name, job.schemaVersion⟩, until_)
  | _, _ => none

def next (state : Deferring) : (effect : Effect) → Answer effect → Deferring
  | .batchCapabilityPaused process capability _, paused =>
    { state with
      place := some (process, capability)
      free := if paused then state.free else capability :: state.free }
  | .handle _ job, _ => { state with job := some job }
  | .leased _ (.defer availableAt) _ _ _, (affected, failure) =>
    if affected = 1 ∧ failure = none then { state with owed := state.pauseOf availableAt }
    else state
  | .pauseBatchCapability process capability until_, _ =>
    match state.owed with
    | some _ => { state with owed := none }
    | none => { state with pending := (process, capability, until_) :: state.pending }
  | .nextBatchRetry process capability _, availableAt =>
    { state with pending := (process, capability, availableAt) :: state.pending }
  | .runInTx _ _, _ => { state with pending := [] }
  | .returned (.group _), _ => { state with free := [], pending := [] }
  | _, _ => state

/-- What an effect needs apart from owed pauses: a check before a claim, a job
behind a defer, a pause before the outcomes of a batch. -/
def Permits (state : Deferring) : Effect → Prop
  | .claim _ request => ∀ capability ∈ request.method.capabilities, capability ∈ state.free
  | .leased _ (.defer _) jobID _ _ =>
    (∃ job, state.job = some job ∧ job.id = jobID) ∧ ∃ place, state.place = some place
  | .runInTx _ (.applyOutcomes _ _ outcomes) =>
    ∃ process capability, state.place = some (process, capability) ∧
      ∀ outcome ∈ outcomes, outcome.kind = .defer →
        (process, capability, outcome.availableAt) ∈ state.pending
  | _ => True

/-- A worker that owes a pause makes it next. -/
def Pays (state : Deferring) (effect : Effect) : Prop :=
  ∀ process capability until_, state.owed = some (process, capability, until_) →
    effect = .pauseBatchCapability process capability until_

end Deferring

/-- The same monitor for every role; no answer is relied on. -/
def deferring : Monitor Answer Deferring where
  start := {}
  next := Deferring.next
  allowed state effect := state.Pays effect ∧ state.Permits effect
  expects _ _ _ := True

def Effect.ofDeferrals : Effect → Bool
  | .batchCapabilityPaused .. | .pauseBatchCapability .. | .nextBatchRetry .. | .handle _ _
  | .leased _ (.defer _) _ _ _ | .runInTx _ _ | .returned (.group _) | .claim _ _ => true
  | _ => false

namespace Deferring

variable {state : Deferring} {effect : Effect}

theorem next_unread (answer : Answer effect) (unread : effect.ofDeferrals = false) :
    state.next effect answer = state := by
  unfold Deferring.next
  split <;> first | rfl | cases unread

theorem permits_unread (unread : effect.ofDeferrals = false) : state.Permits effect := by
  unfold Deferring.Permits
  split <;> first | cases unread | trivial

theorem pays_of_none (settled : state.owed = none) : state.Pays effect :=
  fun _ _ _ owes => nomatch settled.symm.trans owes

/-! ## States between and inside the groups -/

/-- Between two groups. -/
def Idle (state : Deferring) : Prop := state.owed = none

/-- In a claimed group of single jobs. -/
def Serving (process : Nat) (state : Deferring) : Prop :=
  state.Idle ∧ ∃ capability, state.place = some (process, capability)

def Holding (process : Nat) (job : Job) (state : Deferring) : Prop :=
  state.Serving process ∧ state.job = some job

def Batching (process : Nat) (capability : JobCapability) (state : Deferring) : Prop :=
  state.Idle ∧ state.place = some (process, capability) ∧ capability ∈ state.free

/-- In a batch, with a pending pause for every deferred item. -/
def Covering (process : Nat) (capability : JobCapability) (outcomes : List BatchJobOutcome)
    (state : Deferring) : Prop :=
  state.Batching process capability ∧ ∀ outcome ∈ outcomes, outcome.kind = .defer →
    (process, capability, outcome.availableAt) ∈ state.pending

variable {keeps : Deferring → Prop}

theorem keepsOn_unread (idle : ∀ state, keeps state → state.Idle)
    (unread : effect.ofDeferrals = false) : deferring.KeepsOn keeps effect := by
  intro state holds
  refine ⟨⟨pays_of_none (idle state holds), permits_unread unread⟩, fun answer _ => ?_⟩
  have same : deferring.next state effect answer = state := next_unread answer unread
  rw [same]
  exact holds

section Unread

variable (idle : ∀ state, keeps state → state.Idle)

include idle

theorem keepsOn_leases (effect : Effect) (lease : effect.ofLeases = true) :
    deferring.KeepsOn keeps effect := by
  refine keepsOn_unread idle ?_
  cases effect <;> first | rfl | cases lease

theorem keepsOn_stops (effect : Effect) (stop : effect.ofStops = true) :
    deferring.KeepsOn keeps effect := by
  refine keepsOn_unread idle ?_
  cases effect <;> first | rfl | cases stop

theorem keepsOn_managers (effect : Effect) (managers : effect.ofManagers = true) :
    deferring.KeepsOn keeps effect := by
  refine keepsOn_unread idle ?_
  cases effect <;> first | rfl | cases managers

/-- The claims of a group whose capabilities were all left free. -/
theorem keepsOn_claims (process : Nat) {capabilities : List JobCapability}
    (free : ∀ state, keeps state → ∀ capability ∈ capabilities, capability ∈ state.free)
    (effect : Effect) (claims : effect.ofClaims process capabilities) :
    deferring.KeepsOn keeps effect := by
  cases effect with
  | claim ctx request =>
    intro state holds
    have asks : request.method.capabilities = capabilities := claims
    refine ⟨⟨pays_of_none (idle state holds), ?_⟩, fun _ _ => holds⟩
    intro capability member
    rw [asks] at member
    exact free state holds capability member
  | now | cause | newLeaseToken | releaseUnstartedJobsWithLease | claimRLock | claimRUnlock
  | isDraining => exact keepsOn_unread idle rfl
  | _ => cases claims

end Unread

theorem maintains_kept {α : Type} {program : Go α} (only : program.Only (deferring.KeepsOn keeps)) :
    deferring.Maintains keeps Idle program :=
  maintains_only (fun _ kept => kept) only

section Frame

variable {s : Service} {m : BatchLeaseManager} (idle : ∀ state, keeps state → state.Idle)

include idle

theorem maintains_admitBatch (ctx : Ctx) (process : Nat) :
    deferring.Maintains keeps Idle (m.admitBatch ctx process) :=
  maintains_kept (only_admitBatch (keepsOn_leases idle) (keepsOn_unread idle rfl) ctx)

theorem maintains_stopAndWait : deferring.Maintains keeps Idle m.stopAndWait :=
  maintains_kept (only_stopAndWait (keepsOn_stops idle))

theorem maintains_releaseUnstarted (ctx : Ctx) :
    deferring.Maintains keeps Idle (m.releaseUnstarted ctx) :=
  maintains_kept (only_releaseUnstarted (keepsOn_leases idle)
    (fun _ _ _ _ => keepsOn_unread idle rfl) ctx)

theorem maintains_observeJobOutcome (job : Job) (kind : RuntimeOutcomeKind) (availableAt : Int) :
    deferring.Maintains keeps Idle (s.observeJobOutcome job kind availableAt) :=
  maintains_kept (only_observeJobOutcome (keepsOn_unread idle rfl)
    (fun _ => keepsOn_unread idle rfl) _ _ _)

theorem leads_reportGroup (claimedJobs : Nat) (retErr : Option OutboxError) :
    deferring.Leads keeps Idle Idle (s.reportGroup claimedJobs retErr) := by
  have observed : deferring.Maintains keeps Idle (s.observeLeaseLoss retErr claimedJobs) :=
    maintains_kept (only_observeLeaseLoss (keepsOn_unread idle rfl)
      (fun _ => keepsOn_unread idle rfl) _ _)
  refine leads_bind observed fun _ state holds => ?_
  exact wp_step ⟨pays_of_none (idle state holds), trivial⟩ fun _ _ => idle state holds

end Frame

theorem Serving.idle (process : Nat) (state : Deferring) (serving : state.Serving process) :
    state.Idle := serving.1

theorem Holding.idle (process : Nat) (job : Job) (state : Deferring)
    (holding : state.Holding process job) : state.Idle := holding.1.1

theorem Batching.idle (process : Nat) (capability : JobCapability) (state : Deferring)
    (batching : state.Batching process capability) : state.Idle := batching.1

theorem Covering.idle (process : Nat) (capability : JobCapability)
    (outcomes : List BatchJobOutcome) (state : Deferring)
    (covering : state.Covering process capability outcomes) : state.Idle := covering.1.1

theorem Holding.unread {process : Nat} {job : Job} (unread : effect.ofDeferrals = false) :
    deferring.KeepsOn (Holding process job) effect :=
  keepsOn_unread (Holding.idle _ _) unread

theorem Batching.unread {process : Nat} {capability : JobCapability}
    (unread : effect.ofDeferrals = false) :
    deferring.KeepsOn (Batching process capability) effect :=
  keepsOn_unread (Batching.idle _ _) unread

/-- Work on a claimed job. -/
abbrev WorksOn (s : Service) (job : Job) {α : Type} (program : Go α) : Prop :=
  deferring.Maintains (Holding s.process job) Idle program

/-- Work on a batch. -/
abbrev Batches (s : Service) (capability : JobCapability) {α : Type} (program : Go α) : Prop :=
  deferring.Maintains (Batching s.process capability) Idle program

variable {s : Service} {m : BatchLeaseManager}

/-! ## Claims -/

theorem wp_eligibleCapabilities (now : Int) (capabilities : List JobCapability)
    {state : Deferring} (idle : state.Idle) :
    deferring.wp (s.eligibleCapabilities now capabilities) (fun eligible last =>
      last.Idle ∧ (∀ capability ∈ eligible, capability ∈ last.free) ∧
        (∀ capability ∈ state.free, capability ∈ last.free) ∧
        (capabilities ≠ [] ∨ state.Serving s.process → last.Serving s.process)) Idle state := by
  induction capabilities generalizing state with
  | nil =>
    refine ⟨idle, nofun, fun _ member => member, ?_⟩
    exact fun known => known.resolve_left fun nonempty => nonempty rfl
  | cons capability rest ih =>
    refine wp_step ⟨pays_of_none idle, trivial⟩ fun paused _ => ?_
    have checked : Deferring.Serving s.process
        (deferring.next state (.batchCapabilityPaused s.process capability now) paused) :=
      ⟨idle, capability, rfl⟩
    refine wp_seq (ih checked.1) ?_
    rintro eligible last ⟨last_idle, asked, kept, serves⟩
    cases paused with
    | true => exact ⟨last_idle, asked, kept, fun _ => serves (.inr checked)⟩
    | false =>
      refine ⟨last_idle, ?_, ?_, fun _ => serves (.inr checked)⟩
      · intro other member
        rcases List.mem_cons.mp member with rfl | member
        · exact kept _ (List.mem_cons_self ..)
        · exact asked other member
      · exact fun other member => kept other (List.mem_cons_of_mem _ member)

/-- In a single group whose capabilities were all left free. -/
def Eligible (process : Nat) (eligible : List JobCapability) (state : Deferring) : Prop :=
  state.Serving process ∧ ∀ capability ∈ eligible, capability ∈ state.free

theorem Eligible.idle (process : Nat) (eligible : List JobCapability) (state : Deferring)
    (holds : state.Eligible process eligible) : state.Idle := holds.1.1

theorem wp_claimBatch (ctx : Ctx) (capabilities : List JobCapability) {state : Deferring}
    (idle : state.Idle) :
    deferring.wp (s.claimBatch ctx capabilities) (fun claimed last =>
      last.Idle ∧ (claimed.2.2 = none → last.Serving s.process)) Idle state := by
  unfold Service.claimBatch
  split
  · exact ⟨idle, nofun⟩
  · rename_i some_capability
    refine wp_step ⟨pays_of_none idle, trivial⟩ fun now _ => ?_
    refine wp_seq (wp_eligibleCapabilities now capabilities idle) ?_
    rintro eligible last ⟨last_idle, asked, -, serves⟩
    have serving := serves (.inl fun empty => some_capability (empty ▸ rfl))
    split
    · exact ⟨last_idle, nofun⟩
    · have claims := keepsOn_claims (Eligible.idle s.process eligible) s.process
        fun _ holds => holds.2
      have leases := keepsOn_leases (Eligible.idle s.process eligible)
      have started : last.Eligible s.process eligible := ⟨serving, asked⟩
      refine wp_mono (maintains_only (fun _ kept => kept) ?_ last started) ?_
        fun _ lost => lost
      · refine Program.only_bind (Program.only_perform (claims _ trivial)) fun token => ?_
        refine Program.only_bind (only_claimJobsWithLease claims ctx token rfl) ?_
        rintro ⟨jobs, failure⟩
        cases failure with
        | some error => exact Program.only_pure
        | none =>
          dsimp only
          split
          · exact Program.only_pure
          · split
            · exact Program.only_pure
            · refine Program.only_bind (only_validateClaimedLeases (leases _ rfl) _ _)
                fun invalid => ?_
              cases invalid <;> exact Program.only_pure
      · exact fun _ final holds => ⟨holds.1.1, fun _ => holds.1⟩

/-! ## Finalizations of one row -/

theorem maintains_deferLeased (ctx : Ctx) (job : Job) (availableAt : Int) :
    WorksOn s job (s.deferLeased ctx job availableAt) := by
  unfold Service.deferLeased
  split
  · exact maintains_pure _
  · refine leads_bind (maintains_perform (Holding.unread rfl))
      fun now state holding => ?_
    obtain ⟨⟨idle, capability, place⟩, handled⟩ := holding
    have holding : state.Holding s.process job := ⟨⟨idle, capability, place⟩, handled⟩
    refine wp_step ⟨pays_of_none idle, ⟨job, handled, rfl⟩, _, place⟩ ?_
    rintro ⟨affected, failure⟩ -
    cases failure with
    | some error =>
      have same : deferring.next state (.leased ctx (.defer (notBefore now availableAt)) job.id
          job.leaseToken now) (affected, some error) = state := if_neg fun both => nomatch both.2
      rw [same]
      exact holding
    | none =>
      dsimp only
      split
      · rename_i other
        have same : deferring.next state (.leased ctx (.defer (notBefore now availableAt))
            job.id job.leaseToken now) (affected, none) = state :=
          if_neg fun both => other both.1
        rw [same]
        exact holding
      · rename_i one
        have owes : deferring.next state (.leased ctx (.defer (notBefore now availableAt))
            job.id job.leaseToken now) (affected, none) =
            { state with
              owed := some (s.process, ⟨job.name, job.schemaVersion⟩,
                notBefore now availableAt) } := by
          refine (if_pos ⟨Decidable.not_not.mp one, rfl⟩).trans ?_
          rw [pauseOf, place, handled]
        rw [owes]
        refine wp_step ⟨?_, trivial⟩ fun _ _ => ?_
        · intro process paused until_ owed
          cases owed
          rfl
        · have observed : WorksOn s job
              (s.observeJobOutcome job .deferPersisted (notBefore now availableAt)) :=
            maintains_observeJobOutcome (Holding.idle _ _) _ _ _
          exact leads_bind observed (fun _ => maintains_pure none) _
            ⟨⟨rfl, capability, place⟩, handled⟩

theorem keepsOn_dlqBatch {process : Nat} {held buried : Job} {ctx : Ctx} {reason : String} :
    deferring.KeepsOn (Holding process held) (.runInTx ctx (.dlqBatch buried reason)) :=
  fun _ holding => ⟨⟨pays_of_none holding.1.1, trivial⟩, fun _ _ => holding⟩

/-- A finalization under the manager's mutex keeps what its callback keeps. -/
theorem maintains_finalize {ctx : Ctx} {job : Job} {finalization : Ctx → Go (Option OutboxError)}
    (finalizes : ∀ finalizeCtx, WorksOn s job (finalization finalizeCtx)) :
    WorksOn s job (m.finalize ctx job.id finalization) :=
  leads_finalize (keepsOn_leases (Holding.idle _ _)) (keepsOn_leases (Holding.idle _ _))
    (fun _ => keepsOn_unread (fun _ idle => idle) rfl) (fun _ holding => holding) finalizes

theorem maintains_finishFailedJob (ctx : Ctx) (handler : JobHandler) (job : Job)
    (error : OutboxError) :
    WorksOn s job (s.finishFailedJob ctx m handler job error) := by
  have buries : ∀ finalizeCtx reason, WorksOn s job (s.dlqBatch finalizeCtx job reason) :=
    fun _ _ => maintains_kept (only_dlqBatch (Holding.unread rfl) (fun _ => Holding.unread rfl)
      (fun _ _ _ => keepsOn_dlqBatch) _ _ _)
  unfold Service.finishFailedJob
  split
  · exact maintains_finalize fun _ => buries _ _
  · split
    · exact maintains_finalize fun _ => maintains_deferLeased _ _ _
    · split
      · exact maintains_finalize fun _ => buries _ _
      · split
        · refine leads_bind (maintains_perform (Holding.unread rfl)) fun now => ?_
          refine leads_bind (maintains_kept
            (only_retryTime (fun _ => Holding.unread rfl) _ _ _ _)) ?_
          rintro ⟨availableAt, refused⟩
          cases refused with
          | some error => exact maintains_pure _
          | none =>
            exact maintains_finalize fun _ => maintains_kept (only_rescheduleLeased
              (Holding.unread rfl) (fun _ => Holding.unread rfl)
              (fun _ _ _ _ _ => Holding.unread rfl) _ _ _)
        · exact leads_bind (maintains_kept (only_forget
            (keepsOn_leases (Holding.idle _ _)) _)) fun _ => maintains_pure _

/-! ## Single groups -/

theorem leads_executeJob (ctx : Ctx) (handler : JobHandler) (job : Job) :
    deferring.Leads (Serving s.process) (Holding s.process job) Idle
      (Service.executeJob ctx handler job) := by
  refine leads_bind (maintains_perform
    (keepsOn_unread (Serving.idle s.process) rfl)) fun now => ?_
  have handled : ∀ handlerCtx, deferring.Leads (Serving s.process) (Holding s.process job) Idle
      (Service.handleJob handlerCtx job) := by
    intro handlerCtx state serving
    refine wp_step ⟨pays_of_none serving.1, trivial⟩ fun _ _ => ?_
    have holding : Holding s.process job { state with job := some job } := ⟨serving, rfl⟩
    refine wp_step ⟨pays_of_none serving.1, trivial⟩ fun exit _ => ?_
    cases exit with
    | returned error => exact holding
    | panicked value => exact holding
    | goexit => exact serving.1
  refine leads_bind (handled _) fun error => ?_
  refine leads_bind (maintains_perform (Holding.unread rfl)) fun cause => ?_
  cases cause <;> exact maintains_pure _

theorem singleGroup : SingleGroup deferring s m (Serving s.process) (Holding s.process) Idle where
  admits ctx := maintains_admitBatch (Serving.idle _) ctx s.process
  executes := leads_executeJob
  asks _ _ := Holding.unread rfl
  fails := maintains_finishFailedJob
  acks _ _ := maintains_finalize fun _ => maintains_kept
    (only_ackBatch (Holding.unread rfl) (fun _ => Holding.unread rfl)
      (fun _ _ _ _ => Holding.unread rfl) _ _)
  finished _ _ holding := holding.1
  forgets _ := maintains_kept (only_forget (keepsOn_leases (Serving.idle _)) _)
  stops := maintains_stopAndWait (Serving.idle _)
  releases := maintains_releaseUnstarted (Serving.idle _)

theorem maintains_findAndProcessBatch (capabilities : List JobCapability) :
    deferring.Maintains Idle Idle (s.findAndProcessBatch capabilities) := by
  intro state idle
  refine wp_seq (wp_claimBatch _ capabilities idle) ?_
  rintro ⟨jobs, leaseToken, failure⟩ last ⟨last_idle, serves⟩
  cases failure with
  | some error => exact leads_reportGroup (fun _ idle => idle) _ _ last last_idle
  | none =>
    have group : deferring.Maintains (Serving s.process) Idle
        (s.withManager leaseToken jobs fun manager => s.processGroup manager jobs) :=
      maintains_withManager (keepsOn_managers (Serving.idle _))
        (keepsOn_managers fun _ idle => idle) fun _ _ => singleGroup.processGroup jobs
    exact leads_bind group (fun _ => leads_reportGroup (Serving.idle _) _ _) last
      (serves rfl)

/-! ## Batches -/

variable {capability : JobCapability} {registration : BatchJobRegistration}

theorem keepsOn_collector (effect : Effect) (claims : effect.ofClaims s.process [capability]) :
    deferring.KeepsOn (Batching s.process capability) effect := by
  refine keepsOn_claims (Batching.idle _ _) s.process ?_ effect claims
  intro state batching other member
  rw [List.mem_singleton.mp member]
  exact batching.2.2

/-- The outcomes are stored with a pending pause for every defer. -/
theorem leads_applyExecutionBatchOutcomes (ctx : Ctx) (jobs : List Job)
    (outcomes : List BatchJobOutcome) :
    deferring.Leads (Covering s.process capability outcomes) (Batching s.process capability) Idle
      (s.applyExecutionBatchOutcomes ctx m jobs outcomes) := by
  have stored : ∀ finalizeCtx, deferring.Leads (Covering s.process capability outcomes)
      (Batching s.process capability) Idle
      (Go.runInTx finalizeCtx (.applyOutcomes m.leaseToken jobs outcomes)) := by
    intro finalizeCtx state covering
    exact ⟨⟨pays_of_none covering.1.1, s.process, capability, covering.1.2.1, covering.2⟩,
      fun _ _ => covering.1⟩
  refine leads_bind (maintains_perform
    (keepsOn_unread (Covering.idle s.process capability outcomes) rfl)) fun now => ?_
  refine leads_bind (leads_finalizeAll (keepsOn_leases (Covering.idle _ _ _))
    (keepsOn_leases (Batching.idle _ _)) (fun _ => keepsOn_unread (fun _ idle => idle) rfl)
    (fun _ covering => covering.1) (stored _)) fun failure => ?_
  cases failure with
  | some error => exact maintains_pure _
  | none =>
    have observed : Batches s capability (s.observeBatchOutcomes jobs outcomes) :=
      maintains_kept (only_observeBatchOutcomes (Batching.unread rfl)
        (fun _ => Batching.unread rfl) _ _)
    exact leads_bind observed fun _ => maintains_pure _

theorem next_pause {state : Deferring} (idle : state.Idle) (process : Nat)
    (capability : JobCapability) (until_ : Int) :
    deferring.next state (.pauseBatchCapability process capability until_) () =
      { state with pending := (process, capability, until_) :: state.pending } := by
  have settled : state.owed = none := idle
  simp only [deferring, Deferring.next, settled]

/-- A top-level failure pauses the capability until the time it returns. -/
theorem wp_topLevelBatchRetryTime (error : OutboxError) {state : Deferring}
    (batching : state.Batching s.process capability) :
    deferring.wp (s.topLevelBatchRetryTime capability error) (fun availableAt last =>
      last.Batching s.process capability ∧ (s.process, capability, availableAt) ∈ last.pending)
      Idle state := by
  have pays : ∀ effect, state.Pays effect := fun _ => pays_of_none batching.1
  have pauses : ∀ until_, deferring.wp (do
      Go.pauseBatchCapability s.process capability until_
      return until_) (fun availableAt last => last.Batching s.process capability ∧
        (s.process, capability, availableAt) ∈ last.pending) Idle state := by
    intro until_
    refine wp_step ⟨pays _, trivial⟩ fun _ _ => ?_
    rw [next_pause batching.1]
    exact ⟨batching, List.mem_cons_self ..⟩
  refine wp_step ⟨pays _, trivial⟩ fun now _ => ?_
  split
  · exact pauses _
  · split
    · exact pauses _
    · exact ⟨⟨pays _, trivial⟩, fun _ _ => ⟨batching, List.mem_cons_self ..⟩⟩

/-- What the outcomes of items add: nothing is forgotten, and a defer is paused. -/
def Adds (process : Nat) (capability : JobCapability) (state : Deferring)
    (outcomes : List BatchJobOutcome) (last : Deferring) : Prop :=
  last.Covering process capability outcomes ∧ ∀ pause ∈ state.pending, pause ∈ last.pending

theorem Adds.of_kinds {process : Nat} {state : Deferring} {outcomes : List BatchJobOutcome}
    (batching : state.Batching process capability)
    (kinds : ∀ outcome ∈ outcomes, outcome.kind ≠ .defer) :
    Adds process capability state outcomes state :=
  ⟨⟨batching, fun outcome member defers => absurd defers (kinds outcome member)⟩,
    fun _ member => member⟩

theorem wp_itemOutcome (now : Int) (job : Job) (failure : Option OutboxError) {state : Deferring}
    (batching : state.Batching s.process capability) :
    deferring.wp (s.itemOutcome capability registration now job failure) (fun result last =>
      Adds s.process capability state result.toOption.toList last) Idle state := by
  cases failure with
  | none => exact Adds.of_kinds batching (by simp [Except.toOption])
  | some error =>
    unfold Service.itemOutcome
    dsimp only
    split
    · exact Adds.of_kinds batching (by simp [Except.toOption, dlqExecutionBatchOutcome])
    · split
      · refine wp_step ⟨pays_of_none batching.1, trivial⟩ fun _ _ => ?_
        rw [next_pause batching.1]
        refine ⟨⟨batching, ?_⟩, fun _ member => List.mem_cons_of_mem _ member⟩
        intro outcome member _
        obtain rfl := List.mem_singleton.mp member
        exact List.mem_cons_self ..
      · split
        · exact Adds.of_kinds batching (by simp [Except.toOption, dlqExecutionBatchOutcome])
        · refine wp_seq (?_ : deferring.wp _ (fun _ last =>
            Adds s.process capability state [] last) Idle state) ?_
          · refine maintains_kept (only_retryTime (fun _ => keepsOn_unread
              (fun _ adds => adds.1.1.1) rfl) _ _ _ _) state ?_
            exact Adds.of_kinds batching nofun
          · rintro ⟨availableAt, refused⟩ last ⟨⟨kept, -⟩, grows⟩
            cases refused with
            | some error => exact ⟨⟨kept, nofun⟩, grows⟩
            | none =>
              refine ⟨⟨kept, ?_⟩, grows⟩
              intro outcome member defers
              obtain rfl := List.mem_singleton.mp member
              cases defers

theorem wp_itemOutcomes (now : Int) (items : List (Job × Option OutboxError))
    {state : Deferring} (batching : state.Batching s.process capability) :
    deferring.wp (s.itemOutcomes capability registration now items) (fun result last =>
      Adds s.process capability state (result.toOption.getD []) last) Idle state := by
  induction items generalizing state with
  | nil => exact Adds.of_kinds batching nofun
  | cons item rest ih =>
    obtain ⟨job, failure⟩ := item
    refine wp_seq (wp_itemOutcome now job failure batching) ?_
    rintro result middle ⟨⟨kept, covers⟩, grows⟩
    cases result with
    | error error => exact ⟨⟨kept, nofun⟩, grows⟩
    | ok outcome =>
      refine wp_seq (ih kept) ?_
      rintro results last ⟨⟨still, others⟩, more⟩
      have all : ∀ pause ∈ state.pending, pause ∈ last.pending :=
        fun pause member => more pause (grows pause member)
      cases results with
      | error error => exact ⟨⟨still, nofun⟩, all⟩
      | ok outcomes =>
        refine ⟨⟨still, fun one member defers => ?_⟩, all⟩
        rcases List.mem_cons.mp member with rfl | member
        · exact more _ (covers one (List.mem_singleton_self one) defers)
        · exact others one member defers

theorem maintains_finishExecutionBatch (ctx : Ctx) (jobs : List Job) (items : List BatchJobItem)
    (result : BatchResult) (failure : Option OutboxError) :
    Batches s capability
      (s.finishExecutionBatch ctx m capability registration jobs items result failure) := by
  cases failure with
  | some error =>
    unfold Service.finishExecutionBatch
    dsimp only
    split
    · exact maintains_pure _
    · split
      · exact maintains_pure _
      · split
        · exact maintains_pure _
        · intro state batching
          refine wp_seq (wp_topLevelBatchRetryTime error batching) ?_
          rintro availableAt last ⟨kept, paused⟩
          refine leads_applyExecutionBatchOutcomes ctx jobs _ last ⟨kept, ?_⟩
          intro outcome member _
          obtain ⟨job, -, rfl⟩ := List.mem_map.mp member
          exact paused
  | none =>
    unfold Service.finishExecutionBatch
    dsimp only
    split
    · exact maintains_pure _
    · refine leads_bind (maintains_perform (Batching.unread rfl)) fun _ => ?_
      refine leads_bind (maintains_perform (Batching.unread rfl)) fun now state batching => ?_
      refine wp_seq (wp_itemOutcomes now _ batching) ?_
      rintro results last ⟨covering, -⟩
      cases results with
      | error error => exact covering.1
      | ok outcomes => exact leads_applyExecutionBatchOutcomes ctx jobs outcomes last covering

/-- The heartbeat stops before the rest of the group is released. -/
theorem maintains_joined (after : Option OutboxError → Option OutboxError → α) :
    Batches s capability (do
      let heartbeatErr ← m.stopAndWait
      let releaseErr ← m.releaseUnstarted (.run s.process)
      return after heartbeatErr releaseErr) := by
  refine leads_bind (maintains_stopAndWait (Batching.idle _ _)) fun _ => ?_
  refine leads_bind (maintains_releaseUnstarted (Batching.idle _ _) _) fun _ => ?_
  exact maintains_pure _

theorem maintains_forgetExecutionBatch (error : OutboxError) :
    Batches s capability (Service.forgetExecutionBatch m error) := by
  refine leads_bind (maintains_kept (only_forgetAll
    (keepsOn_leases (Batching.idle _ _)))) fun _ => ?_
  refine leads_bind (maintains_stopAndWait (Batching.idle _ _)) fun _ => ?_
  exact maintains_pure _

theorem maintains_settleExecutionBatch (jobs : List Job) (items : List BatchJobItem)
    (result : BatchResult) (failure : Option OutboxError) :
    Batches s capability
      (s.settleExecutionBatch m capability registration jobs items result failure) := by
  refine leads_bind (maintains_finishExecutionBatch _ jobs items result failure)
    fun finished => ?_
  cases finished with
  | some error =>
    exact leads_bind (maintains_kept (only_forgetAll
      (keepsOn_leases (Batching.idle _ _)))) fun _ => maintains_joined _
  | none => exact maintains_joined _

theorem maintains_executeBatchHandler (ctx : Ctx) (token : LeaseToken) (items : List BatchJobItem) :
    Batches s capability (Service.executeBatchHandler ctx capability registration token items) := by
  refine leads_bind (maintains_perform (Batching.unread rfl)) fun now => ?_
  refine leads_bind (maintains_perform (Batching.unread rfl)) fun _ => ?_
  refine leads_bind (maintains_perform (Batching.unread rfl)) fun exit => ?_
  cases exit with
  | goexit => exact fun _ batching => batching.1
  | panicked value => exact maintains_pure _
  | returned outcome =>
    refine leads_bind (maintains_perform (Batching.unread rfl)) fun cause => ?_
    cases cause <;> exact maintains_pure _

theorem maintains_runExecutionBatch (selected : List Job) :
    Batches s capability (s.runExecutionBatch m capability registration selected) := by
  refine leads_bind (maintains_admitBatch (Batching.idle _ _) _ _) fun refused => ?_
  cases refused with
  | some error => exact maintains_joined _
  | none =>
    refine leads_bind (maintains_executeBatchHandler _ _ _) ?_
    rintro ⟨result, failure⟩
    refine leads_bind (maintains_perform (Batching.unread rfl)) fun cause => ?_
    cases cause with
    | some cause => exact maintains_forgetExecutionBatch cause
    | none =>
      dsimp only
      split
      · exact maintains_forgetExecutionBatch _
      · exact maintains_settleExecutionBatch _ _ _ _

theorem maintains_processExecutionBatch (jobs : List Job) :
    Batches s capability (s.processExecutionBatch capability registration m jobs) := by
  refine leads_bind (maintains_kept (only_fillExecutionBatch keepsOn_collector
    (keepsOn_leases (Batching.idle _ _)) (fun _ _ => Batching.unread rfl)
    (Batching.unread rfl) _ _ _ _)) ?_
  rintro ⟨filled, failure⟩
  cases failure with
  | some error =>
    exact leads_bind (maintains_joined _) fun _ => maintains_pure _
  | none =>
    exact leads_bind (maintains_runExecutionBatch _) fun _ => maintains_pure _

theorem leads_findAndProcessExecutionBatch (capability : JobCapability) :
    deferring.Leads (Batching s.process capability) Idle Idle
      (s.findAndProcessExecutionBatch capability) := by
  have reports : ∀ (processed : Bool) (claimedJobs : Nat) (retErr : Option OutboxError),
      deferring.Leads (Batching s.process capability) Idle Idle
        (do return (processed, ← s.reportGroup claimedJobs retErr)) := by
    intro processed claimedJobs retErr
    exact leads_bind (leads_reportGroup (Batching.idle _ _) _ _) fun _ =>
      maintains_pure _
  unfold Service.findAndProcessExecutionBatch
  split
  · exact reports _ _ _
  · split
    · exact reports _ _ _
    · refine leads_bind (maintains_kept (only_claimInitialExecutionBatch keepsOn_collector _ _)) ?_
      rintro ⟨jobs, leaseToken, failure⟩
      cases failure with
      | some error =>
        dsimp only
        split <;> exact reports _ _ _
      | none =>
        refine leads_bind (maintains_withManager (keepsOn_managers (Batching.idle _ _))
          (keepsOn_managers fun _ idle => idle)
          fun _ _ => maintains_processExecutionBatch jobs) ?_
        rintro ⟨claimedJobs, retErr⟩
        exact reports _ _ _

/-! ## Every thread -/

theorem turns (s : Service) :
    Turns deferring s Idle (Batching s.process) Idle where
  between effect between := by
    refine keepsOn_unread (fun _ idle => idle) ?_
    cases effect with
    | isDraining | err | waitForWorker | halt => rfl
    | returned result =>
      cases result with
      | group err => cases between
      | runWorker err => rfl
    | _ => cases between
  checks capability state idle := by
    refine wp_step ⟨pays_of_none idle, trivial⟩ fun now _ => ?_
    refine ⟨⟨pays_of_none idle, trivial⟩, fun paused _ => ?_⟩
    cases paused with
    | true => exact idle
    | false => exact ⟨idle, rfl, List.mem_cons_self ..⟩
  single capabilities := maintains_findAndProcessBatch capabilities
  batch capability := leads_findAndProcessExecutionBatch capability

theorem watched_worker (s : Service) (index : Nat) :
    (Thread.start (Role.worker s.process, s.worker index)).Watched fun _ => deferring :=
  @Turns.watched _ _ _ _ (fun _ => deferring) s (turns s) rfl
    (fun _ idle => ⟨pays_of_none idle, trivial⟩) index

theorem watched_run (m : BatchLeaseManager) (rounds : Nat) :
    (Thread.start (Role.heartbeat m, m.run rounds)).Watched fun _ => deferring := by
  have unread : ∀ {effect : Effect}, effect.ofDeferrals = false → deferring.KeepsOn Idle effect :=
    keepsOn_unread fun _ idle => idle
  have kept : deferring.Maintains Idle Idle (m.run rounds) :=
    maintains_kept (only_run (keepsOn_leases fun _ idle => idle) (unread rfl) (unread rfl)
      (unread rfl) rounds)
  exact wp_mono (kept _ rfl) (fun _ _ _ => trivial) fun _ _ => trivial

end Deferring

end OutboxFormal
