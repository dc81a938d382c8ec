import OutboxFormal.Library.Maintained
import OutboxFormal.Service.Footprints
import OutboxFormal.Service.LedgerBound
import OutboxFormal.Service.World

/-!
# The control skeleton of a worker

What a monitor has to know of the groups of a worker in order to watch the whole
worker. The rounds, the turns and the frame around a lease manager are walked
through once, for any monitor; a property is then shown of a group only.
-/

namespace OutboxFormal

open Library
open Library.Monitor (leads_bind leads_onExit leads_pure maintains_only maintains_perform
  maintains_pure wp_bind wp_mono wp_onExit wp_seq)

variable {σ α : Type} {monitor : Monitor Answer σ} {keeps unwound : σ → Prop}

/-! ## Finalizations -/

section Finalizations

variable {before after : σ → Prop}
variable (renews : ∀ effect : Effect, effect.ofLeases = true → monitor.KeepsOn before effect)
variable (leases : ∀ effect : Effect, effect.ofLeases = true → monitor.KeepsOn after effect)
variable (unlocks : ∀ group, monitor.KeepsOn unwound (.unlock group))
variable (weaker : ∀ state, before state → after state)
variable {m : BatchLeaseManager} {ctx : Ctx} {ledger : Ledger}

include renews leases weaker

theorem leads_finalizeLocked {requiredUntil targetUntil : Int}
    {finalization : Go (Option OutboxError)} {drop : Ledger → Ledger}
    (finalizes : monitor.Leads before after unwound finalization) :
    monitor.Leads before after unwound
      (m.finalizeLocked ctx ledger requiredUntil targetUntil finalization drop) := by
  have renewals : monitor.Maintains before unwound
      (m.ensureLeasesLocked ctx ledger requiredUntil targetUntil) :=
    maintains_only renews
      (only_ensureLeasesLocked (leases_renewals fun _ lease => lease) _ _ _)
  refine leads_bind renewals ?_
  rintro ⟨error, renewed⟩
  cases error with
  | some error => exact leads_pure weaker _
  | none =>
    refine leads_bind (maintains_perform (renews _ rfl)) fun error => ?_
    cases error with
    | some error => exact leads_pure weaker _
    | none =>
      refine leads_bind finalizes fun failure => ?_
      cases failure with
      | some error => exact maintains_pure _
      | none =>
        exact leads_bind (maintains_perform (leases _ rfl)) fun _ =>
          maintains_pure _

include unlocks

theorem leads_lockedContext {body : Ledger → Go (Option OutboxError)}
    (inside : ∀ ledger, monitor.Leads before after unwound (body ledger)) :
    monitor.Leads before after unwound (m.lockedContext ctx body) := by
  refine leads_bind (maintains_perform (renews _ rfl)) fun answer => ?_
  cases answer with
  | error cause =>
    exact leads_bind (maintains_perform (renews _ rfl)) fun _ =>
      leads_pure weaker _
  | ok ledger =>
    exact leads_onExit (inside ledger) (maintains_perform (leases _ rfl))
      (maintains_perform (unlocks _))

theorem leads_finalize {jobID : JobID} {finalization : Ctx → Go (Option OutboxError)}
    (finalizes : ∀ finalizeCtx, monitor.Leads before after unwound (finalization finalizeCtx)) :
    monitor.Leads before after unwound (m.finalize ctx jobID finalization) := by
  refine leads_bind (maintains_perform (renews _ rfl)) fun now => ?_
  refine leads_lockedContext renews leases unlocks weaker fun ledger => ?_
  dsimp only
  split
  · exact leads_pure weaker _
  · exact leads_finalizeLocked renews leases weaker (finalizes _)

theorem leads_finalizeAll {leaseUntil : Int} {finalization : Go (Option OutboxError)}
    (finalizes : monitor.Leads before after unwound finalization) :
    monitor.Leads before after unwound (m.finalizeAll ctx leaseUntil finalization) := by
  refine leads_lockedContext renews leases unlocks weaker fun ledger => ?_
  split
  · exact leads_pure weaker _
  · exact leads_finalizeLocked renews leases weaker finalizes

end Finalizations

/-! ## The frame of a group -/

def Effect.ofManagers : Effect → Bool
  | .withCancelCause _ | .cancelCause _ _ | .newManager .. | .notifyWorkerExit _ => true
  | effect => effect.ofStops

theorem maintains_withManager {s : Service} {leaseToken : LeaseToken} {jobs : List Job}
    {work : BatchLeaseManager → Go α}
    (managers : ∀ effect : Effect, effect.ofManagers = true → monitor.KeepsOn keeps effect)
    (unwinds : ∀ effect : Effect, effect.ofManagers = true → monitor.KeepsOn unwound effect)
    (works : ∀ m : BatchLeaseManager, m.leaseToken = leaseToken →
      monitor.Maintains keeps unwound (work m)) :
    monitor.Maintains keeps unwound (s.withManager leaseToken jobs work) := by
  have stops : ∀ effect : Effect, effect.ofStops = true → effect.ofManagers = true := by
    intro effect stop
    cases effect <;> first | rfl | cases stop
  have joins : ∀ {held : σ → Prop} (m : BatchLeaseManager),
      (∀ effect : Effect, effect.ofManagers = true → monitor.KeepsOn held effect) →
      monitor.Maintains held unwound (do let _ ← m.stopAndWait) := by
    intro held m kept
    refine leads_bind ?_ fun _ => maintains_pure _
    exact maintains_only kept (only_stopAndWait stops)
  refine leads_bind (maintains_perform (managers _ rfl)) fun group => ?_
  refine leads_onExit ?_ (maintains_perform (managers _ rfl))
    (maintains_perform (unwinds _ rfl))
  refine leads_bind (maintains_perform (managers _ rfl)) fun _ => ?_
  refine leads_onExit (works _ rfl) (joins _ managers) ?_
  exact leads_bind (maintains_perform (unwinds _ rfl)) fun _ =>
    joins _ unwinds

/-! ## Single groups -/

/-- What a property of a single group has to survive: `holding job` holds from
the handler of a job until the job is finished. -/
structure SingleGroup (monitor : Monitor Answer σ) (s : Service) (m : BatchLeaseManager)
    (serving : σ → Prop) (holding : Job → σ → Prop) (unwound : σ → Prop) : Prop where
  admits : ∀ ctx, monitor.Maintains serving unwound (m.admitBatch ctx s.process)
  executes : ∀ ctx handler job,
    monitor.Leads serving (holding job) unwound (Service.executeJob ctx handler job)
  asks : ∀ job ctx, monitor.KeepsOn (holding job) (.cause ctx)
  fails : ∀ ctx handler job error,
    monitor.Maintains (holding job) unwound (s.finishFailedJob ctx m handler job error)
  acks : ∀ ctx job, monitor.Maintains (holding job) unwound
    (m.finalize ctx job.id fun finalizeCtx => s.ackBatch finalizeCtx job)
  finished : ∀ job state, holding job state → serving state
  forgets : ∀ jobID, monitor.Maintains serving unwound (m.forget jobID)
  stops : monitor.Maintains serving unwound m.stopAndWait
  releases : ∀ ctx, monitor.Maintains serving unwound (m.releaseUnstarted ctx)

namespace SingleGroup

variable {s : Service} {m : BatchLeaseManager} {serving : σ → Prop} {holding : Job → σ → Prop}

variable (group : SingleGroup monitor s m serving holding unwound)
include group

theorem processBatchJob (ctx : Ctx) (job : Job) :
    monitor.Maintains serving unwound (s.processBatchJob ctx m job) := by
  unfold Service.processBatchJob
  split
  · exact maintains_pure _
  · refine leads_bind (group.admits ctx) fun refused => ?_
    cases refused with
    | some error => exact maintains_pure _
    | none =>
      refine leads_bind (group.executes ctx _ job) fun failure => ?_
      refine leads_bind (maintains_perform (group.asks job ctx)) fun cause => ?_
      cases cause with
      | some cause => exact leads_pure (group.finished job) _
      | none =>
        cases failure with
        | some error =>
          exact leads_bind (group.fails ctx _ job error) fun _ =>
            leads_pure (group.finished job) _
        | none =>
          exact leads_bind (group.acks ctx job) fun _ =>
            leads_pure (group.finished job) _

theorem processBatchJobs (ctx : Ctx) (jobs : List Job) :
    monitor.Maintains serving unwound (s.processBatchJobs ctx m jobs) := by
  induction jobs with
  | nil => exact maintains_pure _
  | cons job rest ih =>
    refine leads_bind (group.processBatchJob ctx job) ?_
    rintro ⟨started, failure⟩
    cases failure with
    | none => exact ih
    | some error =>
      cases started with
      | true =>
        exact leads_bind (group.forgets job.id) fun _ => maintains_pure _
      | false => exact maintains_pure _

theorem processGroup (jobs : List Job) :
    monitor.Maintains serving unwound (s.processGroup m jobs) := by
  refine leads_bind (group.processBatchJobs _ jobs) fun _ => ?_
  refine leads_bind group.stops fun _ => ?_
  refine leads_bind (group.releases _) fun _ => ?_
  exact maintains_pure _

end SingleGroup

/-! ## Turns and rounds -/

/-- The effects of a worker between its groups. -/
def Effect.ofTurns (process : Nat) : Effect → Prop
  | .isDraining service => service = process
  | .err _ | .waitForWorker .. | .halt | .returned (.runWorker _) => True
  | _ => False

/-- A property between two groups, which the groups of a service keep. A batch
begins after a pause check that left its capability `free`. -/
structure Turns (monitor : Monitor Answer σ) (s : Service) (idle : σ → Prop)
    (free : JobCapability → σ → Prop) (unwound : σ → Prop) : Prop where
  between : ∀ effect : Effect, effect.ofTurns s.process → monitor.KeepsOn idle effect
  checks : ∀ capability state, idle state →
    monitor.wp (do
      let now ← Go.now
      Go.batchCapabilityPaused s.process capability now)
      (fun paused last => if paused then idle last else free capability last) unwound state
  single : ∀ capabilities, monitor.Maintains idle unwound (s.findAndProcessBatch capabilities)
  batch : ∀ capability state, free capability state →
    monitor.wp (s.findAndProcessExecutionBatch capability) (fun _ => idle) unwound state

namespace Turns

variable {s : Service} {idle : σ → Prop} {free : JobCapability → σ → Prop}
variable {singleCapabilities batchCapabilities : List JobCapability} {schedule : WorkerSchedule}

section Rounds

variable (turns : Turns monitor s idle free unwound)
include turns

theorem checked {capability : JobCapability} {next : Bool → Go α} {returns : α → σ → Prop}
    {state : σ} (holds : idle state)
    (paused : ∀ last, idle last → monitor.wp (next true) returns unwound last)
    (unpaused : ∀ last, free capability last → monitor.wp (next false) returns unwound last) :
    monitor.wp (do
      let now ← Go.now
      let answer ← Go.batchCapabilityPaused s.process capability now
      next answer) returns unwound state := by
  refine wp_seq (wp_bind.mp (turns.checks capability state holds)) ?_
  intro now middle asks
  refine wp_seq asks ?_
  intro answer last known
  cases answer with
  | true => exact paused last known
  | false => exact unpaused last known

theorem processBatchFrom (cursor : Nat) (indices : List Nat) :
    monitor.Maintains idle unwound (s.processBatchFrom batchCapabilities cursor indices) := by
  induction indices with
  | nil => exact maintains_pure _
  | cons index rest ih =>
    intro state holds
    unfold Service.processBatchFrom
    split
    · exact ih state holds
    · refine turns.checked holds ih fun last free => ?_
      refine wp_seq (turns.batch _ last free) ?_
      rintro ⟨processed, error⟩ final holds
      cases processed with
      | true => exact holds
      | false =>
        cases error with
        | none => exact ih final holds
        | some error => exact holds

theorem processOneAvailableBatch (cursor : Nat) :
    monitor.Maintains idle unwound (s.processOneAvailableBatch batchCapabilities cursor) := by
  unfold Service.processOneAvailableBatch
  split
  · exact maintains_pure _
  · exact turns.processBatchFrom cursor _

theorem processOneAvailableSingle :
    monitor.Maintains idle unwound (s.processOneAvailableSingle singleCapabilities) := by
  unfold Service.processOneAvailableSingle
  split
  · exact maintains_pure _
  · refine leads_bind (turns.single singleCapabilities) fun failure => ?_
    cases failure with
    | none => exact maintains_pure _
    | some error =>
      dsimp only
      split <;> exact maintains_pure _

theorem processSingleFirst :
    monitor.Maintains idle unwound
      (s.processSingleFirst singleCapabilities batchCapabilities schedule) := by
  refine leads_bind turns.processOneAvailableSingle ?_
  rintro ⟨didWork, error⟩
  cases didWork with
  | true => exact maintains_pure _
  | false =>
    cases error with
    | some error => exact maintains_pure _
    | none =>
      dsimp only
      split
      · exact maintains_pure _
      · refine leads_bind (turns.processOneAvailableBatch _) ?_
        rintro ⟨didWork, error, cursor⟩
        dsimp only
        split
        · exact maintains_pure _
        · split <;> exact maintains_pure _

theorem processWorkerWork :
    monitor.Maintains idle unwound
      (s.processWorkerWork singleCapabilities batchCapabilities schedule) := by
  unfold Service.processWorkerWork
  split
  · refine leads_bind (turns.processOneAvailableBatch _) ?_
    rintro ⟨didWork, error, cursor⟩
    dsimp only
    split
    · exact maintains_pure _
    · split
      · exact maintains_pure _
      · split
        · exact maintains_pure _
        · exact turns.processSingleFirst
  · exact turns.processSingleFirst

theorem workerRounds (rounds : Nat) :
    monitor.Maintains idle unwound
      (s.workerRounds singleCapabilities batchCapabilities rounds schedule) := by
  induction rounds generalizing schedule with
  | zero =>
    intro state holds
    exact ⟨(turns.between .halt trivial state holds).1, nofun⟩
  | succ rounds ih =>
    refine leads_bind (maintains_perform (turns.between _ rfl)) ?_
    intro draining
    cases draining with
    | true => exact maintains_pure _
    | false =>
      refine leads_bind turns.processWorkerWork ?_
      rintro ⟨didWork, error, schedule⟩
      cases error with
      | some error =>
        refine leads_bind (maintains_perform (turns.between _ trivial)) ?_
        intro stopped
        cases stopped <;> exact maintains_pure _
      | none =>
        cases didWork with
        | true => exact ih
        | false =>
          refine leads_bind
            (maintains_perform (turns.between _ trivial)) fun stop => ?_
          cases stop with
          | true => exact maintains_pure _
          | false => exact ih

end Rounds

theorem watched {monitor : Role → Monitor Answer σ} {s : Service}
    (turns : Turns (monitor (.worker s.process)) s idle free unwound)
    (start : idle (monitor (.worker s.process)).start) (leaves : ∀ state, unwound state →
      (monitor (.worker s.process)).allowed state (.notifyWorkerExit s.process)) (index : Nat) :
    (Thread.start (Role.worker s.process, s.worker index)).Watched monitor := by
  refine wp_onExit.mpr (wp_bind.mpr (wp_bind.mpr ?_))
  refine wp_mono (turns.workerRounds s.rounds _ start) ?_ ?_
  · intro error last holds
    exact ⟨(turns.between (.returned (.runWorker error)) trivial last holds).1,
      fun _ _ => trivial⟩
  · exact fun last lost => ⟨leaves last lost, fun _ _ => trivial⟩

end Turns

end OutboxFormal
