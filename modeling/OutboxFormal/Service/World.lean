import OutboxFormal.Library.Concurrency
import OutboxFormal.Service.Worker

/-!
# The shared state of running services

Workers and heartbeats of any number of services run over one world: the run
contexts and drain flags of the services, the paused batch capabilities, and
the contexts and lease managers of the claimed groups. What lies outside the
services (clocks, databases, handlers) is a parameter.
-/

namespace OutboxFormal

open Library

/-! ## Paused batch capabilities -/

/-- `batchPaused` and `batchStreak`; an absent entry reads as zero. -/
structure BatchState where
  batchPaused : JobCapability → Int
  batchStreak : JobCapability → Int

namespace BatchState

def empty : BatchState := ⟨fun _ => 0, fun _ => 0⟩

def paused (state : BatchState) (capability : JobCapability) (now : Int) : Bool :=
  decide (state.batchPaused capability ≠ 0 ∧ now < state.batchPaused capability)

/-- `batchCapabilityPaused` forgets a pause that is over. -/
def check (state : BatchState) (capability : JobCapability) (now : Int) : BatchState :=
  if state.paused capability now then state
  else { state with batchPaused := Function.update state.batchPaused capability 0 }

/-- `pauseBatchCapability`: a pause only moves forward. -/
def pause (state : BatchState) (capability : JobCapability) (until_ : Int) : BatchState :=
  if state.batchPaused capability < until_ then
    { state with batchPaused := Function.update state.batchPaused capability until_ }
  else state

def resetStreak (state : BatchState) (capability : JobCapability) : BatchState :=
  { state with batchStreak := Function.update state.batchStreak capability 0 }

def retryAt (state : BatchState) (capability : JobCapability) (now : Int) : Int :=
  now + batchAttemptBackoff (state.batchStreak capability + 1)

/-- The locked part of `topLevelBatchRetryTime`. -/
def retry (state : BatchState) (capability : JobCapability) (now : Int) : BatchState :=
  { state with
    batchStreak := Function.update state.batchStreak capability
      (state.batchStreak capability + 1) }.pause capability (state.retryAt capability now)

end BatchState

/-! ## The world -/

/-- The state of one service that its workers share. -/
structure ProcessState where
  cause : Option OutboxError
  draining : Bool
  claimReaders : Nat
  batchState : BatchState

/-- The mutable fields of a lease manager. -/
structure ManagerState where
  manager : BatchLeaseManager
  ledger : Ledger
  holder : Option Nat
  err : Option OutboxError
  stopped : Bool
  done : Bool

/-- The context of a claimed group, and its manager once there is one. -/
structure GroupState where
  process : Nat
  cause : Option OutboxError
  manager : Option ManagerState

structure World (δ : Type) where
  processes : Nat → ProcessState
  groups : Nat → GroupState
  allocated : Nat
  outside : δ

namespace World

variable {δ : Type}

/-- A world in which nothing has run yet. -/
def initial (outside : δ) : World δ where
  processes := fun _ => ⟨none, false, 0, .empty⟩
  groups := fun _ => ⟨0, none, none⟩
  allocated := 0
  outside := outside

variable (world : World δ)

/-! ## Contexts -/

/-- The answers `context.Cause` can give: a derived context reports the cause of
its parent or its own deadline. -/
def mayCause : Ctx → Option OutboxError → Bool
  | .run process, answer => decide (answer = (world.processes process).cause)
  | .group id, answer => decide (answer = (world.groups id).cause)
  | .heartbeat id, answer =>
    let stopped := ((world.groups id).manager.map ManagerState.stopped).getD false
    if stopped then
      decide (answer = some (.leaf .contextCanceled)) ||
        answer.isSome && decide (answer = (world.groups id).cause)
    else decide (answer = (world.groups id).cause)
  | .withDeadline parent _, answer =>
    decide (answer = some (.leaf .contextDeadlineExceeded)) || mayCause parent answer
  | .withoutCancel _, answer => answer.isNone

def mayBeDone : Ctx → Bool
  | .run process => (world.processes process).cause.isSome
  | .group id => (world.groups id).cause.isSome
  | .heartbeat id =>
    ((world.groups id).manager.map ManagerState.stopped).getD false ||
      (world.groups id).cause.isSome
  | .withDeadline _ _ => true
  | .withoutCancel _ => false

/-- The answers `ctx.Err` can give. -/
def mayErr (ctx : Ctx) : Option OutboxError → Bool
  | none => world.mayCause ctx none
  | some error => world.mayBeDone ctx &&
      decide (error ∈ [GoError.leaf .contextCanceled, .leaf .contextDeadlineExceeded])

def cancelGroup (id : Nat) (cause : OutboxError) : World δ :=
  { world with
    groups := Function.update world.groups id
      { world.groups id with cause := (world.groups id).cause.or (some cause) } }

/-- Cancel the run context of one service and the contexts derived from it. -/
def cancelProcess (process : Nat) (cause : OutboxError) : World δ :=
  if (world.processes process).cause.isSome then world
  else
    { world with
      processes := Function.update world.processes process
        { world.processes process with cause := some cause }
      groups := fun id =>
        if (world.groups id).process = process then
          { world.groups id with cause := (world.groups id).cause.or (some cause) }
        else world.groups id }

/-! ## Lease managers -/

def setManager (id : Nat) (state : ManagerState) : World δ :=
  { world with
    groups := Function.update world.groups id
      { world.groups id with manager := some state } }

def onManager (id : Nat) (ready : ManagerState → Prop) [DecidablePred ready]
    (change : ManagerState → ManagerState) : Option (World δ) :=
  match (world.groups id).manager with
  | none => none
  | some state => if ready state then some (world.setManager id (change state)) else none

/-- Change the shared state of a service. -/
def setProcess (process : Nat) (state : ProcessState) : World δ :=
  { world with processes := Function.update world.processes process state }

def setBatchState (process : Nat) (state : BatchState) : World δ :=
  world.setProcess process { world.processes process with batchState := state }

/-- A new context for a claimed group. -/
def openGroup (process : Nat) : World δ :=
  { world with
    groups := Function.update world.groups world.allocated
      ⟨process, (world.processes process).cause, none⟩
    allocated := world.allocated + 1 }

def ensure (possible : Prop) [Decidable possible] : Option (World δ) :=
  if possible then some world else none

end World

/-! ## Steps -/

/-- The effects that read or change the shared state of the services. -/
def Effect.shared : Effect → Bool
  | .withCancelCause _ | .cancelCause _ _ | .cause _ | .err _ | .notifyWorkerExit _
  | .isDraining _ | .returned _
  | .claimRLock _ | .claimRUnlock _ | .newManager .. | .lock _ | .lockContext _ _ | .store _ _
  | .unlock _ | .setError _ _ | .getError _ | .stop _ | .waitDone _ | .closeDone _ | .tick _
  | .batchCapabilityPaused .. | .pauseBatchCapability .. | .resetBatchRetryStreak _ _
  | .nextBatchRetry .. | .fillWait .. | .waitForWorker .. => true
  | _ => false

/-- The world after a shared effect of a thread with this answer; `none` if the
answer is impossible or the thread has to wait. -/
def World.react {δ : Type} (world : World δ) (thread : Nat) :
    (effect : Effect) → Answer effect → Option (World δ)
  | .withCancelCause (.run process), group =>
    if group = world.allocated then some (world.openGroup process) else none
  | .cancelCause group cause, _ =>
    some (world.cancelGroup group (cause.getD (.leaf .contextCanceled)))
  | .cause ctx, cause => world.ensure (world.mayCause ctx cause = true)
  | .err ctx, error => world.ensure (world.mayErr ctx error = true)
  | .notifyWorkerExit process, _ => some (world.cancelProcess process (.leaf .contextCanceled))
  | .isDraining process, draining => world.ensure (draining = (world.processes process).draining)
  | .claimRLock process, _ =>
    let state := world.processes process
    some (world.setProcess process { state with claimReaders := state.claimReaders + 1 })
  | .claimRUnlock process, _ =>
    let state := world.processes process
    some (world.setProcess process { state with claimReaders := state.claimReaders - 1 })
  | .newManager manager ledger _, _ =>
    some (world.setManager manager.group ⟨manager, ledger, none, none, false, false⟩)
  | .lock group, ledger =>
    world.onManager group (fun state => state.holder = none ∧ ledger = state.ledger)
      fun state => { state with holder := some thread }
  | .lockContext _ ctx, .error cause => world.ensure (world.mayCause ctx (some cause) = true)
  | .lockContext group _, .ok ledger =>
    world.onManager group (fun state => state.holder = none ∧ ledger = state.ledger)
      fun state => { state with holder := some thread }
  | .store group ledger, _ =>
    world.onManager group (fun state => state.holder = some thread)
      fun state => { state with ledger := ledger }
  | .unlock group, _ =>
    world.onManager group (fun state => state.holder = some thread)
      fun state => { state with holder := none }
  | .setError group error, _ =>
    world.onManager group (fun _ => True) fun state => { state with err := some error }
  | .getError group, error => world.onManager group (fun state => error = state.err) id
  | .stop group, _ =>
    world.onManager group (fun _ => True) fun state => { state with stopped := true }
  | .waitDone group, _ => world.onManager group (fun state => state.done = true) id
  | .closeDone group, _ =>
    world.onManager group (fun _ => True) fun state => { state with done := true }
  | .tick group, ticked =>
    world.onManager group (fun state => ticked = true ∨ state.stopped = true ∨
      (world.groups group).cause.isSome = true) id
  | .batchCapabilityPaused process capability now, paused =>
    let state := (world.processes process).batchState
    if paused = state.paused capability now then
      some (world.setBatchState process (state.check capability now))
    else none
  | .pauseBatchCapability process capability until_, _ =>
    some (world.setBatchState process
      ((world.processes process).batchState.pause capability until_))
  | .resetBatchRetryStreak process capability, _ =>
    some (world.setBatchState process
      ((world.processes process).batchState.resetStreak capability))
  | .nextBatchRetry process capability now, availableAt =>
    let state := (world.processes process).batchState
    if availableAt = state.retryAt capability now then
      some (world.setBatchState process (state.retry capability now))
    else none
  | .fillWait ctx process _, wake =>
    world.ensure ((wake = .cancelled → world.mayCause ctx none = false) ∧
      (wake = .drained → (world.processes process).draining = true))
  | .waitForWorker ctx process _, stop =>
    world.ensure (stop = true → world.mayCause ctx none = false ∨
      (world.processes process).draining = true)
  | .returned _, _ => some world
  | _, _ => none

/-- What the services see of the rest: how it answers, and how it moves alone. -/
structure Outside (δ : Type) where
  answers : δ → (effect : Effect) → Answer effect → δ → Prop
  moves : δ → δ → Prop

/-- The threads of a run. -/
inductive Role where
  | worker (process : Nat)
  | heartbeat (manager : BatchLeaseManager)
  deriving DecidableEq, Repr

/-- A step of the surroundings: a run context is cancelled, a drain begins while
no claim holds the read lock, or the outside moves. -/
inductive World.Moves {δ : Type} (outside : Outside δ) : World δ → World δ → Prop where
  | cancel {world : World δ} (process : Nat) (cause : OutboxError) :
      Moves outside world (world.cancelProcess process cause)
  | beginDrain {world : World δ} (process : Nat)
      (free : (world.processes process).claimReaders = 0) :
      Moves outside world
        (world.setProcess process { world.processes process with draining := true })
  | outside {world : World δ} {after : δ} (moves : outside.moves world.outside after) :
      Moves outside world { world with outside := after }

/-- The threads an effect starts: a new manager starts its heartbeat. -/
def Effect.spawned : Effect → List (Role × Program Answer Unit)
  | .newManager manager _ rounds => [(.heartbeat manager, manager.run rounds)]
  | _ => []

def services {δ : Type} (outside : Outside δ) : Semantics Role (World δ) Answer where
  perform thread world effect answer after :=
    if effect.shared then world.react thread effect answer = some after
    else ∃ next, outside.answers world.outside effect answer next ∧
      after = { world with outside := next }
  environment := World.Moves outside
  spawned effect _ := effect.spawned

end OutboxFormal
