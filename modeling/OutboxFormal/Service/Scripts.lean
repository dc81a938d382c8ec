import OutboxFormal.Library.Scripts
import OutboxFormal.Service.Custody

/-!
# Scripted runs of the services

An executable instance of the services over surroundings that may answer
anything. The obvious answer to a shared effect is what the world holds.
-/

namespace OutboxFormal

open Library

/-- Surroundings that may give any answer. -/
def anything : Outside Unit where
  answers _ _ _ _ := True
  moves _ _ := False

/-- The commands of the environment. -/
inductive Order where
  | cancel (process : Nat) (cause : OutboxError)
  | beginDrain (process : Nat)

/-- The services over arbitrary surroundings can be run. -/
def scripted : Interpreter (services anything) Order where
  react thread world effect answer :=
    if effect.shared then world.react thread effect answer else some world
  command order world :=
    match order with
    | .cancel process cause => some (world.cancelProcess process cause)
    | .beginDrain process =>
      if (world.processes process).claimReaders = 0 then
        some (world.setProcess process { world.processes process with draining := true })
      else none
  performs := by
    intro thread world effect answer after reacts
    simp only [services]
    split at reacts
    · rename_i shared
      rw [if_pos shared]
      exact reacts
    · rename_i private_
      rw [if_neg private_]
      cases reacts
      exact ⟨(), trivial, rfl⟩
  moves := by
    intro order world after moved
    cases order with
    | cancel process cause =>
      cases moved
      exact .cancel process cause
    | beginDrain process =>
      simp only at moved
      split at moved
      · rename_i free
        cases moved
        exact .beginDrain process free
      · cases moved

namespace World

/-- The cause a context has unless its own deadline passed. -/
def causeOf (world : World Unit) : Ctx → Option OutboxError
  | .run process => (world.processes process).cause
  | .group id => (world.groups id).cause
  | .heartbeat id => (world.groups id).cause
  | .withDeadline parent _ => causeOf world parent
  | .withoutCancel _ => none

def reply (world : World Unit) : (effect : Effect) → Option (Answer effect)
  | .withCancelCause _ => some world.allocated
  | .cause ctx => some (world.causeOf ctx)
  | .err ctx => some (world.causeOf ctx)
  | .isDraining process => some (world.processes process).draining
  | .lock group => (world.groups group).manager.map ManagerState.ledger
  | .lockContext group _ => (world.groups group).manager.map fun state => .ok state.ledger
  | .getError group => (world.groups group).manager.map ManagerState.err
  | .tick _ => some true
  | .batchCapabilityPaused process capability now =>
    some ((world.processes process).batchState.paused capability now)
  | .nextBatchRetry process capability now =>
    some ((world.processes process).batchState.retryAt capability now)
  | .fillWait .. => some .elapsed
  | .waitForWorker .. => some false
  | .cancelCause _ _ | .notifyWorkerExit _ | .claimRLock _ | .claimRUnlock _ | .newManager ..
  | .store _ _ | .unlock _ | .setError _ _ | .stop _ | .waitDone _ | .closeDone _
  | .pauseBatchCapability .. | .resetBatchRetryStreak _ _ | .returned _ => some ()
  | _ => none

end World

/-! ## A small service to play -/

namespace Sample

def capability : JobCapability := ⟨[], 1⟩

def token : LeaseToken := ⟨7⟩

/-- A claimed row of the sample capability. -/
def row (id : UUID) : Job where
  id := ⟨id⟩
  queue := []
  name := []
  schemaVersion := 1
  payload := []
  attempts := 1
  reservedAt := some (100 * second)
  leaseToken := token
  deduplicationKey := none
  availableAt := 0
  createdAt := 0

def single : Service where
  process := 0
  workers := 1
  idleTime := second
  reserveFor := 100 * second
  reservationBatchSize := 2
  jobs := [(capability, ⟨second, 3⟩)]
  batchJobs := []
  batchJobsRepository := true
  boundedBatchJobsRepository := true
  deferJobsRepository := true
  retryPolicy := false
  observer := false
  atomicDLQ := true
  rounds := 3

/-- One worker that prefers single work. -/
def start (s : Service) : Config Role (World Unit) Answer :=
  ⟨World.initial (), [Thread.start (.worker s.process, s.worker 1)]⟩

/-- Surroundings that claim these rows and let everything else succeed at once. -/
def answers (rows : List Job) (world : World Unit) : (effect : Effect) → Option (Answer effect)
  | .now => some 1
  | .newLeaseToken => some token
  | .claim _ _ => some (rows, none)
  | .handle _ _ => some ()
  | .handled _ => some (.returned none)
  | .leased .. => some (1, none)
  | .runInTx _ _ => some none
  | .releaseUnstartedJobsWithLease _ jobIDs _ _ => some (jobIDs.length, none)
  | .emitOutcome _ => some ()
  | effect => world.reply effect

/-- A heartbeat that sees that it was stopped. -/
def stopped (world : World Unit) : (effect : Effect) → Option (Answer effect)
  | .tick _ => some false
  | effect => world.reply effect

def books (config : Config Role (World Unit) Answer) : Option Custody :=
  config.threads.head?.map fun thread => (custody False thread.role).state thread.history

end Sample

end OutboxFormal
