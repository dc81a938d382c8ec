import OutboxFormal.Service.LedgerBound
import OutboxFormal.Service.World

/-!
# Custody of claimed jobs

What the history of a worker or heartbeat says about the group in hand: the
token and the rows its claims returned, the ids in the lease ledger, the
handlers begun and ended, and the rows a release or finalization was attempted
for. The custody monitor states what the service owes at every call it makes.
A strict monitor assumes a clock that never runs ahead of an expired lease and
a repository that returns distinct rows; without it nothing is assumed of what
lies outside the services.
-/

namespace OutboxFormal

open Library Storage

/-! ## What a history says -/

/-- The rows a transaction callback finalizes. -/
def TxCallback.ids : TxCallback → List JobID
  | .dlqBatch job _ => [job.id]
  | .applyOutcomes _ _ outcomes => outcomes.map BatchJobOutcome.jobID

/-- A confirmed extension of lease deadlines, with the deadline of its context. -/
structure Extension where
  jobIDs : List JobID
  until_ : Int
  deadline : Int
  deriving DecidableEq, Repr

/-- The state of the custody monitor. All fields but the last two restart with
the next lease token. -/
structure Custody where
  token : LeaseToken := .nil
  /-- The context of the group. -/
  group : Option Nat := none
  manager : Option BatchLeaseManager := none
  /-- The rows returned by successful claims. -/
  claimed : List Job := []
  /-- Every successful claim returned distinct ids. -/
  distinct : Bool := true
  /-- Ids that a claim returned while they were in the ledger. -/
  lapsed : List JobID := []
  /-- The ids in the ledger, in the order of the map and of `orderedIDs`. -/
  keys : List JobID := []
  ordered : List JobID := []
  /-- Ids that were ever in the ledger. -/
  entered : List JobID := []
  /-- The mutex in hand and the ledger it guards. -/
  locked : Option (Nat × Ledger) := none
  /-- An extension the repository confirmed, and one whose context was alive. -/
  sent : Option Extension := none
  extended : Option Extension := none
  /-- Ids whose handler began, and ids whose handler returned or panicked. -/
  begun : List JobID := []
  ran : List JobID := []
  /-- Ids passed to a release since a claim last returned them. -/
  released : List JobID := []
  /-- Ids a release or finalization was attempted for since a claim last returned them. -/
  attempted : List JobID := []
  /-- Handler successes, with the token of the claim. -/
  succeeded : List (LeaseToken × JobID) := []
  /-- Clock readings. -/
  readings : List Int := []

namespace Custody

def enterIDs (ids entered : List JobID) : List JobID :=
  ids.filter (fun id => decide (id ∉ entered)) ++ entered

def hold (custody : Custody) (group : Nat) (ledger : Ledger) : Custody :=
  { custody with
    locked := some (group, ledger)
    keys := ledger.ids
    ordered := ledger.orderedIDs
    entered := enterIDs ledger.ids custody.entered
    sent := none
    extended := none }

def claim (custody : Custody) (rows : List Job) : Custody :=
  { custody with
    claimed := rows ++ custody.claimed
    distinct := custody.distinct && decide (rows.map Job.id).Nodup
    lapsed := (rows.map Job.id).filter (fun id => decide (id ∈ custody.keys)) ++ custody.lapsed
    released := custody.released.filter fun id => decide (id ∉ rows.map Job.id)
    attempted := custody.attempted.filter fun id => decide (id ∉ rows.map Job.id) }

/-- One more event of the thread. -/
def next (custody : Custody) : (effect : Effect) → Answer effect → Custody
  | .now, time => { custody with readings := time :: custody.readings }
  | .newLeaseToken, token =>
    { token := token, succeeded := custody.succeeded, readings := custody.readings }
  | .withCancelCause _, group => { custody with group := some group }
  | .newManager manager ledger _, _ =>
    { custody with
      manager := some manager
      keys := ledger.ids
      ordered := ledger.orderedIDs
      entered := enterIDs ledger.ids custody.entered }
  | .lock group, ledger => custody.hold group ledger
  | .lockContext group _, .ok ledger => custody.hold group ledger
  | .store group ledger, _ => custody.hold group ledger
  | .unlock _, _ => { custody with locked := none, sent := none, extended := none }
  | .cause (.withDeadline _ deadline), none =>
    match custody.sent with
    | some extension =>
      if extension.deadline = deadline then { custody with extended := some extension }
      else custody
    | none => custody
  | .claim _ _, (rows, none) => custody.claim rows
  | .extendJobLeases (.withDeadline _ deadline) jobIDs _ _ until_, (affected, none) =>
    if affected = jobIDs.length then { custody with sent := some ⟨jobIDs, until_, deadline⟩ }
    else custody
  | .releaseUnstartedJobsWithLease _ jobIDs _ _, _ =>
    { custody with
      released := jobIDs ++ custody.released
      attempted := jobIDs ++ custody.attempted }
  | .leased _ _ jobID _ _, _ => { custody with attempted := jobID :: custody.attempted }
  | .runInTx _ callback, _ => { custody with attempted := callback.ids ++ custody.attempted }
  | .handle _ job, _ => { custody with begun := job.id :: custody.begun }
  | .handled job, .returned none =>
    { custody with
      ran := job.id :: custody.ran
      succeeded := (job.leaseToken, job.id) :: custody.succeeded }
  | .handled job, .returned (some _) => { custody with ran := job.id :: custody.ran }
  | .handled job, .panicked _ => { custody with ran := job.id :: custody.ran }
  | .handleBatch _ _ items, _ =>
    { custody with begun := items.map BatchJobItem.jobID ++ custody.begun }
  | .handledBatch leaseToken items, .returned (result, none) =>
    { custody with
      ran := items.map BatchJobItem.jobID ++ custody.ran
      succeeded := (result.filter fun item => item.err.isNone).map
        (fun item => (leaseToken, item.jobID)) ++ custody.succeeded }
  | .handledBatch _ items, .returned (_, some _) =>
    { custody with ran := items.map BatchJobItem.jobID ++ custody.ran }
  | .handledBatch _ items, .panicked _ =>
    { custody with ran := items.map BatchJobItem.jobID ++ custody.ran }
  | _, _ => custody

/-! ## What the service owes -/

/-- Every deadline of the ledger was there before, is the new deadline of a
confirmed extension, or is the deadline of a claimed row entered now. -/
def Justified (custody : Custody) (before after : Ledger) : Prop :=
  ∀ entry ∈ after.outstanding.rows,
    entry ∈ before.outstanding.rows ∨
    (∃ extension, custody.extended = some extension ∧ entry.1 ∈ extension.jobIDs ∧
      entry.2 = extension.until_) ∨
    (entry.1 ∉ custody.entered ∧
      ∃ job ∈ custody.claimed, job.id = entry.1 ∧ Ledger.deadlineOf job = entry.2)

/-- A release may name no row twice, no row already handed back, and no row
whose handler began. -/
def Releasable (custody : Custody) (jobIDs : List JobID) : Prop :=
  custody.distinct = true → custody.lapsed = [] →
    jobIDs.Nodup ∧ ∀ id ∈ jobIDs, id ∉ custody.released ∧ id ∉ custody.begun

/-- One of the rows that claims returned. -/
def Owns (custody : Custody) (id : JobID) : Prop :=
  ∃ job ∈ custody.claimed, job.id = id

/-- A handler may begin only for a row that was not handed back; under a strict
monitor its lease is in the ledger and nothing was attempted for it. -/
def Startable (strict : Prop) (custody : Custody) (id : JobID) : Prop :=
  (custody.distinct = true → custody.lapsed = [] → id ∉ custody.released) ∧
    (strict → id ∈ custody.keys ∧ id ∉ custody.attempted)

/-- An extension is made with the mutex in hand, for outstanding rows, to a
later deadline that every backend stores exactly. -/
def Extensible (strict : Prop) (custody : Custody) (ctx : Ctx) (jobIDs : List JobID)
    (until_ : Int) : Prop :=
  ∃ parent deadline group ledger, ctx = .withDeadline parent deadline ∧
    custody.locked = some (group, ledger) ∧ (∀ id ∈ jobIDs, id ∈ ledger.ids) ∧
    (∀ entry ∈ ledger.outstanding.rows, entry.1 ∈ jobIDs → entry.2 < until_) ∧
    truncate until_ millisecond = until_ ∧
    (strict → ∀ entry ∈ ledger.outstanding.rows, deadline ≤ entry.2)

/-- The obligations of a worker and of a heartbeat. -/
def Allowed (strict : Prop) (role : Role) (custody : Custody) : Effect → Prop
  | .newLeaseToken => (∃ process, role = .worker process) ∧ custody.locked = none
  | .withCancelCause _ => (∃ process, role = .worker process) ∧ custody.manager = none
  | .newManager manager ledger _ =>
    (∃ process, role = .worker process) ∧ custody.group = some manager.group ∧
      custody.manager = none ∧ custody.locked = none ∧ custody.entered = [] ∧
      manager.leaseToken = custody.token ∧
      (∀ entry ∈ ledger.outstanding.rows,
        ∃ job ∈ custody.claimed, job.id = entry.1 ∧ Ledger.deadlineOf job = entry.2) ∧
      (strict → ledger.Bounded)
  | .lock group | .lockContext group _ =>
    (∃ manager, custody.manager = some manager ∧ manager.group = group) ∧
      custody.locked = none
  | .store group ledger =>
    ∃ before, custody.locked = some (group, before) ∧ custody.Justified before ledger ∧
      (strict → ledger.Bounded) ∧
      ∀ manager, role = .heartbeat manager →
        ledger.ids = before.ids ∧ ledger.orderedIDs = before.orderedIDs
  | .unlock group => ∃ ledger, custody.locked = some (group, ledger)
  | .claim _ request =>
    (∃ process, role = .worker process) ∧ request.leaseToken = custody.token ∧
      request.now ∈ custody.readings ∧ custody.locked = none ∧ custody.begun = [] ∧
      (strict → ∀ id ∈ custody.attempted, id ∈ custody.keys → id ∈ custody.lapsed)
  | .extendJobLeases ctx jobIDs leaseToken _ until_ =>
    leaseToken = custody.token ∧ custody.Extensible strict ctx jobIDs until_
  | .releaseUnstartedJobsWithLease _ jobIDs leaseToken _ =>
    leaseToken = custody.token ∧ custody.Releasable jobIDs
  | .leased _ method jobID leaseToken _ =>
    leaseToken = custody.token ∧
      (method = .delete → (leaseToken, jobID) ∈ custody.succeeded) ∧ custody.Owns jobID
  | .runInTx _ (.dlqBatch job _) => job.leaseToken = custody.token ∧ job ∈ custody.claimed
  | .runInTx _ (.applyOutcomes leaseToken jobs outcomes) =>
    leaseToken = custody.token ∧ (∀ job ∈ jobs, job ∈ custody.claimed) ∧
      ∀ outcome ∈ outcomes, custody.Owns outcome.jobID ∧
        (outcome.kind = .success → (leaseToken, outcome.jobID) ∈ custody.succeeded)
  | .handle _ job => job ∈ custody.claimed ∧ custody.Startable strict job.id
  | .handleBatch _ leaseToken items =>
    leaseToken = custody.token ∧
      ∀ item ∈ items, custody.Owns item.jobID ∧ custody.Startable strict item.jobID
  | .returned (.group none) => ∀ id ∈ custody.entered, id ∈ custody.ran
  | _ => True

/-- The answers a thread may rely on: nobody else changes the ids of a ledger,
and a strict monitor relies on the clock and the repository. -/
def Expected (strict : Prop) (role : Role) (custody : Custody) :
    (effect : Effect) → Answer effect → Prop
  | .now, time => strict → 0 < time ∧ ∀ group ledger, custody.locked = some (group, ledger) →
      ∀ entry ∈ ledger.outstanding.rows, entry.1 ∈ custody.lapsed → entry.2 ≤ time
  | .lock _, ledger | .lockContext _ _, .ok ledger =>
    (strict → ledger.Bounded) ∧
      ∀ process, role = .worker process →
        ledger.ids = custody.keys ∧ ledger.orderedIDs = custody.ordered
  | .claim _ _, (rows, none) => strict → (rows.map Job.id).Nodup
  | _, _ => True

end Custody

def custody (strict : Prop) (role : Role) : Monitor Answer Custody where
  start :=
    match role with
    | .worker _ => {}
    | .heartbeat manager => { token := manager.leaseToken, manager := some manager }
  next := Custody.next
  allowed := Custody.Allowed strict role
  expects := Custody.Expected strict role

/-! ## Quiet effects -/

/-- Effects that leave the books of a group as they are. -/
def Effect.quiet : Effect → Bool
  | .now | .cancelCause _ _ | .cause _ | .err _ | .notifyWorkerExit _ | .isDraining _
  | .claimRLock _ | .claimRUnlock _ | .setError _ _ | .getError _ | .stop _ | .waitDone _
  | .closeDone _ | .tick _ | .retryDelay _ | .batchCapabilityPaused .. | .pauseBatchCapability ..
  | .resetBatchRetryStreak _ _ | .nextBatchRetry .. | .fillWait .. | .waitForWorker ..
  | .emitOutcome _ | .returned (.runWorker _) | .returned (.group (some _)) => true
  | _ => false

namespace Custody

/-- The same books up to clock readings and pending extensions. -/
def Same (before after : Custody) : Prop :=
  ∃ readings sent extended, before.readings ⊆ readings ∧
    after = { before with readings := readings, sent := sent, extended := extended }

theorem Same.refl (custody : Custody) : Same custody custody :=
  ⟨_, _, _, List.Subset.refl _, rfl⟩

theorem Same.trans {first second third : Custody} (left : Same first second)
    (right : Same second third) : Same first third := by
  obtain ⟨readings, sent, extended, more, rfl⟩ := left
  obtain ⟨readings', sent', extended', more', rfl⟩ := right
  exact ⟨readings', sent', extended', List.Subset.trans more more', rfl⟩

theorem allowed_of_quiet {strict : Prop} {role : Role} {custody : Custody} {effect : Effect}
    (quiet : effect.quiet = true) : custody.Allowed strict role effect := by
  unfold Effect.quiet at quiet
  split at quiet <;> trivial

theorem same_of_quiet {custody : Custody} {effect : Effect} (answer : Answer effect)
    (quiet : effect.quiet = true) : Same custody (custody.next effect answer) := by
  unfold Effect.quiet at quiet
  split at quiet
  case h_1 => exact ⟨_, _, _, List.subset_cons_self _ _, rfl⟩
  case h_3 ctx =>
      cases ctx with
      | withDeadline parent deadline =>
        cases answer with
        | some error => exact .refl _
        | none =>
          dsimp only [next]
          split
          · split
            · exact ⟨_, _, _, List.Subset.refl _, rfl⟩
            · exact .refl _
          · exact .refl _
      | _ => exact .refl _
  all_goals first | exact .refl _ | cases quiet

section Quiet

variable {strict : Prop} {role : Role} {α : Type} {returns : α → Custody → Prop}
variable {unwinds : Custody → Prop} {books : Custody}

theorem wp_quietly {effect : Effect} {next : Answer effect → Go α} (quiet : effect.quiet = true)
    (meets : ∀ answer, books.Expected strict role effect answer →
      Same books (books.next effect answer) →
      (custody strict role).wp (next answer) returns unwinds (books.next effect answer)) :
    (custody strict role).wp (.perform effect >>= next) returns unwinds books :=
  Monitor.wp_step (allowed_of_quiet quiet) fun answer expected =>
    meets answer expected (same_of_quiet answer quiet)

theorem wp_quiet {program : Go α} (quiet : program.Only fun effect => effect.quiet = true)
    (meets : ∀ value last, Same books last → returns value last) :
    (custody strict role).wp program returns unwinds books :=
  Monitor.wp_only Same.refl (fun _ _ _ => Same.trans)
    (fun _ _ quiet => allowed_of_quiet quiet) (fun _ _ answer quiet => same_of_quiet answer quiet)
    quiet meets

end Quiet

/-- A worker with these books keeps custody and ends as said. -/
abbrev Works (strict : Prop) (process : Nat) {α : Type} (program : Go α)
    (returns : α → Custody → Prop) (unwinds : Custody → Prop) : Custody → Prop :=
  (custody strict (.worker process)).wp program returns unwinds

end Custody

end OutboxFormal
