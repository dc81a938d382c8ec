import OutboxFormal.Service.ExecutionBatch
import OutboxFormal.Storage.BatchFinalization
import OutboxFormal.Storage.RowLifecycle

/-!
# Settlements

The callbacks the service passes to `RunInTx`, over the tables of a backend. A
single dead letter settles its job like a batch of that one outcome. Whatever
fails, the transaction settles every job of its callback or none: no job leaves
the queue as dead without its failed row, and no failed row is written for a job
that stays.
-/

namespace OutboxFormal

open Library Storage

/-! ## Callbacks over a database -/

/-- What one call reads besides the database: the clock, and the generated
identifier and the second reading of the clock for a failed row. -/
structure TxSource where
  instant : Int
  id : JobID
  createdAt : Int

/-- The two results of a Go call that counts rows. -/
def affectedRows : Except OutboxError Int → Int × Option OutboxError
  | .ok count => (count, none)
  | .error error => (0, some error)

/-- The repositories read the transaction from the context, so that a batch
borrows it. -/
def TxEffect.run (backend : Backend) (source : TxSource) (database : Database) :
    (effect : TxEffect) → TxAnswer effect × Database
  | .now => (source.instant, database)
  | .createFailedJobVersioned jobID name schemaVersion payload reason =>
    let result := backend.createFailedJobVersioned source.id jobID name schemaVersion payload reason
      source.instant source.createdAt database
    (match result.1 with | .ok _ => none | .error error => some error, result.2)
  | .deleteJobWithLease jobID leaseToken instant =>
    let result := onJobs (backend.deleteJobWithLease jobID leaseToken instant) database
    (affectedRows result.1, result.2)
  | .applyBatchJobOutcomes leaseToken instant outcomes =>
    let result := onJobs (backend.applyBatchJobOutcomes true leaseToken instant outcomes) database
    (affectedRows result.1, result.2)

/-- A callback; its calls read the sources in turn. -/
def TxBody.run (backend : Backend) : TxBody → (Nat → TxSource) → Database → Exit Unit × Database
  | .ret none, _, database => (.returned (), database)
  | .ret (some error), _, database => (.failed error, database)
  | .goexit, _, database => (.goexit, database)
  | .call effect resume, sources, database =>
    let step := effect.run backend (sources 0) database
    run backend (resume step.1) (fun turn => sources (turn + 1)) step.2

/-- Whatever its calls read, with the clock at such instants, the callback fails or
returns with this of the database. -/
def TxBody.Ends (backend : Backend) (clock : Int → Prop) (post : Database → Prop) (body : TxBody)
    (database : Database) : Prop :=
  ∀ sources : Nat → TxSource, (∀ turn, clock (sources turn).instant) →
    (∃ error after, TxBody.run backend body sources database = (.failed error, after)) ∨
      ∃ after, TxBody.run backend body sources database = (.returned (), after) ∧ post after

namespace TxBody

variable {backend : Backend} {clock : Int → Prop} {post : Database → Prop} {database : Database}

theorem ends_failed (error : OutboxError) :
    Ends backend clock post (pure (some error)) database :=
  fun _ _ => Or.inl ⟨error, database, rfl⟩

theorem ends_returned (holds : post database) :
    Ends backend clock post (pure none) database :=
  fun _ _ => Or.inr ⟨database, rfl, holds⟩

theorem ends_call {effect : TxEffect} {next : TxAnswer effect → TxBody}
    (continues : ∀ source, clock source.instant →
      Ends backend clock post (next (effect.run backend source database).1)
        (effect.run backend source database).2) :
    Ends backend clock post (.perform effect >>= next) database :=
  fun sources ticks => continues (sources 0) (ticks 0) (fun turn => sources (turn + 1))
    fun turn => ticks (turn + 1)

end TxBody

/-! ## What a callback settles -/

/-- The outcomes of claimed jobs under their lease token. -/
structure Verdicts where
  leaseToken : LeaseToken
  jobs : List Job
  outcomes : List BatchJobOutcome

def TxCallback.verdicts : TxCallback → Verdicts
  | .dlqBatch job reason => ⟨job.leaseToken, [job], [dlqExecutionBatchOutcome job reason]⟩
  | .applyOutcomes leaseToken jobs outcomes => ⟨leaseToken, jobs, outcomes⟩

namespace Verdicts

/-- The failed row of an outcome: the content of its job, with the reason. -/
def Records (jobs : List Job) (outcome : BatchJobOutcome) (row : JobFailed) : Prop :=
  ∃ job id failedAt createdAt, jobByID jobs outcome.jobID = some job ∧
    row = failedRow id job.id job.name job.schemaVersion job.payload outcome.reason failedAt
      createdAt

/-- The table has gained one failed row for every dead outcome, in their order. -/
def AddsFailed (jobs : List Job) (outcomes : List BatchJobOutcome)
    (before after : JobsFailedTable) : Prop :=
  ∃ rows, after.rows = before.rows ++ rows ∧
    List.Forall₂ (Records jobs) (outcomes.filter fun outcome => outcome.kind = .dlq) rows

structure Noted (jobs : List Job) (outcomes : List BatchJobOutcome) (before after : Database) :
    Prop where
  failed : AddsFailed jobs outcomes before.failed after.failed
  queue : after.jobs = before.jobs
  keys : after.keys = before.keys

/-- Every job was held under its lease at `now` and has its outcome, and the dead
ones have their failed rows. -/
structure Settled (verdicts : Verdicts) (backend : Backend) (now : Int) (before after : Database) :
    Prop where
  held : ∀ outcome ∈ verdicts.outcomes,
    backend.leaseHeld verdicts.leaseToken now before.jobs outcome
  queue : after.jobs =
    afterOutcomes backend.stored verdicts.leaseToken now verdicts.outcomes before.jobs
  failed : AddsFailed verdicts.jobs verdicts.outcomes before.failed after.failed
  keys : after.keys = before.keys

end Verdicts

open Verdicts TxBody

/-! ## The statements -/

section Statements

variable (backend : Backend) {token : LeaseToken} {now count : Int} {table : JobsTable}
  {outcomes : List BatchJobOutcome}

theorem deleteJobWithLease_one {outcome : BatchJobOutcome} (dead : outcome.kind = .dlq)
    (deletes : (backend.deleteJobWithLease outcome.jobID token now table).1 = .ok 1) :
    backend.leaseHeld token now table outcome ∧
      (backend.deleteJobWithLease outcome.jobID token now table).2 =
        afterOutcomes backend.stored token now [outcome] table := by
  obtain ⟨check, same⟩ : ∃ check, backend.deleteJobWithLease outcome.jobID token now =
      checked check (affecting (singleSelection backend.stored outcome.jobID token now)
        (deleteStatement backend.stored outcome.jobID token now)) := by
    cases backend <;> exact ⟨_, rfl⟩
  rw [same] at deletes ⊢
  cases check with
  | error error => cases deletes
  | ok _ =>
    obtain ⟨job, selected⟩ := List.length_eq_one_iff.mp (Int.ofNat.inj (Except.ok.inj deletes))
    have member := Table.mem_matching.mp (selected ▸ List.mem_singleton_self job)
    obtain ⟨named, isLeased⟩ := Bool.and_eq_true_iff.mp member.2
    refine ⟨⟨job, member.1, of_decide_eq_true named, leased_iff.mp isLeased⟩, ?_⟩
    rw [afterOutcomes_single]
    refine table.alter_congr (Table.deleteRow_keyPreserving _) _ fun job _ => ?_
    by_cases named : job.id = outcome.jobID <;>
      cases isLeased : leased token (backend.stored now) job <;>
      simp [Table.deleteRow, Table.atKey, singleSelection, outcomeEffect, isLeased, dead, named,
        BatchJobOutcomeKind.terminal]

/-- Inside a transaction a batch that answers without an error has settled all of its rows. -/
theorem applyBatchJobOutcomes_borrowed
    (attempted : ∀ job ∈ table.rows, token ≠ .nil → leased token (backend.stored now) job = true →
      0 < job.attempts)
    (applies : (backend.applyBatchJobOutcomes true token now outcomes table).1 = .ok count) :
    (∀ outcome ∈ outcomes, backend.leaseHeld token now table outcome) ∧
      (backend.applyBatchJobOutcomes true token now outcomes table).2 =
        afterOutcomes backend.stored token now outcomes table := by
  rw [backend.applyBatchJobOutcomes_eq] at applies ⊢
  cases valid : backend.validateBatchOutcomes token outcomes with
  | error error =>
    rw [valid] at applies
    cases applies
  | ok _ =>
    rw [valid] at applies
    have accepted := backend.validateBatchOutcomes_eq_ok_iff.mp valid
    have finalizes := backend.finalizes accepted
      fun job member _ _ _ _ isLeased => attempted job member accepted.token_ne isLeased
    dsimp only [checked] at applies ⊢
    rw [Manager.runReturning_attached] at applies ⊢
    by_cases complete : (table.matching (settles backend.stored token now outcomes)).length =
        outcomes.length
    · refine ⟨fun outcome member => ?_, by rw [finalizes.complete complete]⟩
      obtain ⟨job, present, same, settled⟩ :=
        (settled_count_iff accepted.distinct).mp complete outcome member
      exact ⟨job, present, same, leased_iff.mp (settles_iff.mp settled).1⟩
    · obtain ⟨error, fails⟩ := finalizes.incomplete complete
      rcases called : backend.applyOutcomes token now outcomes table with ⟨answer, after⟩
      rw [called] at fails applies
      cases fails
      cases applies

end Statements

/-! ## The callbacks -/

theorem Verdicts.Noted.cons {jobs : List Job} {outcome : BatchJobOutcome}
    {rest : List BatchJobOutcome} {before middle after : Database}
    (first : Noted jobs [outcome] before middle) (others : Noted jobs rest middle after) :
    Noted jobs (outcome :: rest) before after := by
  obtain ⟨firstRows, firstWritten, firstEvery⟩ := first.failed
  obtain ⟨rows, written, every⟩ := others.failed
  refine ⟨⟨firstRows ++ rows, ?_, ?_⟩, others.queue.trans first.queue, others.keys.trans first.keys⟩
  · rw [written, firstWritten, List.append_assoc]
  · rw [← List.singleton_append, List.filter_append]
    exact List.rel_append firstEvery every

section Bodies

variable {backend : Backend} {clock : Int → Prop} {post : Database → Prop} {database : Database}
  {jobs : List Job} {outcomes : List BatchJobOutcome}

/-- The insert of a failed row is refused, or it records its dead outcome. -/
theorem ends_createFailedJobVersioned {job : Job} {outcome : BatchJobOutcome}
    (dead : outcome.kind = .dlq) (found : jobByID jobs outcome.jobID = some job)
    {next : Option OutboxError → TxBody}
    (failed : ∀ error after, Ends backend clock post (next (some error)) after)
    (noted : ∀ after, Noted jobs [outcome] database after →
      Ends backend clock post (next none) after) :
    Ends backend clock post
      (Tx.createFailedJobVersioned job.id job.name job.schemaVersion job.payload
      outcome.reason >>= next) database := by
  refine ends_call fun source _ => ?_
  obtain ⟨refused, stored, createdAt, same⟩ : ∃ refused stored createdAt,
      backend.createFailedJobVersioned source.id job.id job.name job.schemaVersion job.payload
        outcome.reason source.instant source.createdAt =
      Storage.createFailedJobVersioned refused stored source.id job.id job.name job.schemaVersion
        job.payload outcome.reason source.instant createdAt := by
    cases backend <;> exact ⟨_, _, _, rfl⟩
  dsimp only [TxEffect.run]
  rw [same]
  unfold Storage.createFailedJobVersioned checkedCall
  generalize (JobCapability.validate _).mapError _ = check
  cases check with
  | error error => exact failed _ _
  | ok _ =>
    dsimp only
    generalize inserted : insertFailed _ database.failed = inserts
    cases inserts with
    | none => exact failed _ _
    | some rows =>
      unfold insertFailed at inserted
      split at inserted
      · cases inserted
      refine noted _ ⟨⟨_, (Table.insert?_eq_some_iff.mp inserted).2, ?_⟩, rfl, rfl⟩
      rw [List.filter_singleton, dead]
      exact .cons ⟨job, _, _, _, found, rfl⟩ .nil

/-- What follows the records starts from the failed rows of all dead outcomes, or
is told an error. -/
theorem ends_createExecutionBatchDLQRecords {next : Option OutboxError → TxBody}
    (failed : ∀ error after, Ends backend clock post (next (some error)) after)
    (noted : ∀ after, Noted jobs outcomes database after →
      Ends backend clock post (next none) after) :
    Ends backend clock post (createExecutionBatchDLQRecords jobs outcomes >>= next) database := by
  induction outcomes generalizing database with
  | nil => exact noted database ⟨⟨[], by simp, .nil⟩, rfl, rfl⟩
  | cons outcome rest ih =>
    unfold createExecutionBatchDLQRecords
    by_cases alive : outcome.kind ≠ .dlq
    · rw [if_pos alive]
      refine ih fun after records => noted after ⟨?_, records.queue, records.keys⟩
      obtain ⟨rows, written, every⟩ := records.failed
      exact ⟨rows, written, by simpa [alive] using every⟩
    rw [if_neg alive]
    cases found : jobByID jobs outcome.jobID with
    | none => exact failed _ database
    | some job =>
      exact ends_createFailedJobVersioned (not_not.mp alive) found (fun _ after => failed _ after)
        fun middle first => ih fun after others => noted after (first.cons others)

/-- A callback fails, or it has settled everything it was given. -/
theorem ends_body (callback : TxCallback)
    (attempted : ∀ job ∈ database.jobs.rows, ∀ token now, token ≠ .nil →
      leased token (backend.stored now) job = true → 0 < job.attempts) :
    Ends backend clock (fun after => ∃ now, clock now ∧
      callback.verdicts.Settled backend now database after) callback.body database := by
  cases callback with
  | dlqBatch job reason =>
    have found : jobByID [job] (dlqExecutionBatchOutcome job reason).jobID = some job := by
      simp [jobByID, dlqExecutionBatchOutcome]
    refine ends_createFailedJobVersioned rfl found (fun error _ => ends_failed _)
      fun middle records => ends_call fun source ticks => ends_call fun _ _ => ?_
    dsimp only [TxEffect.run, onJobs]
    rw [records.queue]
    cases deletes : (backend.deleteJobWithLease job.id job.leaseToken source.instant
        database.jobs).1 with
    | error error => exact ends_failed _
    | ok affected =>
      dsimp only [affectedRows]
      split_ifs with miscounted
      · exact ends_failed _
      · rw [not_not.mp miscounted] at deletes
        obtain ⟨held, same⟩ := @deleteJobWithLease_one backend _ _ _
          (dlqExecutionBatchOutcome job reason) rfl deletes
        exact ends_returned ⟨_, ticks, by simpa [TxCallback.verdicts] using held, same,
          records.failed, records.keys⟩
  | applyOutcomes leaseToken jobs outcomes =>
    refine ends_createExecutionBatchDLQRecords (fun error _ => ends_failed _)
      fun middle records => ends_call fun source ticks => ends_call fun _ _ => ?_
    dsimp only [TxEffect.run, onJobs]
    rw [records.queue]
    cases applies : (backend.applyBatchJobOutcomes true leaseToken source.instant outcomes
        database.jobs).1 with
    | error error => exact ends_failed _
    | ok affected =>
      dsimp only [affectedRows]
      split_ifs
      · exact ends_failed _
      · obtain ⟨held, same⟩ := applyBatchJobOutcomes_borrowed backend
          (fun job member => attempted job member _ _) applies
        exact ends_returned ⟨_, ticks, held, same, records.failed, records.keys⟩

end Bodies

/-! ## The transaction -/

/-- An outermost transaction around a callback that fails or ends well. -/
theorem runInTx_ends (manager : Manager) (driver : Driver) {backend : Backend}
    {clock : Int → Prop} {post : Database → Prop} {body : TxBody} {database : Database}
    (ends : body.Ends backend clock post database) {sources : Nat → TxSource}
    (ticks : ∀ turn, clock (sources turn).instant) :
    let result := manager.runInTx driver false (TxBody.run backend body sources) database
    (result.1 = .returned () → post result.2) ∧ (result.2 = database ∨ post result.2) ∧
      (result.1 ≠ .returned () → (∀ error, driver.commit ≠ .ambiguous error) →
        result.2 = database) := by
  intro result
  unfold result Manager.runInTx
  rw [if_neg Bool.false_ne_true]
  cases driver.beginError with
  | some error => exact ⟨by simp, Or.inl rfl, fun _ _ => rfl⟩
  | none =>
    rcases ends sources ticks with ⟨error, after, runs⟩ | ⟨after, runs, holds⟩
    · rw [runs]
      exact ⟨by simp, Or.inl rfl, fun _ _ => rfl⟩
    · rw [runs]
      dsimp only
      cases driver.commit with
      | committed => exact ⟨fun _ => holds, Or.inr holds, fun failed => absurd rfl failed⟩
      | failed error => exact ⟨by simp, Or.inl rfl, fun _ _ => rfl⟩
      | ambiguous error => exact ⟨by simp, Or.inr holds, fun _ clear => absurd rfl (clear error)⟩

/-- From every reachable database, whatever the driver and the clocks do, a
transaction of the service settles all jobs of its callback, under leases that are
live at an instant the callback's clock reads, or changes nothing. A success settled
them; a failure changed nothing unless its commit was ambiguous. -/
theorem settlements_all_or_nothing (backend : Backend) (digest : Digest) (history : List Call)
    (manager : Manager) (driver : Driver) (sources : Nat → TxSource) (callback : TxCallback) :
    let database := (repository backend digest).final .empty history
    let result := manager.runInTx driver false (TxBody.run backend callback.body sources) database
    let settled := ∃ now, (∃ turn, (sources turn).instant = now) ∧
      callback.verdicts.Settled backend now database result.2
    (result.1 = .returned () → settled) ∧ (result.2 = database ∨ settled) ∧
      (result.1 ≠ .returned () → (∀ error, driver.commit ≠ .ambiguous error) →
        result.2 = database) := by
  intro database
  refine runInTx_ends manager driver (ends_body callback ?_) fun turn => ⟨turn, rfl⟩
  intro job member token now named isLeased
  exact ((history_rows backend digest history).1 job.id job
    (Table.get?_eq_some_iff.mpr ⟨member, rfl⟩)).pos_of_leased named isLeased

theorem leasedMail_dead_lettered :
    let result := Manager.pgx.runInTx .faultless false
      (TxBody.run .pgsql (dlqBody Sample.leasedRow "poison") fun _ => ⟨second, ⟨9⟩, second⟩)
      Storage.Sample.leasedMail
    result.1 = .returned () ∧ (TxCallback.dlqBatch Sample.leasedRow "poison").verdicts.Settled
      .pgsql second Storage.Sample.leasedMail result.2 := by
  refine ⟨by decide +kernel, ?_⟩
  obtain ⟨_, ⟨_, rfl⟩, settled⟩ := (settlements_all_or_nothing .pgsql transparentDigest
    [Storage.Sample.mail 1 0, .findAndReserveJobsForCapabilities Storage.Sample.alone 0
      (60 * second) ⟨1⟩ [⟨bytes "mail", 1⟩] 1] .pgx .faultless
    (fun _ => ⟨second, ⟨9⟩, second⟩) (.dlqBatch Sample.leasedRow "poison")).1 (by decide +kernel)
  exact settled

end OutboxFormal
