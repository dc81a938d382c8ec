import OutboxFormal.Storage.RowInvariant

/-!
# Batch finalization and independent fenced finalizations

`ApplyBatchJobOutcomes` finalizes a list of outcomes in one transaction. Here
it is compared with the single-row operations: on every reachable table it
either has the effect of all of them, in whichever order they are applied, or
no effect. The comparison goes through the effect of one outcome on one row.
-/

namespace OutboxFormal.Storage

open Library

variable {token : LeaseToken} {now : Int} {outcomes : List BatchJobOutcome}

variable {outcome : BatchJobOutcome} {job : Job} {table : JobsTable}

/-! ## The abstract behaviour -/

/-- The single-row operation for one outcome. -/
def Backend.finalizeOne (backend : Backend) (token : LeaseToken) (now : Int)
    (outcome : BatchJobOutcome) : RepoCall Int :=
  match outcome.kind with
  | .success | .dlq => backend.deleteJobWithLease outcome.jobID token now
  | .retry => backend.rescheduleJobWithLease outcome.jobID token now outcome.availableAt
  | .defer => backend.deferJobWithLease false outcome.jobID token now outcome.availableAt
  | .unknown _ => fun table => (.ok 0, table)

/-- The single-row operations for a list of outcomes, one after the other. -/
def Backend.finalizeEach (backend : Backend) (token : LeaseToken) (now : Int)
    (order : List BatchJobOutcome) (table : JobsTable) : JobsTable :=
  order.foldl (fun before outcome => (backend.finalizeOne token now outcome before).2) table

/-- The checks `ApplyBatchJobOutcomes` runs before its transaction. -/
def Backend.validateBatchOutcomes (backend : Backend) (token : LeaseToken)
    (outcomes : List BatchJobOutcome) : Except OutboxError Unit :=
  match backend with
  | .pgsql => validateOutcomes "jobs.repo.ApplyBatchJobOutcomes: " "duplicate JobID " token outcomes
  | .mysql | .sqlite => DatabaseSql.validateBatchOutcomes token outcomes

/-- The row of the outcome is present with this token and a deadline later than
`now`, as the backend compares instants. -/
def Backend.leaseHeld (backend : Backend) (token : LeaseToken) (now : Int) (table : JobsTable)
    (outcome : BatchJobOutcome) : Prop :=
  ∃ job ∈ table.rows, job.id = outcome.jobID ∧ job.leaseToken = token ∧
    ∃ reserved, job.reservedAt = some reserved ∧ backend.stored now < reserved

def outcomeEffect (stored : Int → Int) (token : LeaseToken) (now : Int)
    (outcome : BatchJobOutcome) (job : Job) : Option Job :=
  if leased token (stored now) job then
    if outcome.kind.terminal then none
    else if outcome.kind = .retry then some (rescheduleRow (stored outcome.availableAt) job)
    else if outcome.kind = .defer ∧ 0 < job.attempts then
      some (deferRow (stored outcome.availableAt) job)
    else some job
  else some job

theorem outcomeEffect_keyPreserving (stored : Int → Int) (token : LeaseToken) (now : Int)
    (outcome : BatchJobOutcome) :
    Table.KeyPreserving Job.id (outcomeEffect stored token now outcome) := by
  intro job after hafter
  unfold outcomeEffect at hafter
  repeat' split at hafter
  all_goals cases hafter
  all_goals rfl

def afterOutcome (stored : Int → Int) (token : LeaseToken) (now : Int)
    (outcome : BatchJobOutcome) (table : JobsTable) : JobsTable :=
  table.alter (Table.atKey Job.id outcome.jobID (outcomeEffect stored token now outcome))
    (Table.atKey_keyPreserving (outcomeEffect_keyPreserving stored token now outcome))

def outcomesEffect (stored : Int → Int) (token : LeaseToken) (now : Int)
    (outcomes : List BatchJobOutcome) : Job → Option Job :=
  Table.eachRow BatchJobOutcome.jobID (outcomeEffect stored token now) Job.id outcomes

/-- The table after the effects of a list of outcomes. -/
def afterOutcomes (stored : Int → Int) (token : LeaseToken) (now : Int)
    (outcomes : List BatchJobOutcome) (table : JobsTable) : JobsTable :=
  table.alter (outcomesEffect stored token now outcomes)
    (Table.eachRow_keyPreserving _ _ (outcomeEffect_keyPreserving stored token now) outcomes)

section Rows

variable {stored : Int → Int}

theorem outcomesEffect_perm {order : List BatchJobOutcome} (perm : order.Perm outcomes)
    (distinct : (outcomes.map BatchJobOutcome.jobID).Nodup) (job : Job) :
    outcomesEffect stored token now order job = outcomesEffect stored token now outcomes job := by
  have distinctOrder : (order.map BatchJobOutcome.jobID).Nodup :=
    (perm.map BatchJobOutcome.jobID).nodup_iff.mpr distinct
  have same : order.find? (fun outcome => decide (outcome.jobID = job.id)) =
      outcomes.find? (fun outcome => decide (outcome.jobID = job.id)) := by
    cases found : outcomes.find? (fun outcome => decide (outcome.jobID = job.id)) with
    | none =>
      refine List.find?_eq_none.mpr fun outcome hmember => ?_
      exact List.find?_eq_none.mp found outcome (perm.mem_iff.mp hmember)
    | some outcome =>
      have hmember := perm.mem_iff.mpr (List.mem_of_find?_eq_some found)
      have hid : outcome.jobID = job.id := by simpa using List.find?_some found
      rw [← hid]
      exact find?_outcome distinctOrder hmember
  unfold outcomesEffect Table.eachRow
  rw [same]

/-! ## Batches as row-wise statements -/

/-- An outcome changes the row: it owns a live lease, and a requeue also finds a
positive attempt count. -/
def settles (stored : Int → Int) (token : LeaseToken) (now : Int)
    (outcomes : List BatchJobOutcome) (job : Job) : Bool :=
  leased token (stored now) job && outcomes.any fun outcome =>
    decide (outcome.jobID = job.id) &&
      (outcome.kind.terminal || outcome.kind.requeues && decide (0 < job.attempts))

theorem settles_iff :
    settles stored token now outcomes job = true ↔
      leased token (stored now) job = true ∧ ∃ outcome ∈ outcomes, outcome.jobID = job.id ∧
        (outcome.kind.terminal = true ∨ outcome.kind.requeues = true ∧ 0 < job.attempts) := by
  simp [settles]

/-- All rows are settled exactly when every outcome settles one. -/
theorem settled_count_iff (distinct : (outcomes.map BatchJobOutcome.jobID).Nodup) :
    (table.matching (settles stored token now outcomes)).length = outcomes.length ↔
      ∀ outcome ∈ outcomes, ∃ job ∈ table.rows, job.id = outcome.jobID ∧
        settles stored token now outcomes job = true := by
  rw [← List.length_map BatchJobOutcome.jobID, Table.length_matching_eq_iff distinct]
  · simp only [List.mem_map, forall_exists_index, and_imp, forall_apply_eq_imp_iff₂]
  · intro job _ hsettles
    obtain ⟨_, outcome, hmember, hsame, _⟩ := settles_iff.mp hsettles
    exact List.mem_map.mpr ⟨outcome, hmember, hsame⟩

/-- A callback that counts the settled rows and fails on a mismatch. -/
structure Finalizes (stored : Int → Int) (token : LeaseToken) (now : Int)
    (outcomes : List BatchJobOutcome) (table : JobsTable) (callback : RepoCall Int) : Prop where
  /-- All rows were settled. -/
  complete : (table.matching (settles stored token now outcomes)).length = outcomes.length →
    callback table = (.ok outcomes.length, afterOutcomes stored token now outcomes table)
  /-- Some row was not. -/
  incomplete : (table.matching (settles stored token now outcomes)).length ≠ outcomes.length →
    ∃ error, (callback table).1 = .error error

theorem outcomesEffect_of_mem (distinct : (outcomes.map BatchJobOutcome.jobID).Nodup)
    (member : outcome ∈ outcomes) (same : outcome.jobID = job.id) :
    outcomesEffect stored token now outcomes job =
      outcomeEffect stored token now outcome job := by
  have found := find?_outcome distinct member
  rw [same] at found
  simp only [outcomesEffect, Table.eachRow, found]

theorem outcomesEffect_of_unnamed (unnamed : ∀ outcome ∈ outcomes, outcome.jobID ≠ job.id) :
    outcomesEffect stored token now outcomes job = some job := by
  have missing : outcomes.find? (fun outcome => decide (outcome.jobID = job.id)) = none :=
    List.find?_eq_none.mpr fun outcome hmember => by simpa using unnamed outcome hmember
  simp only [outcomesEffect, Table.eachRow, missing]

theorem outcomeEffect_requeue (isLeased : leased token (stored now) job = true)
    (requeues : outcome.kind.requeues = true) (attempted : 0 < job.attempts) :
    outcomeEffect stored token now outcome job =
      some (requeueRow outcome.kind (stored outcome.availableAt) job) := by
  rcases requeues_iff.mp requeues with hretry | hdefer
  · rw [hretry, requeueRow_retry]
    simp [outcomeEffect, isLeased, hretry, BatchJobOutcomeKind.terminal]
  · rw [hdefer, requeueRow_defer]
    simp [outcomeEffect, isLeased, hdefer, attempted, BatchJobOutcomeKind.terminal]

theorem outcomeEffect_terminal (isLeased : leased token (stored now) job = true)
    (terminal : outcome.kind.terminal = true) :
    outcomeEffect stored token now outcome job = none := by
  simp [outcomeEffect, isLeased, terminal]

theorem outcomeEffect_unleased (notLeased : leased token (stored now) job = false) :
    outcomeEffect stored token now outcome job = some job := by
  simp [outcomeEffect, notLeased]

/-- A requeue without attempts leaves a deferred row; retries are guarded. -/
theorem outcomeEffect_exhausted (requeues : outcome.kind.requeues = true)
    (notRetry : outcome.kind ≠ .retry) (exhausted : ¬ 0 < job.attempts) :
    outcomeEffect stored token now outcome job = some job := by
  have hterminal := not_terminal_of_requeues requeues
  simp [outcomeEffect, hterminal, notRetry, exhausted]

end Rows

/-- The rows a retry selects have been attempted. -/
def RetriesAttempted (stored : Int → Int) (token : LeaseToken) (now : Int)
    (outcomes : List BatchJobOutcome) (table : JobsTable) : Prop :=
  ∀ job ∈ table.rows, ∀ outcome ∈ outcomes, outcome.kind = .retry → outcome.jobID = job.id →
    leased token (stored now) job = true → 0 < job.attempts

/-! ### PostgreSQL -/

namespace Pgsql

theorem owned_of_mem (distinct : (outcomes.map BatchJobOutcome.jobID).Nodup)
    (member : outcome ∈ outcomes) (same : outcome.jobID = job.id)
    (isLeased : leased token (stored now) job = true) :
    owned token now outcomes job = some outcome := by
  have found := find?_outcome distinct member
  rw [same] at found
  simp only [owned, isLeased, if_true, found]

/-- The two data-modifying parts select the settled rows. -/
theorem settles_eq (distinct : (outcomes.map BatchJobOutcome.jobID).Nodup) (job : Job) :
    (deletes token now outcomes job || updates token now outcomes job) =
      settles stored token now outcomes job := by
  rw [Bool.eq_iff_iff, settles_iff]
  constructor
  · intro hselected
    cases howned : owned token now outcomes job with
    | none => simp [deletes, updates, howned] at hselected
    | some outcome =>
      obtain ⟨isLeased, hmember, hsame⟩ := owned_eq_some howned
      refine ⟨isLeased, outcome, hmember, hsame, ?_⟩
      simpa [deletes, updates, howned] using hselected
  · rintro ⟨isLeased, outcome, hmember, hsame, hkind⟩
    simpa [deletes, updates, owned_of_mem distinct hmember hsame isLeased] using hkind

theorem outcomeRow_eq (accepted : AcceptedOutcomes token outcomes)
    (attempted : RetriesAttempted stored token now outcomes table) :
    ∀ job ∈ table.rows, outcomeRow token now outcomes job =
      outcomesEffect stored token now outcomes job := by
  intro job hjob
  by_cases hnamed : ∃ outcome ∈ outcomes, outcome.jobID = job.id
  · obtain ⟨outcome, hmember, hsame⟩ := hnamed
    rw [outcomesEffect_of_mem accepted.distinct hmember hsame]
    cases isLeased : leased token (stored now) job with
    | false => simp [outcomeEffect_unleased isLeased, outcomeRow, owned, isLeased]
    | true =>
      have howned := owned_of_mem accepted.distinct hmember hsame isLeased
      simp only [outcomeRow, howned]
      rcases accepted.known outcome hmember with hterminal | hrequeues
      · simp [hterminal, outcomeEffect_terminal isLeased hterminal]
      · have hnext : nextAvailableAt now outcome = stored outcome.availableAt :=
          if_neg (accepted.scheduled outcome hmember hrequeues)
        by_cases hattempts : 0 < job.attempts
        · rw [outcomeEffect_requeue isLeased hrequeues hattempts, hnext]
          simp [not_terminal_of_requeues hrequeues, hrequeues, hattempts]
        · have notRetry : outcome.kind ≠ .retry := fun hretry =>
            hattempts (attempted job hjob outcome hmember hretry hsame isLeased)
          rw [outcomeEffect_exhausted hrequeues notRetry hattempts]
          simp [not_terminal_of_requeues hrequeues, hattempts]
  · push Not at hnamed
    rw [outcomesEffect_of_unnamed hnamed]
    have missing : owned token now outcomes job = none := by
      cases howned : owned token now outcomes job with
      | none => rfl
      | some outcome =>
        obtain ⟨_, hmember, hsame⟩ := owned_eq_some howned
        exact absurd hsame (hnamed outcome hmember)
    simp [outcomeRow, missing]

theorem finalizes (accepted : AcceptedOutcomes token outcomes)
    (attempted : RetriesAttempted stored token now outcomes table) :
    Finalizes stored token now outcomes table (applyOutcomes token now outcomes) := by
  have count : (table.matching (deletes token now outcomes)).length +
      (table.matching (updates token now outcomes)).length =
      (table.matching (settles stored token now outcomes)).length := by
    rw [Table.length_matching_add]
    · rw [funext (settles_eq accepted.distinct)]
    · intro job _ hdeletes
      cases howned : owned token now outcomes job with
      | none => simp [deletes, howned] at hdeletes
      | some outcome =>
        have hterminal : outcome.kind.terminal = true := by
          simpa [deletes, howned] using hdeletes
        have hrequeues : outcome.kind.requeues = false := by
          by_contra hrequeues
          rw [not_terminal_of_requeues (by simpa using hrequeues)] at hterminal
          cases hterminal
        simp [updates, howned, hrequeues]
  constructor
  · intro hcomplete
    simp only [applyOutcomes, count, hcomplete]
    rw [if_neg (by simp), table.alter_congr _ _ (outcomeRow_eq accepted attempted)]
    rfl
  · intro hincomplete
    simp only [applyOutcomes, count]
    rw [if_pos hincomplete]
    exact ⟨_, rfl⟩

end Pgsql

/-! ### MySQL and SQLite -/

namespace DatabaseSql

variable {stored : Int → Int}
  {inputRow : List BatchJobOutcome → JobID → Option BatchJobOutcome}

theorem settles_eq (job : Job) :
    (terminalSelection stored token now outcomes job ||
      retrySelection stored token now outcomes job) = settles stored token now outcomes job := by
  rw [Bool.eq_iff_iff, settles_iff]
  simp only [terminalSelection, retrySelection, Bool.or_eq_true, Bool.and_eq_true, named_iff,
    decide_eq_true_eq]
  constructor
  · rintro (⟨⟨outcome, hmember, hsame, hterminal⟩, isLeased⟩ |
      ⟨⟨⟨outcome, hmember, hsame, hrequeues⟩, isLeased⟩, hattempts⟩)
    · exact ⟨isLeased, outcome, hmember, hsame, Or.inl hterminal⟩
    · exact ⟨isLeased, outcome, hmember, hsame, Or.inr ⟨hrequeues, hattempts⟩⟩
  · rintro ⟨isLeased, outcome, hmember, hsame, hterminal | ⟨hrequeues, hattempts⟩⟩
    · exact Or.inl ⟨⟨outcome, hmember, hsame, hterminal⟩, isLeased⟩
    · exact Or.inr ⟨⟨⟨outcome, hmember, hsame, hrequeues⟩, isLeased⟩, hattempts⟩

theorem selections_disjoint (distinct : (outcomes.map BatchJobOutcome.jobID).Nodup)
    (terminal : terminalSelection stored token now outcomes job = true) :
    retrySelection stored token now outcomes job = false := by
  obtain ⟨hnamed, _⟩ := Bool.and_eq_true_iff.mp terminal
  obtain ⟨outcome, hmember, hsame, hterminal⟩ := named_iff.mp hnamed
  by_contra hretry
  rw [Bool.not_eq_false] at hretry
  obtain ⟨hnamedLeased, _⟩ := Bool.and_eq_true_iff.mp hretry
  obtain ⟨other, hother, hotherSame, hrequeues⟩ :=
    named_iff.mp (Bool.and_eq_true_iff.mp hnamedLeased).1
  rw [List.inj_on_of_nodup_map distinct hother hmember (hotherSame.trans hsame.symm)] at hrequeues
  rw [not_terminal_of_requeues hrequeues] at hterminal
  cases hterminal

theorem outcomeRow_eq (reads : Reads inputRow)
    (accepted : AcceptedOutcomes token outcomes)
    (attempted : RetriesAttempted stored token now outcomes table) :
    ∀ job ∈ table.rows, outcomeRow stored inputRow token now outcomes job =
      outcomesEffect stored token now outcomes job := by
  intro job hjob
  by_cases hnamed : ∃ outcome ∈ outcomes, outcome.jobID = job.id
  · obtain ⟨outcome, hmember, hsame⟩ := hnamed
    rw [outcomesEffect_of_mem accepted.distinct hmember hsame]
    have sole : ∀ other ∈ outcomes, other.jobID = job.id → other = outcome :=
      fun other hother hotherSame =>
        List.inj_on_of_nodup_map accepted.distinct hother hmember (hotherSame.trans hsame.symm)
    have named_eq : ∀ kinds : BatchJobOutcomeKind → Bool,
        named kinds outcomes job = kinds outcome.kind := by
      intro kinds
      rw [Bool.eq_iff_iff, named_iff]
      constructor
      · rintro ⟨other, hother, hotherSame, hkind⟩
        rwa [sole other hother hotherSame] at hkind
      · exact fun hkind => ⟨outcome, hmember, hsame, hkind⟩
    cases isLeased : leased token (stored now) job with
    | false =>
      simp [outcomeEffect_unleased isLeased, outcomeRow, Table.deleteRow, Table.updateRow,
        terminalSelection, retrySelection, isLeased]
    | true =>
      rcases accepted.known outcome hmember with hterminal | hrequeues
      · simp [outcomeEffect_terminal isLeased hterminal, outcomeRow, Table.deleteRow,
          terminalSelection, named_eq, hterminal, isLeased]
      · have hread := reads outcomes outcome accepted.distinct hmember hrequeues
        rw [hsame] at hread
        by_cases hattempts : 0 < job.attempts
        · simp [outcomeEffect_requeue isLeased hrequeues hattempts, outcomeRow,
            Table.deleteRow, Table.updateRow, terminalSelection, retrySelection, named_eq,
            not_terminal_of_requeues hrequeues, hrequeues, isLeased, hattempts, retryRow, hread]
        · have notRetry : outcome.kind ≠ .retry := fun hretry =>
            hattempts (attempted job hjob outcome hmember hretry hsame isLeased)
          simp [outcomeEffect_exhausted hrequeues notRetry hattempts, outcomeRow,
            Table.deleteRow, Table.updateRow, terminalSelection, retrySelection, named_eq,
            not_terminal_of_requeues hrequeues, hattempts]
  · push Not at hnamed
    have unnamed : ∀ kinds : BatchJobOutcomeKind → Bool, named kinds outcomes job = false := by
      intro kinds
      by_contra hkinds
      obtain ⟨outcome, hmember, hsame, _⟩ := named_iff.mp (by simpa using hkinds)
      exact hnamed outcome hmember hsame
    simp [outcomesEffect_of_unnamed hnamed, outcomeRow, Table.deleteRow, Table.updateRow,
      terminalSelection, retrySelection, unnamed]

theorem finalizes (reads : Reads inputRow)
    (accepted : AcceptedOutcomes token outcomes)
    (attempted : RetriesAttempted stored token now outcomes table) :
    Finalizes stored token now outcomes table
      (applyOutcomes stored inputRow token now outcomes) := by
  have count : (deleteBatchTerminalOutcomes stored token now outcomes table).1 +
      (updateBatchRetryOutcomes stored inputRow token now outcomes
        (deleteBatchTerminalOutcomes stored token now outcomes table).2).1 =
      (table.matching (settles stored token now outcomes)).length := by
    have remaining : (table.delete (terminalSelection stored token now outcomes)).matching
        (retrySelection stored token now outcomes) =
        table.matching (retrySelection stored token now outcomes) := by
      refine Table.matching_delete fun job _ hretry => ?_
      by_contra hterminal
      rw [selections_disjoint accepted.distinct (by simpa using hterminal)] at hretry
      cases hretry
    simp only [deleteBatchTerminalOutcomes, updateBatchRetryOutcomes]
    rw [remaining, Table.length_matching_add fun job _ hterminal =>
      selections_disjoint accepted.distinct hterminal, funext settles_eq]
  have effect : (applyOutcomes stored inputRow token now outcomes table).2 =
      afterOutcomes stored token now outcomes table := by
    rw [applyOutcomes_table]
    exact table.alter_congr _ _ (outcomeRow_eq reads accepted attempted)
  constructor
  · intro hcomplete
    refine Prod.ext ?_ effect
    simp only [applyOutcomes, count, hcomplete]
    rw [if_neg (by simp)]
  · intro hincomplete
    simp only [applyOutcomes, count]
    rw [if_pos hincomplete]
    exact ⟨_, rfl⟩

end DatabaseSql

/-! ## The outermost transaction -/

/-- An outermost transaction keeps a complete batch and undoes an incomplete one. -/
theorem Finalizes.transaction {stored : Int → Int} {callback : RepoCall Int} {manager : Manager}
    {wrap : OutboxError → OutboxError}
    (finalizes : Finalizes stored token now outcomes table callback) :
    let result : Except OutboxError Int × JobsTable :=
      match manager.runReturning false callback table with
      | (.error error, after) => (.error (wrap error), after)
      | (.ok affected, after) => (.ok affected, after)
    ((table.matching (settles stored token now outcomes)).length = outcomes.length →
      result = (.ok outcomes.length, afterOutcomes stored token now outcomes table)) ∧
    ((table.matching (settles stored token now outcomes)).length ≠ outcomes.length →
      ∃ error, result = (.error error, table)) := by
  intro result
  constructor
  · intro hcomplete
    have hcall := finalizes.complete hcomplete
    simp only [result, manager.runReturning_outermost, hcall]
  · intro hincomplete
    obtain ⟨error, herror⟩ := finalizes.incomplete hincomplete
    rcases hcall : callback table with ⟨answer, after⟩
    rw [hcall] at herror
    dsimp only at herror
    subst herror
    simp only [result, manager.runReturning_outermost, hcall]
    exact ⟨_, rfl⟩

section Backends

variable (backend : Backend)

/-- A batch of one outcome has the effect of that outcome, or none. -/
theorem afterOutcomes_single {stored : Int → Int} (outcome : BatchJobOutcome) :
    afterOutcomes stored token now [outcome] table =
      afterOutcome stored token now outcome table := by
  refine table.alter_congr _ _ fun job _ => ?_
  by_cases hid : outcome.jobID = job.id
  · simp [outcomesEffect, Table.eachRow, Table.atKey, hid]
  · have hother : job.id ≠ outcome.jobID := fun same => hid same.symm
    simp [outcomesEffect, Table.eachRow, Table.atKey, hid, hother]

theorem afterOutcome_unsettled {stored : Int → Int} (hdefer : outcome.kind = .defer)
    (unsettled : (table.matching (settles stored token now [outcome])).length ≠
      [outcome].length) : afterOutcome stored token now outcome table = table := by
  rw [Ne, settled_count_iff (by simp)] at unsettled
  simp only [List.mem_singleton, forall_eq, not_exists, not_and, settles_iff] at unsettled
  refine table.alter_eq_self _ fun job hjob => ?_
  by_cases hid : job.id = outcome.jobID
  · have requeues : outcome.kind.requeues = true := by simp [hdefer, BatchJobOutcomeKind.requeues]
    rw [Table.atKey, if_pos hid]
    cases isLeased : leased token (stored now) job with
    | false => exact outcomeEffect_unleased isLeased
    | true =>
      refine outcomeEffect_exhausted requeues (by simp [hdefer]) fun attempted => ?_
      exact unsettled job hjob hid isLeased hid.symm (Or.inr ⟨requeues, attempted⟩)
  · rw [Table.atKey, if_neg hid]

theorem Backend.validateBatchOutcomes_eq_ok_iff :
    backend.validateBatchOutcomes token outcomes = .ok () ↔ AcceptedOutcomes token outcomes := by
  cases backend <;> exact validateOutcomes_eq_ok_iff

/-- The callback of `ApplyBatchJobOutcomes`. -/
def Backend.applyOutcomes (backend : Backend) (token : LeaseToken) (now : Int)
    (outcomes : List BatchJobOutcome) : RepoCall Int :=
  match backend with
  | .pgsql => Pgsql.applyOutcomes token now outcomes
  | .mysql => DatabaseSql.applyOutcomes Mysql.stored Mysql.inputRow token now outcomes
  | .sqlite => DatabaseSql.applyOutcomes Sqlite.stored Sqlite.inputRow token now outcomes

def Backend.applyContext : Backend → String
  | .pgsql => "jobs.repo.ApplyBatchJobOutcomes: apply outcomes"
  | .mysql | .sqlite => "apply batch job outcomes"

theorem Backend.applyBatchJobOutcomes_eq (attached : Bool) :
    backend.applyBatchJobOutcomes attached token now outcomes =
      checked (backend.validateBatchOutcomes token outcomes) fun table =>
        match backend.manager.runReturning attached (backend.applyOutcomes token now outcomes)
          table with
        | (.error error, after) => (.error (errorContext backend.applyContext error), after)
        | (.ok affected, after) => (.ok affected, after) := by
  cases backend <;> rfl

variable (accepted : AcceptedOutcomes token outcomes)
include accepted

theorem Backend.finalizes (attempted : RetriesAttempted backend.stored token now outcomes table) :
    Finalizes backend.stored token now outcomes table
      (backend.applyOutcomes token now outcomes) := by
  cases backend with
  | pgsql => exact Pgsql.finalizes accepted attempted
  | mysql => exact DatabaseSql.finalizes Mysql.reads accepted attempted
  | sqlite => exact DatabaseSql.finalizes Sqlite.reads accepted attempted

/-- On accepted outcomes the batch settles every row, or fails without effect. -/
theorem Backend.applyBatchJobOutcomes_outermost
    (attempted : RetriesAttempted backend.stored token now outcomes table) :
    ((table.matching (settles backend.stored token now outcomes)).length = outcomes.length →
      backend.applyBatchJobOutcomes false token now outcomes table =
        (.ok outcomes.length, afterOutcomes backend.stored token now outcomes table)) ∧
    ((table.matching (settles backend.stored token now outcomes)).length ≠ outcomes.length →
      ∃ error, backend.applyBatchJobOutcomes false token now outcomes table =
        (.error error, table)) := by
  have run : backend.applyBatchJobOutcomes false token now outcomes table =
      match backend.manager.runReturning false (backend.applyOutcomes token now outcomes) table with
      | (.error error, after) => (.error (errorContext backend.applyContext error), after)
      | (.ok affected, after) => (.ok affected, after) := by
    rw [backend.applyBatchJobOutcomes_eq,
      checked_eq_of_ok _ (backend.validateBatchOutcomes_eq_ok_iff.mpr accepted)]
  rw [run]
  exact (backend.finalizes accepted attempted).transaction

/-! ## The single-row operations -/

section Single

variable (member : outcome ∈ outcomes)
include member

/-- The checks of a single-row operation pass for an accepted outcome. -/
theorem AcceptedOutcomes.validateSingle (context : String) :
    Storage.validateSingle context outcome.jobID token = .ok () :=
  validateSingle_eq_ok_iff.mpr ⟨accepted.ids_ne outcome member, accepted.token_ne⟩

theorem Backend.deleteJobWithLease_table :
    (backend.deleteJobWithLease outcome.jobID token now table).2 =
      deleteStatement backend.stored outcome.jobID token now table := by
  have passed := accepted.validateSingle member
  cases backend <;> simp only [Backend.deleteJobWithLease, Pgsql.deleteJobWithLease,
    Mysql.deleteJobWithLease, Sqlite.deleteJobWithLease, passed] <;> rfl

theorem Backend.rescheduleJobWithLease_table (availableAt : Int) :
    (backend.rescheduleJobWithLease outcome.jobID token now availableAt table).2 =
      rescheduleStatement backend.stored outcome.jobID token now availableAt table := by
  have passed := accepted.validateSingle member
  cases backend <;> simp only [Backend.rescheduleJobWithLease, Pgsql.rescheduleJobWithLease,
    Mysql.rescheduleJobWithLease, Sqlite.rescheduleJobWithLease, passed] <;> rfl

theorem Backend.deferJobWithLease_table (hdefer : outcome.kind = .defer) :
    (backend.deferJobWithLease false outcome.jobID token now outcome.availableAt table).2 =
      afterOutcome backend.stored token now outcome table := by
  let single : BatchJobOutcome :=
    { jobID := outcome.jobID, kind := .defer, availableAt := outcome.availableAt }
  have same : afterOutcome backend.stored token now single table =
      afterOutcome backend.stored token now outcome table := by
    refine table.alter_congr _ _ fun job _ => ?_
    simp [Table.atKey, outcomeEffect, single, hdefer]
  have acceptedSingle : AcceptedOutcomes token [single] :=
    { token_ne := accepted.token_ne
      nonempty := by simp
      bounded := by simp [maxReservationBatchSize]
      ids_ne := by simpa [single] using accepted.ids_ne outcome member
      distinct := by simp
      known := by simp [single, BatchJobOutcomeKind.requeues]
      scheduled := by
        simpa [single] using fun _ => accepted.scheduled outcome member
          (by simp [hdefer, BatchJobOutcomeKind.requeues])
      explained := by simp [single] }
  obtain ⟨complete, incomplete⟩ := @Backend.applyBatchJobOutcomes_outermost token now [single]
    table backend acceptedSingle (by simp [RetriesAttempted, single])
  rw [backend.deferJobWithLease_eq, ← same]
  change (backend.applyBatchJobOutcomes false token now [single] table).2 = _
  by_cases hcount : (table.matching (settles backend.stored token now [single])).length =
      [single].length
  · rw [complete hcount]
    exact afterOutcomes_single single
  · obtain ⟨error, herror⟩ := incomplete hcount
    rw [herror]
    exact (afterOutcome_unsettled rfl hcount).symm

/-- The single-row operation of an outcome has the effect of that outcome. -/
theorem Backend.finalizeOne_table (table : JobsTable) :
    (backend.finalizeOne token now outcome table).2 =
      afterOutcome backend.stored token now outcome table := by
  have terminal : outcome.kind.terminal = true →
      (backend.deleteJobWithLease outcome.jobID token now table).2 =
        afterOutcome backend.stored token now outcome table := by
    intro hterminal
    rw [backend.deleteJobWithLease_table accepted member]
    refine table.alter_congr (Table.deleteRow_keyPreserving _) _ fun job _ => ?_
    by_cases hid : job.id = outcome.jobID <;>
      cases isLeased : leased token (backend.stored now) job <;>
      simp [Table.deleteRow, Table.atKey, singleSelection, outcomeEffect, isLeased, hterminal, hid]
  unfold Backend.finalizeOne
  cases hkind : outcome.kind with
  | success => exact terminal (by simp [hkind, BatchJobOutcomeKind.terminal])
  | dlq => exact terminal (by simp [hkind, BatchJobOutcomeKind.terminal])
  | retry =>
    dsimp only
    rw [backend.rescheduleJobWithLease_table accepted member]
    refine table.alter_congr
      (Table.updateRow_keyPreserving (rescheduleRow_id (backend.stored outcome.availableAt)) _) _
      fun job _ => ?_
    by_cases hid : job.id = outcome.jobID <;>
      cases isLeased : leased token (backend.stored now) job <;>
      simp [Table.updateRow, Table.atKey, singleSelection, outcomeEffect, isLeased, hkind, hid,
        BatchJobOutcomeKind.terminal]
  | defer => exact backend.deferJobWithLease_table accepted member hkind
  | unknown value =>
    rcases accepted.known outcome member with hterminal | hrequeues
    · simp [hkind, BatchJobOutcomeKind.terminal] at hterminal
    · simp [hkind, BatchJobOutcomeKind.requeues] at hrequeues

end Single

/-- The single-row operations in any order have the effects of the outcomes. -/
theorem Backend.finalizeEach_eq {order : List BatchJobOutcome} (perm : order.Perm outcomes) :
    backend.finalizeEach token now order table =
      afterOutcomes backend.stored token now outcomes table := by
  have distinctOrder : (order.map BatchJobOutcome.jobID).Nodup :=
    (perm.map BatchJobOutcome.jobID).nodup_iff.mpr accepted.distinct
  have each : backend.finalizeEach token now order table =
      order.foldl (fun before outcome => afterOutcome backend.stored token now outcome before)
        table := by
    refine List.foldl_ext _ _ _ fun before outcome hmember => ?_
    exact backend.finalizeOne_table accepted (perm.mem_iff.mp hmember) before
  rw [each]
  refine (Table.foldl_alter_atKey BatchJobOutcome.jobID
    (outcomeEffect backend.stored token now)
    (outcomeEffect_keyPreserving backend.stored token now) order distinctOrder table).trans ?_
  exact table.alter_congr _ _ fun job _ => outcomesEffect_perm perm accepted.distinct job

end Backends

/-! ## Stored deadlines -/

/-- A deadline in the table is an instant the column can store. -/
theorem RowStep.stored_deadline {stored : Int → Int} {event : RowEvent}
    {before after : Option Job} (step : RowStep stored event before after)
    (aligned : ∀ job reserved, before = some job → job.reservedAt = some reserved →
      ∃ time, reserved = stored time) :
    ∀ job reserved, after = some job → job.reservedAt = some reserved →
      ∃ time, reserved = stored time := by
  intro job reserved hjob hreserved
  cases step with
  | kept row => exact aligned job reserved hjob hreserved
  | inserted isNew =>
    cases hjob
    rw [isNew.2.1] at hreserved
    cases hreserved
  | claimed | extended =>
    cases hjob
    cases hreserved
    exact ⟨_, rfl⟩
  | released | rescheduled | deferred =>
    cases hjob
    cases hreserved
  | deleted => cases hjob

theorem history_deadlines (backend : Backend) (digest : Digest) (history : List Call) :
    ∀ id job reserved,
      ((repository backend digest).final .empty history).jobs.get? id = some job →
      job.reservedAt = some reserved → ∃ time, reserved = backend.stored time := by
  refine (repository backend digest).invariant (fun database _ => ∀ id job reserved,
    database.jobs.get? id = some job → job.reservedAt = some reserved →
      ∃ time, reserved = backend.stored time) .empty ?_ ?_ history
  · intro id job reserved hjob
    cases hjob
  · intro database _ call aligned id job reserved hjob
    obtain ⟨event, _, hstep⟩ := call.run_row backend digest database id
    exact hstep.stored_deadline (aligned id) job reserved hjob

/-- PostgreSQL and SQLite truncate, so a stored deadline is later than the bound
instant exactly when it is later than the instant itself. -/
theorem Backend.stored_lt_iff {backend : Backend} (truncates : backend ≠ .mysql)
    (now time : Int) : backend.stored now < backend.stored time ↔ now < backend.stored time := by
  cases backend with
  | mysql => exact absurd rfl truncates
  | pgsql =>
    simp only [Backend.stored, Pgsql.stored, truncate, microsecond]
    omega
  | sqlite =>
    simp only [Backend.stored, Sqlite.stored, milliTime_eq_truncate, truncate, millisecond]
    omega

/-! ## Reachable tables -/

/-- On every table reached by repository calls, a batch of accepted outcomes in
an outermost transaction finalizes every row like the single-row operations in
any order, exactly when every listed row is present with the token and a later
deadline; otherwise it fails and leaves the table unchanged. Deadlines are
compared with `now` as the column stores it, which is the comparison with `now`
itself unless MySQL rounds it. -/
theorem applyBatchJobOutcomes_eq_finalizeEach (backend : Backend) (digest : Digest)
    (history : List Call) (token : LeaseToken) (now : Int) (outcomes : List BatchJobOutcome)
    (accepted : backend.validateBatchOutcomes token outcomes = .ok ()) :
    let table := ((repository backend digest).final .empty history).jobs
    let result := backend.applyBatchJobOutcomes false token now outcomes table
    ((∀ outcome ∈ outcomes, backend.leaseHeld token now table outcome) →
      result.1 = .ok outcomes.length ∧
      ∀ order : List BatchJobOutcome, order.Perm outcomes →
        result.2 = backend.finalizeEach token now order table) ∧
    ((¬ ∀ outcome ∈ outcomes, backend.leaseHeld token now table outcome) →
      (∃ error, result.1 = .error error) ∧ result.2 = table) ∧
    (backend ≠ .mysql ∨ backend.stored now = now →
      ∀ job ∈ table.rows, ∀ reserved, job.reservedAt = some reserved →
        (backend.stored now < reserved ↔ now < reserved)) := by
  intro table result
  have acceptedOutcomes := backend.validateBatchOutcomes_eq_ok_iff.mp accepted
  have attempted : ∀ job ∈ table.rows, leased token (backend.stored now) job = true →
      0 < job.attempts := by
    intro job hjob isLeased
    have invariant := (history_rows backend digest history).1 job.id job
      (Table.get?_eq_some_iff.mpr ⟨hjob, rfl⟩)
    exact invariant.pos_of_leased acceptedOutcomes.token_ne isLeased
  obtain ⟨complete, incomplete⟩ := @Backend.applyBatchJobOutcomes_outermost token now outcomes
    table backend acceptedOutcomes fun job hjob _ _ _ _ => attempted job hjob
  have count : (table.matching (settles backend.stored token now outcomes)).length =
      outcomes.length ↔ ∀ outcome ∈ outcomes, backend.leaseHeld token now table outcome := by
    rw [settled_count_iff acceptedOutcomes.distinct]
    refine forall₂_congr fun outcome hmember => ?_
    constructor
    · rintro ⟨job, hjob, hid, hsettles⟩
      exact ⟨job, hjob, hid, leased_iff.mp (settles_iff.mp hsettles).1⟩
    · rintro ⟨job, hjob, hid, hheld⟩
      have isLeased := leased_iff.mpr hheld
      refine ⟨job, hjob, hid, settles_iff.mpr ⟨isLeased, outcome, hmember, hid.symm, ?_⟩⟩
      exact (acceptedOutcomes.known outcome hmember).imp_right fun requeues =>
        ⟨requeues, attempted job hjob isLeased⟩
  refine ⟨?_, ?_, ?_⟩
  · intro held
    have hresult : result = _ := complete (count.mpr held)
    rw [hresult]
    exact ⟨rfl, fun order perm => (backend.finalizeEach_eq acceptedOutcomes perm).symm⟩
  · intro missing
    obtain ⟨error, herror⟩ := incomplete (fun hcount => missing (count.mp hcount))
    have hresult : result = _ := herror
    rw [hresult]
    exact ⟨⟨error, rfl⟩, rfl⟩
  · rintro (truncates | same) job hjob reserved hreserved
    · obtain ⟨time, rfl⟩ := history_deadlines backend digest history job.id job reserved
        (Table.get?_eq_some_iff.mpr ⟨hjob, rfl⟩) hreserved
      exact Backend.stored_lt_iff truncates now time
    · rw [same]

namespace Sample

def identityDigest : Digest := ⟨fun _ => [], fun content => content⟩

/-- Nobody else is at work, and the candidate query of MySQL sees the job. -/
def claimView : View :=
  ⟨false, fun _ => false, fun _ => false, bytesLe,
    [⟨[newJob ⟨1⟩ none [109] 1 [] 0 0], List.nodup_singleton _⟩]⟩

/-- One put, and a claim of its job up to nine milliseconds. -/
def reservedMail : List Call :=
  [.createJobVersioned ⟨1⟩ 0 ⟨[109], 1, [], 0⟩,
    .findAndReserveJobsForCapabilities claimView 1000 (9 * millisecond) ⟨7⟩ [⟨[109], 1⟩] 1]

def reserved (backend : Backend) : JobsTable :=
  ((repository backend identityDigest).final .empty reservedMail).jobs

def acknowledged : List BatchJobOutcome := [{ jobID := ⟨1⟩, kind := .success }]

end Sample

/-- A claimed row finalized as a success: the batch answers 1 and has the effect
of the single deletion. -/
theorem applyBatchJobOutcomes_claimed_row :
    let result := Backend.pgsql.applyBatchJobOutcomes false ⟨7⟩ 2000 Sample.acknowledged
      (Sample.reserved .pgsql)
    Backend.pgsql.validateBatchOutcomes ⟨7⟩ Sample.acknowledged = .ok () ∧ result.1 = .ok 1 ∧
      result.2 = Backend.pgsql.finalizeEach ⟨7⟩ 2000 Sample.acknowledged
        (Sample.reserved .pgsql) := by
  have accepted : Backend.pgsql.validateBatchOutcomes ⟨7⟩ Sample.acknowledged = .ok () := by decide
  have held : ∀ outcome ∈ Sample.acknowledged,
      Backend.pgsql.leaseHeld ⟨7⟩ 2000 (Sample.reserved .pgsql) outcome := by
    intro outcome hmember
    rw [List.mem_singleton.mp hmember]
    exact ⟨_, List.mem_cons_self, rfl, rfl, _, rfl, by decide⟩
  obtain ⟨complete, _⟩ := applyBatchJobOutcomes_eq_finalizeEach .pgsql Sample.identityDigest
    Sample.reservedMail ⟨7⟩ 2000 Sample.acknowledged accepted
  exact ⟨accepted, (complete held).1, (complete held).2 _ (List.Perm.refl _)⟩

/-- 400 nanoseconds before the deadline PostgreSQL and SQLite finalize the row;
MySQL rounds the instant up to the deadline and refuses. -/
theorem applyBatchJobOutcomes_rounds_up :
    (∀ backend, (Sample.reserved backend).rows.map (fun job => (job.id, job.leaseToken,
      job.reservedAt)) = [(⟨1⟩, ⟨7⟩, some (9 * millisecond))]) ∧
    (Backend.pgsql.applyBatchJobOutcomes false ⟨7⟩ (9 * millisecond - 400) Sample.acknowledged
      (Sample.reserved .pgsql)).1 = .ok 1 ∧
    (Backend.sqlite.applyBatchJobOutcomes false ⟨7⟩ (9 * millisecond - 400) Sample.acknowledged
      (Sample.reserved .sqlite)).1 = .ok 1 ∧
    ¬ ∃ count, (Backend.mysql.applyBatchJobOutcomes false ⟨7⟩ (9 * millisecond - 400)
      Sample.acknowledged (Sample.reserved .mysql)).1 = .ok count := by
  refine ⟨fun backend => by cases backend <;> rfl, rfl, rfl, ?_⟩
  rintro ⟨count, answer⟩
  cases answer

end OutboxFormal.Storage
