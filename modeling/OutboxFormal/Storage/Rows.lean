import OutboxFormal.Storage.Registry

/-!
# What a repository call can do to one row

Every call of every backend moves the row of a job through one of a few
events. `RowSpec` says which events a call may cause for an identifier, given
its answer; the lemmas below establish it once for each repository function,
and every later invariant is a case analysis over `RowStep`.
-/

namespace OutboxFormal.Storage

open Library

variable {token : LeaseToken} {now : Int} {outcomes : List BatchJobOutcome} {job : Job}
variable {selected : Job → Bool} {outcome : BatchJobOutcome}

/-- What happened to one row during a call. -/
inductive RowEvent where
  | kept
  | inserted (job : Job)
  | claimed (now until_ : Int) (token : LeaseToken)
  | extended (now until_ : Int) (token : LeaseToken)
  | released (now : Int) (token : LeaseToken)
  | rescheduled (now availableAt : Int) (token : LeaseToken)
  | deferred (now availableAt : Int) (token : LeaseToken)
  | deleted (now : Int) (token : LeaseToken)
  deriving DecidableEq, Repr

/-- A row as an insertion leaves it. -/
def IsNew (job : Job) : Prop :=
  job.attempts = 0 ∧ job.reservedAt = none ∧ job.leaseToken = .nil

inductive RowStep (stored : Int → Int) : RowEvent → Option Job → Option Job → Prop where
  | kept (row : Option Job) : RowStep stored .kept row row
  | inserted {job : Job} (isNew : IsNew job) : RowStep stored (.inserted job) none (some job)
  | claimed {now until_ : Int} {token : LeaseToken} {job : Job} (named : token ≠ .nil)
      (isReady : ready (stored now) job = true) :
      RowStep stored (.claimed now until_ token) (some job)
        (some (reserveRow (stored until_) token job))
  | extended {now until_ : Int} {token : LeaseToken} {job : Job} (named : token ≠ .nil)
      (isLeased : leased token (stored now) job = true) :
      RowStep stored (.extended now until_ token) (some job)
        (some (extendRow (stored until_) job))
  | released {now : Int} {token : LeaseToken} {job : Job} (named : token ≠ .nil)
      (isLeased : leased token (stored now) job = true) (attempted : 0 < job.attempts) :
      RowStep stored (.released now token) (some job) (some (releaseRow job))
  | rescheduled {now availableAt : Int} {token : LeaseToken} {job : Job} (named : token ≠ .nil)
      (isLeased : leased token (stored now) job = true) :
      RowStep stored (.rescheduled now availableAt token) (some job)
        (some (rescheduleRow (stored availableAt) job))
  | deferred {now availableAt : Int} {token : LeaseToken} {job : Job} (named : token ≠ .nil)
      (isLeased : leased token (stored now) job = true) (attempted : 0 < job.attempts) :
      RowStep stored (.deferred now availableAt token) (some job)
        (some (deferRow (stored availableAt) job))
  | deleted {now : Int} {token : LeaseToken} {job : Job} (named : token ≠ .nil)
      (isLeased : leased token (stored now) job = true) :
      RowStep stored (.deleted now token) (some job) none

theorem RowStep.eq_of_kept {stored : Int → Int} {before after : Option Job}
    (step : RowStep stored .kept before after) : after = before := by
  cases step
  rfl

theorem RowStep.of_inserted {stored : Int → Int} {before after : Option Job}
    (step : RowStep stored (.inserted job) before after) :
    before = none ∧ after = some job ∧ IsNew job := by
  cases step with
  | inserted isNew => exact ⟨rfl, rfl, isNew⟩

/-- Every row changes by an event that the call's answer allows for it. -/
def RowSpec {α : Type} (stored : Int → Int)
    (allowed : Except OutboxError α → JobID → RowEvent → Prop) (call : RepoCall α) : Prop :=
  ∀ table id, ∃ event, allowed (call table).1 id event ∧
    RowStep stored event (table.get? id) ((call table).2.get? id)

/-! ## Calls without a statement -/

section Combinators

variable {α : Type} {stored : Int → Int}
variable {allowed : Except OutboxError α → JobID → RowEvent → Prop}

theorem rowSpec_rejected {error : OutboxError}
    (idle : ∀ id, allowed (.error error) id .kept) :
    RowSpec stored allowed (rejected error) := fun table id =>
  ⟨.kept, idle id, .kept (table.get? id)⟩

theorem rowSpec_checked {check : Except OutboxError Unit} {call : RepoCall α}
    (idle : ∀ error id, allowed (.error error) id .kept)
    (passed : check = .ok () → RowSpec stored allowed call) :
    RowSpec stored allowed (checked check call) := by
  cases check with
  | error error => exact rowSpec_rejected (idle error)
  | ok _ => exact passed rfl

/-- A transaction around a call either keeps its effect or undoes it. -/
theorem rowSpec_transaction {allowed : JobID → RowEvent → Prop} {call outer : RepoCall α}
    (idle : ∀ id, allowed id .kept)
    (outcome : ∀ table, (outer table).2 = table ∨ (outer table).2 = (call table).2)
    (inner : RowSpec stored (fun _ => allowed) call) :
    RowSpec stored (fun _ => allowed) outer := by
  intro table id
  rcases outcome table with undone | kept
  · rw [undone]
    exact ⟨.kept, idle id, .kept _⟩
  · rw [kept]
    exact inner table id

end Combinators

/-- `RunInTx` keeps the effect of its callback or undoes it. -/
theorem runReturning_state {σ α : Type} (manager : Manager) (attached : Bool)
    (callback : σ → Except OutboxError α × σ) (state : σ) :
    (manager.runReturning attached callback state).2 = state ∨
      (manager.runReturning attached callback state).2 = (callback state).2 := by
  cases attached with
  | true => exact Or.inr (by rw [manager.runReturning_attached])
  | false =>
    rw [manager.runReturning_outermost]
    rcases callback state with ⟨answer, after⟩
    cases answer with
    | error error => exact Or.inl rfl
    | ok value => exact Or.inr rfl

/-! ## Statements on leased rows -/

section Leases

variable (stored : Int → Int)

def extendEvents (ids : List JobID) (token : LeaseToken) (now until_ : Int) (id : JobID)
    (event : RowEvent) : Prop :=
  event = .kept ∨ id ∈ ids ∧ event = .extended now until_ token

def releaseEvents (ids : List JobID) (token : LeaseToken) (now : Int) (id : JobID)
    (event : RowEvent) : Prop :=
  event = .kept ∨ id ∈ ids ∧ event = .released now token

def deleteEvents (wanted : JobID) (token : LeaseToken) (now : Int) (id : JobID)
    (event : RowEvent) : Prop :=
  event = .kept ∨ id = wanted ∧ event = .deleted now token

def rescheduleEvents (wanted : JobID) (token : LeaseToken) (now availableAt : Int) (id : JobID)
    (event : RowEvent) : Prop :=
  event = .kept ∨ id = wanted ∧ event = .rescheduled now availableAt token

def outcomeEvents (token : LeaseToken) (now : Int) (outcomes : List BatchJobOutcome)
    (id : JobID) (event : RowEvent) : Prop :=
  event = .kept ∨ (outcomes.map BatchJobOutcome.jobID).Nodup ∧
    ∃ outcome ∈ outcomes, outcome.jobID = id ∧
      (outcome.kind.terminal = true ∧ event = .deleted now token ∨
        outcome.kind = .retry ∧ event = .rescheduled now outcome.availableAt token ∨
        outcome.kind = .defer ∧ event = .deferred now outcome.availableAt token)

variable {stored}

theorem alter_rowStep {allowed : JobID → RowEvent → Prop} {rewrite : Job → Option Job}
    (keeps : Table.KeyPreserving Job.id rewrite) (idle : ∀ id, allowed id .kept)
    (rows : ∀ job, ∃ event, allowed job.id event ∧ RowStep stored event (some job) (rewrite job))
    (table : JobsTable) (id : JobID) :
    ∃ event, allowed id event ∧
      RowStep stored event (table.get? id) ((table.alter rewrite keeps).get? id) := by
  rw [Table.get?_alter]
  cases found : table.get? id with
  | none => exact ⟨.kept, idle id, .kept none⟩
  | some job =>
    obtain ⟨event, hallowed, hstep⟩ := rows job
    rw [(Table.get?_eq_some_iff.mp found).2] at hallowed
    exact ⟨event, hallowed, hstep⟩

/-- An `UPDATE` whose assignment is one event on every selected row. -/
theorem update_rowStep {allowed : JobID → RowEvent → Prop} {change : Job → Job}
    (keeps : ∀ job, (change job).id = job.id) (idle : ∀ id, allowed id .kept)
    (rows : ∀ job, selected job = true → ∃ event, allowed job.id event ∧
      RowStep stored event (some job) (some (change job))) (table : JobsTable) (id : JobID) :
    ∃ event, allowed id event ∧
      RowStep stored event (table.get? id) ((table.update selected change keeps).get? id) := by
  refine alter_rowStep (Table.updateRow_keyPreserving keeps selected) idle (fun job => ?_) table id
  by_cases hselected : selected job = true
  · obtain ⟨event, hallowed, hstep⟩ := rows job hselected
    exact ⟨event, hallowed, by simpa [Table.updateRow, hselected] using hstep⟩
  · exact ⟨.kept, idle job.id, by simpa [Table.updateRow, hselected] using RowStep.kept _⟩

theorem rowSpec_extend {ids : List JobID} {until_ : Int} (named : token ≠ .nil) :
    RowSpec stored (fun _ => extendEvents ids token now until_)
      (affecting selected (extendStatement stored ids token now until_)) := by
  refine update_rowStep (extendRow_id _) (fun _ => Or.inl rfl) (fun job hselected => ?_)
  obtain ⟨hid, hleased⟩ := Bool.and_eq_true_iff.mp hselected
  exact ⟨_, Or.inr ⟨of_decide_eq_true hid, rfl⟩, .extended named hleased⟩

theorem rowSpec_release {ids : List JobID} (named : token ≠ .nil) :
    RowSpec stored (fun _ => releaseEvents ids token now)
      (affecting selected (releaseStatement stored ids token now)) := by
  refine update_rowStep releaseRow_id (fun _ => Or.inl rfl) (fun job hselected => ?_)
  obtain ⟨hlease, hattempts⟩ := Bool.and_eq_true_iff.mp hselected
  obtain ⟨hid, hleased⟩ := Bool.and_eq_true_iff.mp hlease
  exact ⟨_, Or.inr ⟨of_decide_eq_true hid, rfl⟩,
    .released named hleased (of_decide_eq_true hattempts)⟩

theorem rowSpec_reschedule {wanted : JobID} {availableAt : Int} (named : token ≠ .nil) :
    RowSpec stored (fun _ => rescheduleEvents wanted token now availableAt)
      (affecting selected (rescheduleStatement stored wanted token now availableAt)) := by
  refine update_rowStep (rescheduleRow_id _) (fun _ => Or.inl rfl) (fun job hselected => ?_)
  obtain ⟨hid, hleased⟩ := Bool.and_eq_true_iff.mp hselected
  exact ⟨_, Or.inr ⟨of_decide_eq_true hid, rfl⟩, .rescheduled named hleased⟩

theorem rowSpec_delete {wanted : JobID} (named : token ≠ .nil) :
    RowSpec stored (fun _ => deleteEvents wanted token now)
      (affecting selected (deleteStatement stored wanted token now)) := by
  refine alter_rowStep (Table.deleteRow_keyPreserving _) (fun _ => Or.inl rfl) (fun job => ?_)
  by_cases hselected : singleSelection stored wanted token now job = true
  · obtain ⟨hid, hleased⟩ := Bool.and_eq_true_iff.mp hselected
    refine ⟨_, Or.inr ⟨of_decide_eq_true hid, rfl⟩, ?_⟩
    simpa [Table.deleteRow, hselected] using RowStep.deleted named hleased
  · exact ⟨.kept, Or.inl rfl, by simpa [Table.deleteRow, hselected] using RowStep.kept _⟩

end Leases

/-! ## Batch outcomes -/

/-- With distinct identifiers, the outcome of a row is the one that names it. -/
theorem find?_outcome (distinct : (outcomes.map BatchJobOutcome.jobID).Nodup)
    (member : outcome ∈ outcomes) :
    outcomes.find? (fun other => decide (other.jobID = outcome.jobID)) = some outcome := by
  cases found : outcomes.find? (fun other => decide (other.jobID = outcome.jobID)) with
  | none =>
    have absent := List.find?_eq_none.mp found outcome member
    simp at absent
  | some other =>
    have hother : other ∈ outcomes := List.mem_of_find?_eq_some found
    have same : other.jobID = outcome.jobID := by simpa using List.find?_some found
    rw [List.inj_on_of_nodup_map distinct hother member same]

theorem requeues_iff {kind : BatchJobOutcomeKind} :
    kind.requeues = true ↔ kind = .retry ∨ kind = .defer := by
  cases kind <;> simp [BatchJobOutcomeKind.requeues]

theorem not_terminal_of_requeues {kind : BatchJobOutcomeKind} (requeues : kind.requeues = true) :
    kind.terminal = false := by
  cases kind <;> simp_all [BatchJobOutcomeKind.requeues, BatchJobOutcomeKind.terminal]

theorem requeue_rowStep {stored : Int → Int} (accepted : AcceptedOutcomes token outcomes)
    (member : outcome ∈ outcomes) (same : outcome.jobID = job.id)
    (requeues : outcome.kind.requeues = true) (isLeased : leased token (stored now) job = true)
    (attempted : 0 < job.attempts) :
    ∃ event, outcomeEvents token now outcomes job.id event ∧
      RowStep stored event (some job)
        (some (requeueRow outcome.kind (stored outcome.availableAt) job)) := by
  rcases requeues_iff.mp requeues with hretry | hdefer
  · refine ⟨.rescheduled now outcome.availableAt token, Or.inr ⟨accepted.distinct, outcome,
      member, same, Or.inr (Or.inl ⟨hretry, rfl⟩)⟩, ?_⟩
    rw [hretry, requeueRow_retry]
    exact .rescheduled accepted.token_ne isLeased
  · refine ⟨.deferred now outcome.availableAt token, Or.inr ⟨accepted.distinct, outcome,
      member, same, Or.inr (Or.inr ⟨hdefer, rfl⟩)⟩, ?_⟩
    rw [hdefer, requeueRow_defer]
    exact .deferred accepted.token_ne isLeased attempted

theorem terminal_rowStep {stored : Int → Int} (accepted : AcceptedOutcomes token outcomes)
    (member : outcome ∈ outcomes) (same : outcome.jobID = job.id)
    (terminal : outcome.kind.terminal = true) (isLeased : leased token (stored now) job = true) :
    ∃ event, outcomeEvents token now outcomes job.id event ∧
      RowStep stored event (some job) none :=
  ⟨.deleted now token, Or.inr ⟨accepted.distinct, outcome, member, same,
    Or.inl ⟨terminal, rfl⟩⟩, .deleted accepted.token_ne isLeased⟩

theorem Pgsql.owned_eq_some (found : Pgsql.owned token now outcomes job = some outcome) :
    leased token (Pgsql.stored now) job = true ∧ outcome ∈ outcomes ∧
      outcome.jobID = job.id := by
  unfold Pgsql.owned at found
  split at found
  · rename_i hleased
    exact ⟨hleased, List.mem_of_find?_eq_some found, by simpa using List.find?_some found⟩
  · cases found

theorem Pgsql.rowSpec_applyOutcomes (accepted : AcceptedOutcomes token outcomes) :
    RowSpec Pgsql.stored (fun _ => outcomeEvents token now outcomes)
      (Pgsql.applyOutcomes token now outcomes) := by
  intro table id
  have effect : (Pgsql.applyOutcomes token now outcomes table).2 =
      table.alter (Pgsql.outcomeRow token now outcomes)
        (Pgsql.outcomeRow_keyPreserving token now outcomes) := by
    simp only [Pgsql.applyOutcomes]
    split <;> rfl
  rw [effect]
  refine alter_rowStep _ (fun _ => Or.inl rfl) (fun job => ?_) table id
  unfold Pgsql.outcomeRow
  cases found : Pgsql.owned token now outcomes job with
  | none => exact ⟨.kept, Or.inl rfl, .kept _⟩
  | some outcome =>
    obtain ⟨hleased, hmember, hsame⟩ := Pgsql.owned_eq_some found
    dsimp only
    split
    · rename_i hterminal
      exact terminal_rowStep accepted hmember hsame hterminal hleased
    · split
      · rename_i hupdated
        -- An accepted requeueing outcome has an availability of its own.
        have hnext : Pgsql.nextAvailableAt now outcome = Pgsql.stored outcome.availableAt :=
          if_neg (accepted.scheduled outcome hmember hupdated.1)
        rw [hnext]
        exact requeue_rowStep accepted hmember hsame hupdated.1 hleased hupdated.2
      · exact ⟨.kept, Or.inl rfl, .kept _⟩

theorem DatabaseSql.named_iff {kinds : BatchJobOutcomeKind → Bool} :
    DatabaseSql.named kinds outcomes job = true ↔
      ∃ outcome ∈ outcomes, outcome.jobID = job.id ∧ kinds outcome.kind = true := by
  simp [DatabaseSql.named]

/-- The update's lookup finds the outcome that names a selected row. -/
def DatabaseSql.Reads
    (inputRow : List BatchJobOutcome → JobID → Option BatchJobOutcome) : Prop :=
  ∀ (outcomes : List BatchJobOutcome) (outcome : BatchJobOutcome),
    (outcomes.map BatchJobOutcome.jobID).Nodup → outcome ∈ outcomes →
      outcome.kind.requeues = true → inputRow outcomes outcome.jobID = some outcome

theorem Sqlite.reads : DatabaseSql.Reads Sqlite.inputRow := by
  intro outcomes outcome distinct member _
  exact find?_outcome distinct member

theorem Mysql.reads : DatabaseSql.Reads Mysql.inputRow := by
  intro outcomes outcome distinct member requeues
  unfold Mysql.inputRow
  cases found : outcomes.find? (fun other =>
      decide (other.jobID = outcome.jobID) && other.kind.requeues) with
  | none =>
    have absent := List.find?_eq_none.mp found outcome member
    simp [requeues] at absent
  | some other =>
    have hother : other ∈ outcomes := List.mem_of_find?_eq_some found
    have same : other.jobID = outcome.jobID := by
      have hfound := List.find?_some found
      simp only [Bool.and_eq_true, decide_eq_true_eq] at hfound
      exact hfound.1
    rw [List.inj_on_of_nodup_map distinct hother member same]

/-- The deletion followed by the update, as one rewrite of a row. -/
def DatabaseSql.outcomeRow (stored : Int → Int)
    (inputRow : List BatchJobOutcome → JobID → Option BatchJobOutcome) (token : LeaseToken)
    (now : Int) (outcomes : List BatchJobOutcome) (job : Job) : Option Job :=
  (Table.deleteRow (DatabaseSql.terminalSelection stored token now outcomes) job).bind
    (Table.updateRow (DatabaseSql.retrySelection stored token now outcomes)
      (DatabaseSql.retryRow stored inputRow outcomes))

theorem DatabaseSql.outcomeRow_keyPreserving (stored : Int → Int)
    (inputRow : List BatchJobOutcome → JobID → Option BatchJobOutcome) (token : LeaseToken)
    (now : Int) (outcomes : List BatchJobOutcome) :
    Table.KeyPreserving Job.id (DatabaseSql.outcomeRow stored inputRow token now outcomes) :=
  (Table.deleteRow_keyPreserving _).comp
    (Table.updateRow_keyPreserving (DatabaseSql.retryRow_id stored inputRow outcomes) _)

theorem DatabaseSql.applyOutcomes_table (stored : Int → Int)
    (inputRow : List BatchJobOutcome → JobID → Option BatchJobOutcome) (token : LeaseToken)
    (now : Int) (outcomes : List BatchJobOutcome) (table : JobsTable) :
    (DatabaseSql.applyOutcomes stored inputRow token now outcomes table).2 =
      table.alter (DatabaseSql.outcomeRow stored inputRow token now outcomes)
        (DatabaseSql.outcomeRow_keyPreserving stored inputRow token now outcomes) := by
  have fused := table.alter_alter
    (Table.deleteRow_keyPreserving (DatabaseSql.terminalSelection stored token now outcomes))
    (Table.updateRow_keyPreserving (DatabaseSql.retryRow_id stored inputRow outcomes)
      (DatabaseSql.retrySelection stored token now outcomes))
  simp only [DatabaseSql.applyOutcomes]
  split <;> exact fused

theorem DatabaseSql.rowSpec_applyOutcomes {stored : Int → Int}
    {inputRow : List BatchJobOutcome → JobID → Option BatchJobOutcome}
    (reads : DatabaseSql.Reads inputRow) (accepted : AcceptedOutcomes token outcomes) :
    RowSpec stored (fun _ => outcomeEvents token now outcomes)
      (DatabaseSql.applyOutcomes stored inputRow token now outcomes) := by
  intro table id
  rw [DatabaseSql.applyOutcomes_table]
  refine alter_rowStep _ (fun _ => Or.inl rfl) (fun job => ?_) table id
  unfold DatabaseSql.outcomeRow
  by_cases hdeleted : DatabaseSql.terminalSelection stored token now outcomes job = true
  · obtain ⟨hnamed, hleased⟩ := Bool.and_eq_true_iff.mp hdeleted
    obtain ⟨outcome, hmember, hsame, hterminal⟩ := DatabaseSql.named_iff.mp hnamed
    simpa [Table.deleteRow, hdeleted] using
      terminal_rowStep accepted hmember hsame hterminal hleased
  · by_cases hupdated : DatabaseSql.retrySelection stored token now outcomes job = true
    · obtain ⟨hnamedLeased, hattempts⟩ := Bool.and_eq_true_iff.mp hupdated
      obtain ⟨hnamed, hleased⟩ := Bool.and_eq_true_iff.mp hnamedLeased
      obtain ⟨outcome, hmember, hsame, hrequeues⟩ := DatabaseSql.named_iff.mp hnamed
      have hread := reads outcomes outcome accepted.distinct hmember hrequeues
      rw [hsame] at hread
      have hrow : DatabaseSql.retryRow stored inputRow outcomes job =
          requeueRow outcome.kind (stored outcome.availableAt) job := by
        simp [DatabaseSql.retryRow, hread]
      simpa [Table.deleteRow, Table.updateRow, hdeleted, hupdated, hrow] using
        requeue_rowStep accepted hmember hsame hrequeues hleased (of_decide_eq_true hattempts)
    · refine ⟨.kept, Or.inl rfl, ?_⟩
      simpa [Table.deleteRow, Table.updateRow, hdeleted, hupdated] using RowStep.kept (some job)

end OutboxFormal.Storage
