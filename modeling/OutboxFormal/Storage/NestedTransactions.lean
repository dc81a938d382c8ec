import OutboxFormal.Storage.Transaction

/-!
# Trees of nested transactions

A callback of `RunInTx` runs statements, makes nested calls whose errors it may
ignore or propagate, and returns, panics or unwinds through `runtime.Goexit`.
The managers reach the driver through the transaction of the context; a call
under a context with a transaction only runs its callback. The plain execution
of the same tree, with no transaction at all, says what the tree writes: an
owned transaction keeps all of it or nothing.
-/

namespace OutboxFormal.Storage

open Library

/-! ## Call trees -/

/-- A callback over a database with states `σ`. A statement reads and writes the
database and has a result in `ρ`. -/
inductive TxTree (σ ρ : Type) where
  | done (err : Option OutboxError)
  | panic (value : String)
  | goexit
  | exec (statement : σ → ρ × σ) (next : ρ → TxTree σ ρ)
  | nested (callback : TxTree σ ρ) (next : Option OutboxError → TxTree σ ρ)

inductive DriverCall where
  | beginTx
  | commit
  | rollback
  deriving DecidableEq, Repr

/-- A database with at most one open transaction, and the calls made so far,
latest first. -/
structure Session (σ : Type) where
  durable : σ
  working : Option σ
  calls : List DriverCall

namespace Session

variable {σ ρ : Type}

/-- The driver's transactions are atomic: a commit that takes effect makes the
working state durable, and anything else drops it. -/
def commit (session : Session σ) : CommitResult → Session σ
  | .committed | .ambiguous _ =>
    ⟨session.working.getD session.durable, none, .commit :: session.calls⟩
  | .failed _ => ⟨session.durable, none, .commit :: session.calls⟩

def rollback (session : Session σ) : Session σ :=
  ⟨session.durable, none, .rollback :: session.calls⟩

def beginTx (session : Session σ) : Session σ :=
  ⟨session.durable, some session.durable, .beginTx :: session.calls⟩

/-- A statement runs in the transaction of its context, if there is one. -/
def exec (session : Session σ) (attached : Bool) (statement : σ → ρ × σ) : ρ × Session σ :=
  match attached, session.working with
  | true, some working =>
    ((statement working).1, { session with working := some (statement working).2 })
  | _, _ =>
    ((statement session.durable).1, { session with durable := (statement session.durable).2 })

end Session

def CommitResult.error : CommitResult → Option OutboxError
  | .committed => none
  | .failed error | .ambiguous error => some error

def CommitResult.tookEffect : CommitResult → Bool
  | .committed | .ambiguous _ => true
  | .failed _ => false

/-! ## The managers -/

/-- A manager with the text of its check that it is configured, if it has one,
and the stack trace it puts into the error of a panic. -/
structure NestingManager extends Manager where
  notConfigured : Option String
  stack : String

namespace NestingManager

def sqlite (stack : String) : NestingManager :=
  ⟨.databaseSql, some "sqlite transaction manager is not configured", stack⟩

def mysql (stack : String) : NestingManager :=
  ⟨.databaseSql, some "mysql transaction manager is not configured", stack⟩

def pgsql (stack : String) : NestingManager := ⟨.pgx, none, stack⟩

variable {σ ρ : Type} (manager : NestingManager) (driver : Driver)

/-- `errors.Join` of what failed so far with the error of the rollback. -/
def joinRollback (err : Option OutboxError) : Option OutboxError :=
  match driver.rollbackError with
  | none => err
  | some rollback =>
    let rollback := errorContext manager.rollbackText rollback
    match err with
    | none => some rollback
    | some error => some (.both error "\n" rollback)

/-- The deferred function: `err` is the named result after `recover`. -/
def deferred (callbackReturned : Bool) (err : Option OutboxError) (session : Session σ) :
    Option OutboxError × Session σ :=
  if callbackReturned ∧ err = none then
    match driver.commit.error with
    | none => (none, session.commit driver.commit)
    | some error =>
      let err := some (errorContext manager.commitText error)
      if manager.rollsBackFailedCommit then
        (manager.joinRollback driver err, (session.commit driver.commit).rollback)
      else (err, session.commit driver.commit)
  else (manager.joinRollback driver err, session.rollback)

/-- What `RunInTx` returns after its deferred function ran. -/
def finish : Exit Unit → Session σ → Exit Unit × Session σ
  | .goexit, session => (.goexit, (manager.deferred driver false none session).2)
  | .panicked value, session =>
    let panic := .text ("panic recovered: " ++ value ++ "\nstack:\n" ++ manager.stack)
    ending (manager.deferred driver false (some panic) session)
  | .failed error, session => ending (manager.deferred driver true (some error) session)
  | .returned _, session => ending (manager.deferred driver true none session)
where
  ending : Option OutboxError × Session σ → Exit Unit × Session σ
    | (none, session) => (.returned (), session)
    | (some error, session) => (.failed error, session)

/-- The text of a failed check. -/
def refusal (configured : Bool) : Option String :=
  if configured then none else manager.notConfigured

/-- `RunInTx`; `attached` says whether the context carries a transaction. -/
def runInTx (configured attached : Bool) (fn : Bool → Session σ → Exit Unit × Session σ)
    (session : Session σ) : Exit Unit × Session σ :=
  match manager.refusal configured with
  | some text => (.failed (.text text), session)
  | none =>
    if attached then fn attached session
    else
      match driver.beginError with
      | some error => (.failed (errorContext manager.beginText error), session)
      | none =>
        let ended := fn true session.beginTx
        manager.finish driver ended.1 ended.2

/-- Run a callback; a nested call that panics or exits unwinds it. -/
def run (configured : Bool) : TxTree σ ρ → Bool → Session σ → Exit Unit × Session σ
  | .done none, _, session => (.returned (), session)
  | .done (some error), _, session => (.failed error, session)
  | .panic value, _, session => (.panicked value, session)
  | .goexit, _, session => (.goexit, session)
  | .exec statement next, attached, session =>
    let answer := session.exec attached statement
    run configured (next answer.1) attached answer.2
  | .nested callback next, attached, session =>
    match manager.runInTx driver configured attached (run configured callback) session with
    | (.returned _, after) => run configured (next none) attached after
    | (.failed error, after) => run configured (next (some error)) attached after
    | (exit, after) => (exit, after)

end NestingManager

/-! ## Plain execution -/

/-- The tree with no transaction at all: statements run on the state, and a
nested call is a call. -/
def TxTree.plain {σ ρ : Type} : TxTree σ ρ → σ → Exit Unit × σ
  | .done none, state => (.returned (), state)
  | .done (some error), state => (.failed error, state)
  | .panic value, state => (.panicked value, state)
  | .goexit, state => (.goexit, state)
  | .exec statement next, state => (next (statement state).1).plain (statement state).2
  | .nested callback next, state =>
    match callback.plain state with
    | (.returned _, after) => (next none).plain after
    | (.failed error, after) => (next (some error)).plain after
    | (exit, after) => (exit, after)

namespace NestingManager

variable {σ ρ : Type} {manager : NestingManager} {driver : Driver} {configured : Bool}

/-! ## Nested calls -/

theorem runInTx_attached (accepted : manager.refusal configured = none)
    (fn : Bool → Session σ → Exit Unit × Session σ) (session : Session σ) :
    manager.runInTx driver configured true fn session = fn true session := by
  simp [runInTx, accepted]

/-- Inside a transaction a tree writes to the working state what its plain
execution writes, however it ends, and finalizes nothing. -/
theorem run_attached (accepted : manager.refusal configured = none) (tree : TxTree σ ρ)
    (durable working : σ) (calls : List DriverCall) :
    manager.run driver configured tree true ⟨durable, some working, calls⟩ =
      ((tree.plain working).1, ⟨durable, some (tree.plain working).2, calls⟩) := by
  induction tree generalizing working with
  | done err =>
    cases err with
    | none => rfl
    | some error => rfl
  | panic value => rfl
  | goexit => rfl
  | exec statement next ih => exact ih (statement working).1 (statement working).2
  | nested callback next first rest =>
    unfold run TxTree.plain
    rw [runInTx_attached accepted, first]
    rcases callback.plain working with ⟨exit, after⟩
    cases exit with
    | returned value => exact rest none after
    | failed error => exact rest (some error) after
    | panicked value => rfl
    | goexit => rfl

/-! ## The outermost call -/

/-- The call of a tree under a context without a transaction. -/
def outermost (manager : NestingManager) (driver : Driver) (configured : Bool) (tree : TxTree σ ρ)
    (session : Session σ) : Exit Unit × Session σ :=
  manager.runInTx driver configured false (manager.run driver configured tree) session

/-- The callback ran and returned nil, and the commit took effect. -/
def Decides (manager : NestingManager) (driver : Driver) (configured : Bool) (tree : TxTree σ ρ)
    (session : Session σ) : Prop :=
  manager.refusal configured = none ∧ driver.beginError = none ∧
    (manager.run driver configured tree true session.beginTx).1 = .returned () ∧
    driver.commit.tookEffect = true

theorem joinRollback_some (error : OutboxError) :
    ∃ joined, manager.joinRollback driver (some error) = some joined := by
  unfold joinRollback
  split <;> exact ⟨_, rfl⟩

/-- A deferred function that may not commit rolls back. -/
theorem deferred_rollback {callbackReturned : Bool} {err : Option OutboxError}
    (session : Session σ) (aborts : ¬ (callbackReturned = true ∧ err = none)) :
    manager.deferred driver callbackReturned err session =
      (manager.joinRollback driver err, session.rollback) :=
  if_neg aborts

/-- After a callback that failed, the writes are gone and the error is kept. -/
theorem finish_failure {exit : Exit Unit} (session : Session σ)
    (abnormal : exit ≠ .returned ()) :
    (manager.finish driver exit session).2 = session.rollback ∧
      (exit = .goexit ∧ (manager.finish driver exit session).1 = .goexit ∨
        ∃ error, (manager.finish driver exit session).1 = .failed error) := by
  cases exit with
  | returned value => exact absurd rfl abnormal
  | goexit =>
    refine ⟨?_, Or.inl ⟨rfl, rfl⟩⟩
    simp [finish, deferred_rollback]
  | failed error =>
    obtain ⟨joined, same⟩ := @joinRollback_some manager driver error
    simp [finish, finish.ending, deferred_rollback, same]
  | panicked value =>
    obtain ⟨joined, same⟩ := @joinRollback_some manager driver
      (.text ("panic recovered: " ++ value ++ "\nstack:\n" ++ manager.stack))
    simp [finish, finish.ending, deferred_rollback, same]

/-- A commit that reports an error fails the call; the rollback after it, where
the manager makes one, finds no open transaction. -/
theorem finish_commitError {error : OutboxError} (session : Session σ)
    (reported : driver.commit.error = some error) :
    (manager.finish driver (.returned ()) session).2.durable =
        (session.commit driver.commit).durable ∧
      (manager.finish driver (.returned ()) session).2.working = none ∧
      ∃ failure, (manager.finish driver (.returned ()) session).1 = .failed failure := by
  have dropped : (session.commit driver.commit).working = none := by
    cases driver.commit <;> rfl
  obtain ⟨joined, same⟩ := @joinRollback_some manager driver
    (errorContext manager.commitText error)
  cases both : manager.rollsBackFailedCommit with
  | true => simp [finish, finish.ending, deferred, reported, both, same, Session.rollback]
  | false => simp [finish, finish.ending, deferred, reported, both, dropped]

/-- After a callback that returned nil the commit decides. -/
theorem finish_success (durable working : σ) (calls : List DriverCall) :
    (manager.finish driver (.returned ()) ⟨durable, some working, calls⟩).2.durable =
        (if driver.commit.tookEffect then working else durable) ∧
      (manager.finish driver (.returned ()) ⟨durable, some working, calls⟩).2.working = none ∧
      (driver.commit.tookEffect = true ∨
        ∃ error, (manager.finish driver (.returned ()) ⟨durable, some working, calls⟩).1 =
          .failed error) := by
  cases result : driver.commit with
  | committed =>
    simp [finish, finish.ending, deferred, result, CommitResult.error, CommitResult.tookEffect,
      Session.commit]
  | failed error =>
    obtain ⟨kept, dropped, failure⟩ := @finish_commitError σ manager driver error
      ⟨durable, some working, calls⟩ (by rw [result]; rfl)
    rw [result] at kept
    exact ⟨kept, dropped, Or.inr failure⟩
  | ambiguous error =>
    obtain ⟨kept, dropped, -⟩ := @finish_commitError σ manager driver error
      ⟨durable, some working, calls⟩ (by rw [result]; rfl)
    rw [result] at kept
    exact ⟨kept, dropped, Or.inl rfl⟩

/-- A call that does not begin a transaction fails and does nothing. -/
theorem outermost_refused {tree : TxTree σ ρ} {session : Session σ}
    (refused : ¬ (manager.refusal configured = none ∧ driver.beginError = none)) :
    ∃ error, manager.outermost driver configured tree session = (.failed error, session) := by
  unfold outermost runInTx
  cases checked : manager.refusal configured with
  | some text => exact ⟨_, rfl⟩
  | none =>
    cases begun : driver.beginError with
    | some error => exact ⟨_, rfl⟩
    | none => exact absurd ⟨checked, begun⟩ refused

/-- A call that begins a transaction finalizes the plain execution of its tree. -/
theorem outermost_begun {tree : TxTree σ ρ} {state : σ} {calls : List DriverCall}
    (accepted : manager.refusal configured = none) (begun : driver.beginError = none) :
    manager.outermost driver configured tree ⟨state, none, calls⟩ =
      manager.finish driver (tree.plain state).1
        ⟨state, some (tree.plain state).2, .beginTx :: calls⟩ := by
  simp [outermost, runInTx, accepted, begun, Session.beginTx, run_attached accepted]

theorem decides_iff {tree : TxTree σ ρ} {state : σ} {calls : List DriverCall}
    (accepted : manager.refusal configured = none) (begun : driver.beginError = none) :
    manager.Decides driver configured tree ⟨state, none, calls⟩ ↔
      (tree.plain state).1 = .returned () ∧ driver.commit.tookEffect = true := by
  simp [Decides, accepted, begun, Session.beginTx, run_attached accepted]

/-- The driver-level managers refine `RunInTx` over plain state. -/
theorem outermost_refines {tree : TxTree σ ρ} {state : σ} {calls : List DriverCall}
    (accepted : manager.refusal configured = none) :
    (manager.outermost driver configured tree ⟨state, none, calls⟩).2.durable =
      (manager.toManager.runInTx driver false tree.plain state).2 := by
  cases begun : driver.beginError with
  | some error => simp [outermost, runInTx, Manager.runInTx, accepted, begun]
  | none =>
    rw [outermost_begun accepted begun]
    rcases ended : tree.plain state with ⟨exit, after⟩
    cases exit with
    | returned value =>
      rw [(finish_success state after _).1]
      cases result : driver.commit <;>
        simp [Manager.runInTx, begun, ended, result, CommitResult.tookEffect]
    | failed error => simp [finish_failure, Manager.runInTx, begun, ended, Session.rollback]
    | panicked value => simp [finish_failure, Manager.runInTx, begun, ended, Session.rollback]
    | goexit => simp [finish_failure, Manager.runInTx, begun, ended, Session.rollback]

section Outermost

variable {tree : TxTree σ ρ} {state : σ} {calls : List DriverCall}

theorem outermost_decided (decides : manager.Decides driver configured tree ⟨state, none, calls⟩) :
    (manager.outermost driver configured tree ⟨state, none, calls⟩).2.durable =
      (tree.plain state).2 := by
  have accepted := decides.1
  have begun := decides.2.1
  obtain ⟨returned, effective⟩ := (decides_iff accepted begun).mp decides
  rw [outermost_begun accepted begun, returned, (finish_success _ _ _).1, if_pos effective]

theorem outermost_undecided
    (undecided : ¬ manager.Decides driver configured tree ⟨state, none, calls⟩) :
    (manager.outermost driver configured tree ⟨state, none, calls⟩).2.durable = state ∧
      ((manager.outermost driver configured tree ⟨state, none, calls⟩).1 = .goexit ∨
        ∃ error, (manager.outermost driver configured tree ⟨state, none, calls⟩).1 =
          .failed error) := by
  by_cases starts : manager.refusal configured = none ∧ driver.beginError = none
  · obtain ⟨accepted, begun⟩ := starts
    rw [outermost_begun accepted begun]
    rw [decides_iff accepted begun] at undecided
    by_cases returned : (tree.plain state).1 = .returned ()
    · rw [returned]
      obtain ⟨durable, -, outcome⟩ := @finish_success σ manager driver state
        (tree.plain state).2 (.beginTx :: calls)
      have ineffective : ¬ driver.commit.tookEffect = true := fun effective =>
        undecided ⟨returned, effective⟩
      rw [if_neg ineffective] at durable
      exact ⟨durable, Or.inr (outcome.resolve_left ineffective)⟩
    · obtain ⟨undone, ended⟩ := @finish_failure σ manager driver _
        ⟨state, some (tree.plain state).2, .beginTx :: calls⟩ returned
      rw [undone]
      exact ⟨rfl, ended.imp And.right id⟩
  · obtain ⟨error, failed⟩ := @outermost_refused σ ρ manager driver configured tree
      ⟨state, none, calls⟩ starts
    rw [failed]
    exact ⟨rfl, Or.inr ⟨error, rfl⟩⟩

theorem outermost_closed :
    (manager.outermost driver configured tree ⟨state, none, calls⟩).2.working = none := by
  by_cases starts : manager.refusal configured = none ∧ driver.beginError = none
  · rw [outermost_begun starts.1 starts.2]
    by_cases returned : (tree.plain state).1 = .returned ()
    · rw [returned]
      exact (finish_success _ _ _).2.1
    · rw [(finish_failure _ returned).1]
      rfl
  · obtain ⟨error, failed⟩ := @outermost_refused σ ρ manager driver configured tree
      ⟨state, none, calls⟩ starts
    rw [failed]

end Outermost

end NestingManager

/-- The writes of a whole tree of nested calls become durable if the outermost
callback returned nil and the commit took effect. Otherwise none does, and the
outermost call fails unless it unwinds. A nested call only runs its callback,
whose writes the rest of the tree sees. -/
theorem outermost_callback_decides {σ ρ : Type} (manager : NestingManager) (driver : Driver)
    (configured : Bool) (tree : TxTree σ ρ) (state : σ) (calls : List DriverCall) :
    (manager.Decides driver configured tree ⟨state, none, calls⟩ →
        (manager.outermost driver configured tree ⟨state, none, calls⟩).2.durable =
          (tree.plain state).2) ∧
      (¬ manager.Decides driver configured tree ⟨state, none, calls⟩ →
        (manager.outermost driver configured tree ⟨state, none, calls⟩).2.durable = state ∧
          ((manager.outermost driver configured tree ⟨state, none, calls⟩).1 = .goexit ∨
            ∃ error, (manager.outermost driver configured tree ⟨state, none, calls⟩).1 =
              .failed error)) ∧
      (manager.outermost driver configured tree ⟨state, none, calls⟩).2.working = none ∧
      (manager.refusal configured = none → ∀ (callback : TxTree σ ρ) (durable working : σ) calls,
        manager.runInTx driver configured true (manager.run driver configured callback)
            ⟨durable, some working, calls⟩ =
          ((callback.plain working).1, ⟨durable, some (callback.plain working).2, calls⟩)) := by
  refine ⟨NestingManager.outermost_decided, NestingManager.outermost_undecided,
    NestingManager.outermost_closed, fun accepted callback durable working calls => ?_⟩
  rw [NestingManager.runInTx_attached accepted, NestingManager.run_attached accepted]

namespace Sample

/-- Write 1, call a callback that writes 2 and fails, ignore its error, write 3. -/
def ignoring : TxTree (List Nat) Unit :=
  .exec (fun rows => ((), 1 :: rows)) fun _ =>
    .nested (.exec (fun rows => ((), 2 :: rows)) fun _ => .done (some (.text "nested"))) fun _ =>
      .exec (fun rows => ((), 3 :: rows)) fun _ => .done none

end Sample

/-- The write of a failed nested call commits with the rest of its tree, and is
lost with it when the commit fails. -/
theorem outermost_callback_decides_ignoring :
    ((NestingManager.sqlite "").outermost .faultless true Sample.ignoring
        ⟨[], none, []⟩).2.durable = [3, 2, 1] ∧
      ((NestingManager.pgsql "").outermost ⟨none, .failed (.text "down"), none⟩ true
        Sample.ignoring ⟨[], none, []⟩).2.durable = [] ∧
      (NestingManager.mysql "").runInTx .faultless true true
          ((NestingManager.mysql "").run .faultless true Sample.ignoring) ⟨[], some [0], []⟩ =
        (.returned (), ⟨[], some [3, 2, 1, 0], []⟩) :=
  ⟨(outermost_callback_decides (.sqlite "") .faultless true Sample.ignoring [] []).1
      ⟨rfl, rfl, rfl, rfl⟩,
    ((outermost_callback_decides (.pgsql "") ⟨none, .failed (.text "down"), none⟩ true
      Sample.ignoring [] []).2.1 fun decides => nomatch decides.2.2.2).1,
    (outermost_callback_decides (.mysql "") .faultless true Sample.ignoring [] []).2.2.2 rfl
      Sample.ignoring [] [0] []⟩

end OutboxFormal.Storage
