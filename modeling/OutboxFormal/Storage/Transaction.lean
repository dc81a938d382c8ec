import OutboxFormal.Storage.Statements

/-!
# Transaction managers

`RunInTx` of the three SQL managers. A callback sees and changes the state of
the database; it returns, fails, panics, or unwinds through `runtime.Goexit`.
With a transaction already attached to the context the callback borrows it and
nothing is finalized. Otherwise the manager begins a transaction, commits only
after a normal return without an error, and rolls back in every other case.
-/

namespace OutboxFormal.Storage

open Library

/-- How a callback ends. -/
inductive Exit (α : Type) where
  | returned (value : α)
  | failed (error : OutboxError)
  | panicked (value : String)
  | goexit
  deriving DecidableEq, Repr

/-- The exit of a callback that always returns. -/
def Exit.ofExcept {α : Type} : Except OutboxError α → Exit α
  | .ok value => .returned value
  | .error error => .failed error

/-- The answer a caller sees; a callback built by `ofExcept` never unwinds. -/
def Exit.toExcept {α : Type} : Exit α → Except OutboxError α
  | .returned value => .ok value
  | .failed error => .error error
  | .panicked value => .error (.text value)
  | .goexit => .error (.text "runtime.Goexit")

/-- What the driver's `Commit` did: an ambiguous commit took effect and still
reported an error. -/
inductive CommitResult where
  | committed
  | failed (error : OutboxError)
  | ambiguous (error : OutboxError)
  deriving DecidableEq, Repr

/-- The driver's answers during one owned transaction. -/
structure Driver where
  beginError : Option OutboxError
  commit : CommitResult
  rollbackError : Option OutboxError

def Driver.faultless : Driver := ⟨none, .committed, none⟩

/-- The texts of one manager, and whether it also rolls back after a failed
commit. -/
structure Manager where
  beginText : String
  commitText : String
  rollbackText : String
  rollsBackFailedCommit : Bool

namespace Manager

/-- `backends/sqlite/storage/transaction` and `backends/mysql/storage/transaction`. -/
def databaseSql : Manager := ⟨"begin tx", "commit", "rollback", false⟩

/-- `backends/pgsql/storage/transaction`. -/
def pgx : Manager := ⟨"can't begin transaction", "commit failed", "rollback failed", true⟩

variable (manager : Manager)

/-- The error of an attempted rollback, joined after the error that caused it. -/
def withRollback (driver : Driver) (error : OutboxError) : OutboxError :=
  match driver.rollbackError with
  | none => error
  | some rollback => .both error "\n" (errorContext manager.rollbackText rollback)

def commitError (driver : Driver) (error : OutboxError) : OutboxError :=
  let failure := errorContext manager.commitText error
  if manager.rollsBackFailedCommit then manager.withRollback driver failure else failure

/-- `RunInTx`: `attached` says whether the context already carries a transaction. -/
def runInTx {σ α : Type} (driver : Driver) (attached : Bool) (callback : σ → Exit α × σ)
    (state : σ) : Exit α × σ :=
  if attached then callback state
  else
    match driver.beginError with
    | some error => (.failed (errorContext manager.beginText error), state)
    | none =>
      match callback state with
      | (.returned value, after) =>
        match driver.commit with
        | .committed => (.returned value, after)
        | .failed error => (.failed (manager.commitError driver error), state)
        | .ambiguous error => (.failed (manager.commitError driver error), after)
      | (.failed error, _) => (.failed (manager.withRollback driver error), state)
      | (.panicked value, _) =>
        (.failed (manager.withRollback driver (.text ("panic recovered: " ++ value))), state)
      | (.goexit, _) => (.goexit, state)

/-- The answer of a transaction over a callback that returns, with a driver
none of whose calls fails. -/
def runReturning {σ α : Type} (attached : Bool) (callback : σ → Except OutboxError α × σ)
    (state : σ) : Except OutboxError α × σ :=
  let result := manager.runInTx .faultless attached
    (fun before => (Exit.ofExcept (callback before).1, (callback before).2)) state
  (result.1.toExcept, result.2)

/-- Borrowing a transaction runs the callback and finalizes nothing. -/
theorem runReturning_attached {σ α : Type} (callback : σ → Except OutboxError α × σ)
    (state : σ) : manager.runReturning true callback state = callback state := by
  rcases hcall : callback state with ⟨answer, after⟩
  cases answer <;> simp [runReturning, runInTx, Exit.ofExcept, Exit.toExcept, hcall]

/-- An owned transaction commits a success and undoes every write of a failure. -/
theorem runReturning_outermost {σ α : Type} (callback : σ → Except OutboxError α × σ)
    (state : σ) :
    manager.runReturning false callback state =
      match callback state with
      | (.ok value, after) => (.ok value, after)
      | (.error error, _) => (.error error, state) := by
  rcases hcall : callback state with ⟨answer, after⟩
  cases answer <;>
    simp [runReturning, runInTx, Exit.ofExcept, Exit.toExcept, Driver.faultless,
      withRollback, hcall]

end Manager

end OutboxFormal.Storage
