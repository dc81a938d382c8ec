import OutboxFormal.Storage.Sqlite

/-!
# Immediate transactions of the SQLite repository

A manual `BEGIN IMMEDIATE` is invisible to `database/sql`, so the repository
cleans up after it: a failed transaction is rolled back, and a connection whose
state is uncertain is discarded before `Close` hands it back to the pool. Every
driver call may report an error, with or without having taken effect. An error
`ErrBadConn` makes `database/sql` close the connection and drop it from the pool.
-/

namespace OutboxFormal.Storage.Sqlite.Immediate

open Library

variable {exit : Exit Unit} {statement : Statement} {replies : Replies}

/-! ## Connections -/

/-- `driver.ErrBadConn`. -/
def errBadConn : ErrorLeaf := .external "driver: bad connection"

/-- `sql.ErrConnDone`. -/
def errConnDone : ErrorLeaf := .external "sql: connection is already closed"

/-- The statements the repository itself runs around the work. -/
inductive Statement where
  | busyTimeout
  | beginImmediate
  | commit
  | rollback
  deriving DecidableEq, Repr

/-- A connection: the database as every other connection sees it, the state inside
the open transaction if there is one, whether `database/sql` has closed and dropped
the connection, and the statements it was given. -/
structure Connection (σ : Type) where
  database : σ
  transaction : Option σ
  done : Bool
  statements : List Statement
  deriving DecidableEq, Repr

namespace Connection

variable {σ : Type}

def pooled (database : σ) : Connection σ := ⟨database, none, false, []⟩

def given (connection : Connection σ) (statement : Statement) : Connection σ :=
  { connection with statements := connection.statements ++ [statement] }

/-- The physical connection is closed; SQLite rolls its transaction back. -/
def drop (connection : Connection σ) : Connection σ :=
  { connection with transaction := none, done := true }

end Connection

/-- What a statement does where SQLite accepts it. -/
def Statement.effect {σ : Type} : Statement → Connection σ → Option (Connection σ)
  | .busyTimeout, connection => some connection
  | .beginImmediate, connection =>
    if connection.transaction.isSome then none
    else some { connection with transaction := some connection.database }
  | .commit, connection =>
    connection.transaction.map fun after =>
      { connection with database := after, transaction := none }
  | .rollback, connection =>
    connection.transaction.map fun _ => { connection with transaction := none }

/-- The driver's answer to a statement; a reported error may hide an effect. -/
inductive Reply where
  | succeeded
  | failed (error : OutboxError) (effective : Bool)

/-- The answers of one transaction: to the statements, to `DB.Conn`, to `Conn.Raw`
and to `Conn.Close`. -/
structure Replies where
  conn : Option OutboxError
  busyTimeout : Reply
  beginImmediate : Reply
  commit : Reply
  rollback : Reply
  raw : Option OutboxError
  close : Option OutboxError

/-- The replies of calls none of which fails. -/
def Replies.faultless : Replies where
  conn := none
  busyTimeout := .succeeded
  beginImmediate := .succeeded
  commit := .succeeded
  rollback := .succeeded
  raw := some (.leaf errBadConn)
  close := none

section Calls

variable {σ : Type}

/-- `conn.ExecContext`. -/
def exec (statement : Statement) (reply : Reply) (connection : Connection σ) :
    Option OutboxError × Connection σ :=
  let connection := connection.given statement
  if connection.done then (some (.leaf errConnDone), connection)
  else
    match reply with
    | .succeeded =>
      match statement.effect connection with
      | some after => (none, after)
      | none => (some (.leaf (.external "SQL logic error")), connection)
    | .failed error effective =>
      let after := if effective then (statement.effect connection).getD connection else connection
      (some error, if error.is errBadConn then after.drop else after)

/-- `conn.Raw(func(any) error { return driver.ErrBadConn })`. -/
def raw (reply : Option OutboxError) (connection : Connection σ) :
    Option OutboxError × Connection σ :=
  if connection.done then (some (.leaf errConnDone), connection)
  else (reply, if reply.any (·.is errBadConn) then connection.drop else connection)

def discardImmediateConnection (reply : Option OutboxError) (connection : Connection σ) :
    Option OutboxError × Connection σ :=
  match raw reply connection with
  | (err, after) =>
    if err.any fun error => error.is errBadConn || error.is errConnDone then (none, after)
    else (err, after)

/-- `resultErr = errors.Join(resultErr, errors…)` in a deferred function; a panic goes
on. -/
def joining (exit : Exit Unit) (errors : List (Option OutboxError)) : Exit Unit :=
  match exit with
  | .returned _ =>
    match GoError.join errors with
    | none => .returned ()
    | some error => .failed error
  | .failed error => .failed ((GoError.join (some error :: errors)).getD error)
  | .panicked value => .panicked value
  | .goexit => .goexit

/-- The deferred cleanup of a transaction that is not committed. -/
def rollBack (replies : Replies) (exit : Exit Unit) (connection : Connection σ) :
    Exit Unit × Connection σ :=
  match exec .rollback replies.rollback connection with
  | (none, after) => (exit, after)
  | (some error, after) =>
    let discarded := discardImmediateConnection replies.raw after
    (joining exit [some (errorContext "rollback immediate transaction" error), discarded.1],
      discarded.2)

/-- The deferred `conn.Close()`. -/
def close (replies : Replies) (exit : Exit Unit) (connection : Connection σ) :
    Exit Unit × Connection σ :=
  match (if connection.done then some (.leaf errConnDone) else replies.close) with
  | none => (exit, connection)
  | some error =>
    if error.is errConnDone then (exit, connection)
    else (joining exit [some (errorContext "close immediate transaction connection" error)],
      connection)

/-- A work function: any statements on the connection, and any way to end. -/
abbrev Work (σ : Type) := Connection σ → Exit Unit × Connection σ

def transact (work : Work σ) (replies : Replies) (connection : Connection σ) :
    Exit Unit × Connection σ :=
  match work connection with
  | (.returned _, worked) =>
    match exec .commit replies.commit worked with
    | (none, committed) => (.returned (), committed)
    | (some error, after) => rollBack replies (.failed error) after
  | (exit, worked) => rollBack replies exit worked

def runImmediateTransaction (work : Work σ) (replies : Replies) (connection : Connection σ) :
    Exit Unit × Connection σ :=
  match exec .busyTimeout replies.busyTimeout connection with
  | (some error, after) => close replies (.failed error) after
  | (none, ready) =>
    match exec .beginImmediate replies.beginImmediate ready with
    | (some error, after) =>
      let discarded := discardImmediateConnection replies.raw after
      close replies (joining (.failed error) [discarded.1]) discarded.2
    | (none, begun) =>
      let ended := transact work replies begun
      close replies ended.1 ended.2

/-- `attached` is the transaction of the caller's context. -/
def withImmediateTransaction (attached : Option (Connection σ)) (work : Work σ)
    (replies : Replies) (database : σ) : Exit Unit × Connection σ :=
  match attached with
  | some tx => work tx
  | none =>
    match replies.conn with
    | some error => (.failed error, .pooled database)
    | none => runImmediateTransaction work replies (.pooled database)

/-! ## Single calls -/

theorem exec_succeeds {reply : Reply} {connection after : Connection σ}
    (ran : exec statement reply connection = (none, after)) :
    reply = .succeeded ∧ statement.effect (connection.given statement) = some after := by
  unfold exec at ran
  dsimp only at ran
  split at ran
  · cases ran
  · split at ran
    · split at ran
      · rename_i accepted
        cases ran
        exact ⟨rfl, accepted⟩
      · cases ran
    · cases ran

/-- A statement leaves the connection, makes its effect, or loses the connection. -/
theorem exec_cases (holds : Connection σ → Prop) (reply : Reply) {connection : Connection σ}
    (kept : holds (connection.given statement))
    (applied : ∀ after, statement.effect (connection.given statement) = some after →
      holds after) (dropped : ∀ other, holds other → holds other.drop) :
    holds (exec statement reply connection).2 := by
  have reached : ∀ effective : Bool, holds (if effective = true then
      (statement.effect (connection.given statement)).getD (connection.given statement)
      else connection.given statement) := by
    intro effective
    split
    · cases accepted : statement.effect (connection.given statement) with
      | none => exact kept
      | some after => exact applied after accepted
    · exact kept
  unfold exec
  dsimp only
  split
  · exact kept
  · cases reply with
    | succeeded =>
      dsimp only
      split
      · rename_i after accepted
        exact applied after accepted
      · exact kept
    | failed error effective =>
      dsimp only
      split
      · exact dropped _ (reached effective)
      · exact reached effective

theorem exec_database (noCommit : statement ≠ .commit) (reply : Reply) (connection : Connection σ) :
    (exec statement reply connection).2.database = connection.database := by
  apply exec_cases (fun after => after.database = connection.database) reply rfl
  · intro after accepted
    cases statement with
    | busyTimeout =>
      cases accepted
      rfl
    | beginImmediate =>
      simp only [Statement.effect] at accepted
      split at accepted
      · cases accepted
      · cases accepted
        rfl
    | commit => exact absurd rfl noCommit
    | rollback =>
      obtain ⟨state, _, rfl⟩ := Option.map_eq_some_iff.mp accepted
      rfl
  · exact fun _ same => same

/-- A commit that reports an error may have taken effect. -/
theorem exec_commit_failed {reply : Reply} {connection after : Connection σ} {error : OutboxError}
    (ran : exec .commit reply connection = (some error, after)) :
    after.database = connection.database ∨
      ∃ state, reply = .failed error true ∧ connection.transaction = some state ∧
        after.database = state := by
  unfold exec at ran
  dsimp only at ran
  split at ran
  · cases ran
    exact .inl rfl
  · split at ran
    · split at ran
      · cases ran
      · cases ran
        exact .inl rfl
    · rename_i reported effective
      have same : (if reported.is errBadConn = true then
          (if effective = true then (Statement.effect .commit (connection.given .commit)).getD
            (connection.given .commit) else connection.given .commit).drop
          else if effective = true then (Statement.effect .commit (connection.given .commit)).getD
            (connection.given .commit) else connection.given .commit).database =
          (if effective = true then (Statement.effect .commit (connection.given .commit)).getD
            (connection.given .commit) else connection.given .commit).database := by
        split <;> rfl
      obtain ⟨rfl, rfl⟩ := Prod.mk.inj ran |>.imp Option.some.inj id
      rw [same]
      cases effective with
      | false => exact .inl rfl
      | true =>
        cases opened : connection.transaction with
        | none =>
          left
          simp [Statement.effect, Connection.given, opened]
        | some state =>
          right
          refine ⟨state, rfl, rfl, ?_⟩
          simp [Statement.effect, Connection.given, opened]

theorem discard_database (reply : Option OutboxError) (connection : Connection σ) :
    (discardImmediateConnection reply connection).2.database = connection.database := by
  have kept : (raw reply connection).2.database = connection.database := by
    unfold raw
    split
    · rfl
    · dsimp only
      split <;> rfl
  unfold discardImmediateConnection
  dsimp only
  split <;> exact kept

/-- A `Raw` that answers with `ErrBadConn` drops the connection. -/
theorem discard_done {reply : Option OutboxError} (bad : reply.any (·.is errBadConn) = true)
    (connection : Connection σ) :
    (discardImmediateConnection reply connection).2.done = true := by
  have dropped : (raw reply connection).2.done = true := by
    unfold raw
    split
    · rename_i done
      exact done
    · rfl
  unfold discardImmediateConnection
  dsimp only
  split <;> exact dropped

/-! ## Deferred functions -/

theorem joining_ne_returned (unfinished : exit ≠ .returned ())
    (errors : List (Option OutboxError)) :
    joining exit errors ≠ .returned () := by
  cases exit with
  | returned value => exact absurd rfl unfinished
  | failed error => exact nofun
  | panicked value => exact nofun
  | goexit => exact nofun

/-- The connection cannot come back to the pool inside a transaction. -/
def Clean (connection : Connection σ) : Prop :=
  connection.done = true ∨ connection.transaction = none

theorem rollBack_database (replies : Replies) (exit : Exit Unit) (connection : Connection σ) :
    (rollBack replies exit connection).2.database = connection.database := by
  have ran := exec_database (nofun : Statement.rollback ≠ .commit) replies.rollback connection
  unfold rollBack
  split
  · rename_i after rolled
    rwa [rolled] at ran
  · rename_i error after failed
    rw [failed] at ran
    exact (discard_database replies.raw after).trans ran

theorem rollBack_ne_returned (replies : Replies) (unfinished : exit ≠ .returned ())
    (connection : Connection σ) : (rollBack replies exit connection).1 ≠ .returned () := by
  unfold rollBack
  split
  · exact unfinished
  · exact joining_ne_returned unfinished _

theorem rollBack_clean (bad : replies.raw.any (·.is errBadConn) = true) (exit : Exit Unit)
    (connection : Connection σ) :
    Clean (rollBack replies exit connection).2 := by
  unfold rollBack
  split
  · rename_i after rolled
    obtain ⟨_, accepted⟩ := exec_succeeds rolled
    obtain ⟨state, _, rfl⟩ := Option.map_eq_some_iff.mp accepted
    exact .inr rfl
  · exact .inl (discard_done bad _)

theorem close_connection (replies : Replies) (exit : Exit Unit) (connection : Connection σ) :
    (close replies exit connection).2 = connection := by
  unfold close
  split
  · rfl
  · split <;> rfl

/-- `Close` reports an error of its own. -/
def Replies.CloseFails (replies : Replies) : Prop :=
  ∃ error, replies.close = some error ∧ error.is errConnDone = false

theorem close_returned {connection : Connection σ}
    (returned : (close replies exit connection).1 = .returned ()) : exit = .returned () := by
  by_contra unfinished
  unfold close at returned
  split at returned
  · exact unfinished returned
  · split at returned
    · exact unfinished returned
    · dsimp only at returned
      exact joining_ne_returned unfinished _ returned

theorem close_not_returned {connection : Connection σ}
    (unfinished : (close replies exit connection).1 ≠ .returned ()) :
    exit ≠ .returned () ∨ replies.CloseFails := by
  unfold close at unfinished
  split at unfinished
  · exact .inl unfinished
  · rename_i error reported
    split at unfinished
    · exact .inl unfinished
    · rename_i other
      right
      split at reported
      · cases reported
        exact absurd (by decide) other
      · exact ⟨error, reported, Bool.eq_false_of_not_eq_true other⟩

/-! ## The transaction -/

def Committed (work : Work σ) (begun after : Connection σ) : Prop :=
  (work begun).1 = .returned () ∧ (work begun).2.transaction = some after.database

/-- The two ways through a transaction: the commit succeeds, or the deferred function
rolls back, perhaps after a commit that took effect and reported an error. -/
theorem transact_cases (work : Work σ) (replies : Replies) (begun : Connection σ) :
    (∃ after, transact work replies begun = (.returned (), after) ∧
      replies.commit = .succeeded ∧ Committed work begun after ∧ after.transaction = none) ∨
    ∃ exit after, transact work replies begun = rollBack replies exit after ∧
      exit ≠ .returned () ∧
      (after.database = (work begun).2.database ∨
        (∃ error, replies.commit = .failed error true) ∧ Committed work begun after) := by
  unfold transact
  rcases ran : work begun with ⟨exit, worked⟩
  cases exit with
  | returned value =>
    cases committed : exec .commit replies.commit worked with
    | mk error after =>
      cases error with
      | none =>
        obtain ⟨succeeded, accepted⟩ := exec_succeeds committed
        obtain ⟨state, opened, same⟩ := Option.map_eq_some_iff.mp accepted
        left
        refine ⟨after, by simp only [committed], succeeded, ⟨?_, ?_⟩, by rw [← same]⟩
        · rw [ran]
        · rw [ran, ← same]
          exact opened
      | some error =>
        right
        refine ⟨.failed error, after, by simp only [committed], nofun, ?_⟩
        rcases exec_commit_failed committed with same | ⟨state, reply, opened, rfl⟩
        · exact .inl same
        · refine .inr ⟨⟨error, reply⟩, ?_, ?_⟩
          · rw [ran]
          · rw [ran]
            exact opened
  | failed error => exact .inr ⟨_, worked, rfl, nofun, .inl rfl⟩
  | panicked value => exact .inr ⟨_, worked, rfl, nofun, .inl rfl⟩
  | goexit => exact .inr ⟨_, worked, rfl, nofun, .inl rfl⟩

def begun (database : σ) : Connection σ :=
  ⟨database, some database, false, [.busyTimeout, .beginImmediate]⟩

/-- The two ways through the function: it stops before the work, or runs the
transaction and closes. -/
theorem runImmediateTransaction_cases (work : Work σ) (replies : Replies) (database : σ) :
    (∃ exit after, runImmediateTransaction work replies (.pooled database) =
        close replies exit after ∧ exit ≠ .returned () ∧ after.database = database ∧
        (replies.raw.any (·.is errBadConn) = true → Clean after)) ∨
    runImmediateTransaction work replies (.pooled database) =
      close replies (transact work replies (begun database)).1
        (transact work replies (begun database)).2 := by
  unfold runImmediateTransaction
  cases timed : exec .busyTimeout replies.busyTimeout (.pooled database) with
  | mk error ready =>
    cases error with
    | some error =>
      left
      refine ⟨.failed error, ready, rfl, nofun, ?_, fun _ => .inr ?_⟩
      · have kept := exec_database (nofun : Statement.busyTimeout ≠ .commit) replies.busyTimeout
          (.pooled database)
        rwa [timed] at kept
      · have kept := exec_cases (fun after => after.transaction = none) replies.busyTimeout
          (rfl : ((Connection.pooled database).given .busyTimeout).transaction = none)
          (fun after accepted => by cases accepted; rfl) fun _ _ => rfl
        rwa [timed] at kept
    | none =>
      obtain ⟨_, accepted⟩ := exec_succeeds timed
      cases accepted
      dsimp only
      cases opened : exec .beginImmediate replies.beginImmediate
          ((Connection.pooled database).given .busyTimeout) with
      | mk error after =>
        cases error with
        | some error =>
          left
          refine ⟨_, _, rfl, joining_ne_returned (nofun : Exit.failed error ≠ .returned ()) _, ?_,
            fun bad => .inl (discard_done bad after)⟩
          have kept := exec_database (nofun : Statement.beginImmediate ≠ .commit)
            replies.beginImmediate ((Connection.pooled database).given .busyTimeout)
          rw [opened] at kept
          exact (discard_database replies.raw after).trans kept
        | none =>
          right
          obtain ⟨_, accepted⟩ := exec_succeeds opened
          cases accepted
          rfl

/-- The statements of the work stay inside the transaction. -/
def Contained (work : Work σ) : Prop :=
  ∀ connection, connection.transaction.isSome = true →
    (work connection).2.database = connection.database

/-- Whatever the driver answers: a transaction that returns has committed the state of
its work; one that fails or unwinds has left the database alone, if its work stays inside
and unless the commit took effect and it or the closing of the connection reported an
error; a connection that is not inside a transaction goes back to the pool, if `Raw` can
drop one that may be; and in the caller's transaction only the statements of the work are
run. -/
theorem immediate_transaction_traces (work : Work σ) (replies : Replies) (database : σ) :
    ((runImmediateTransaction work replies (.pooled database)).1 = .returned () →
      Committed work (begun database)
        (runImmediateTransaction work replies (.pooled database)).2) ∧
    (Contained work →
      (runImmediateTransaction work replies (.pooled database)).1 ≠ .returned () →
      (runImmediateTransaction work replies (.pooled database)).2.database = database ∨
      Committed work (begun database)
          (runImmediateTransaction work replies (.pooled database)).2 ∧
        ((∃ error, replies.commit = .failed error true) ∨
          replies.commit = .succeeded ∧ replies.CloseFails)) ∧
    (replies.raw.any (·.is errBadConn) = true →
      (runImmediateTransaction work replies (.pooled database)).2.done = false →
        (runImmediateTransaction work replies (.pooled database)).2.transaction = none) ∧
    ∀ tx, (withImmediateTransaction (some tx) work replies database).2.statements =
      (work tx).2.statements := by
  rcases runImmediateTransaction_cases work replies database with
    ⟨exit, after, same, unfinished, kept, clean⟩ | same
  · rw [same, close_connection]
    refine ⟨fun returned => absurd (close_returned returned) unfinished, fun _ _ => .inl kept, ?_,
      fun _ => rfl⟩
    intro bad undone
    rcases clean bad with done | closed
    · rw [done] at undone
      cases undone
    · exact closed
  · rw [same, close_connection]
    rcases transact_cases work replies (begun database) with
      ⟨after, ran, succeeded, committed, closed⟩ | ⟨exit, after, ran, unfinished, traces⟩
    · rw [ran]
      refine ⟨fun _ => committed, fun _ failed => .inr ⟨committed, .inr ⟨succeeded, ?_⟩⟩,
        fun _ _ => closed, fun _ => rfl⟩
      exact (close_not_returned failed).resolve_left fun other => other rfl
    · rw [ran]
      refine ⟨fun returned => ?_, fun contained _ => ?_, fun bad undone => ?_, fun _ => rfl⟩
      · exact absurd (close_returned returned) (rollBack_ne_returned replies unfinished after)
      · unfold Committed
        rw [rollBack_database]
        rcases traces with untouched | ⟨ambiguous, committed⟩
        · exact .inl (untouched.trans (contained _ rfl))
        · exact .inr ⟨committed, .inl ambiguous⟩
      · rcases rollBack_clean bad exit after with done | closed
        · rw [done] at undone
          cases undone
        · exact closed

/-! ## Calls that never fail -/

def statements {α : Type} (callback : σ → Except OutboxError α × σ) : Work σ := fun connection =>
  let exit := fun (answer : Except OutboxError α) => match answer with
    | .ok _ => Exit.returned ()
    | .error error => .failed error
  match connection.transaction with
  | some state =>
    (exit (callback state).1, { connection with transaction := some (callback state).2 })
  | none =>
    (exit (callback connection.database).1,
      { connection with database := (callback connection.database).2 })

theorem contained_statements {α : Type} (callback : σ → Except OutboxError α × σ) :
    Contained (statements callback) := by
  intro connection opened
  obtain ⟨state, open_⟩ := Option.isSome_iff_exists.mp opened
  unfold statements
  rw [open_]

/-- Without failing calls a transaction is the one of the repository's operations. -/
theorem withImmediateTransaction_faultless {α : Type} (callback : σ → Except OutboxError α × σ)
    (database : σ) :
    (withImmediateTransaction none (statements callback) .faultless database).2.database =
      (Sqlite.withImmediateTransaction false callback database).2 ∧
    ((withImmediateTransaction none (statements callback) .faultless database).1 = .returned () ↔
      ∃ value, (Sqlite.withImmediateTransaction false callback database).1 = .ok value) := by
  rcases ran : callback database with ⟨answer, after⟩
  cases answer with
  | ok value =>
    simp [withImmediateTransaction, Replies.faultless, runImmediateTransaction, exec, transact,
      close, statements, Statement.effect, Connection.pooled, Connection.given,
      Sqlite.withImmediateTransaction, ran]
  | error error =>
    simp [withImmediateTransaction, Replies.faultless, runImmediateTransaction, exec, transact,
      close, rollBack, statements, Statement.effect, Connection.pooled, Connection.given,
      Sqlite.withImmediateTransaction, ran]

end Calls

namespace Sample

/-- Work that inserts one row; the database counts its rows. -/
def insert : Work Nat := statements fun rows => ((.ok () : Except OutboxError Unit), rows + 1)

def failing : Work Nat := statements fun rows =>
  ((.error (.text "work failed") : Except OutboxError Unit), rows + 1)

/-- Work that commits by itself and then fails. -/
def escaping : Work Nat := fun connection =>
  (.failed (.text "work failed"),
    { connection with database := connection.database + 1, transaction := none })

/-- Only `COMMIT` fails, and takes no effect. -/
def commitFails : Replies :=
  { Replies.faultless with commit := .failed (.text "commit failed") false }

/-- Only `Close` fails. -/
def closeFails : Replies := { Replies.faultless with close := some (.text "close failed") }

/-- `ROLLBACK` and `Raw` fail. -/
def cleanupFails : Replies :=
  { Replies.faultless with
    rollback := .failed (.text "rollback failed") false
    raw := some (.text "raw failed") }

end Sample

/-- After a commit without an error, a failing `Close` turns the result into an error
although the row is stored; after a failing `ROLLBACK` and a failing `Raw` the pool gets
a connection inside its transaction; and the row of a work that commits by itself stays
although no call of the driver fails. -/
theorem failing_close_hides_commit :
    ((runImmediateTransaction Sample.insert Sample.closeFails (.pooled 0)).1 ≠ .returned () ∧
      Sample.closeFails.commit = .succeeded ∧
      (runImmediateTransaction Sample.insert Sample.closeFails (.pooled 0)).2.database = 1) ∧
    ((runImmediateTransaction Sample.failing Sample.cleanupFails (.pooled 0)).2.done = false ∧
      (runImmediateTransaction Sample.failing Sample.cleanupFails (.pooled 0)).2.transaction =
        some 1) ∧
    (runImmediateTransaction Sample.escaping .faultless (.pooled 0)).1 ≠ .returned () ∧
    (runImmediateTransaction Sample.escaping .faultless (.pooled 0)).2.database = 1 :=
  ⟨⟨nofun, rfl, rfl⟩, ⟨rfl, rfl⟩, nofun, rfl⟩

/-- The row of a transaction without failing calls is stored, and the one whose `COMMIT`
fails is not. -/
theorem inserted_row_committed :
    Committed Sample.insert (begun 0)
        (runImmediateTransaction Sample.insert .faultless (.pooled 0)).2 ∧
      (runImmediateTransaction Sample.insert Sample.commitFails (.pooled 0)).2.database = 0 :=
  ⟨(immediate_transaction_traces Sample.insert .faultless 0).1 rfl,
    ((immediate_transaction_traces Sample.insert Sample.commitFails 0).2.1
      (contained_statements _) nofun).resolve_right fun committed =>
        absurd committed.1.2 (by decide)⟩

end OutboxFormal.Storage.Sqlite.Immediate
