import OutboxFormal.Library.Table
import OutboxFormal.Migrations.Files

/-!
# The commands of the migrator

`up` runs the UP section of every migration that is neither recorded nor assumed
to be applied, `down` and `reset` run DOWN sections from the last migration
backwards. A migration below the highest recorded version is assumed to be
applied. All SQL statements succeed; what can fail is the splitting of a section.
-/

namespace OutboxFormal.Migrations

open Library

/-! ## The bookkeeping table -/

/-- A row of the bookkeeping table. -/
structure AppliedMigration where
  version : Int
  name : Bytes
  applied : Bool
  deriving DecidableEq

structure Executed where
  name : Bytes
  up : Bool
  statement : Bytes
  deriving DecidableEq

/-- The bookkeeping table, which a run also keeps as its map `applied`, and the
statements executed so far, oldest first. -/
structure Database where
  applied : Table AppliedMigration.version
  executed : List Executed

namespace Database

def empty : Database := ⟨.empty, []⟩

/-- The record of a section's statements. -/
def block (migration : MigrationFile) (up : Bool) (statements : List Bytes) : List Executed :=
  statements.map (Executed.mk migration.name up)

/-- Execute an UP section and record the migration. -/
def apply (db : Database) (migration : MigrationFile) (statements : List Bytes) : Database where
  applied := db.applied.upsert ⟨migration.version, migration.name, true⟩
  executed := db.executed ++ block migration true statements

/-- Execute a DOWN section and delete the record. -/
def rollBack (db : Database) (migration : MigrationFile) (statements : List Bytes) : Database where
  applied := db.applied.delete fun row => decide (row.version = migration.version)
  executed := db.executed ++ block migration false statements

def isApplied (db : Database) (migration : MigrationFile) : Bool :=
  (db.applied.get? migration.version).any AppliedMigration.applied

end Database

def findMaxAppliedVersion (db : Database) : Int :=
  db.applied.rows.foldl
    (fun maxVersion row =>
      if row.applied ∧ maxVersion < row.version then row.version else maxVersion) (-1)

/-- The version is at most the highest recorded one. -/
def assumed (maxAppliedVersion : Int) (migration : MigrationFile) : Bool :=
  decide (0 ≤ maxAppliedVersion ∧ migration.version ≤ maxAppliedVersion)

def countAppliedWithAssumptions (migrations : List MigrationFile) (db : Database) : Int :=
  (migrations.filter fun migration =>
    match db.applied.get? migration.version with
    | some row => row.applied
    | none => assumed (findMaxAppliedVersion db) migration).length

def alreadyAppliedByName (db : Database) (name : Bytes) : Bool :=
  db.applied.rows.any fun row => row.applied && decide (row.name = name)

/-! ## The loops -/

/-- The loop of `up`. -/
def applyMigrations (maxAppliedVersion : Int) :
    List MigrationFile → Database → Option OutboxError × Database
  | [], db => (none, db)
  | migration :: rest, db =>
    if db.isApplied migration then applyMigrations maxAppliedVersion rest db
    else if alreadyAppliedByName db migration.name then
      applyMigrations maxAppliedVersion rest db
    else if assumed maxAppliedVersion migration then applyMigrations maxAppliedVersion rest db
    else
      match splitStatements migration.up with
      | .error error =>
        (some (errorContext ("split statements for " ++ printed migration.name) error), db)
      | .ok [] => applyMigrations maxAppliedVersion rest db
      | .ok statements =>
        applyMigrations maxAppliedVersion rest (db.apply migration statements)

def shouldRollback (maxAppliedVersion : Int) (db : Database) (migration : MigrationFile) : Bool :=
  match db.applied.get? migration.version with
  | some row => row.applied
  | none => assumed maxAppliedVersion migration

/-- The loop of `down` and `reset` over the migrations in reverse order. -/
def rollbackMigrations (maxAppliedVersion : Int) :
    List MigrationFile → Int → Database → Option OutboxError × Database
  | [], _, db => (none, db)
  | migration :: rest, steps, db =>
    if steps ≤ 0 then (none, db)
    else if ¬ shouldRollback maxAppliedVersion db migration then
      rollbackMigrations maxAppliedVersion rest steps db
    else if trimSpace migration.down = [] then
      rollbackMigrations maxAppliedVersion rest steps db
    else
      match splitStatements migration.down with
      | .error error =>
        (some (errorContext ("split down statements for " ++ printed migration.name) error), db)
      | .ok [] => rollbackMigrations maxAppliedVersion rest steps db
      | .ok statements =>
        rollbackMigrations maxAppliedVersion rest (steps - 1) (db.rollBack migration statements)

inductive Command where
  | up
  | down (steps : Int)
  | reset
  deriving DecidableEq

def run (migrations : List MigrationFile) (db : Database) : Command → Option OutboxError × Database
  | .up => applyMigrations (findMaxAppliedVersion db) migrations db
  | .down steps => rollbackMigrations (findMaxAppliedVersion db) migrations.reverse steps db
  | .reset =>
    rollbackMigrations (findMaxAppliedVersion db) migrations.reverse
      (countAppliedWithAssumptions migrations db) db

/-- One run after the other, whether or not they fail. -/
def runAll (migrations : List MigrationFile) (db : Database) (commands : List Command) : Database :=
  commands.foldl (fun db command => (run migrations db command).2) db

end OutboxFormal.Migrations
