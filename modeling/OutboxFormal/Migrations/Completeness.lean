import OutboxFormal.Migrations.Commands

/-!
# What a final `up` leaves behind

A migration that was rolled back is lost if a later one stays recorded: its
version is then below the highest recorded one and it is assumed to be applied.
Only a migration whose DOWN section is skipped can stay behind. Where no such
migration comes after one that can be rolled back, no command sequence loses a
migration.
-/

namespace OutboxFormal.Migrations

open Library

variable {migration : MigrationFile} {migrations : List MigrationFile}

variable {replaceTables : Bytes → Bytes} {rest : List MigrationFile}

/-! ## Reading -/

instance : Std.Total FileOrder where
  total first second := by
    rcases lt_trichotomy first.version second.version with less | same | greater
    · exact Or.inl (Or.inl less)
    · rcases List.le_total first.name second.name with before | after
      · exact Or.inl (Or.inr ⟨same, before⟩)
      · exact Or.inr (Or.inr ⟨same.symm, after⟩)
    · exact Or.inr (Or.inl greater)

instance : IsTrans MigrationFile FileOrder where
  trans first second third before after := by
    rcases before with less | ⟨same, names⟩
    · rcases after with more | ⟨same, -⟩
      · exact Or.inl (less.trans more)
      · exact Or.inl (same ▸ less)
    · rcases after with more | ⟨same', names'⟩
      · exact Or.inl (same ▸ more)
      · exact Or.inr ⟨same.trans same', List.le_trans names names'⟩

theorem parseMigration_ok {name content : Bytes} {version : Int}
    (parsed : parseMigration name version content = .ok migration) :
    migration.name = name ∧ migration.version = version := by
  have accepted : ∀ {upSQL downSQL : Bytes},
      parseMigration.accept name version upSQL downSQL = .ok migration →
        migration.name = name ∧ migration.version = version := by
    intro upSQL downSQL same
    unfold parseMigration.accept at same
    split at same
    · cases same
    · cases same
      exact ⟨rfl, rfl⟩
  unfold parseMigration at parsed
  split at parsed
  · cases parsed
  · dsimp only at parsed
    split at parsed
    · exact accepted parsed
    · split at parsed
      · cases parsed
      · exact accepted parsed

def Named (migration : MigrationFile) : Prop :=
  parseMigrationVersion migration.name = .ok migration.version

theorem named_readFile {entry : DirEntry} (read : readFile replaceTables entry = .ok migration) :
    Named migration := by
  unfold readFile at read
  split at read
  · cases read
  · rename_i versioned
    split at read
    · cases read
    · rename_i parsed
      cases read
      obtain ⟨sameName, sameVersion⟩ := parseMigration_ok parsed
      rw [Named, sameName, sameVersion, versioned]

theorem named_readFiles {entries : List DirEntry}
    (read : readFiles replaceTables entries = .ok migrations) :
    ∀ migration ∈ migrations, Named migration := by
  induction entries generalizing migrations with
  | nil =>
    cases read
    exact nofun
  | cons entry rest ih =>
    unfold readFiles at read
    split at read
    · exact ih read
    · split at read
      · cases read
      · rename_i first
        cases later : readFiles replaceTables rest with
        | error error =>
          rw [later] at read
          cases read
        | ok others =>
          rw [later] at read
          cases read
          intro other member
          rcases List.mem_cons.mp member with rfl | member
          · exact named_readFile first
          · exact ih later other member

/-- An accepted directory: every version is the one of its file's name, and the
migrations are in the order of their versions. -/
theorem readMigrationsFromFS_ok {entries : List DirEntry}
    (read : readMigrationsFromFS replaceTables entries = .ok migrations) :
    (∀ migration ∈ migrations, Named migration) ∧
      migrations.Pairwise fun first second => first.version ≤ second.version := by
  unfold readMigrationsFromFS at read
  cases files : readFiles replaceTables entries with
  | error error =>
    rw [files] at read
    cases read
  | ok unsorted =>
    rw [files] at read
    cases read
    constructor
    · intro migration member
      exact named_readFiles files migration ((List.mem_insertionSort _).mp member)
    · refine (List.pairwise_insertionSort FileOrder unsorted).imp fun order => ?_
      rcases order with less | ⟨same, -⟩
      · exact less.le
      · exact same.le

/-! ## Recorded migrations -/

def Recorded (db : Database) (migration : MigrationFile) : Prop :=
  ⟨migration.version, migration.name, true⟩ ∈ db.applied.rows

/-- The UP section has statements. -/
def Live (migration : MigrationFile) : Prop :=
  ∃ statements, splitStatements migration.up = .ok statements ∧ statements ≠ []

/-- The UP section was executed and the DOWN section was not executed since. -/
def UpSince (migration : MigrationFile) (executed : List Executed) : Prop :=
  ∃ before statements after, splitStatements migration.up = .ok statements ∧
    executed = before ++ Database.block migration true statements ++ after ∧
    ∀ event ∈ after, event.name = migration.name → event.up = true

def SkipsRollback (migration : MigrationFile) : Prop :=
  trimSpace migration.down = [] ∨ splitStatements migration.down = .ok []

/-- A rollback executes the DOWN section. -/
def RollsBack (migration : MigrationFile) : Prop :=
  trimSpace migration.down ≠ [] ∧
    ∃ statements, splitStatements migration.down = .ok statements ∧ statements ≠ []

/-- Versions are distinct, every UP section can be split, and no migration that a
rollback passes over comes after one it can execute. Negative versions are never
the highest recorded one. -/
structure Rollable (migrations : List MigrationFile) : Prop where
  distinct : (migrations.map MigrationFile.version).Nodup
  splits : ∀ migration ∈ migrations, ∃ statements, splitStatements migration.up = .ok statements
  downs : migrations.Pairwise fun first second =>
    RollsBack first → SkipsRollback second → second.version < 0

/-- The records are those of migrations whose UP section is in force. -/
structure Kept (migrations : List MigrationFile) (db : Database) : Prop where
  rows : ∀ row ∈ db.applied.rows,
    ∃ migration ∈ migrations, row = ⟨migration.version, migration.name, true⟩
  current : ∀ migration ∈ migrations, Recorded db migration → UpSince migration db.executed

/-- No live migration that is not recorded is assumed to be applied. -/
structure Sound (migrations : List MigrationFile) (db : Database) : Prop extends
    Kept migrations db where
  unassumed : ∀ migration ∈ migrations, Live migration → ¬ Recorded db migration →
    ∀ other ∈ migrations, Recorded db other → 0 ≤ other.version → other.version < migration.version

theorem UpSince.append {executed later : List Executed} (since : UpSince migration executed)
    (silent : ∀ event ∈ later, event.name = migration.name → event.up = true) :
    UpSince migration (executed ++ later) := by
  obtain ⟨before, statements, after, split, rfl, quiet⟩ := since
  refine ⟨before, statements, after ++ later, split, by simp, fun event member => ?_⟩
  rcases List.mem_append.mp member with member | member
  · exact quiet event member
  · exact silent event member

section Directory

variable {db : Database}

theorem foldl_maxVersion (rows : List AppliedMigration) (start : Int) :
    (rows.foldl (fun maxVersion row =>
        if row.applied ∧ maxVersion < row.version then row.version else maxVersion) start = start) ∨
      ∃ row ∈ rows, row.version = rows.foldl (fun maxVersion row =>
        if row.applied ∧ maxVersion < row.version then row.version else maxVersion) start := by
  induction rows generalizing start with
  | nil => exact Or.inl rfl
  | cons first rest ih =>
    rw [List.foldl_cons]
    rcases ih (if first.applied ∧ start < first.version then first.version else start) with
      same | ⟨row, member, value⟩
    · split at same
      · rename_i taken
        rw [if_pos taken, same]
        exact Or.inr ⟨first, List.mem_cons_self, rfl⟩
      · rename_i passed
        rw [if_neg passed, same]
        exact Or.inl rfl
    · exact Or.inr ⟨row, List.mem_cons_of_mem first member, value⟩

theorem Sound.recorded_of_assumed (sound : Sound migrations db) (member : migration ∈ migrations)
    (live : Live migration) (assumes : assumed (findMaxAppliedVersion db) migration = true) :
    Recorded db migration := by
  by_contra unrecorded
  obtain ⟨nonnegative, below⟩ := of_decide_eq_true assumes
  rcases foldl_maxVersion db.applied.rows (-1) with none | ⟨row, present, top⟩
  · have : findMaxAppliedVersion db = -1 := none
    omega
  · obtain ⟨owner, listed, rfl⟩ := sound.rows row present
    have highest : owner.version = findMaxAppliedVersion db := top
    have := sound.unassumed migration member live unrecorded owner listed present (by omega)
    omega

/-! ## What the commands achieve -/

/-- What the loop of `up` over some of the migrations achieves. -/
structure Upgraded (migrations rest : List MigrationFile) (db : Database)
    (ended : Option OutboxError × Database) : Prop where
  completed : ended.1 = none
  kept : Kept migrations ended.2
  grows : ∀ migration ∈ migrations, Recorded db migration → Recorded ended.2 migration
  recorded : ∀ migration ∈ rest, Live migration → Recorded ended.2 migration
  executed : ∃ later, ended.2.executed = db.executed ++ later ∧
    ∀ migration ∈ rest, Live migration → ¬ Recorded db migration →
      ∃ statements, splitStatements migration.up = .ok statements ∧
        Database.block migration true statements <:+: later

/-- The loop passes over a recorded migration and over one without statements. -/
theorem Upgraded.skip {ended : Option OutboxError × Database}
    (upgraded : Upgraded migrations rest db ended) (member : migration ∈ migrations)
    (settled : Live migration → Recorded db migration) :
    Upgraded migrations (migration :: rest) db ended := by
  refine ⟨upgraded.completed, upgraded.kept, upgraded.grows, fun other listed live => ?_, ?_⟩
  · rcases List.mem_cons.mp listed with rfl | listed
    · exact upgraded.grows other member (settled live)
    · exact upgraded.recorded other listed live
  · obtain ⟨later, same, blocks⟩ := upgraded.executed
    refine ⟨later, same, fun other listed live unrecorded => ?_⟩
    rcases List.mem_cons.mp listed with rfl | listed
    · exact absurd (settled live) unrecorded
    · exact blocks other listed live unrecorded

theorem Upgraded.sound {ended : Option OutboxError × Database}
    (upgraded : Upgraded migrations migrations db ended) : Sound migrations ended.2 :=
  ⟨upgraded.kept, fun migration member live unrecorded =>
    absurd (upgraded.recorded migration member live) unrecorded⟩

/-- What a rollback achieves. -/
structure RolledBack (migrations : List MigrationFile) (db after : Database) : Prop where
  sound : Sound migrations after
  shrinks : ∀ migration ∈ migrations, Recorded after migration → Recorded db migration
  executed : ∃ later, after.executed = db.executed ++ later ∧
    ∀ migration ∈ migrations, (∃ event ∈ later, event.name = migration.name ∧ event.up = false) →
      ¬ Recorded after migration

theorem RolledBack.refl (sound : Sound migrations db) : RolledBack migrations db db :=
  ⟨sound, fun _ _ recorded => recorded, [], (List.append_nil _).symm, fun _ _ ⟨_, absent, _⟩ =>
    nomatch absent⟩

theorem sound_empty (migrations : List MigrationFile) : Sound migrations .empty where
  rows := nofun
  current _ _ recorded := nomatch recorded
  unassumed _ _ _ _ _ _ recorded := nomatch recorded

theorem Rollable.nodup (rollable : Rollable migrations) : migrations.Nodup :=
  List.Nodup.of_map _ rollable.distinct

/-- In a directory with distinct versions a version or a name belongs to one
migration. -/
structure Directory (migrations : List MigrationFile) : Prop where
  named : ∀ migration ∈ migrations, Named migration
  increasing : migrations.Pairwise fun first second => first.version < second.version

variable (directory : Directory migrations)
include directory

theorem Directory.eq_of_version {first second : MigrationFile} (member : first ∈ migrations)
    (member' : second ∈ migrations) (same : first.version = second.version) : first = second := by
  have distinct : (migrations.map MigrationFile.version).Nodup :=
    List.pairwise_map.mpr (directory.increasing.imp ne_of_lt)
  exact List.inj_on_of_nodup_map distinct member member' same

theorem Directory.eq_of_name {first second : MigrationFile} (member : first ∈ migrations)
    (member' : second ∈ migrations) (same : first.name = second.name) : first = second := by
  apply directory.eq_of_version member member'
  have versions := directory.named first member
  rw [Named, same, directory.named second member'] at versions
  exact (Except.ok.inj versions).symm

variable {other : MigrationFile} {statements : List Bytes}

section Member

variable (member : migration ∈ migrations)
include member

theorem Kept.row_eq (kept : Kept migrations db) {row : AppliedMigration}
    (found : row ∈ db.applied.rows) (same : row.version = migration.version) :
    row = ⟨migration.version, migration.name, true⟩ := by
  obtain ⟨owner, listed, rfl⟩ := kept.rows row found
  rw [directory.eq_of_version listed member same]

theorem Kept.isApplied_iff (kept : Kept migrations db) :
    db.isApplied migration = true ↔ Recorded db migration := by
  unfold Database.isApplied
  cases found : db.applied.get? migration.version with
  | none =>
    have absent := Table.get?_eq_none_iff.mp found
    simp only [Option.any_none, Bool.false_eq_true, false_iff]
    exact fun recorded => absent _ recorded rfl
  | some row =>
    obtain ⟨present, same⟩ := Table.get?_eq_some_iff.mp found
    have value := kept.row_eq directory member present same
    rw [value] at present
    simp only [value, Option.any_some, true_iff]
    exact present

theorem Kept.of_name (kept : Kept migrations db)
    (byName : alreadyAppliedByName db migration.name = true) : Recorded db migration := by
  obtain ⟨row, present, named⟩ := List.any_eq_true.mp byName
  obtain ⟨owner, listed, rfl⟩ := kept.rows row present
  simp only [Bool.true_and, decide_eq_true_eq] at named
  rw [Recorded, ← directory.eq_of_name listed member named]
  exact present

theorem Kept.shouldRollback_of_recorded
    (kept : Kept migrations db) (recorded : Recorded db migration)
    (maxVersion : Int) : shouldRollback maxVersion db migration = true := by
  have applied := (kept.isApplied_iff directory member).mpr recorded
  unfold Database.isApplied at applied
  unfold shouldRollback
  cases found : db.applied.get? migration.version with
  | none =>
    rw [found] at applied
    cases applied
  | some row =>
    rw [found] at applied
    exact applied

theorem recorded_apply (listed : other ∈ migrations) :
    Recorded (db.apply migration statements) other ↔ other = migration ∨ Recorded db other := by
  unfold Recorded Database.apply
  rw [Table.mem_upsert]
  constructor
  · rintro (same | ⟨present, -⟩)
    · exact Or.inl (directory.eq_of_version listed member (congrArg AppliedMigration.version same))
    · exact Or.inr present
  · rintro (rfl | present)
    · exact Or.inl rfl
    · by_cases same : other.version = migration.version
      · cases directory.eq_of_version listed member same
        exact Or.inl rfl
      · exact Or.inr ⟨present, same⟩

theorem recorded_rollBack (listed : other ∈ migrations) :
    Recorded (db.rollBack migration statements) other ↔ Recorded db other ∧ other ≠ migration := by
  unfold Recorded Database.rollBack
  rw [Table.mem_delete]
  refine and_congr_right fun _ => ?_
  simp only [decide_eq_false_iff_not]
  constructor
  · rintro different rfl
    exact different rfl
  · exact fun different same => different (directory.eq_of_version listed member same)

theorem Kept.apply (kept : Kept migrations db)
    (split : splitStatements migration.up = .ok statements) :
    Kept migrations (db.apply migration statements) := by
  constructor
  · intro row present
    rcases Table.mem_upsert.mp present with rfl | ⟨present, -⟩
    · exact ⟨migration, member, rfl⟩
    · exact kept.rows row present
  · intro other listed recorded
    rcases (recorded_apply directory member listed).mp recorded with rfl | recorded
    · exact ⟨db.executed, statements, [], split, (List.append_nil _).symm, nofun⟩
    · refine (kept.current other listed recorded).append fun event present _ => ?_
      obtain ⟨statement, -, rfl⟩ := List.mem_map.mp present
      rfl

theorem Kept.rollBack (kept : Kept migrations db) :
    Kept migrations (db.rollBack migration statements) := by
  constructor
  · intro row present
    exact kept.rows row (Table.mem_delete.mp present).1
  · intro other listed recorded
    obtain ⟨recorded, different⟩ := (recorded_rollBack directory member listed).mp recorded
    refine (kept.current other listed recorded).append fun event present same => ?_
    obtain ⟨statement, -, rfl⟩ := List.mem_map.mp present
    exact absurd (directory.eq_of_name listed member same.symm) different

end Member

/-! ## The loop of `up` -/

theorem Upgraded.step {ended : Option OutboxError × Database}
    (member : migration ∈ migrations) (listed : ∀ other ∈ rest, other ∈ migrations)
    (fresh : migration ∉ rest) (split : splitStatements migration.up = .ok statements)
    (upgraded : Upgraded migrations rest (db.apply migration statements) ended) :
    Upgraded migrations (migration :: rest) db ended := by
  refine ⟨upgraded.completed, upgraded.kept, fun other present recorded => ?_,
    fun other present live => ?_, ?_⟩
  · exact upgraded.grows other present
      ((recorded_apply directory member present).mpr (Or.inr recorded))
  · rcases List.mem_cons.mp present with rfl | present
    · exact upgraded.grows other member ((recorded_apply directory member member).mpr (Or.inl rfl))
    · exact upgraded.recorded other present live
  · obtain ⟨later, same, blocks⟩ := upgraded.executed
    refine ⟨Database.block migration true statements ++ later, ?_, ?_⟩
    · rw [same, Database.apply, List.append_assoc]
    · intro other present live unrecorded
      rcases List.mem_cons.mp present with rfl | further
      · exact ⟨statements, split, (List.prefix_append _ _).isInfix⟩
      · have different : ¬ Recorded (db.apply migration statements) other := by
          rw [recorded_apply directory member (listed other further)]
          rintro (rfl | recorded)
          · exact fresh further
          · exact unrecorded recorded
        obtain ⟨found, split', inside⟩ := blocks other further live different
        exact ⟨found, split', inside.trans (List.suffix_append _ _).isInfix⟩

theorem upgraded_applyMigrations {maxVersion : Int}
    (listed : ∀ other ∈ rest, other ∈ migrations) (distinct : rest.Nodup)
    (splits : ∀ other ∈ rest, ∃ statements, splitStatements other.up = .ok statements)
    (kept : Kept migrations db)
    (unassumed : ∀ other ∈ rest, Live other → assumed maxVersion other = true → Recorded db other) :
    Upgraded migrations rest db (applyMigrations maxVersion rest db) := by
  induction rest generalizing db with
  | nil =>
    exact ⟨rfl, kept, fun _ _ recorded => recorded, nofun, [], (List.append_nil _).symm, nofun⟩
  | cons migration rest ih =>
    have member := listed migration List.mem_cons_self
    have listed' : ∀ other ∈ rest, other ∈ migrations := fun other present =>
      listed other (List.mem_cons_of_mem migration present)
    have splits' := fun other present => splits other (List.mem_cons_of_mem migration present)
    have fresh := List.nodup_cons.mp distinct
    have passes := ih listed' fresh.2 splits' kept fun other present =>
      unassumed other (List.mem_cons_of_mem migration present)
    unfold applyMigrations
    split
    · rename_i applied
      exact passes.skip member fun _ => (kept.isApplied_iff directory member).mp applied
    · split
      · rename_i byName
        exact passes.skip member fun _ => kept.of_name directory member byName
      · split
        · rename_i assumes
          exact passes.skip member fun live =>
            unassumed migration List.mem_cons_self live assumes
        · obtain ⟨statements, split⟩ := splits migration List.mem_cons_self
          rw [split]
          cases statements with
          | nil =>
            refine passes.skip member fun ⟨found, same, nonempty⟩ => ?_
            rw [split] at same
            cases same
            exact absurd rfl nonempty
          | cons first others =>
            refine Upgraded.step directory member listed' fresh.1 split ?_
            refine ih listed' fresh.2 splits' (kept.apply directory member split) ?_
            intro other present live assumes
            have recorded := unassumed other (List.mem_cons_of_mem migration present) live assumes
            exact (recorded_apply directory member (listed' other present)).mpr (Or.inr recorded)

/-! ## The loop of `down` and `reset` -/

theorem RolledBack.step {after : Database} (member : migration ∈ migrations)
    (rolled : RolledBack migrations (db.rollBack migration statements) after) :
    RolledBack migrations db after := by
  refine ⟨rolled.sound, fun other listed recorded => ?_, ?_⟩
  · exact ((recorded_rollBack directory member listed).mp (rolled.shrinks other listed recorded)).1
  · obtain ⟨later, same, gone⟩ := rolled.executed
    refine ⟨Database.block migration false statements ++ later, ?_, ?_⟩
    · rw [same, Database.rollBack, List.append_assoc]
    · rintro other listed ⟨event, present, named, down⟩
      rcases List.mem_append.mp present with present | present
      · obtain ⟨statement, -, rfl⟩ := List.mem_map.mp present
        cases directory.eq_of_name member listed named
        intro recorded
        exact ((recorded_rollBack directory member listed).mp
          (rolled.shrinks _ listed recorded)).2 rfl
      · exact gone other listed ⟨event, present, named, down⟩

/-- Migrations after one that can be rolled back do not hide it: those that were
passed over have negative versions. -/
theorem Sound.rollBack (sound : Sound migrations db) (rollable : Rollable migrations)
    {earlier later : List MigrationFile} (position : migrations = earlier ++ migration :: later)
    (split : splitStatements migration.down = .ok statements) (nonempty : statements ≠ [])
    (visible : trimSpace migration.down ≠ [])
    (passed : ∀ other ∈ later, Recorded db other → SkipsRollback other) :
    Sound migrations (db.rollBack migration statements) := by
  have member : migration ∈ migrations := by
    rw [position]
    exact List.mem_append_right _ List.mem_cons_self
  refine ⟨sound.toKept.rollBack directory member, ?_⟩
  intro lost listed live unrecorded other listed' remains nonnegative
  obtain ⟨recorded, different⟩ := (recorded_rollBack directory member listed').mp remains
  by_cases same : lost = migration
  · subst same
    have increasing := directory.increasing
    have downs := rollable.downs
    rw [position] at listed' increasing downs
    rcases List.mem_append.mp listed' with before | after
    · exact (List.pairwise_append.mp increasing).2.2 other before lost List.mem_cons_self
    · rcases List.mem_cons.mp after with rfl | after
      · exact absurd rfl different
      · have negative := (List.pairwise_cons.mp (List.pairwise_append.mp downs).2.1).1 other after
          ⟨visible, statements, split, nonempty⟩ (passed other after recorded)
        omega
  · refine sound.unassumed lost listed live (fun kept => unrecorded ?_) other listed' recorded
      nonnegative
    exact (recorded_rollBack directory member listed).mpr ⟨kept, same⟩

theorem rolledBack_rollbackMigrations
    (rollable : Rollable migrations) {maxVersion : Int} {later : List MigrationFile} {steps : Int}
    (position : migrations = rest.reverse ++ later) (sound : Sound migrations db)
    (passed : ∀ other ∈ later, Recorded db other → SkipsRollback other) :
    RolledBack migrations db (rollbackMigrations maxVersion rest steps db).2 := by
  induction rest generalizing later steps db with
  | nil => exact RolledBack.refl sound
  | cons migration rest ih =>
    have moved : migrations = rest.reverse ++ migration :: later := by
      rw [position]
      simp
    have member : migration ∈ migrations := by
      rw [moved]
      exact List.mem_append_right _ List.mem_cons_self
    have passes : (Recorded db migration → SkipsRollback migration) →
        ∀ {steps : Int},
          RolledBack migrations db (rollbackMigrations maxVersion rest steps db).2 := by
      intro skipped steps
      refine ih moved sound fun other present recorded => ?_
      rcases List.mem_cons.mp present with rfl | present
      · exact skipped recorded
      · exact passed other present recorded
    unfold rollbackMigrations
    split
    · exact RolledBack.refl sound
    · split
      · rename_i unaffected
        refine passes fun recorded => absurd ?_ unaffected
        exact sound.toKept.shouldRollback_of_recorded directory member recorded maxVersion
      · split
        · rename_i blank
          exact passes fun _ => Or.inl blank
        · rename_i visible
          split
          · exact RolledBack.refl sound
          · rename_i none
            exact passes fun _ => Or.inr none
          · rename_i statements nonempty split
            refine RolledBack.step directory member (ih moved ?_ ?_)
            · exact sound.rollBack directory rollable moved split nonempty visible passed
            · intro other present remains
              have listed : other ∈ migrations := by
                rw [moved]
                exact List.mem_append_right _ present
              obtain ⟨recorded, different⟩ := (recorded_rollBack directory member listed).mp remains
              exact passed other (List.mem_of_ne_of_mem different present) recorded

/-! ## Command sequences -/

variable (rollable : Rollable migrations) (sound : Sound migrations db)
include rollable sound

theorem upgraded_up : Upgraded migrations migrations db (run migrations db .up) :=
  upgraded_applyMigrations directory (fun _ => id) rollable.nodup rollable.splits sound.toKept
    fun _ member => sound.recorded_of_assumed member

theorem rolledBack_run {command : Command} (other : command ≠ .up) :
    RolledBack migrations db (run migrations db command).2 := by
  have position : migrations = migrations.reverse.reverse ++ [] := by simp
  cases command with
  | up => exact absurd rfl other
  | down steps => exact rolledBack_rollbackMigrations directory rollable position sound nofun
  | reset => exact rolledBack_rollbackMigrations directory rollable position sound nofun

theorem Sound.run (command : Command) :
    Sound migrations (run migrations db command).2 := by
  by_cases upward : command = .up
  · rw [upward]
    exact (upgraded_up directory rollable sound).sound
  · exact (rolledBack_run directory rollable sound upward).sound

theorem Sound.runAll (commands : List Command) :
    Sound migrations (runAll migrations db commands) := by
  induction commands generalizing db with
  | nil => exact sound
  | cons command rest ih => exact ih (sound.run directory rollable command)

/-- Commands other than `up` record nothing. -/
theorem recorded_runAll {commands : List Command} (downward : .up ∉ commands)
    (member : migration ∈ migrations)
    (recorded : Recorded (runAll migrations db commands) migration) :
    Recorded db migration := by
  induction commands generalizing db with
  | nil => exact recorded
  | cons command rest ih =>
    rw [List.mem_cons, not_or] at downward
    have rolled := rolledBack_run directory rollable sound (Ne.symm downward.1)
    exact rolled.shrinks migration member (ih rolled.sound downward.2 recorded)

end Directory

theorem Rollable.directory {entries : List DirEntry} (rollable : Rollable migrations)
    (read : readMigrationsFromFS replaceTables entries = .ok migrations) :
    Directory migrations := by
  obtain ⟨named, ordered⟩ := readMigrationsFromFS_ok read
  refine ⟨named, ?_⟩
  have distinct := List.pairwise_map.mp rollable.distinct
  exact (ordered.and distinct).imp fun both => lt_of_le_of_ne both.1 both.2

/-- The last command of a sequence is `up`: it succeeds, and every migration with
UP statements has them executed in order with no DOWN statement since. -/
def Completes (migrations : List MigrationFile) (commands : List Command) : Prop :=
  (run migrations (runAll migrations .empty commands) .up).1 = none ∧
    ∀ migration ∈ migrations, Live migration →
      UpSince migration (run migrations (runAll migrations .empty commands) .up).2.executed

/-- A migration that a `reset` rolled back is executed again by the next `up`. -/
def Repeats (migrations : List MigrationFile) (commands between : List Command) : Prop :=
  ∃ rolled repeated,
    (runAll migrations .empty (commands ++ [.reset])).executed =
      (runAll migrations .empty commands).executed ++ rolled ∧
    (run migrations (runAll migrations .empty (commands ++ [.reset] ++ between)) .up).2.executed =
      (runAll migrations .empty (commands ++ [.reset] ++ between)).executed ++ repeated ∧
    ∀ migration ∈ migrations, Live migration →
      (∃ event ∈ rolled, event.name = migration.name ∧ event.up = false) →
      ∃ statements, splitStatements migration.up = .ok statements ∧
        Database.block migration true statements <:+: repeated

/-- In a directory where no migration without DOWN statements comes after one
with them, `up` completes the schema after every sequence of commands. -/
theorem up_completes_schema {replaceTables : Bytes → Bytes} {entries : List DirEntry}
    {migrations : List MigrationFile}
    (read : readMigrationsFromFS replaceTables entries = .ok migrations)
    (rollable : Rollable migrations) (commands between : List Command) :
    Completes migrations commands ∧
      (.up ∉ between → Repeats migrations commands between) := by
  have directory := rollable.directory read
  have sound := (sound_empty migrations).runAll directory rollable commands
  constructor
  · have upgraded := upgraded_up directory rollable sound
    refine ⟨upgraded.completed, fun migration member live => ?_⟩
    exact upgraded.kept.current migration member (upgraded.recorded migration member live)
  · intro downward
    have reset : runAll migrations .empty (commands ++ [.reset]) =
        (run migrations (runAll migrations .empty commands) .reset).2 := List.foldl_append
    have rolled := rolledBack_run directory rollable sound (nofun : Command.reset ≠ .up)
    have later : runAll migrations .empty (commands ++ [.reset] ++ between) =
        runAll migrations (run migrations (runAll migrations .empty commands) .reset).2
          between := by
      rw [runAll, List.foldl_append, ← runAll, ← runAll, reset]
    obtain ⟨down, executed, gone⟩ := rolled.executed
    have sound' := rolled.sound.runAll directory rollable between
    obtain ⟨up, repeated, blocks⟩ := (upgraded_up directory rollable sound').executed
    rw [Repeats, reset, later]
    refine ⟨down, up, executed, repeated, fun migration member live event => ?_⟩
    refine blocks migration member live fun recorded => gone migration member event ?_
    exact recorded_runAll directory rollable rolled.sound downward member recorded

/-! ## Where it fails -/

/-- A DOWN statement at the end is one since the UP section. -/
theorem UpSince.not_of_last {executed : List Executed} {event : Executed} (live : Live migration)
    (last : executed.getLast? = some event) (named : event.name = migration.name)
    (down : event.up = false) :
    ¬ UpSince migration executed := by
  rintro ⟨before, statements, after, split, rfl, quiet⟩
  obtain ⟨found, split', nonempty⟩ := live
  rw [split] at split'
  cases split'
  cases after with
  | nil =>
    rw [List.append_nil, List.getLast?_append_of_ne_nil] at last
    · obtain ⟨statement, -, rfl⟩ := List.mem_map.mp (List.mem_of_getLast? last)
      cases down
    · simpa [Database.block] using nonempty
  | cons first rest =>
    rw [List.getLast?_append_of_ne_nil _ (List.cons_ne_nil first rest)] at last
    rw [quiet event (List.mem_of_getLast? last) named] at down
    cases down

namespace Sample

def content (table : String) (down : Bool) : Bytes :=
  bytes ("-- pico.UP\nCREATE " ++ table ++ ";\n") ++
    if down then bytes ("-- pico.DOWN\nDROP " ++ table ++ ";\n") else []

/-- The second migration has no DOWN section. -/
def entries (down : Bool) : List DirEntry :=
  [⟨bytes "1_a.sql", false, content "a" true⟩, ⟨bytes "2_b.sql", false, content "b" down⟩]

def first : MigrationFile := ⟨bytes "1_a.sql", 1, bytes "CREATE a;", bytes "DROP a;"⟩

def second (down : Bool) : MigrationFile :=
  ⟨bytes "2_b.sql", 2, bytes "CREATE b;", if down then bytes "DROP b;" else []⟩

end Sample

theorem rollable_sample : Rollable [Sample.first, Sample.second true] where
  distinct := by decide
  splits migration member := by
    rcases List.mem_pair.mp member with rfl | rfl
    · exact ⟨[bytes "CREATE a;"], by decide +kernel⟩
    · exact ⟨[bytes "CREATE b;"], by decide +kernel⟩
  downs := by
    refine List.pairwise_pair.mpr fun _ skips => ?_
    have visible : ¬ (trimSpace (Sample.second true).down = [] ∨
        splitStatements (Sample.second true).down = .ok []) := by decide +kernel
    exact absurd skips visible

theorem up_completes_schema_after_reset :
    Completes [Sample.first, Sample.second true] [.up, .reset] ∧
      Repeats [Sample.first, Sample.second true] [.up] [.down 1] := by
  have read : readMigrationsFromFS id (Sample.entries true) =
      .ok [Sample.first, Sample.second true] := by decide +kernel
  exact ⟨(up_completes_schema read rollable_sample [.up, .reset] []).1,
    (up_completes_schema read rollable_sample [.up] [.down 1]).2 (by decide)⟩

/-- `up`, `reset`, `up`: the first migration is rolled back, the second stays
recorded, and the last `up` assumes that the first one is applied. -/
theorem reset_loses_migration :
    readMigrationsFromFS id (Sample.entries false) = .ok [Sample.first, Sample.second false] ∧
      Live Sample.first ∧
      (run [Sample.first, Sample.second false]
        (runAll [Sample.first, Sample.second false] .empty [.up, .reset]) .up).1 = none ∧
      ¬ Completes [Sample.first, Sample.second false] [.up, .reset] := by
  have live : Live Sample.first := ⟨[bytes "CREATE a;"], by decide +kernel, by decide⟩
  refine ⟨by decide +kernel, live, by decide +kernel, fun completes => ?_⟩
  have last : (run [Sample.first, Sample.second false]
      (runAll [Sample.first, Sample.second false] .empty [.up, .reset]) .up).2.executed.getLast? =
        some ⟨bytes "1_a.sql", false, bytes "DROP a;"⟩ := by decide +kernel
  exact UpSince.not_of_last live last rfl rfl
    (completes.2 Sample.first List.mem_cons_self live)

end OutboxFormal.Migrations
