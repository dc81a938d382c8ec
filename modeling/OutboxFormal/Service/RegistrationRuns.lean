import OutboxFormal.Library.Scripts
import OutboxFormal.Service.RegistrationProtocol

/-!
# Interleavings of registrations and runs

The running flag is an atomic outside of the registration lock. A call that
loaded the flag as false installs under the lock, so the first snapshot of a
`Run` waits for it; every later call loads the flag as true. The invariant ties
the sessions of all goroutines to the shared memory.
-/

namespace OutboxFormal.Registration

open Library

variable {capability : JobCapability}

variable {ν κ : Type} {key : κ} {entries : List (κ × ν)} {effect : Effect} {answer : Answer effect}

section Interleavings

variable (repositoryMax : Option Int)

/-! ## The invariant -/

/-- A `Run` that has read, or is reading, the registered capabilities. -/
def Session.Frozen (session : Session) : Prop :=
  session.running = true ∧
    (session.hold = .read ∨ session.single.isSome = true ∨ session.batch.isSome = true)

/-- A registration that may still install. -/
def Session.Open (session : Session) : Prop :=
  session.hold = .write ∧ session.loaded = some false

structure Own (world : Registry) (goroutine : Nat) (session : Session) : Prop where
  held : world.mu.Held goroutine session.hold
  reading : session.running = true → session.hold ≠ .write
  flag : session.running = true → world.running = true
  noJob : session.hold = .write → ∀ capability ∈ session.noJob,
    capability ∉ session.installed → capability ∉ world.jobs.map Prod.fst
  noBatchJob : session.hold = .write → ∀ capability ∈ session.noBatchJob,
    capability ∉ session.installed → capability ∉ world.batchJobs.map Prod.fst
  single : ∀ capabilities, session.single = some capabilities →
    session.running = true ∧ capabilities.Perm (world.jobs.map Prod.fst)
  batch : ∀ capabilities, session.batch = some capabilities →
    session.running = true ∧ capabilities.Perm (world.batchJobs.map Prod.fst)
  stays : ∀ capability ∈ session.installed,
    capability ∈ world.jobs.map Prod.fst ∨ capability ∈ world.batchJobs.map Prod.fst
  whole : session.hold ≠ .write → session.Whole repositoryMax
  answered : ∀ result, session.response = some result → session.hold ≠ .write ∧
    (result = none → session.All repositoryMax) ∧ (result ≠ none → session.installed = [])

/-- One `Run` at a time, and no registration may install beside one that has read. -/
structure Apart (first second : Session) : Prop where
  alone : first.running = true → second.running = false
  frozen : first.Frozen → ¬ second.Open

/-- The lock is sound and no capability has two handlers. -/
structure Shared (world : Registry) : Prop where
  mu : world.mu.Sound
  jobs : (world.jobs.map Prod.fst).Nodup
  batchJobs : (world.batchJobs.map Prod.fst).Nodup
  disjoint : ∀ capability ∈ world.jobs.map Prod.fst, capability ∉ world.batchJobs.map Prod.fst

structure Consistent (world : Registry) (sessions : List Session) : Prop where
  shared : Shared world
  own : ∀ (goroutine : Nat) (session : Session), sessions[goroutine]? = some session →
    Own repositoryMax world goroutine session
  apart : ∀ (first second : Nat) (one other : Session), first ≠ second →
    sessions[first]? = some one → sessions[second]? = some other → Apart one other

variable {world after : Registry} {sessions : List Session} {goroutine other : Nat}
variable {session next : Session}
variable {repositoryMax}

/-- One goroutine moves: its own facts, those of the others, and both sides of every
pair with it. -/
theorem Consistent.step (consistent : Consistent repositoryMax world sessions)
    (found : sessions[goroutine]? = some session) (shared : Shared after)
    (mine : Own repositoryMax after goroutine next)
    (others : ∀ (other : Nat) (theirs : Session), other ≠ goroutine →
      Own repositoryMax world other theirs → Apart session theirs ∧ Apart theirs session →
      Own repositoryMax after other theirs ∧ Apart next theirs ∧ Apart theirs next) :
    Consistent repositoryMax after (sessions.set goroutine next) := by
  have beside : ∀ (other : Nat) (theirs : Session), other ≠ goroutine →
      sessions[other]? = some theirs →
      Own repositoryMax after other theirs ∧ Apart next theirs ∧ Apart theirs next := by
    intro other theirs different place
    exact others other theirs different (consistent.own other theirs place)
      ⟨consistent.apart _ _ _ _ (Ne.symm different) found place,
        consistent.apart _ _ _ _ different place found⟩
  have inside : goroutine < sessions.length := (List.getElem?_eq_some_iff.mp found).1
  have located : ∀ (index : Nat) (theirs : Session),
      (sessions.set goroutine next)[index]? = some theirs →
      (index = goroutine ∧ theirs = next) ∨
        (index ≠ goroutine ∧ sessions[index]? = some theirs) := by
    intro index theirs place
    rw [List.getElem?_set] at place
    split at place
    · rename_i same
      exact .inl ⟨same.symm, (Option.some.inj place).symm⟩
    · rename_i different
      exact .inr ⟨Ne.symm different, place⟩
  constructor
  · exact shared
  · intro index theirs place
    rcases located index theirs place with ⟨rfl, rfl⟩ | ⟨different, unmoved⟩
    · exact mine
    · exact (beside index theirs different unmoved).1
  · intro first second one two different place place'
    rcases located first one place with ⟨rfl, rfl⟩ | ⟨away, unmoved⟩
    · rcases located second two place' with ⟨rfl, rfl⟩ | ⟨away', unmoved'⟩
      · exact absurd rfl different
      · exact (beside second two away' unmoved').2.1
    · rcases located second two place' with ⟨rfl, rfl⟩ | ⟨away', unmoved'⟩
      · exact (beside first one away unmoved).2.2
      · exact consistent.apart first second one two different unmoved unmoved'

/-- The other goroutines do not see a change of the lock or of the flag. -/
theorem Own.keeps (own : Own repositoryMax world goroutine session)
    (held : after.mu.Held goroutine session.hold) (jobs : after.jobs = world.jobs)
    (batchJobs : after.batchJobs = world.batchJobs)
    (flag : session.running = true → after.running = true) :
    Own repositoryMax after goroutine session :=
  { own with
    held := held
    flag := flag
    noJob := jobs ▸ own.noJob
    noBatchJob := batchJobs ▸ own.noBatchJob
    single := jobs ▸ own.single
    batch := batchJobs ▸ own.batch
    stays := jobs ▸ batchJobs ▸ own.stays }

/-- Pairs with a session that runs, is frozen and is open only where the old one was. -/
theorem Apart.keeps (apart : Apart session next ∧ Apart next session) {moved : Session}
    (running : moved.running = true → session.running = true)
    (frozen : moved.Frozen → session.Frozen) (opens : moved.Open → session.Open) :
    Apart moved next ∧ Apart next moved := by
  constructor
  · constructor
    · exact fun runs => apart.1.alone (running runs)
    · exact fun froze => apart.1.frozen (frozen froze)
  · constructor
    · intro runs
      by_contra other
      have running := running (Bool.eq_true_of_not_eq_false other)
      rw [apart.2.alone runs] at running
      cases running
    · exact fun froze opened => apart.2.frozen froze (opens opened)

theorem Consistent.quiet (consistent : Consistent repositoryMax world sessions)
    (found : sessions[goroutine]? = some session) (mine : Own repositoryMax world goroutine next)
    (running : next.running = true → session.running = true) (frozen : next.Frozen → session.Frozen)
    (opens : next.Open → session.Open) :
    Consistent repositoryMax world (sessions.set goroutine next) :=
  consistent.step found consistent.shared mine fun _ _ _ theirOwn apart =>
    ⟨theirOwn, Apart.keeps apart running frozen opens⟩

/-! ## Steps -/

theorem notMem_of_lookup [DecidableEq κ] (missing : entries.lookup key = none) :
    key ∉ entries.map Prod.fst := by
  intro member
  obtain ⟨entry, inside, rfl⟩ := List.mem_map.mp member
  have found := List.lookup_eq_none_iff.mp missing entry inside
  simp at found

theorem known_or_absent [DecidableEq κ] {other : κ} {known : List κ}
    (member : other ∈ if (entries.lookup key).isNone = true then key :: known else known) :
    other ∈ known ∨ other ∉ entries.map Prod.fst := by
  split at member
  · rename_i missing
    rcases List.mem_cons.mp member with rfl | earlier
    · exact .inr (notMem_of_lookup (Option.isNone_iff_eq_none.mp missing))
    · exact .inl earlier
  · exact .inl member

theorem keys_assign [DecidableEq κ] {value : ν} (absent : key ∉ entries.map Prod.fst) :
    (assign key value entries).map Prod.fst = entries.map Prod.fst ++ [key] := by
  rw [assign, if_neg absent, List.map_append]
  rfl

/-- One capability gets a handler in one of the two maps. -/
structure Installs (world after : Registry) (capability : JobCapability) : Prop where
  mu : after.mu = world.mu
  flag : after.running = world.running
  keys : after.jobs.map Prod.fst = world.jobs.map Prod.fst ++ [capability] ∧
      after.batchJobs = world.batchJobs ∨
    after.jobs = world.jobs ∧
      after.batchJobs.map Prod.fst = world.batchJobs.map Prod.fst ++ [capability]

namespace Installs

variable (installs : Installs world after capability)
include installs

theorem grows : world.jobs.map Prod.fst ⊆ after.jobs.map Prod.fst ∧
    world.batchJobs.map Prod.fst ⊆ after.batchJobs.map Prod.fst := by
  rcases installs.keys with ⟨jobs, batchJobs⟩ | ⟨jobs, batchJobs⟩
  · rw [jobs, batchJobs]
    exact ⟨List.subset_append_left _ _, List.Subset.refl _⟩
  · rw [jobs, batchJobs]
    exact ⟨List.Subset.refl _, List.subset_append_left _ _⟩

theorem present : capability ∈ after.jobs.map Prod.fst ∨
    capability ∈ after.batchJobs.map Prod.fst := by
  rcases installs.keys with ⟨jobs, _⟩ | ⟨_, batchJobs⟩
  · rw [jobs]
    exact .inl (List.mem_append_right _ List.mem_cons_self)
  · rw [batchJobs]
    exact .inr (List.mem_append_right _ List.mem_cons_self)

theorem job {other : JobCapability} (different : other ≠ capability)
    (member : other ∈ after.jobs.map Prod.fst) : other ∈ world.jobs.map Prod.fst := by
  rcases installs.keys with ⟨jobs, _⟩ | ⟨jobs, _⟩
  · rw [jobs] at member
    exact (List.mem_append.mp member).resolve_right fun last =>
      different (List.mem_singleton.mp last)
  · rwa [jobs] at member

theorem batchJob {other : JobCapability} (different : other ≠ capability)
    (member : other ∈ after.batchJobs.map Prod.fst) : other ∈ world.batchJobs.map Prod.fst := by
  rcases installs.keys with ⟨_, batchJobs⟩ | ⟨_, batchJobs⟩
  · rwa [batchJobs] at member
  · rw [batchJobs] at member
    exact (List.mem_append.mp member).resolve_right fun last =>
      different (List.mem_singleton.mp last)

theorem shared (shared : Shared world) (noJob : capability ∉ world.jobs.map Prod.fst)
    (noBatchJob : capability ∉ world.batchJobs.map Prod.fst) : Shared after := by
  have distinct : ∀ {keys : List JobCapability}, keys.Nodup → capability ∉ keys →
      (keys ++ [capability]).Nodup := by
    intro keys nodup absent
    refine List.nodup_append.mpr ⟨nodup, List.nodup_singleton _, ?_⟩
    rintro first member second last rfl
    rw [List.mem_singleton.mp last] at member
    exact absent member
  rcases installs.keys with ⟨jobs, batchJobs⟩ | ⟨jobs, batchJobs⟩
  · constructor
    · exact installs.mu ▸ shared.mu
    · rw [jobs]
      exact distinct shared.jobs noJob
    · rw [batchJobs]
      exact shared.batchJobs
    · intro other member
      rw [batchJobs]
      by_cases same : other = capability
      · exact same ▸ noBatchJob
      · exact shared.disjoint other (installs.job same member)
  · constructor
    · exact installs.mu ▸ shared.mu
    · rw [jobs]
      exact shared.jobs
    · rw [batchJobs]
      exact distinct shared.batchJobs noBatchJob
    · intro other member inside
      rw [jobs] at member
      by_cases same : other = capability
      · exact noJob (same ▸ member)
      · exact shared.disjoint other member (installs.batchJob same inside)

end Installs

section Installing

variable (own : Own repositoryMax world goroutine session) (may : session.MayInstall capability)
include own may

/-- While one goroutine installs, the others neither write nor have read. -/
theorem others_install (installs : Installs world after capability) {theirs : Session}
    (different : other ≠ goroutine) (theirOwn : Own repositoryMax world other theirs)
    (apart : Apart theirs session) : Own repositoryMax after other theirs := by
  have idle : theirs.hold ≠ .write := by
    intro writes
    have held : world.mu.Held goroutine .write := may.1 ▸ own.held
    exact different (RwLock.Held.alone (writes ▸ theirOwn.held) held)
  have unread : ¬ theirs.Frozen := fun froze => apart.frozen froze ⟨may.1, may.2.1⟩
  refine { theirOwn with
    held := installs.mu ▸ theirOwn.held
    flag := installs.flag ▸ theirOwn.flag
    noJob := fun writes => absurd writes idle
    noBatchJob := fun writes => absurd writes idle
    single := fun capabilities read => ?_
    batch := fun capabilities read => ?_
    stays := fun capability member => (theirOwn.stays capability member).imp
      (@installs.grows.1 _) (@installs.grows.2 _) }
  · exact absurd ⟨(theirOwn.single capabilities read).1,
      .inr (.inl (Option.isSome_iff_exists.mpr ⟨_, read⟩))⟩ unread
  · exact absurd ⟨(theirOwn.batch capabilities read).1,
      .inr (.inr (Option.isSome_iff_exists.mpr ⟨_, read⟩))⟩ unread

/-- The goroutine that installs: a capability that was free becomes its own. -/
theorem own_installs (installs : Installs world after capability) :
    Own repositoryMax after goroutine
      { session with installed := session.installed ++ [capability] } := by
  have stopped : session.running ≠ true := fun runs => own.reading runs may.1
  have apart : ∀ {other : JobCapability}, other ∉ session.installed ++ [capability] →
      other ∉ session.installed ∧ other ≠ capability := by
    intro other absent
    exact ⟨fun member => absent (List.mem_append_left _ member),
      fun same => absent (List.mem_append_right _ (same ▸ List.mem_cons_self))⟩
  refine { own with
    held := installs.mu ▸ own.held
    flag := installs.flag ▸ own.flag
    noJob := fun writes other free absent member => ?_
    noBatchJob := fun writes other free absent member => ?_
    single := fun capabilities read => absurd (own.single capabilities read).1 stopped
    batch := fun capabilities read => absurd (own.batch capabilities read).1 stopped
    stays := fun other member => ?_
    whole := fun idle => absurd may.1 idle
    answered := fun result responded => absurd may.1 (own.answered result responded).1 }
  · obtain ⟨notMine, different⟩ := apart absent
    exact own.noJob writes other free notMine (installs.job different member)
  · obtain ⟨notMine, different⟩ := apart absent
    exact own.noBatchJob writes other free notMine (installs.batchJob different member)
  · rcases List.mem_append.mp member with earlier | last
    · exact (own.stays other earlier).imp (@installs.grows.1 _) (@installs.grows.2 _)
    · rw [List.mem_singleton.mp last]
      exact installs.present

theorem free_of_mayInstall :
    capability ∉ world.jobs.map Prod.fst ∧ capability ∉ world.batchJobs.map Prod.fst := by
  obtain ⟨writes, _, noJob, noBatchJob, notMine⟩ := may
  exact ⟨own.noJob writes capability noJob notMine,
    own.noBatchJob writes capability noBatchJob notMine⟩

end Installing

/-- The lock of a goroutine that does not write goes from free to read or back. -/
theorem Own.reads (own : Own repositoryMax world goroutine session) (idle : session.hold ≠ .write)
    {mu : RwLock} {hold : Hold} (held : mu.Held goroutine hold) (reads : hold ≠ .write) :
    Own repositoryMax { world with mu := mu } goroutine { session with hold := hold } :=
  { own with
    held := held
    reading := fun _ => reads
    noJob := fun writes => absurd writes reads
    noBatchJob := fun writes => absurd writes reads
    whole := fun _ => own.whole idle
    answered := fun result responded => ⟨reads, (own.answered result responded).2⟩ }

section Step

variable (consistent : Consistent repositoryMax world sessions)
  (found : sessions[goroutine]? = some session)
include consistent found

theorem loads_consistent :
    Consistent repositoryMax world
      (sessions.set goroutine (session.next .loadRunning world.running)) := by
  have own := consistent.own goroutine session found
  refine consistent.step found consistent.shared { own with }
    fun other theirs different theirOwn apart => ?_
  refine ⟨theirOwn, { apart.1 with }, apart.2.alone, ?_⟩
  -- A `Run` that has read the capabilities has set the flag.
  rintro ⟨runs, _⟩ ⟨_, loaded⟩
  have flag : world.running = false := Option.some.inj loaded
  rw [theirOwn.flag runs] at flag
  cases flag

theorem locks_consistent (stopped : session.running = false)
    (unanswered : session.response = none) {mu : RwLock} (locks : world.mu.Locks goroutine mu) :
    Consistent repositoryMax { world with mu := mu }
      (sessions.set goroutine (session.next .lock ())) := by
  have own := consistent.own goroutine session found
  refine consistent.step found { consistent.shared with mu := locks.sound } ?_
    fun other theirs different theirOwn apart => ?_
  · refine { own with
      held := locks.held
      reading := fun runs => ?_
      noJob := fun _ => nofun
      noBatchJob := fun _ => nofun
      whole := fun writes => absurd rfl writes
      answered := fun result responded => ?_ }
    · rw [show session.running = true from runs] at stopped
      cases stopped
    · rw [show session.response = some result from responded] at unanswered
      cases unanswered
  · refine ⟨theirOwn.keeps (locks.keeps different theirOwn.held) rfl rfl theirOwn.flag, ?_⟩
    refine Apart.keeps apart (fun runs => runs) ?_ ?_
    · rintro ⟨runs, _⟩
      rw [show session.running = true from runs] at stopped
      cases stopped
    · rintro ⟨_, loaded⟩
      cases loaded

theorem unlocks_consistent (holds : session.hold = .write) (whole : session.Whole repositoryMax) :
    Consistent repositoryMax { world with mu := world.mu.unlock }
      (sessions.set goroutine (session.next .unlock ())) := by
  have own := consistent.own goroutine session found
  have held : world.mu.Held goroutine .write := holds ▸ own.held
  have shared := consistent.shared
  refine consistent.step found { shared with mu := RwLock.unlock_sound shared.mu } ?_
    fun other theirs different theirOwn apart => ?_
  · exact { own with
      held := RwLock.unlock_held shared.mu held
      reading := fun _ => nofun
      noJob := nofun
      noBatchJob := nofun
      whole := fun _ => whole
      answered := fun result responded => absurd holds (own.answered result responded).1 }
  · refine ⟨theirOwn.keeps (RwLock.unlock_keeps held different theirOwn.held) rfl rfl
      theirOwn.flag, ?_⟩
    refine Apart.keeps apart (fun runs => runs) ?_ ?_
    · rintro ⟨runs, reads | read⟩
      · cases reads
      · exact ⟨runs, .inr read⟩
    · rintro ⟨writes, _⟩
      cases writes

/-- The first reader of a `Run` waits for every registration that may install. -/
theorem rLocks_consistent (free : session.hold = .free) {mu : RwLock}
    (locks : world.mu.RLocks goroutine mu) :
    Consistent repositoryMax { world with mu := mu }
      (sessions.set goroutine (session.next .rLock ())) := by
  have own := consistent.own goroutine session found
  have shared := consistent.shared
  have notWriting : session.hold ≠ .write := by
    rw [free]
    exact nofun
  refine consistent.step found { shared with mu := locks.sound shared.mu (free ▸ own.held) }
    (own.reads notWriting locks.held nofun) fun other theirs different theirOwn apart => ?_
  refine ⟨theirOwn.keeps (locks.keeps different theirOwn.held) rfl rfl theirOwn.flag,
    ⟨apart.1.alone, ?_⟩, apart.2.alone, ?_⟩
  · exact fun _ opened => locks.not_write theirOwn.held opened.1
  · rintro _ ⟨writes, _⟩
    cases writes

theorem rUnlocks_consistent (reads : session.hold = .read) :
    Consistent repositoryMax { world with mu := world.mu.rUnlock goroutine }
      (sessions.set goroutine (session.next .rUnlock ())) := by
  have own := consistent.own goroutine session found
  have shared := consistent.shared
  have notWriting : session.hold ≠ .write := by
    rw [reads]
    exact nofun
  refine consistent.step found { shared with mu := RwLock.rUnlock_sound shared.mu }
    (own.reads notWriting (RwLock.rUnlock_held shared.mu (reads ▸ own.held)) nofun)
    fun other theirs different theirOwn apart => ?_
  refine ⟨theirOwn.keeps (RwLock.rUnlock_keeps different theirOwn.held) rfl rfl theirOwn.flag, ?_⟩
  refine Apart.keeps apart (fun runs => runs) (fun froze => ⟨froze.1, .inl reads⟩) ?_
  rintro ⟨writes, _⟩
  cases writes

/-- A `Run` that sets the flag is the only one. -/
theorem swaps_consistent (free : session.hold = .free) (stopped : session.running = false) :
    Consistent repositoryMax { world with running := true }
      (sessions.set goroutine (session.next .compareAndSwapRunning (!world.running))) := by
  have own := consistent.own goroutine session found
  have noSingle : ∀ capabilities, session.single ≠ some capabilities := by
    intro capabilities read
    rw [(own.single capabilities read).1] at stopped
    cases stopped
  have noBatch : ∀ capabilities, session.batch ≠ some capabilities := by
    intro capabilities read
    rw [(own.batch capabilities read).1] at stopped
    cases stopped
  have notFrozen : ¬ (session.next .compareAndSwapRunning (!world.running)).Frozen := by
    rintro ⟨_, reads | single | batch⟩
    · rw [show session.hold = .read from reads] at free
      cases free
    · obtain ⟨capabilities, read⟩ := Option.isSome_iff_exists.mp single
      exact noSingle capabilities read
    · obtain ⟨capabilities, read⟩ := Option.isSome_iff_exists.mp batch
      exact noBatch capabilities read
  refine consistent.step found { consistent.shared with } ?_
    fun other theirs different theirOwn apart => ?_
  · refine { own with
      reading := fun _ => ?_
      flag := fun _ => rfl
      single := fun capabilities read => absurd read (noSingle capabilities)
      batch := fun capabilities read => absurd read (noBatch capabilities) }
    rw [show (session.next .compareAndSwapRunning (!world.running)).hold = .free from free]
    exact nofun
  · -- If the swap succeeds the flag was not set, so nobody else runs.
    have alone : (!world.running) = true → theirs.running = false := by
      intro swapped
      by_contra runs
      rw [theirOwn.flag (Bool.eq_true_of_not_eq_false runs)] at swapped
      cases swapped
    refine ⟨theirOwn.keeps theirOwn.held rfl rfl fun _ => rfl,
      ⟨alone, fun froze => absurd froze notFrozen⟩, ?_, apart.2.frozen⟩
    intro runs
    by_contra swapped
    rw [alone (Bool.eq_true_of_not_eq_false swapped)] at runs
    cases runs

theorem stores_consistent (running : session.running = true) :
    Consistent repositoryMax { world with running := false }
      (sessions.set goroutine (session.next (.storeRunning false) ())) := by
  have own := consistent.own goroutine session found
  refine consistent.step found { consistent.shared with }
    { own with reading := nofun, flag := nofun, single := nofun, batch := nofun }
    fun other theirs different theirOwn apart => ?_
  have stopped : theirs.running ≠ true := by
    rw [apart.1.alone running]
    exact nofun
  exact ⟨theirOwn.keeps theirOwn.held rfl rfl fun runs => absurd runs stopped, ⟨nofun, nofun⟩,
    fun _ => rfl, fun froze => absurd froze.1 stopped⟩

theorem installs_consistent (may : session.MayInstall capability)
    (installs : Installs world after capability) :
    Consistent repositoryMax after (sessions.set goroutine
      { session with installed := session.installed ++ [capability] }) := by
  have own := consistent.own goroutine session found
  obtain ⟨noJob, noBatchJob⟩ := free_of_mayInstall own may
  exact consistent.step found (installs.shared consistent.shared noJob noBatchJob)
    (own_installs own may installs) fun other theirs different theirOwn apart =>
      ⟨others_install own may installs different theirOwn apart.2, Apart.keeps apart id id id⟩

theorem performs_consistent (allowed : (discipline repositoryMax).allowed session effect)
    (performed : perform goroutine world effect answer after) :
    Consistent repositoryMax after (sessions.set goroutine (session.next effect answer)) := by
  have own := consistent.own goroutine session found
  cases effect with
  | invoke request =>
    obtain rfl : after = world := performed
    refine consistent.quiet found ?_ nofun (fun froze => absurd froze.1 nofun)
      (fun opened => absurd opened.1 nofun)
    have held : after.mu.Held goroutine .free := allowed.1 ▸ own.held
    exact ⟨held, nofun, nofun, fun _ => nofun, fun _ => nofun, nofun, nofun, nofun,
      fun _ => .inl rfl, nofun⟩
  | respond result =>
    obtain rfl : after = world := performed
    refine consistent.quiet found ?_ id id id
    refine { own with answered := ?_ }
    rintro _ ⟨rfl⟩
    refine ⟨?_, allowed.2.2⟩
    change session.hold ≠ .write
    rw [allowed.1]
    exact nofun
  | lock =>
    obtain ⟨mu, locks, rfl⟩ := performed
    exact locks_consistent consistent found allowed.2.1 allowed.2.2 locks
  | unlock =>
    obtain rfl := performed
    exact unlocks_consistent consistent found allowed.1 allowed.2
  | rLock =>
    obtain ⟨mu, locks, rfl⟩ := performed
    exact rLocks_consistent consistent found allowed.1 locks
  | rUnlock =>
    obtain rfl := performed
    exact rUnlocks_consistent consistent found allowed
  | loadRunning =>
    obtain ⟨rfl, rfl⟩ := performed
    exact loads_consistent consistent found
  | compareAndSwapRunning =>
    obtain ⟨rfl, rfl⟩ := performed
    exact swaps_consistent consistent found allowed.1 allowed.2
  | storeRunning value =>
    obtain ⟨_, running, rfl⟩ := allowed
    obtain rfl := performed
    exact stores_consistent consistent found running
  | getJob capability =>
    obtain ⟨rfl, rfl⟩ := performed
    refine consistent.quiet found ?_ id id id
    refine { own with noJob := ?_ }
    intro writes other free absent
    exact (known_or_absent free).elim (fun known => own.noJob writes other known absent) id
  | getBatchJob capability =>
    obtain ⟨rfl, rfl⟩ := performed
    refine consistent.quiet found ?_ id id id
    refine { own with noBatchJob := ?_ }
    intro writes other free absent
    exact (known_or_absent free).elim (fun known => own.noBatchJob writes other known absent) id
  | setJob capability handler =>
    obtain rfl := performed
    have free := free_of_mayInstall own allowed
    exact installs_consistent consistent found allowed
      ⟨rfl, rfl, .inl ⟨keys_assign free.1, rfl⟩⟩
  | setBatchJob capability registration =>
    obtain rfl := performed
    have free := free_of_mayInstall own allowed
    exact installs_consistent consistent found allowed
      ⟨rfl, rfl, .inr ⟨rfl, keys_assign free.2⟩⟩
  | rangeJobs =>
    obtain ⟨visited, rfl⟩ := performed
    refine consistent.quiet found ?_ id (fun _ => ⟨allowed.2, .inl allowed.1⟩) id
    refine { own with single := ?_ }
    rintro _ ⟨rfl⟩
    exact ⟨allowed.2, visited⟩
  | rangeBatchJobs =>
    obtain ⟨visited, rfl⟩ := performed
    refine consistent.quiet found ?_ id (fun _ => ⟨allowed.2, .inl allowed.1⟩) id
    refine { own with batch := ?_ }
    rintro _ ⟨rfl⟩
    exact ⟨allowed.2, visited⟩
  | rangeLocal entries =>
    obtain ⟨_, rfl⟩ := performed
    exact consistent.quiet found own id id id
  | serve singleCapabilities batchCapabilities =>
    obtain rfl : after = world := performed
    exact consistent.quiet found own id id id

end Step

/-! ## All interleavings -/

def Effect.installs (capability : JobCapability) : Effect → Bool
  | .setJob installed _ => installed = capability
  | .setBatchJob installed _ => installed = capability
  | _ => false

def installs (capability : JobCapability) (history : History Answer) : Nat :=
  history.countP fun event => event.effect.installs capability

/-- How often a capability was registered: at the start, and by all goroutines. -/
def registrations (dispatcher : Option (JobCapability × JobHandler)) (capability : JobCapability)
    (histories : List (History Answer)) : Nat :=
  (dispatcher.toList.map Prod.fst).count capability + (histories.map (installs capability)).sum

/-- How often a capability stands in the two maps. -/
def Registry.occurrences (world : Registry) (capability : JobCapability) : Nat :=
  (world.jobs.map Prod.fst).count capability + (world.batchJobs.map Prod.fst).count capability

theorem Shared.occurrences_le (shared : Shared world) (capability : JobCapability) :
    world.occurrences capability ≤ 1 := by
  unfold Registry.occurrences
  by_cases member : capability ∈ world.jobs.map Prod.fst
  · have absent := List.count_eq_zero_of_not_mem (shared.disjoint capability member)
    rw [absent]
    exact List.nodup_iff_count_le_one.mp shared.jobs capability
  · rw [List.count_eq_zero_of_not_mem member, Nat.zero_add]
    exact List.nodup_iff_count_le_one.mp shared.batchJobs capability

theorem occurrences_perform (consistent : Consistent repositoryMax world sessions)
    (found : sessions[goroutine]? = some session)
    (allowed : (discipline repositoryMax).allowed session effect)
    (performed : perform goroutine world effect answer after) (capability : JobCapability) :
    after.occurrences capability =
      world.occurrences capability + if effect.installs capability then 1 else 0 := by
  cases effect with
  | setJob installed handler =>
    obtain rfl := performed
    have free := free_of_mayInstall (consistent.own goroutine session found) allowed
    simp only [Registry.occurrences, keys_assign free.1, List.count_append, List.count_singleton,
      Effect.installs, beq_iff_eq, decide_eq_true_eq]
    omega
  | setBatchJob installed registration =>
    obtain rfl := performed
    have free := free_of_mayInstall (consistent.own goroutine session found) allowed
    simp only [Registry.occurrences, keys_assign free.2, List.count_append, List.count_singleton,
      Effect.installs, beq_iff_eq, decide_eq_true_eq]
    omega
  | lock | rLock =>
    obtain ⟨mu, _, rfl⟩ := performed
    rfl
  | invoke | respond | unlock | rUnlock | storeRunning | serve =>
    obtain rfl := performed
    rfl
  | loadRunning | compareAndSwapRunning | getJob | getBatchJob | rangeJobs | rangeBatchJobs
  | rangeLocal =>
    obtain ⟨_, rfl⟩ := performed
    rfl

theorem sum_installs_set {histories : List (History Answer)} {history : History Answer}
    (found : histories[goroutine]? = some history) (event : Event Answer)
    (capability : JobCapability) :
    ((histories.set goroutine (event :: history)).map (installs capability)).sum =
      (histories.map (installs capability)).sum +
        if event.effect.installs capability then 1 else 0 := by
  induction histories generalizing goroutine with
  | nil => cases found
  | cons first rest ih =>
    cases goroutine with
    | zero =>
      obtain rfl : first = history := Option.some.inj found
      simp only [List.set_cons_zero, List.map_cons, List.sum_cons, installs, List.countP_cons]
      omega
    | succ goroutine =>
      have later := @ih goroutine found
      simp only [List.set_cons_succ, List.map_cons, List.sum_cons, later]
      omega

theorem sum_installs_nil {histories : List (History Answer)}
    (silent : ∀ history ∈ histories, history = []) :
    (histories.map (installs capability)).sum = 0 := by
  induction histories with
  | nil => rfl
  | cons first rest ih =>
    rw [List.map_cons, List.sum_cons, silent first List.mem_cons_self,
      ih fun history member => silent history (List.mem_cons_of_mem first member)]
    rfl

variable (repositoryMax)

def sessionsOf (pasts : List (Unit × History Answer)) : List Session :=
  pasts.map fun past => (discipline repositoryMax).state past.2

variable (dispatcher : Option (JobCapability × JobHandler))

/-- The invariant of all interleavings. -/
def Holds (world : Registry) (pasts : List (Unit × History Answer)) : Prop :=
  Consistent repositoryMax world (sessionsOf repositoryMax pasts) ∧
    ∀ capability, registrations dispatcher capability (pasts.map Prod.snd) =
      world.occurrences capability

theorem supervision :
    Supervision semantics (fun _ => discipline repositoryMax) (Holds repositoryMax dispatcher) where
  spawns _ _ := nofun
  performs world pasts goroutine role history effect answer after kept found allowed performed := by
    have place : (sessionsOf repositoryMax pasts)[goroutine]? =
        some ((discipline repositoryMax).state history) := by
      rw [sessionsOf, List.getElem?_map, found]
      rfl
    have past : (pasts.map Prod.snd)[goroutine]? = some history := by
      rw [List.getElem?_map, found]
      rfl
    constructor
    · cases effect with
      | rangeLocal entries => exact performed.1
      | _ => trivial
    · rw [show semantics.spawned effect answer = [] from rfl, List.map_nil, List.append_nil]
      constructor
      · rw [sessionsOf, List.map_set]
        exact performs_consistent kept.1 place allowed performed
      · intro capability
        rw [occurrences_perform kept.1 place allowed performed, ← kept.2 capability, List.map_set,
          registrations, sum_installs_set past, registrations, Nat.add_assoc]
  moves _ _ _ _ := False.elim

theorem started_holds (goroutines : List (List Request)) :
    Supervision.Holds (fun _ => discipline repositoryMax) (Holds repositoryMax dispatcher)
      (started dispatcher repositoryMax goroutines) := by
  have fresh : ∀ (goroutine : Nat) (session : Session),
      (sessionsOf repositoryMax
        ((started dispatcher repositoryMax goroutines).threads.map Thread.past))[goroutine]? =
          some session → session = .idle := by
    intro goroutine session place
    have member := List.mem_of_getElem? place
    simp only [sessionsOf, started, List.map_map, List.mem_map] at member
    obtain ⟨requests, _, rfl⟩ := member
    rfl
  constructor
  · constructor
    · constructor
      · constructor
        · exact RwLock.sound_unlocked
        · cases dispatcher with
          | none => exact List.nodup_nil
          | some entry => exact List.nodup_singleton _
        · exact List.nodup_nil
        · exact fun _ _ => nofun
      · intro goroutine session place
        rw [fresh goroutine session place]
        exact ⟨RwLock.held_unlocked _, nofun, nofun, nofun, nofun, nofun, nofun, nofun,
          fun _ => .inl rfl, nofun⟩
      · intro first second one other _ place place'
        rw [fresh first one place, fresh second other place']
        exact ⟨nofun, fun froze => absurd froze.1 nofun⟩
    · intro capability
      have silent : ∀ history ∈ ((started dispatcher repositoryMax goroutines).threads.map
          Thread.past).map Prod.snd, history = [] := by
        intro history member
        simp only [started, List.map_map, List.mem_map] at member
        obtain ⟨requests, _, rfl⟩ := member
        rfl
      rw [registrations, sum_installs_nil silent]
      rfl
  · intro thread member
    obtain ⟨requests, _, rfl⟩ := List.mem_map.mp member
    refine Monitor.wp_mono (client_meets repositoryMax rfl rfl) (fun _ _ _ => trivial)
      fun _ => False.elim

def current (thread : Thread Unit Answer) : Session :=
  (discipline repositoryMax).state thread.history

def Registers {ν : Type} (entries : List (JobCapability × ν)) (capabilities : List JobCapability) :
    Prop :=
  ∀ capability, capability ∈ capabilities ↔ ∃ handler, (capability, handler) ∈ entries

theorem registers_of_perm {entries : List (JobCapability × ν)} {capabilities : List JobCapability}
    (visited : capabilities.Perm (entries.map Prod.fst)) :
    Registers entries capabilities := by
  intro capability
  rw [visited.mem_iff, List.mem_map]
  constructor
  · rintro ⟨⟨_, handler⟩, member, rfl⟩
    exact ⟨handler, member⟩
  · rintro ⟨handler, member⟩
    exact ⟨(capability, handler), member, rfl⟩

/-- In every interleaving of registrations and runs of any goroutines: each capability is
registered at most once, as a single or as a batch job; a call that does not hold the lock
has installed all of its capabilities or none, all if it returned nil and none if it
returned an error, and what it installed stays; and while a `Run` has its two snapshots,
they are the registered capabilities. -/
theorem registration_atomic_exclusive_frozen (goroutines : List (List Request))
    {config : Config Unit Registry Answer}
    (reached : semantics.Reaches (started dispatcher repositoryMax goroutines) config) :
    (∀ capability, registrations dispatcher capability
        (config.threads.map Thread.history) ≤ 1) ∧
    (∀ capability ∈ config.world.jobs.map Prod.fst,
      capability ∉ config.world.batchJobs.map Prod.fst) ∧
    ∀ thread ∈ config.threads,
      ((current repositoryMax thread).hold ≠ .write →
        (current repositoryMax thread).Whole repositoryMax) ∧
      (∀ result, (current repositoryMax thread).response = some result →
        (result = none → (current repositoryMax thread).All repositoryMax) ∧
        (result ≠ none → (current repositoryMax thread).installed = [])) ∧
      (∀ capability ∈ (current repositoryMax thread).installed,
        capability ∈ config.world.jobs.map Prod.fst ∨
          capability ∈ config.world.batchJobs.map Prod.fst) ∧
      ∀ single batch, (current repositoryMax thread).single = some single →
        (current repositoryMax thread).batch = some batch →
          Registers config.world.jobs single ∧ Registers config.world.batchJobs batch := by
  obtain ⟨⟨consistent, counted⟩, _⟩ :=
    (supervision repositoryMax dispatcher).reaches
      (started_holds repositoryMax dispatcher goroutines) reached
  refine ⟨?_, consistent.shared.disjoint, ?_⟩
  · intro capability
    have registered := counted capability
    rw [List.map_map] at registered
    rw [show config.threads.map Thread.history =
      config.threads.map (Prod.snd ∘ Thread.past) from rfl, registered]
    exact consistent.shared.occurrences_le capability
  · intro thread member
    obtain ⟨goroutine, inside, rfl⟩ := List.getElem_of_mem member
    have own := consistent.own goroutine (current repositoryMax config.threads[goroutine]) (by
      rw [sessionsOf, List.map_map, List.getElem?_map, List.getElem?_eq_getElem inside]
      rfl)
    refine ⟨own.whole, fun result responded => (own.answered result responded).2, own.stays, ?_⟩
    intro single batch readSingle readBatch
    exact ⟨registers_of_perm (own.single single readSingle).2,
      registers_of_perm (own.batch batch readBatch).2⟩

end Interleavings

/-! ## A registration beside a run -/

/-- The memory after an effect, if the effect can happen. -/
def react (goroutine : Nat) (before : Registry) (effect : Effect) (answer : Answer effect) :
    Option Registry :=
  match effect, answer with
  | .invoke _, _ => some before
  | .respond _, _ => some before
  | .lock, _ =>
    if before.mu = .unlocked then some { before with mu := ⟨some goroutine, []⟩ } else none
  | .unlock, _ => some { before with mu := before.mu.unlock }
  | .rLock, _ =>
    if before.mu.writer = none then
      some { before with mu := { before.mu with readers := goroutine :: before.mu.readers } }
    else none
  | .rUnlock, _ => some { before with mu := before.mu.rUnlock goroutine }
  | .loadRunning, running => if running = before.running then some before else none
  | .compareAndSwapRunning, swapped =>
    if swapped = !before.running then some { before with running := true } else none
  | .storeRunning value, _ => some { before with running := value }
  | .getJob capability, found =>
    if found = before.jobs.lookup capability then some before else none
  | .getBatchJob capability, found =>
    if found = before.batchJobs.lookup capability then some before else none
  | .setJob capability handler, _ =>
    some { before with jobs := assign capability handler before.jobs }
  | .setBatchJob capability registration, _ =>
    some { before with batchJobs := assign capability registration before.batchJobs }
  | .rangeJobs, capabilities =>
    if capabilities = before.jobs.map Prod.fst then some before else none
  | .rangeBatchJobs, capabilities =>
    if capabilities = before.batchJobs.map Prod.fst then some before else none
  | .rangeLocal entries, visited => if visited = entries then some before else none
  | .serve _ _, _ => some before

theorem performs_of_react {goroutine : Nat} {before after : Registry}
    (reacts : react goroutine before effect answer = some after) :
    perform goroutine before effect answer after := by
  have split : ∀ {condition : Prop} [Decidable condition] {value : Registry},
      (if condition then some value else none) = some after → condition ∧ after = value := by
    intro condition _ value decided
    split at decided
    · rename_i met
      exact ⟨met, (Option.some.inj decided).symm⟩
    · cases decided
  cases effect with
  | lock =>
    obtain ⟨free, rfl⟩ := split reacts
    refine ⟨_, ⟨?_, ?_, rfl⟩, ?_⟩
    · rw [free]
      rfl
    · rw [free]
      rfl
    · rw [free]
      rfl
  | rLock =>
    obtain ⟨free, rfl⟩ := split reacts
    exact ⟨_, ⟨free, rfl⟩, rfl⟩
  | rangeJobs | rangeBatchJobs | rangeLocal =>
    obtain ⟨visited, same⟩ := split reacts
    exact ⟨List.Perm.of_eq visited, same⟩
  | loadRunning | compareAndSwapRunning | getJob | getBatchJob => exact split reacts
  | invoke | respond | unlock | rUnlock | storeRunning | setJob | setBatchJob | serve =>
    exact (Option.some.inj reacts).symm

def interpreter : Interpreter semantics Empty where
  react := react
  command := nofun
  performs := performs_of_react
  moves := by
    intro order
    cases order

def reply (before : Registry) (effect : Effect) : Option (Answer effect) :=
  match effect with
  | .loadRunning => some before.running
  | .compareAndSwapRunning => some (!before.running)
  | .getJob capability => some (before.jobs.lookup capability)
  | .getBatchJob capability => some (before.batchJobs.lookup capability)
  | .rangeJobs => some (before.jobs.map Prod.fst)
  | .rangeBatchJobs => some (before.batchJobs.map Prod.fst)
  | .rangeLocal entries => some entries
  | .serve _ _ => some none
  | .invoke _ | .respond _ | .lock | .unlock | .rLock | .rUnlock | .storeRunning _ | .setJob _ _
  | .setBatchJob _ _ => some ()

namespace Sample

def mail : JobCapability := ⟨bytes "mail", 1⟩

def goroutines : List (List Request) :=
  [[.registerJobs [some ⟨bytes "mail", none, ⟨1000000000, 3⟩⟩]], [.run]]

/-- The registration has loaded the flag when the run sets it, and installs before the
first snapshot. -/
def script : List (ScriptLine Registry Empty Answer) :=
  [0, 0, 0, 1, 1, 0, 0, 0, 0, 0, 0, 0, 1, 1, 1, 1, 1, 1].map fun goroutine =>
    .thread goroutine reply

end Sample

/-- A run that began during a registration serves what was registered. -/
theorem run_beside_registration :
    ∃ config, semantics.Reaches (started none none Sample.goroutines) config ∧
      (∃ thread ∈ config.threads, (current none thread).single = some [Sample.mail]) ∧
      Registers config.world.jobs [Sample.mail] := by
  have played : ((interpreter.play (started none none Sample.goroutines) Sample.script).map
      fun config => config.threads.map fun thread =>
        ((current none thread).single, (current none thread).batch)) =
      some [(none, none), (some [Sample.mail], some [])] := by
    decide +kernel
  obtain ⟨config, plays, sessions⟩ := Option.map_eq_some_iff.mp played
  have reached := Interpreter.play_reaches plays
  have member : (some [Sample.mail], some []) ∈ config.threads.map fun thread =>
      ((current none thread).single, (current none thread).batch) := by
    rw [sessions]
    exact List.mem_cons_of_mem _ List.mem_cons_self
  obtain ⟨thread, present, same⟩ := List.mem_map.mp member
  obtain ⟨_, _, threads⟩ :=
    registration_atomic_exclusive_frozen none none Sample.goroutines reached
  obtain ⟨single, batch⟩ := Prod.mk.inj same
  exact ⟨config, reached, ⟨thread, present, single⟩,
    ((threads thread present).2.2.2 _ _ single batch).1⟩

end OutboxFormal.Registration
