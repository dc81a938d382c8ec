import Mathlib.Data.List.Basic

/-!
# Reader-writer locks

A lock is held by one writer or by some readers; threads are numbered. What a
thread believes to hold agrees with the lock, and every operation keeps the
beliefs of the other threads.
-/

namespace OutboxFormal.Library

/-- The threads that hold a lock. -/
structure RwLock where
  writer : Option Nat
  readers : List Nat
  deriving DecidableEq, Repr

/-- How a thread holds a lock. -/
inductive Hold where
  | free
  | read
  | write
  deriving DecidableEq, Repr

namespace RwLock

variable {lock after : RwLock} {thread other : Nat} {hold : Hold}

/-- A lock nobody holds. -/
def unlocked : RwLock := ⟨none, []⟩

/-- The thread gets the lock for itself. -/
def Locks (lock : RwLock) (thread : Nat) (after : RwLock) : Prop :=
  lock.writer = none ∧ lock.readers = [] ∧ after = { lock with writer := some thread }

/-- The writer gives the lock up. -/
def unlock (lock : RwLock) : RwLock := { lock with writer := none }

/-- The thread gets the lock together with other readers. -/
def RLocks (lock : RwLock) (thread : Nat) (after : RwLock) : Prop :=
  lock.writer = none ∧ after = { lock with readers := thread :: lock.readers }

/-- A reader gives the lock up. -/
def rUnlock (lock : RwLock) (thread : Nat) : RwLock :=
  { lock with readers := lock.readers.erase thread }

/-- The thread holds the lock in this way. -/
structure Held (lock : RwLock) (thread : Nat) (hold : Hold) : Prop where
  writes : hold = .write ↔ lock.writer = some thread
  reads : hold = .read ↔ thread ∈ lock.readers

/-- No reader holds the lock beside a writer, and no reader holds it twice. -/
structure Sound (lock : RwLock) : Prop where
  exclusive : lock.writer = none ∨ lock.readers = []
  once : lock.readers.Nodup

theorem held_unlocked (thread : Nat) : unlocked.Held thread .free := by
  constructor
  · exact ⟨nofun, nofun⟩
  · exact ⟨nofun, nofun⟩

theorem sound_unlocked : unlocked.Sound := ⟨.inl rfl, List.nodup_nil⟩

/-- Only one thread writes. -/
theorem Held.alone (first : lock.Held thread .write) (second : lock.Held other .write) :
    thread = other :=
  Option.some.inj ((first.writes.mp rfl).symm.trans (second.writes.mp rfl))

/-! ## Writers -/

theorem Locks.held (locks : lock.Locks thread after) : after.Held thread .write := by
  obtain ⟨_, noReaders, rfl⟩ := locks
  constructor
  · exact ⟨fun _ => rfl, fun _ => rfl⟩
  · constructor
    · exact nofun
    · intro member
      rw [noReaders] at member
      cases member

theorem Locks.keeps (locks : lock.Locks thread after) (different : other ≠ thread)
    (held : lock.Held other hold) : after.Held other hold := by
  obtain ⟨noWriter, _, rfl⟩ := locks
  constructor
  · rw [held.writes, noWriter]
    constructor
    · exact nofun
    · intro same
      exact absurd (Option.some.inj same).symm different
  · exact held.reads

theorem Locks.sound (locks : lock.Locks thread after) : after.Sound := by
  obtain ⟨_, noReaders, rfl⟩ := locks
  constructor
  · exact .inr noReaders
  · rw [noReaders]
    exact List.nodup_nil

theorem unlock_held (sound : lock.Sound) (held : lock.Held thread .write) :
    lock.unlock.Held thread .free := by
  have noReaders : lock.readers = [] := by
    rcases sound.exclusive with noWriter | noReaders
    · rw [held.writes.mp rfl] at noWriter
      cases noWriter
    · exact noReaders
  constructor
  · exact ⟨nofun, nofun⟩
  · constructor
    · exact nofun
    · intro member
      change thread ∈ lock.readers at member
      rw [noReaders] at member
      cases member

theorem unlock_keeps (mine : lock.Held thread .write) (different : other ≠ thread)
    (held : lock.Held other hold) : lock.unlock.Held other hold := by
  constructor
  · rw [held.writes, mine.writes.mp rfl]
    constructor
    · intro same
      exact absurd (Option.some.inj same).symm different
    · exact nofun
  · exact held.reads

theorem unlock_sound (sound : lock.Sound) : lock.unlock.Sound := ⟨.inl rfl, sound.once⟩

/-! ## Readers -/

/-- A thread that reads found nobody writing. -/
theorem RLocks.not_write (locks : lock.RLocks thread after) (held : lock.Held other hold) :
    hold ≠ .write := by
  intro writes
  have writer := held.writes.mp writes
  rw [locks.1] at writer
  cases writer

theorem RLocks.held (locks : lock.RLocks thread after) : after.Held thread .read := by
  obtain ⟨noWriter, rfl⟩ := locks
  constructor
  · constructor
    · exact nofun
    · intro writer
      rw [noWriter] at writer
      cases writer
  · exact ⟨fun _ => List.mem_cons_self, fun _ => rfl⟩

theorem RLocks.keeps (locks : lock.RLocks thread after) (different : other ≠ thread)
    (held : lock.Held other hold) : after.Held other hold := by
  obtain ⟨_, rfl⟩ := locks
  constructor
  · exact held.writes
  · rw [held.reads, List.mem_cons, or_iff_right different]

theorem RLocks.sound (locks : lock.RLocks thread after) (sound : lock.Sound)
    (held : lock.Held thread .free) : after.Sound := by
  obtain ⟨noWriter, rfl⟩ := locks
  constructor
  · exact .inl noWriter
  · apply List.nodup_cons.mpr
    constructor
    · intro member
      exact absurd (held.reads.mpr member) nofun
    · exact sound.once

theorem rUnlock_held (sound : lock.Sound) (held : lock.Held thread .read) :
    (lock.rUnlock thread).Held thread .free := by
  constructor
  · constructor
    · exact nofun
    · intro writer
      have writes := held.writes.mpr writer
      cases writes
  · constructor
    · exact nofun
    · intro member
      exact absurd member sound.once.not_mem_erase

theorem rUnlock_keeps (different : other ≠ thread) (held : lock.Held other hold) :
    (lock.rUnlock thread).Held other hold := by
  constructor
  · exact held.writes
  · rw [held.reads]
    exact (List.mem_erase_of_ne different).symm

theorem rUnlock_sound (sound : lock.Sound) : (lock.rUnlock thread).Sound := by
  constructor
  · rcases sound.exclusive with noWriter | noReaders
    · exact .inl noWriter
    · right
      change lock.readers.erase thread = []
      rw [noReaders]
      rfl
  · exact sound.once.erase thread

end RwLock

end OutboxFormal.Library
