import OutboxFormal.Service.Custody

/-!
# What the lease manager's methods owe and keep

One specification for each method: from a state in which the worker or the
heartbeat may call it, the method performs only what the custody monitor
allows, and says what it leaves in the books. Renewals change deadlines only,
so the ids of the ledger and everything else in the books stay as they are.
-/

namespace OutboxFormal

open Library
open Library.Monitor (wp_bind wp_mono wp_onExit wp_step)

variable {after : Custody} {returns : Option OutboxError → Custody → Prop} {ctx : Ctx}

namespace Custody

theorem enterIDs_of_subset {ids entered : List JobID} (present : ∀ id ∈ ids, id ∈ entered) :
    enterIDs ids entered = entered := by
  have none : ids.filter (fun id => decide (id ∉ entered)) = [] := by
    simpa using present
  rw [enterIDs, none, List.nil_append]

theorem mem_enterIDs {ids entered : List JobID} {id : JobID} :
    id ∈ enterIDs ids entered ↔ id ∈ ids ∨ id ∈ entered := by
  by_cases present : id ∈ entered <;> simp [enterIDs, present]

/-! ## Inside a critical section -/

/-- The mutex is in hand and the ledger it guards is this one. -/
structure Holding (strict : Prop) (custody : Custody) (m : BatchLeaseManager)
    (ledger : Ledger) : Prop where
  locked : custody.locked = some (m.group, ledger)
  keys : custody.keys = ledger.ids
  ordered : custody.ordered = ledger.orderedIDs
  entered : ∀ id ∈ custody.keys, id ∈ custody.entered
  token : custody.token = m.leaseToken
  bounded : strict → ledger.Bounded

/-- The same books up to clock readings, pending extensions and the deadlines
of the ledger in hand. -/
def Kept (before after : Custody) : Prop :=
  ∃ readings sent extended locked, before.readings ⊆ readings ∧
    after = { before with
      readings := readings, sent := sent, extended := extended, locked := locked }

theorem Kept.refl (custody : Custody) : Kept custody custody :=
  ⟨_, _, _, _, List.Subset.refl _, rfl⟩

theorem Kept.trans {first second third : Custody} (left : Kept first second)
    (right : Kept second third) : Kept first third := by
  obtain ⟨readings, sent, extended, locked, more, rfl⟩ := left
  obtain ⟨readings', sent', extended', locked', more', rfl⟩ := right
  exact ⟨readings', sent', extended', locked', List.Subset.trans more more', rfl⟩

theorem Same.kept {before : Custody} (same : Same before after) : Kept before after := by
  obtain ⟨readings, sent, extended, more, rfl⟩ := same
  exact ⟨readings, sent, extended, before.locked, more, rfl⟩

section Holding

variable {strict : Prop} {role : Role} {books : Custody} {m : BatchLeaseManager}
variable {ledger : Ledger}

theorem Holding.same (holding : Holding strict books m ledger) (same : Same books after) :
    Holding strict after m ledger := by
  obtain ⟨readings, sent, extended, more, rfl⟩ := same
  exact { holding with }

theorem Holding.store (holding : Holding strict books m ledger) {after : Ledger}
    (ids : after.ids = ledger.ids) (ordered : after.orderedIDs = ledger.orderedIDs)
    (bounded : strict → after.Bounded) :
    Kept books (books.hold m.group after) ∧ Holding strict (books.hold m.group after) m after := by
  have keys : after.ids = books.keys := ids.trans holding.keys.symm
  have entered : enterIDs after.ids books.entered = books.entered :=
    enterIDs_of_subset (keys ▸ holding.entered)
  constructor
  · refine ⟨books.readings, none, none, some (m.group, after), List.Subset.refl _, ?_⟩
    unfold hold
    rw [entered, keys, ordered, holding.ordered.symm]
  · refine ⟨rfl, rfl, rfl, ?_, holding.token, bounded⟩
    intro id member
    exact mem_enterIDs.mpr (Or.inl member)

variable {α : Type} {unwinds : Custody → Prop}

theorem wp_store {returns : Unit → Custody → Prop} (holding : Holding strict books m ledger)
    {after : Ledger} (ids : after.ids = ledger.ids) (ordered : after.orderedIDs = ledger.orderedIDs)
    (bounded : strict → after.Bounded) (justified : books.Justified ledger after)
    (meets : ∀ last, Kept books last → Holding strict last m after → returns () last) :
    (custody strict role).wp (Go.store m.group after) returns unwinds books := by
  obtain ⟨kept, held⟩ := holding.store ids ordered bounded
  refine ⟨⟨ledger, holding.locked, justified, bounded, fun _ _ => ⟨ids, ordered⟩⟩, ?_⟩
  intro _ _
  exact meets _ kept held

theorem Justified.of_subset {before after : Ledger}
    (subset : ∀ entry ∈ after.outstanding.rows, entry ∈ before.outstanding.rows) :
    books.Justified before after := fun entry member => Or.inl (subset entry member)

theorem wp_failLeaseLocked {error : OutboxError} (meets : returns (some error) books) :
    (custody strict role).wp (m.failLeaseLocked error) returns unwinds books :=
  ⟨trivial, fun _ _ => ⟨trivial, fun _ _ => meets⟩⟩

/-- A passed check means that every deadline is later than the reading. -/
theorem wp_checkLeasesLocked {returns : Option OutboxError × Ledger → Custody → Prop}
    (holding : Holding strict books m ledger) {now : Int}
    (meets : ∀ error after last, Kept books last → Holding strict last m after →
      after.outstanding = ledger.outstanding → after.orderedIDs = ledger.orderedIDs →
      (strict → error = none → ∀ entry ∈ ledger.outstanding.rows, now < entry.2) →
      returns (error, after) last) :
    (custody strict role).wp (m.checkLeasesLocked ledger now) returns unwinds books := by
  unfold BatchLeaseManager.checkLeasesLocked
  split
  · rename_i fast
    refine meets none ledger books (.refl _) holding rfl rfl ?_
    intro hstrict _ entry member
    exact lt_of_lt_of_le fast ((holding.bounded hstrict).bound entry member)
  · split
    · rw [wp_bind]
      refine wp_failLeaseLocked ?_
      refine meets (some _) ledger books (.refl _) holding rfl rfl ?_
      intro _ impossible
      cases impossible
    · rename_i slow
      have passed : ∀ entry ∈ ledger.outstanding.rows, now < entry.2 := by
        intro entry member
        simpa using List.find?_eq_none.mp slow entry member
      rw [wp_bind]
      refine wp_store holding rfl rfl (fun hstrict => (holding.bounded hstrict).recomputeEarliest)
        (.of_subset fun _ => id) fun last kept held => ?_
      exact meets none _ last kept held rfl rfl fun _ _ => passed

section Renewals

variable {returns : Option OutboxError × Ledger → Custody → Prop}
  (holding : Holding strict books m ledger)
  (meets : ∀ error after last, Kept books last → Holding strict last m after →
    after.ids = ledger.ids → after.orderedIDs = ledger.orderedIDs → returns (error, after) last)
include holding meets

/-- The ledger after an extension: unchanged unless the repository confirmed
every row while its context was alive. -/
theorem wp_enterExtension {until_ affected : Int} {jobIDs : List JobID}
    (present : ∀ id ∈ jobIDs, id ∈ ledger.ids) (positive : strict → 0 < until_)
    {failure : Option OutboxError} (confirmed : failure = none → affected = jobIDs.length →
      ∃ deadline, books.extended = some ⟨jobIDs, until_, deadline⟩) :
    (custody strict role).wp (m.enterExtension ledger jobIDs until_ affected failure) returns
      unwinds books := by
  cases failure with
  | some error =>
    refine wp_bind.mpr (wp_failLeaseLocked ?_)
    exact meets _ ledger books (.refl _) holding rfl rfl
  | none =>
    dsimp only [BatchLeaseManager.enterExtension]
    split
    · refine wp_bind.mpr (wp_failLeaseLocked ?_)
      exact meets _ ledger books (.refl _) holding rfl rfl
    · rename_i every
      obtain ⟨deadline, hextended⟩ := confirmed rfl (not_not.mp every)
      have ids : ((ledger.extended jobIDs until_).recomputeEarliest).ids = ledger.ids :=
        Ledger.ids_extended present
      refine wp_bind.mpr (wp_store holding ids rfl
        (fun hstrict => (holding.bounded hstrict).extended present (positive hstrict)) ?_ ?_)
      · intro entry member
        rcases Ledger.mem_extended.mp member with ⟨named, same⟩ | ⟨member, -⟩
        · exact Or.inr (Or.inl ⟨_, hextended, named, same⟩)
        · exact Or.inl member
      · intro last kept held
        refine wp_quietly rfl fun now _ same => wp_checkLeasesLocked (held.same same) ?_
        intro error after final kept' held' outstanding ordered _
        refine meets error after final (kept.trans (same.kept.trans kept')) held' ?_
          (ordered.trans rfl)
        rw [← ids]
        exact congrArg (fun deadlines : Deadlines => deadlines.rows.map Prod.fst) outstanding

/-- The renewal of some outstanding rows to a later, aligned deadline. -/
theorem wp_extendLocked {now until_ : Int} {jobIDs : List JobID}
    (present : ∀ id ∈ jobIDs, id ∈ ledger.ids)
    (later : ∀ entry ∈ ledger.outstanding.rows, entry.1 ∈ jobIDs → entry.2 < until_)
    (nonempty : jobIDs ≠ []) (aligned : truncate until_ millisecond = until_) :
    (custody strict role).wp (m.extendLocked ctx ledger now jobIDs until_) returns unwinds
      books := by
  have positive : strict → 0 < until_ := by
    intro hstrict
    obtain ⟨id, member⟩ := List.exists_mem_of_ne_nil _ nonempty
    obtain ⟨deadline, hentry⟩ := Ledger.mem_ids.mp (present id member)
    exact lt_trans ((holding.bounded hstrict).deadline_pos hentry) (later _ hentry member)
  have settled : ∀ last affected failure, Same books last →
      (failure = none → affected = (jobIDs.length : Int) →
        ∃ deadline, last.extended = some ⟨jobIDs, until_, deadline⟩) →
      (custody strict role).wp (m.enterExtension ledger jobIDs until_ affected failure) returns
        unwinds last := by
    intro last affected failure same confirmed
    exact wp_enterExtension (holding.same same) (fun error after final kept =>
      meets error after final (same.kept.trans kept)) present positive confirmed
  unfold BatchLeaseManager.extendLocked
  refine wp_step ⟨holding.token.symm, _, _, _, ledger, rfl, holding.locked, present, later,
    aligned, fun hstrict => (holding.bounded hstrict).bound⟩ fun answer _ => ?_
  obtain ⟨affected, failure⟩ := answer
  cases failure with
  | some error => exact settled books affected (some error) (.refl _) (by simp)
  | none =>
    refine wp_step trivial fun cause _ => ?_
    by_cases every : affected = jobIDs.length
    · have sent : (custody strict role).next books
          (.extendJobLeases (.withDeadline ctx ledger.earliestUntil) jobIDs m.leaseToken now
            until_) (affected, none) =
          { books with sent := some ⟨jobIDs, until_, ledger.earliestUntil⟩ } := if_pos every
      rw [sent]
      cases cause with
      | some error =>
        refine settled _ affected (some error) ⟨_, _, _, List.Subset.refl _, rfl⟩ ?_
        simp
      | none =>
        have alive : (custody strict role).next
            { books with sent := some ⟨jobIDs, until_, ledger.earliestUntil⟩ }
            (.cause (.withDeadline ctx ledger.earliestUntil)) none =
            { books with
              sent := some ⟨jobIDs, until_, ledger.earliestUntil⟩
              extended := some ⟨jobIDs, until_, ledger.earliestUntil⟩ } := if_pos rfl
        rw [alive]
        exact settled _ affected none ⟨_, _, _, List.Subset.refl _, rfl⟩
          fun _ _ => ⟨_, rfl⟩
    · have ignored : (custody strict role).next books
          (.extendJobLeases (.withDeadline ctx ledger.earliestUntil) jobIDs m.leaseToken now
            until_) (affected, none) = books := if_neg every
      rw [ignored]
      exact settled _ affected cause (same_of_quiet cause rfl) fun _ same => absurd same every

theorem wp_ensureLeasesLocked {requiredUntil targetUntil : Int} :
    (custody strict role).wp (m.ensureLeasesLocked ctx ledger requiredUntil targetUntil) returns
      unwinds books := by
  unfold BatchLeaseManager.ensureLeasesLocked
  refine wp_quietly rfl fun now _ same => wp_bind.mpr (wp_checkLeasesLocked (holding.same same) ?_)
  intro error checked last kept held outstanding ordered _
  have kept := same.kept.trans kept
  have ids : checked.ids = ledger.ids :=
    congrArg (fun deadlines : Deadlines => deadlines.rows.map Prod.fst) outstanding
  cases error with
  | some error => exact meets _ checked last kept held ids ordered
  | none =>
    dsimp only
    split
    · refine wp_bind.mpr (wp_store held rfl rfl
        (fun hstrict => (held.bounded hstrict).earliestInOrder) (.of_subset fun _ => id) ?_)
      intro middle kept' held'
      have kept := kept.trans kept'
      split
      · exact meets none _ middle kept held' ids ordered
      · rename_i expiring
        refine wp_extendLocked held' ?_ ?_ ?_ ?_ (renewalDeadline_aligned _ _)
        · intro error after final kept'' held'' ids' ordered'
          exact meets error after final (kept.trans kept'') held'' (ids'.trans ids)
            (ordered'.trans ordered)
        · intro id member
          obtain ⟨until_, hentry, -⟩ := Ledger.mem_expiringBefore member
          exact Ledger.mem_ids.mpr ⟨until_, hentry⟩
        · intro entry hentry member
          obtain ⟨until_, hexpiring, before⟩ := Ledger.mem_expiringBefore member
          have sameEntry := checked.outstanding.row_unique hentry hexpiring rfl
          rw [sameEntry]
          exact before.trans (lt_renewalDeadline _ _)
        · intro none
          rw [none] at expiring
          exact expiring rfl
    · exact meets none checked last kept held ids ordered

end Renewals

/-! ## Critical sections -/

/-- The books after the mutex is released. -/
def unlocked (custody : Custody) : Custody :=
  { custody with locked := none, sent := none, extended := none }

/-- The mutex is still in hand, and its release leaves books as said. -/
abbrev Releases (m : BatchLeaseManager) (ends : Custody → Prop) (last : Custody) : Prop :=
  (∃ after, last.locked = some (m.group, after)) ∧ ends last.unlocked

/-- What the body of a critical section owes, on the ledger as the mutex guards it. -/
abbrev Critical (strict : Prop) (role : Role) (m : BatchLeaseManager) (books : Custody)
    (body : Ledger → Go α) (returns : α → Custody → Prop) (unwinds : Custody → Prop) : Prop :=
  ∀ ledger, Holding strict (books.hold m.group ledger) m ledger →
    (∀ process, role = .worker process →
      ledger.ids = books.keys ∧ ledger.orderedIDs = books.ordered) →
    (custody strict role).wp (body ledger) (fun value => Releases m (returns value))
      (Releases m unwinds) (books.hold m.group ledger)

theorem wp_critical {body : Ledger → Go α} {returns : α → Custody → Prop}
    (token : books.token = m.leaseToken) (meets : Critical strict role m books body returns unwinds)
    (expected : books.Expected strict role (.lock m.group) ledger) :
    (custody strict role).wp
      (Program.onExit (Go.unlock m.group) (Go.unlock m.group) (body ledger)) returns unwinds
      (books.hold m.group ledger) := by
  have holding : Holding strict (books.hold m.group ledger) m ledger :=
    ⟨rfl, rfl, rfl, fun id member => mem_enterIDs.mpr (Or.inl member), token, expected.1⟩
  exact wp_onExit.mpr (wp_mono (meets ledger holding expected.2)
    (fun _ _ => And.imp_right fun post _ _ => post) fun _ => And.imp_right fun post _ _ => post)

variable (manager : books.manager = some m) (token : books.token = m.leaseToken)
  (free : books.locked = none)
include manager token free

theorem wp_locked {body : Ledger → Go α} {returns : α → Custody → Prop}
    (meets : Critical strict role m books body returns unwinds) :
    (custody strict role).wp (m.locked body) returns unwinds books :=
  wp_step ⟨⟨m, manager, rfl⟩, free⟩ fun _ => wp_critical token meets

/-- The same for `LockContext`: without the mutex nothing happens. -/
theorem wp_lockedContext {body : Ledger → Go (Option OutboxError)}
    (refused : ∀ error, returns (some error) books)
    (meets : Critical strict role m books body returns unwinds) :
    (custody strict role).wp (m.lockedContext ctx body) returns unwinds books := by
  refine wp_step ⟨⟨m, manager, rfl⟩, free⟩ fun answer expected => ?_
  cases answer with
  | error cause => exact ⟨trivial, fun _ _ => refused cause⟩
  | ok ledger => exact wp_critical token meets expected

end Holding

/-! ## The heartbeat -/

section Heartbeat

variable {strict : Prop} {m : BatchLeaseManager}

/-- What a heartbeat knows between two critical sections. -/
def Beating (custody : Custody) (m : BatchLeaseManager) : Prop :=
  custody.manager = some m ∧ custody.token = m.leaseToken ∧ custody.locked = none

theorem Beating.unlocked {before : Custody} (beating : Beating before m) {ledger : Ledger}
    (kept : Kept (before.hold m.group ledger) after) :
    Beating after.unlocked m := by
  obtain ⟨readings, sent, extended, locked, -, rfl⟩ := kept
  exact ⟨beating.1, beating.2.1, rfl⟩

theorem wp_extend {books : Custody} (beating : Beating books m) {unwinds : Custody → Prop}
    (meets : ∀ error last, Beating last m → returns error last) :
    (custody strict (.heartbeat m)).wp (m.extend ctx) returns unwinds books := by
  refine wp_locked beating.1 beating.2.1 beating.2.2 fun ledger holding _ => ?_
  refine wp_quietly rfl fun now _ same => wp_bind.mpr (wp_ensureLeasesLocked (holding.same same) ?_)
  intro error after last kept held _ _
  exact ⟨⟨after, held.locked⟩, meets error _ (beating.unlocked (same.kept.trans kept))⟩

theorem wp_heartbeats {books : Custody} (beating : Beating books m) (rounds : Nat)
    {returns : Unit → Custody → Prop} {unwinds : Custody → Prop}
    (meets : ∀ last, Beating last m → returns () last) :
    (custody strict (.heartbeat m)).wp (m.heartbeats rounds) returns unwinds books := by
  induction rounds generalizing books with
  | zero => exact ⟨trivial, nofun⟩
  | succ rounds ih =>
    unfold BatchLeaseManager.heartbeats
    refine wp_step trivial fun ticked _ => ?_
    cases ticked with
    | false => exact meets _ beating
    | true =>
      refine wp_bind.mpr (wp_extend beating ?_)
      intro error last beating
      cases error with
      | some error => exact meets _ beating
      | none => exact ih beating

theorem watched_run (strict : Prop) (m : BatchLeaseManager) (rounds : Nat) :
    (Thread.start (Role.heartbeat m, m.run rounds)).Watched (custody strict) := by
  change (custody strict (.heartbeat m)).wp (m.run rounds) _ _ _
  unfold BatchLeaseManager.run
  rw [wp_onExit]
  refine wp_heartbeats ⟨rfl, rfl, rfl⟩ rounds fun last _ => ?_
  exact ⟨trivial, fun _ _ => trivial⟩

end Heartbeat

end Custody

end OutboxFormal
