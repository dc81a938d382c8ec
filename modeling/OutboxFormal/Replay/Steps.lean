import OutboxFormal.Replay.Journal

/-!
# Every step keeps the journal

A statement changes the transaction of its own call only, a commit adds one job,
its key and its record, and other activity adds nothing to the journal.
-/

namespace OutboxFormal.Replay

open Library Storage

/-! ## Steps that commit nothing -/

/-- A step that leaves the committed state as it is. -/
structure SameStore (before after : World) : Prop where
  store : after.store = before.store
  inserted : after.inserted = before.inserted
  commits : after.commits = before.commits

section SameStore

variable {before after : World}

theorem SameStore.settled (same : SameStore before after) : after.settled = before.settled := by
  rw [World.settled, World.settled, same.inserted]

theorem SameStore.database (same : SameStore before after) : after.database = before.database := by
  rw [World.database, World.database, same.store]

theorem SameStore.undisturbed (same : SameStore before after) {index : Nat}
    (transactions : ∀ transaction, after.transactions index = some transaction →
      before.transactions index = some transaction)
    (begun : after.begun index = before.begun index) : Undisturbed before after index where
  transactions := transactions
  settled _ member := same.settled ▸ member
  jobs job member _ := ⟨job, same.database ▸ member, rfl⟩
  ids _ _ _ _ absent := same.settled ▸ absent
  keys _ _ _ _ absent := same.database ▸ absent
  journal _ member := Or.inl (same.store ▸ member)
  retained _ member := same.store ▸ member
  failed _ _ _ member _ := same.database ▸ member
  begun := begun
  commits _ member _ := same.commits ▸ member

theorem SameStore.sound (same : SameStore before after) (sound : Sound before)
    (used : ∀ id ∈ before.used, id ∈ after.used)
    (begun : ∀ index, after.begun index = before.begun index ∨ after.begun index = before.store)
    (pending : ∀ index transaction, after.transactions index = some transaction →
      ∀ item ∈ transaction.staged, item.jobID ∈ after.used ∧
        ∃ id, item.put.deduplicationKey = replayKey id) : Sound after := by
  obtain ⟨store, transactions, later, inserted, commits, starts⟩ := after
  obtain ⟨rfl, rfl, rfl⟩ := same
  refine { sound with
    used := fun id member => used id (sound.used id member)
    begun := fun index => ?_
    begunDescribed := fun index => ?_
    pending := pending }
  · rcases begun index with old | new
    · exact old ▸ sound.begun index
    · exact new ▸ List.prefix_refl _
  · rcases begun index with old | new
    · exact old ▸ sound.begunDescribed index
    · exact new ▸ sound.described

end SameStore

theorem ends_of_some {world : World} {index other : Nat} {transaction : Transaction}
    (found : (world.ends index).transactions other = some transaction) :
    world.transactions other = some transaction := by
  by_cases same : other = index
  · subst same
    simp [World.ends] at found
  · simpa [World.ends, same] using found

theorem Sound.ends {world : World} (sound : Sound world) (index : Nat) :
    Sound (world.ends index) :=
  @SameStore.sound world (world.ends index) ⟨rfl, rfl, rfl⟩ sound (fun _ member => member)
    (fun _ => Or.inl rfl) fun other _ found => sound.pending other _ (ends_of_some found)

theorem Exclusive.ends {world : World} (exclusive : Exclusive world) (index : Nat) :
    Exclusive (world.ends index) where
  locks := exclusive.locks.ends index
  keys := exclusive.keys.ends index
  ids := exclusive.ids.ends index
  requests := exclusive.requests.ends index

/-! ## Commits -/

theorem insertedJobs_append {before after : JobsTable} {job : Job}
    (rows : after.rows = before.rows ++ [job]) : insertedJobs before after = [job] := by
  have absent : before.get? job.id = none := by
    refine Table.get?_eq_none_iff.mpr fun other member same => ?_
    have distinct := after.nodup
    rw [rows, List.map_append] at distinct
    exact (List.nodup_append.mp distinct).2.2 other.id (List.mem_map_of_mem member) job.id
      (List.mem_singleton_self _) same
  unfold insertedJobs
  rw [rows, List.filter_append, List.filter_eq_nil_iff.mpr, List.nil_append]
  · simp [absent]
  · intro other member
    simp [Table.get?_eq_some_iff.mpr ⟨member, rfl⟩]

theorem insertedJobs_self (table : JobsTable) : insertedJobs table table = [] := by
  refine List.filter_eq_nil_iff.mpr fun job member => ?_
  simp [Table.get?_eq_some_iff.mpr ⟨member, rfl⟩]

theorem updateQueue_rows {before after : JobsTable} {job : Job}
    (rows : after.rows = before.rows ++ [job]) (name : Bytes) :
    (updateQueue name job.id after).rows = before.rows ++ [{ job with queue := name }] := by
  have others : ∀ other ∈ before.rows, other.id ≠ job.id := by
    intro other member same
    have distinct := after.nodup
    rw [rows, List.map_append] at distinct
    exact (List.nodup_append.mp distinct).2.2 other.id (List.mem_map_of_mem member) job.id
      (List.mem_singleton_self _) same
  change after.rows.filterMap (Table.updateRow _ _) = _
  rw [rows, List.filterMap_append]
  congr 1
  · refine (List.filterMap_congr fun other member => ?_).trans (List.filterMap_some)
    simp [Table.updateRow, others other member]
  · simp [Table.updateRow]

/-- The committed state after the writes of a recorded replay. -/
structure Adds (item : PreparedUniqueBatchPut) (job : Job) (record : Record)
    (before after : Store) : Prop where
  keys : after.database.keys.rows =
    before.database.keys.rows ++ [item.keyRow Pgsql.stored]
  jobs : after.database.jobs.rows = before.database.jobs.rows ++ [job]
  id : job.id = item.jobID
  key : job.deduplicationKey = some item.put.deduplicationKey
  failed : after.database.failed = before.database.failed
  replays : after.replays.rows = before.replays.rows ++ [record]

theorem stageUnique_new {item : PreparedUniqueBatchPut} {database : Database}
    (covered : Covered database)
    (unregistered : database.keys.get? item.put.deduplicationKey = none)
    (ids : ∀ row ∈ database.keys.rows, row.jobID ≠ item.jobID)
    (inactive : ∀ job ∈ database.jobs.rows, job.id ≠ item.jobID) :
    Staged Pgsql.stored [item] database (Pgsql.stageUnique item database).2 := by
  have fresh : Fresh [item] database :=
    { keys := List.nodup_singleton _
      ids := List.nodup_singleton _
      unregistered := List.forall_mem_singleton.mpr ids
      inactive := List.forall_mem_singleton.mpr inactive }
  have outcome := Pgsql.stageUnique_outcome fresh covered
  have new : newItems database.keys [item] = [item] := by simp [newItems, unregistered]
  generalize (single (Pgsql.stageUnique item database)).1 = answer at outcome
  change PutOutcome _ _ database answer (Pgsql.stageUnique item database).2 at outcome
  generalize (Pgsql.stageUnique item database).2 = after at outcome ⊢
  cases outcome with
  | staged agree rows =>
    rw [new] at rows
    exact rows
  | conflict disagree =>
    obtain ⟨other, member, row, found, _⟩ := disagree
    rw [List.mem_singleton.mp member, unregistered] at found
    cases found

theorem adds_of_writes {item : PreparedUniqueBatchPut} {name : Bytes} {record : Record}
    {store : Store} (covered : Covered store.database)
    (unregistered : store.database.keys.get? item.put.deduplicationKey = none)
    (ids : ∀ row ∈ store.database.keys.rows, row.jobID ≠ item.jobID)
    (inactive : ∀ job ∈ store.database.jobs.rows, job.id ≠ item.jobID)
    (absent : store.replays.get? record.requestID = none) (locked : List JobID) :
    Adds item { item.jobRow Pgsql.stored with queue := name } record store
      (Transaction.view ⟨locked, [.unique item, .queue name item.jobID, .record record]⟩
        store) := by
  have staged := stageUnique_new covered unregistered ids inactive
  have jobs : (Pgsql.stageUnique item store.database).2.jobs.rows =
      store.database.jobs.rows ++ [item.jobRow Pgsql.stored] := staged.jobs
  have inserted : store.replays.insert? record = some
      ((store.replays.insert? record).getD store.replays) := by
    unfold Table.insert?
    rw [dif_neg ?_]
    · rfl
    · intro member
      obtain ⟨other, hother, same⟩ := List.mem_map.mp member
      exact Table.get?_eq_none_iff.mp absent other hother same
  exact
    { keys := staged.keys
      jobs := updateQueue_rows jobs name
      id := rfl
      key := rfl
      failed := staged.failed
      replays := (Table.insert?_eq_some_iff.mp inserted).2 }

structure Commits (world : World) (index : Nat) (transaction : Transaction) (record : Record)
    (item : PreparedUniqueBatchPut) (job : Job) : Prop where
  isOpen : world.transactions index = some transaction
  admissible : Admissible world transaction record
  staged : item ∈ transaction.staged
  key : item.put.deduplicationKey = replayKey record.requestID
  jobID : item.jobID = record.jobID
  new : New world item
  adds : Adds item job record world.store (transaction.view world.store)

section Commits

variable {world : World} {index : Nat} {transaction : Transaction} {record : Record}
variable {item : PreparedUniqueBatchPut} {job : Job}

theorem commits_of_facts (sound : Sound world) {requestID : RequestID}
    (isOpen : world.transactions index = some transaction)
    (facts : Facts world requestID transaction (.recorded record)) :
    ∃ item job, Commits world index transaction record item job := by
  obtain ⟨admissible, same, item, name, pending⟩ := facts
  have inactive : ∀ id ∉ world.settled, (∀ row ∈ world.database.keys.rows, row.jobID ≠ id) ∧
      ∀ job ∈ world.database.jobs.rows, job.id ≠ id := by
    intro id unsettled
    exact ⟨fun row member same => unsettled (same ▸ sound.keys row member),
      fun job member same => unsettled (same ▸ sound.jobs job member)⟩
  obtain ⟨ids, jobs⟩ := inactive _ pending.new.unsettled
  have adds := @adds_of_writes item name record world.store sound.covered
    pending.new.unregistered ids jobs admissible.absent transaction.locked
  have view : transaction = ⟨transaction.locked,
      [.unique item, .queue name item.jobID, .record record]⟩ := by
    rw [pending.jobID, ← pending.writes]
  rw [← view] at adds
  refine ⟨item, _, isOpen, admissible, ?_, same ▸ pending.key, pending.jobID, pending.new, adds⟩
  simp [Transaction.staged, pending.writes]

namespace Commits

variable (commits : Commits world index transaction record item job)

include commits

theorem inserted :
    (world.committed index transaction).inserted = world.inserted ++ [job] :=
  congrArg (world.inserted ++ ·) (insertedJobs_append commits.adds.jobs)

theorem settled : (world.committed index transaction).settled = world.settled ++ [job.id] := by
  rw [World.settled, commits.inserted, List.map_append]
  rfl

theorem mem_settled {id : JobID} : id ∈ (world.committed index transaction).settled ↔
    id ∈ world.settled ∨ id = item.jobID := by
  rw [commits.settled, List.mem_append, List.mem_singleton, commits.adds.id]

theorem mem_jobs {other : Job} :
    other ∈ (world.committed index transaction).database.jobs.rows ↔
      other ∈ world.database.jobs.rows ∨ other = job := by
  change other ∈ (transaction.view world.store).database.jobs.rows ↔ _
  rw [commits.adds.jobs, List.mem_append, List.mem_singleton]
  rfl

theorem mem_keys {row : IdempotencyKey} :
    row ∈ (world.committed index transaction).database.keys.rows ↔
      row ∈ world.database.keys.rows ∨ row = item.keyRow Pgsql.stored := by
  change row ∈ (transaction.view world.store).database.keys.rows ↔ _
  rw [commits.adds.keys, List.mem_append, List.mem_singleton]
  rfl

theorem mem_replays {other : Record} :
    other ∈ (world.committed index transaction).store.replays.rows ↔
      other ∈ world.store.replays.rows ∨ other = record := by
  change other ∈ (transaction.view world.store).replays.rows ↔ _
  rw [commits.adds.replays, List.mem_append, List.mem_singleton]

theorem undisturbed (exclusive : Exclusive world) {other : Nat} (differ : other ≠ index) :
    Undisturbed world (world.committed index transaction) other where
  transactions _ found := ends_of_some found
  settled id member := commits.mem_settled.mpr (Or.inl member)
  jobs := by
    intro added member old
    rcases commits.mem_jobs.mp member with member | rfl
    · exact ⟨added, member, rfl⟩
    · rw [commits.adds.id] at old
      exact absurd old commits.new.unsettled
  ids := by
    intro holder isOpen id member absent present
    obtain rfl := (commits.mem_settled.mp present).resolve_left absent
    exact exclusive.ids index other _ _ differ.symm commits.isOpen isOpen _
      (List.mem_map_of_mem commits.staged) member
  keys := by
    intro holder isOpen key member absent
    refine Table.get?_eq_none_iff.mpr fun row hrow same => ?_
    rcases commits.mem_keys.mp hrow with old | rfl
    · exact Table.get?_eq_none_iff.mp absent row old same
    · rw [← same] at member
      exact exclusive.keys index other _ _ differ.symm commits.isOpen isOpen _
        (List.mem_map_of_mem commits.staged) member
  journal := by
    intro added member
    rcases commits.mem_replays.mp member with old | rfl
    · exact Or.inl old
    · refine Or.inr fun holder isOpen => ⟨?_, ?_⟩
      · exact exclusive.locks index other _ _ differ.symm commits.isOpen isOpen _
          commits.admissible.holding.locked
      · exact exclusive.requests index other _ _ differ.symm commits.isOpen isOpen _
          commits.admissible.pending
  retained _ member := commits.mem_replays.mpr (Or.inl member)
  failed := by
    intro _ _ row member _
    change row ∈ (transaction.view world.store).database.failed.rows
    rw [commits.adds.failed]
    exact member
  begun := rfl
  commits := by
    intro commit member own
    rcases List.mem_append.mp member with old | new
    · exact old
    · rw [List.mem_singleton.mp new] at own
      exact absurd own.symm differ

theorem counted (sound : Sound world) (id : RequestID) :
    ((world.committed index transaction).committedUnder (replayKey id)).length =
      if ((world.committed index transaction).store.replays.get? id).isSome then 1 else 0 := by
  have before := sound.counted id
  have absent := commits.admissible.absent
  rw [World.committedUnder, commits.inserted, List.filter_append, List.length_append]
  change (world.committedUnder (replayKey id)).length + _ = _
  rw [before]
  by_cases own : id = record.requestID
  · subst own
    have present : ((world.committed index transaction).store.replays.get?
        record.requestID).isSome = true := by
      exact Table.isSome_get?_of_mem (commits.mem_replays.mpr (Or.inr rfl)) rfl
    rw [absent, present]
    simp [commits.adds.key, commits.key]
  · have other : ¬ job.deduplicationKey = some (replayKey id) := by
      rw [commits.adds.key, commits.key]
      exact fun same => own (replayKey_injective (Option.some.inj same)).symm
    have lookup : (world.committed index transaction).store.replays.get? id =
        world.store.replays.get? id := by
      cases found : world.store.replays.get? id with
      | some earlier =>
        obtain ⟨member, same⟩ := Table.get?_eq_some_iff.mp found
        exact Table.get?_eq_some_iff.mpr ⟨commits.mem_replays.mpr (Or.inl member), same⟩
      | none =>
        refine Table.get?_eq_none_iff.mpr fun earlier member same => ?_
        rcases commits.mem_replays.mp member with old | rfl
        · exact Table.get?_eq_none_iff.mp found earlier old same
        · exact own same.symm
    rw [lookup]
    simp [other]

theorem covered (sound : Sound world) : Covered (world.committed index transaction).database := by
  refine sound.covered.grows (fun _ old => commits.mem_keys.mpr (Or.inl old)) fun added member => ?_
  rcases commits.mem_jobs.mp member with old | rfl
  · exact Or.inl old
  · exact Or.inr ⟨_, commits.mem_keys.mpr (Or.inr rfl), commits.adds.key⟩

theorem sound (sound : Sound world) : Sound (world.committed index transaction) := by
  have settles : ∀ id ∈ world.settled, id ∈ (world.committed index transaction).settled :=
    fun _ member => commits.mem_settled.mpr (Or.inl member)
  have settlesNew : item.jobID ∈ (world.committed index transaction).settled :=
    commits.mem_settled.mpr (Or.inr rfl)
  have grows : world.store.replays.rows <+:
      (world.committed index transaction).store.replays.rows := by
    change world.store.replays.rows <+: (transaction.view world.store).replays.rows
    rw [commits.adds.replays]
    exact List.prefix_append _ _
  have failed : (world.committed index transaction).database.failed = world.database.failed :=
    commits.adds.failed
  have describes : ∀ source, Describes world.store source →
      Describes (world.committed index transaction).store source := by
    rintro source ⟨row, member, same⟩
    refine ⟨row, ?_, same⟩
    change row ∈ (world.committed index transaction).database.failed.rows
    rw [failed]
    exact member
  exact
    { covered := commits.covered sound
      failedIDs := failed ▸ sound.failedIDs
      used := by
        intro id member
        rcases commits.mem_settled.mp member with old | rfl
        · exact sound.used id old
        · exact (sound.pending index transaction commits.isOpen item commits.staged).1
      jobs := by
        intro added member
        rcases commits.mem_jobs.mp member with old | rfl
        · exact settles _ (sound.jobs added old)
        · exact commits.adds.id ▸ settlesNew
      keys := by
        intro row member
        rcases commits.mem_keys.mp member with old | rfl
        · exact settles _ (sound.keys row old)
        · exact settlesNew
      failed := by
        rw [failed]
        exact fun row member => settles _ (sound.failed row member)
      replayed := by
        intro other member
        rcases commits.mem_replays.mp member with old | rfl
        · exact settles _ (sound.replayed other old)
        · exact commits.jobID ▸ settlesNew
      described := by
        intro other member
        rcases commits.mem_replays.mp member with old | rfl
        · exact describes _ (sound.described other old)
        · exact describes _ commits.admissible.holding.described
      valid := by
        intro other member
        rcases commits.mem_replays.mp member with old | rfl
        · exact sound.valid other old
        · exact commits.admissible.valid
      agree := by
        intro first hfirst second hsecond same
        rcases commits.mem_replays.mp hfirst with oldFirst | rfl
        · rcases commits.mem_replays.mp hsecond with oldSecond | rfl
          · exact sound.agree first oldFirst second oldSecond same
          · exact commits.admissible.agree first oldFirst same
        · rcases commits.mem_replays.mp hsecond with oldSecond | rfl
          · obtain ⟨source, key⟩ := commits.admissible.agree second oldSecond same.symm
            exact ⟨source.symm, key.symm⟩
          · exact ⟨rfl, rfl⟩
      counted := commits.counted sound
      quiet := by
        intro commit member
        rcases List.mem_append.mp member with old | new
        · exact sound.quiet commit old
        · rw [List.mem_singleton.mp new]
          intro other hother absent
          rcases commits.mem_replays.mp hother with old | rfl
          · exact absurd old absent
          · exact commits.admissible.quiet
      kept := by
        intro commit member
        rcases List.mem_append.mp member with old | new
        · exact (sound.kept commit old).trans grows
        · rw [List.mem_singleton.mp new]
          exact grows
      begun := fun other => (sound.begun other).trans grows
      begunDescribed := sound.begunDescribed
      pending := fun other _ found => sound.pending other _ (ends_of_some found) }

end Commits

end Commits

/-! ## Other activity -/

/-- A transaction has locked the failed row, or a record refers to it. -/
def World.Needs (world : World) (row : JobFailed) : Prop :=
  (∃ index transaction, world.transactions index = some transaction ∧
    row.id ∈ transaction.locked) ∨
  ∃ record ∈ world.store.replays.rows, record.source.failedJobID = row.id

/-- How a change of the tables of the repositories may move the world. -/
structure Activity (world after : World) : Prop where
  transactions : after.transactions = world.transactions
  replays : after.store.replays = world.store.replays
  begun : after.begun = world.begun
  commits : after.commits = world.commits
  inserted : ∃ new, after.inserted = world.inserted ++ new ∧
    (∀ job ∈ new, job.id ∉ world.used ∧ job.id ∈ after.used) ∧
    ∀ job ∈ new, ∀ id, job.deduplicationKey ≠ some (replayKey id)
  used : ∀ id ∈ world.used, id ∈ after.used
  covered : Covered after.database
  jobs : ∀ job ∈ after.database.jobs.rows, job.id ∈ after.settled ∧
    (job.id ∈ world.settled → ∃ old ∈ world.database.jobs.rows, old.id = job.id)
  keys : ∀ row ∈ after.database.keys.rows, row.jobID ∈ after.settled ∧
    ((∃ id, row.deduplicationKey = replayKey id) → row ∈ world.database.keys.rows)
  failedIDs : (after.database.failed.rows.map JobFailed.id).Nodup
  failed : ∀ row ∈ after.database.failed.rows, row.jobID ∈ after.settled
  locked : ∀ row ∈ world.database.failed.rows, world.Needs row → row ∈ after.database.failed.rows

section Activity

variable {world after : World}

theorem Activity.settled (activity : Activity world after) :
    ∀ id ∈ world.settled, id ∈ after.settled := by
  obtain ⟨new, inserted, _⟩ := activity.inserted
  intro id member
  rw [World.settled, inserted, List.map_append]
  exact List.mem_append_left _ member

theorem Activity.undisturbed (activity : Activity world after) (sound : Sound world)
    (index : Nat) :
    Undisturbed world after index where
  transactions _ found := activity.transactions ▸ found
  settled := activity.settled
  jobs job member := (activity.jobs job member).2
  ids := by
    intro transaction isOpen id member absent present
    obtain ⟨new, inserted, fresh, _⟩ := activity.inserted
    rw [World.settled, inserted, List.map_append] at present
    rcases List.mem_append.mp present with old | new
    · exact absent old
    · obtain ⟨job, hjob, rfl⟩ := List.mem_map.mp new
      obtain ⟨item, hitem, same⟩ := List.mem_map.mp member
      exact (fresh job hjob).1 (same ▸ (sound.pending index transaction isOpen item hitem).1)
  keys := by
    intro transaction isOpen key member absent
    refine Table.get?_eq_none_iff.mpr fun row hrow same => ?_
    obtain ⟨item, hitem, rfl⟩ := List.mem_map.mp member
    obtain ⟨id, own⟩ := (sound.pending index transaction isOpen item hitem).2
    exact Table.get?_eq_none_iff.mp absent row ((activity.keys row hrow).2 ⟨id, same.trans own⟩)
      same
  journal _ member := Or.inl (activity.replays ▸ member)
  retained _ member := activity.replays ▸ member
  failed transaction isOpen row member locked :=
    activity.locked row member (Or.inl ⟨index, transaction, isOpen, locked⟩)
  begun := congrFun activity.begun index
  commits _ member _ := activity.commits ▸ member

theorem Activity.sound (activity : Activity world after) (sound : Sound world) : Sound after where
  covered := activity.covered
  failedIDs := activity.failedIDs
  used := by
    obtain ⟨new, inserted, fresh, _⟩ := activity.inserted
    intro id member
    rw [World.settled, inserted, List.map_append] at member
    rcases List.mem_append.mp member with old | added
    · exact activity.used id (sound.used id old)
    · obtain ⟨job, hjob, rfl⟩ := List.mem_map.mp added
      exact (fresh job hjob).2
  jobs job member := (activity.jobs job member).1
  keys row member := (activity.keys row member).1
  failed := activity.failed
  replayed := by
    rw [activity.replays]
    exact fun record member => activity.settled _ (sound.replayed record member)
  described := by
    rw [activity.replays]
    intro record member
    obtain ⟨row, hrow, same⟩ := sound.described record member
    have id : record.source.failedJobID = row.id := congrArg Source.failedJobID same
    exact ⟨row, activity.locked row hrow (Or.inr ⟨record, member, id⟩), same⟩
  valid := activity.replays ▸ sound.valid
  agree := activity.replays ▸ sound.agree
  counted := by
    intro id
    obtain ⟨new, inserted, _, foreign⟩ := activity.inserted
    have none : new.filter (fun job => decide (job.deduplicationKey = some (replayKey id))) = [] :=
      List.filter_eq_nil_iff.mpr fun job member => by simpa using foreign job member id
    rw [World.committedUnder, inserted, List.filter_append, none, List.append_nil,
      activity.replays]
    exact sound.counted id
  quiet := activity.commits ▸ sound.quiet
  kept := by
    rw [activity.commits, activity.replays]
    exact sound.kept
  begun := by
    rw [activity.begun, activity.replays]
    exact sound.begun
  begunDescribed := activity.begun ▸ sound.begunDescribed
  pending := by
    rw [activity.transactions]
    exact fun index transaction isOpen item member =>
      (sound.pending index transaction isOpen item member).imp_left (activity.used _)

theorem Activity.exclusive (activity : Activity world after) (exclusive : Exclusive world) :
    Exclusive after := by
  have apart : ∀ {α : Type} {held : Transaction → List α}, world.Apart held → after.Apart held := by
    intro α held apart
    unfold World.Apart
    rw [activity.transactions]
    exact apart
  exact ⟨apart exclusive.locks, apart exclusive.keys, apart exclusive.ids,
    apart exclusive.requests⟩

theorem registryStep_covered {digest : Digest} {call : Call} {before after : Database}
    (step : RegistryStep Pgsql.stored digest call before after) (covered : Covered before) :
    Covered after := by
  cases step with
  | rows keys jobs =>
    intro job member key carried
    rw [keys]
    rcases jobs job member with ⟨old, hold, same⟩ | ⟨none, _⟩
    · exact covered old hold key (same.2.1.trans carried)
    · rw [none] at carried
      cases carried
  | staged items within distinct new rows => exact rows.covered covered
  | pruned prunes jobs selected keys inactive =>
    intro job member key carried
    rw [jobs] at member
    obtain ⟨row, found⟩ := Option.isSome_iff_exists.mp (covered job member key carried)
    obtain ⟨hrow, same⟩ := Table.get?_eq_some_iff.mp found
    have kept : selected row = false := by
      by_contra chosen
      have unused := inactive row hrow (by simpa using chosen)
      rw [activeKey, List.any_eq_false] at unused
      exact unused job member (by simp [carried, same])
    exact Table.isSome_get?_of_mem (keys ▸ Table.mem_delete.mpr ⟨hrow, kept⟩) same

/-- A call writes at most one failed row, for the job it was given. -/
theorem call_failed {digest : Digest} {call : Call} {database : Database}
    (fresh : FreshIDs call.newIDs database) (outermost : call.outermost = true)
    (covered : Covered database) :
    (call.run .pgsql digest database).2.failed = database.failed ∨
      ∃ row, insertFailed row database.failed = some (call.run .pgsql digest database).2.failed ∧
        deadLetter call = some row.jobID := by
  have put : ∀ {prepared answer after}, PutOutcome Pgsql.stored prepared database answer after →
      after.failed = database.failed := by
    intro prepared answer after outcome
    cases outcome with
    | staged agree rows => exact rows.failed
    | conflict => rfl
  cases call with
  | createJobVersionedUniqueResult view put_ id createdAt =>
    refine Or.inl ?_
    by_cases valid : ValidPut put_
    · exact put (Backend.pgsql.createJobVersionedUniqueResult_outcome view digest valid
        (@FreshIDs.prepared database digest [(put_, id)] createdAt fresh
          (List.nodup_singleton _)) covered)
    · exact congrArg Database.failed
        (Backend.pgsql.createJobVersionedUniqueResult_invalid digest valid).2
  | createJobVersionedUniqueBatch view items createdAt =>
    refine Or.inl ?_
    by_cases valid : ValidBatch (items.map Prod.fst)
    · exact put (Backend.pgsql.createJobVersionedUniqueBatch_outcome view digest
        (by simpa [Call.outermost] using outermost) valid (fresh.prepared valid.2.2) covered)
    · exact congrArg Database.failed (Backend.pgsql.createJobVersionedUniqueBatch_invalid valid)
  | pruneJobIdempotencyKeys view before limit =>
    refine Or.inl ?_
    rcases Backend.pgsql.pruneJobIdempotencyKeys_cases view before limit database with
      same | ⟨candidates, _, _, same⟩
    · exact congrArg Database.failed same
    · exact congrArg (fun answer => answer.2.failed) same
  | createFailedJobVersioned id jobID name schemaVersion payload reason failedAt createdAt =>
    change ((Pgsql.createFailedJobVersioned id jobID name schemaVersion payload reason failedAt
      createdAt database).2.failed = _ ∨ ∃ row, insertFailed row database.failed =
        some (Pgsql.createFailedJobVersioned id jobID name schemaVersion payload reason failedAt
          createdAt database).2.failed ∧ some jobID = some row.jobID)
    unfold Pgsql.createFailedJobVersioned Storage.createFailedJobVersioned
    rcases checkedCall_cases _ _ database with same | ⟨_, same⟩
    · exact Or.inl (congrArg Database.failed same)
    · rw [same]
      cases inserted : insertFailed (failedRow id jobID name schemaVersion payload reason
          (Pgsql.stored failedAt) (Pgsql.stored createdAt)) database.failed with
      | none => exact Or.inl rfl
      | some failed => exact Or.inr ⟨_, inserted, rfl⟩
  | _ => exact Or.inl rfl

structure FailedRows (world : World) (failed : JobsFailedTable) : Prop where
  ids : (failed.rows.map JobFailed.id).Nodup
  known : ∀ row ∈ failed.rows, row.jobID ∈ world.settled
  locked : ∀ row ∈ world.database.failed.rows, world.Needs row → row ∈ failed.rows

theorem FailedRows.same (sound : Sound world) : FailedRows world world.database.failed :=
  ⟨sound.failedIDs, sound.failed, fun _ member _ => member⟩

theorem FailedRows.inserted (sound : Sound world) {row : JobFailed} {failed : JobsFailedTable}
    (inserts : insertFailed row world.database.failed = some failed)
    (known : row.jobID ∈ world.settled) : FailedRows world failed := by
  unfold insertFailed at inserts
  split at inserts
  · cases inserts
  rename_i fresh
  obtain ⟨_, rows⟩ := Table.insert?_eq_some_iff.mp inserts
  refine ⟨?_, ?_, fun other member _ => ?_⟩
  · rw [rows, List.map_append]
    refine List.Nodup.append sound.failedIDs (List.nodup_singleton _) fun id old new => ?_
    exact fresh (List.mem_singleton.mp new ▸ old)
  · rw [rows]
    exact List.forall_mem_append.mpr ⟨sound.failed, List.forall_mem_singleton.mpr known⟩
  · rw [rows]
    exact List.mem_append_left _ member

theorem FailedRows.deleted (sound : Sound world) {id : JobID}
    (unlocked : ∀ index transaction, world.transactions index = some transaction →
      id ∉ transaction.locked)
    (unreferenced : ∀ record ∈ world.store.replays.rows, record.source.failedJobID ≠ id) :
    FailedRows world (world.database.failed.delete fun row => decide (row.id = id)) := by
  refine ⟨?_, fun row member => sound.failed row (Table.mem_delete.mp member).1,
    fun row member needed => Table.mem_delete.mpr ⟨member, decide_eq_false fun same => ?_⟩⟩
  · rw [Table.delete_rows]
    exact (List.filter_sublist.map _).nodup sound.failedIDs
  · rcases needed with ⟨index, transaction, isOpen, locked⟩ | ⟨record, hrecord, referenced⟩
    · exact unlocked index transaction isOpen (same ▸ locked)
    · exact unreferenced record hrecord (referenced.trans same)

theorem activity_of_failed (sound : Sound world) {failed : JobsFailedTable}
    (rows : FailedRows world failed) :
    Activity world
      (world.becomes { world.store with database := { world.database with failed } }) := by
  have inserted : (world.becomes { world.store with
      database := { world.database with failed } }).inserted = world.inserted ++ [] :=
    congrArg (world.inserted ++ ·) (insertedJobs_self world.database.jobs)
  have settled : (world.becomes { world.store with
      database := { world.database with failed } }).settled = world.settled := by
    rw [World.settled, inserted, List.append_nil]
    rfl
  exact
    { transactions := rfl
      replays := rfl
      begun := rfl
      commits := rfl
      inserted := ⟨[], inserted, nofun, nofun⟩
      used := fun _ member => member
      covered := sound.covered
      jobs := fun job member => ⟨settled ▸ sound.jobs job member, fun _ => ⟨job, member, rfl⟩⟩
      keys := fun row member => ⟨settled ▸ sound.keys row member, fun _ => member⟩
      failedIDs := rows.ids
      failed := settled ▸ rows.known
      locked := rows.locked }

theorem activity_of_call (sound : Sound world) {digest : Digest} {call : Call}
    (distinct : call.newIDs.Nodup) (fresh : ∀ id ∈ call.newIDs, id ∉ world.used)
    (outermost : call.outermost = true)
    (foreign : ∀ put ∈ call.puts, ∀ id, put.1.deduplicationKey ≠ replayKey id)
    (known : ∀ id, deadLetter call = some id → id ∈ world.settled) :
    Activity world ((world.generates call.newIDs).becomes
      { world.store with database := (call.run .pgsql digest world.database).2 }) := by
  have freshIDs : FreshIDs call.newIDs world.database :=
    ⟨distinct, fun id member row hrow same =>
        fresh id member (sound.used _ (same ▸ sound.keys row hrow)),
      fun id member job hjob same => fresh id member (sound.used _ (same ▸ sound.jobs job hjob))⟩
  have step := call.registryStep .pgsql digest freshIDs outermost sound.covered
  have failed := @call_failed digest call world.database freshIDs outermost sound.covered
  have rows : FailedRows world (call.run .pgsql digest world.database).2.failed := by
    rcases failed with same | ⟨row, inserts, dead⟩
    · rw [same]
      exact .same sound
    · exact .inserted sound inserts (known _ dead)
  generalize (call.run .pgsql digest world.database).2 = after at step rows ⊢
  have added : ∀ job ∈ insertedJobs world.database.jobs after.jobs, job.id ∈ call.newIDs ∧
      ∀ id, job.deduplicationKey ≠ some (replayKey id) := by
    intro job member
    obtain ⟨hjob, absent⟩ := List.mem_filter.mp member
    have unknown : ∀ old ∈ world.database.jobs.rows, old.id ≠ job.id :=
      Table.get?_eq_none_iff.mp (Option.isNone_iff_eq_none.mp absent)
    cases step with
    | rows keys jobs =>
      rcases jobs job hjob with ⟨old, hold, same⟩ | ⟨none, new⟩
      · exact absurd same.1 (unknown old hold)
      · exact ⟨new, fun id same => nomatch none.symm.trans same⟩
    | staged items within _ _ staged =>
      rw [staged.jobs] at hjob
      rcases List.mem_append.mp hjob with old | new
      · exact absurd rfl (unknown job old)
      · obtain ⟨item, hitem, rfl⟩ := List.mem_map.mp new
        have put := (Call.mem_prepared (within.subset hitem)).1
        exact ⟨Call.puts_ids put, fun id same => foreign _ put id (Option.some.inj same)⟩
    | pruned _ jobs =>
      rw [jobs] at hjob
      exact absurd rfl (unknown job hjob)
  have settles : ∀ job ∈ after.jobs.rows, job.id ∈ world.settled ∨
      job ∈ insertedJobs world.database.jobs after.jobs := by
    intro job member
    cases found : world.database.jobs.get? job.id with
    | some old =>
      obtain ⟨hold, same⟩ := Table.get?_eq_some_iff.mp found
      exact Or.inl (same ▸ sound.jobs old hold)
    | none => exact Or.inr (List.mem_filter.mpr ⟨member, by simp [found]⟩)
  have settled : ((world.generates call.newIDs).becomes
      { world.store with database := after }).settled =
        world.settled ++ (insertedJobs world.database.jobs after.jobs).map Job.id :=
    List.map_append
  have settledJobs : ∀ job ∈ after.jobs.rows, job.id ∈ ((world.generates call.newIDs).becomes
      { world.store with database := after }).settled := by
    intro job member
    rw [settled]
    rcases settles job member with old | new
    · exact List.mem_append_left _ old
    · exact List.mem_append_right _ (List.mem_map_of_mem new)
  exact
    { transactions := rfl
      replays := rfl
      begun := rfl
      commits := rfl
      inserted := by
        refine ⟨_, rfl, fun job member => ?_, fun job member => (added job member).2⟩
        exact ⟨fresh _ (added job member).1, List.mem_append_left _ (added job member).1⟩
      used := fun _ member => List.mem_append_right _ member
      covered := registryStep_covered step sound.covered
      jobs := by
        refine fun job member => ⟨settledJobs job member, fun old => ?_⟩
        cases found : world.database.jobs.get? job.id with
        | some earlier =>
          obtain ⟨hearlier, same⟩ := Table.get?_eq_some_iff.mp found
          exact ⟨earlier, hearlier, same⟩
        | none =>
          have new : job ∈ insertedJobs world.database.jobs after.jobs :=
            List.mem_filter.mpr ⟨member, by simp [found]⟩
          exact absurd (sound.used _ old) (fresh _ (added job new).1)
      keys := by
        have old : ∀ row ∈ world.database.keys.rows, row.jobID ∈
            ((world.generates call.newIDs).becomes
              { world.store with database := after }).settled := by
          intro row member
          rw [settled]
          exact List.mem_append_left _ (sound.keys row member)
        intro row member
        change row ∈ after.keys.rows at member
        cases step with
        | rows keys =>
          rw [keys] at member
          exact ⟨old row member, fun _ => member⟩
        | staged items within _ _ staged =>
          rw [staged.keys] at member
          rcases List.mem_append.mp member with member | new
          · exact ⟨old row member, fun _ => member⟩
          · obtain ⟨item, hitem, rfl⟩ := List.mem_map.mp new
            have job : item.jobRow Pgsql.stored ∈ after.jobs.rows := by
              rw [staged.jobs]
              exact List.mem_append_right _ (List.mem_map_of_mem hitem)
            refine ⟨settledJobs _ job, fun ⟨id, same⟩ => ?_⟩
            exact absurd same (foreign _ (Call.mem_prepared (within.subset hitem)).1 id)
        | pruned _ _ selected keys =>
          rw [keys] at member
          have earlier := (Table.mem_delete.mp member).1
          exact ⟨old row earlier, fun _ => earlier⟩
      failedIDs := rows.ids
      failed := by
        intro row member
        rw [settled]
        exact List.mem_append_left _ (rows.known row member)
      locked := rows.locked }

end Activity

end OutboxFormal.Replay
