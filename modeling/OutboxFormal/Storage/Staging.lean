import OutboxFormal.Storage.RowInvariant

/-!
# What a unique put stages

`PutOutcome` is the intended meaning of a unique put: every item whose key is
not registered gets a registry row and a job row, every other item is answered
with the registered job, and one key registered with another fingerprint fails
the whole put. The puts of the three backends, which reach this through one
statement or through a registration, a comparison and an insertion, refine it
as outermost transactions whenever their identifiers are new.
-/

namespace OutboxFormal.Storage

open Library

variable {database : Database} {keys : IdempotencyTable} {item : PreparedUniqueBatchPut}
variable {jobs : JobsTable} {stored : Int → Int}

/-! ## The meaning of a put -/

/-- The generated identifiers differ and occur nowhere in the database. -/
structure FreshIDs (ids : List JobID) (database : Database) : Prop where
  nodup : ids.Nodup
  unregistered : ∀ id ∈ ids, ∀ row ∈ database.keys.rows, row.jobID ≠ id
  inactive : ∀ id ∈ ids, ∀ job ∈ database.jobs.rows, job.id ≠ id

/-- A put with different keys and new identifiers. -/
structure Fresh (prepared : List PreparedUniqueBatchPut) (database : Database) : Prop where
  keys : (prepared.map fun item => item.put.deduplicationKey).Nodup
  ids : (prepared.map PreparedUniqueBatchPut.jobID).Nodup
  unregistered : ∀ item ∈ prepared, ∀ row ∈ database.keys.rows, row.jobID ≠ item.jobID
  inactive : ∀ item ∈ prepared, ∀ job ∈ database.jobs.rows, job.id ≠ item.jobID

/-- A valid batch has different keys, so new identifiers make it fresh. -/
theorem FreshIDs.prepared {digest : Digest} {items : List (UniqueBatchPut × JobID)}
    {createdAt : Int} (fresh : FreshIDs (items.map Prod.snd) database)
    (distinct : ((items.map Prod.fst).map UniqueBatchPut.deduplicationKey).Nodup) :
    Fresh (prepareUniqueBatchPuts digest items createdAt) database := by
  have generated : ∀ item ∈ prepareUniqueBatchPuts digest items createdAt,
      item.jobID ∈ items.map Prod.snd := by
    intro item hitem
    obtain ⟨pair, hpair, rfl⟩ := List.mem_map.mp hitem
    exact List.mem_map_of_mem hpair
  exact
    { keys := by simpa [prepareUniqueBatchPuts, Function.comp_def] using distinct
      ids := by simpa [prepareUniqueBatchPuts, Function.comp_def] using fresh.nodup
      unregistered := fun item hitem => fresh.unregistered _ (generated item hitem)
      inactive := fun item hitem => fresh.inactive _ (generated item hitem) }

variable {prepared : List PreparedUniqueBatchPut} {registered : IdempotencyTable}

/-- Every key an active job carries is registered. -/
def Covered (database : Database) : Prop :=
  ∀ job ∈ database.jobs.rows, ∀ key, job.deduplicationKey = some key →
    (database.keys.get? key).isSome = true

def newItems (keys : IdempotencyTable) (prepared : List PreparedUniqueBatchPut) :
    List PreparedUniqueBatchPut :=
  prepared.filter fun item => (keys.get? item.put.deduplicationKey).isNone

def Conflicts (keys : IdempotencyTable) (prepared : List PreparedUniqueBatchPut) : Prop :=
  ∃ item ∈ prepared, ∃ row, keys.get? item.put.deduplicationKey = some row ∧
    row.fingerprint ≠ item.fingerprint

/-- The result of one item: the registered job, or the new one. -/
def resultFor (keys : IdempotencyTable) (item : PreparedUniqueBatchPut) : UniquePutResult :=
  match keys.get? item.put.deduplicationKey with
  | some row => ⟨row.jobID, false⟩
  | none => ⟨item.jobID, true⟩

/-- Both tables grew by the rows of the items, and nothing else changed. -/
structure Staged (stored : Int → Int) (items : List PreparedUniqueBatchPut)
    (before after : Database) : Prop where
  keys : after.keys.rows =
    before.keys.rows ++ items.map (PreparedUniqueBatchPut.keyRow stored)
  jobs : after.jobs.rows =
    before.jobs.rows ++ items.map (PreparedUniqueBatchPut.jobRow stored)
  failed : after.failed = before.failed

theorem Covered.grows {before after : Database} (covered : Covered before)
    (keys : before.keys.rows ⊆ after.keys.rows)
    (jobs : ∀ job ∈ after.jobs.rows, job ∈ before.jobs.rows ∨
      ∃ row ∈ after.keys.rows, job.deduplicationKey = some row.deduplicationKey) :
    Covered after := by
  intro job member key carried
  rcases jobs job member with old | ⟨row, inside, same⟩
  · obtain ⟨row, found⟩ := Option.isSome_iff_exists.mp (covered job old key carried)
    obtain ⟨inside, same⟩ := Table.get?_eq_some_iff.mp found
    exact Table.isSome_get?_of_mem (keys inside) same
  · exact Table.isSome_get?_of_mem inside (Option.some.inj (same.symm.trans carried))

theorem Staged.covered {items : List PreparedUniqueBatchPut} {before after : Database}
    (rows : Staged stored items before after) (covered : Covered before) : Covered after := by
  refine covered.grows (rows.keys ▸ List.subset_append_left _ _) fun job member => ?_
  rw [rows.jobs] at member
  rcases List.mem_append.mp member with old | added
  · exact Or.inl old
  · obtain ⟨item, hitem, rfl⟩ := List.mem_map.mp added
    exact Or.inr ⟨_, rows.keys ▸ List.mem_append_right _ (List.mem_map_of_mem hitem), rfl⟩

/-- The answer of a put and the database it leaves. -/
inductive PutOutcome (stored : Int → Int) (prepared : List PreparedUniqueBatchPut)
    (before : Database) : Except OutboxError (List UniquePutResult) → Database → Prop where
  | staged {after : Database} (agree : ¬ Conflicts before.keys prepared)
      (rows : Staged stored (newItems before.keys prepared) before after) :
      PutOutcome stored prepared before (.ok (prepared.map (resultFor before.keys))) after
  | conflict {error : OutboxError} (disagree : Conflicts before.keys prepared)
      (found : error.is .errIdempotencyConflict = true) :
      PutOutcome stored prepared before (.error error) before

/-! ## Registration -/

theorem jobIDRegistered_eq_false_iff {id : JobID} :
    jobIDRegistered id keys = false ↔ ∀ row ∈ keys.rows, row.jobID ≠ id := by
  simp [jobIDRegistered]

/-- A key with a new identifier is registered, or was there already. -/
theorem registerKey_eq_some {row : IdempotencyKey}
    (unregistered : ∀ other ∈ keys.rows, other.jobID ≠ row.jobID) :
    ∃ after, registerKey row keys = some after ∧
      after.rows = keys.rows ++
        if (keys.get? row.deduplicationKey).isNone then [row] else [] := by
  unfold registerKey
  cases hfound : keys.get? row.deduplicationKey with
  | some other => exact ⟨keys, by simp, by simp⟩
  | none =>
    have absent : row.deduplicationKey ∉ keys.rows.map IdempotencyKey.deduplicationKey := by
      intro member
      obtain ⟨other, hother, same⟩ := List.mem_map.mp member
      exact Table.get?_eq_none_iff.mp hfound other hother same
    cases hinsert : keys.insert? row with
    | none =>
      unfold Table.insert? at hinsert
      rw [dif_neg absent] at hinsert
      cases hinsert
    | some after =>
      refine ⟨after, ?_, ?_⟩
      · simp [jobIDRegistered_eq_false_iff.mpr unregistered]
      · simpa using (Table.insert?_eq_some_iff.mp hinsert).2

/-- A registration of distinct keys with new identifiers appends the keys that
were not there. -/
theorem registerKeys_eq_some {rows : List IdempotencyKey}
    (distinct : (rows.map IdempotencyKey.deduplicationKey).Nodup)
    (ids : (rows.map IdempotencyKey.jobID).Nodup)
    (unregistered : ∀ row ∈ rows, ∀ other ∈ keys.rows, other.jobID ≠ row.jobID) :
    ∃ after, registerKeys rows keys = some after ∧
      after.rows = keys.rows ++
        rows.filter fun row => (keys.get? row.deduplicationKey).isNone := by
  induction rows generalizing keys with
  | nil => exact ⟨keys, rfl, by simp⟩
  | cons row rest ih =>
    rw [List.map_cons, List.nodup_cons] at distinct ids
    obtain ⟨middle, hmiddle, hmiddleRows⟩ :=
      registerKey_eq_some (unregistered row List.mem_cons_self)
    have restFresh : ∀ other ∈ rest, ∀ stored ∈ middle.rows, stored.jobID ≠ other.jobID := by
      intro other hother stored hstored
      rw [hmiddleRows, List.mem_append] at hstored
      rcases hstored with hstored | hstored
      · exact unregistered other (List.mem_cons_of_mem row hother) stored hstored
      · split at hstored
        · rw [List.mem_singleton.mp hstored]
          intro same
          exact ids.1 (List.mem_map.mpr ⟨other, hother, same.symm⟩)
        · cases hstored
    obtain ⟨after, hafter, hafterRows⟩ := ih distinct.2 ids.2 restFresh
    -- The first row hides none of the later keys, since the keys differ.
    have sameLookup : ∀ other ∈ rest, middle.get? other.deduplicationKey =
        keys.get? other.deduplicationKey := by
      intro other hother
      have hne : row.deduplicationKey ≠ other.deduplicationKey := fun same =>
        distinct.1 (List.mem_map.mpr ⟨other, hother, same.symm⟩)
      unfold Table.get?
      rw [hmiddleRows, List.find?_append]
      split
      · simp [hne]
      · simp
    refine ⟨after, by simp [registerKeys, hmiddle, hafter], ?_⟩
    rw [hafterRows, hmiddleRows, List.append_assoc, List.filter_cons]
    congr 1
    rw [List.filter_congr fun other hother => by rw [sameLookup other hother]]
    split <;> rfl

/-- MySQL renames a key only where the other backends fail. -/
theorem Mysql.registerUniqueBatchKeys_eq_some {rows : List IdempotencyKey}
    {after : IdempotencyTable} (registered : registerKeys rows keys = some after) :
    Mysql.registerUniqueBatchKeys rows keys = some after := by
  induction rows generalizing keys with
  | nil => exact registered
  | cons row rest ih =>
    obtain ⟨middle, hfirst, hrest⟩ := Option.bind_eq_some_iff.mp registered
    have first : Mysql.registerOrRename row keys = some middle := by
      simp [Mysql.registerOrRename, hfirst]
    rw [Mysql.registerUniqueBatchKeys, first]
    exact ih hrest

/-! ## Registered entries -/

def RegisteredWith (stored : Int → Int) (prepared : List PreparedUniqueBatchPut)
    (keys registered : IdempotencyTable) : Prop :=
  registered.rows = keys.rows ++ (newItems keys prepared).map (PreparedUniqueBatchPut.keyRow stored)

def entryOf (stored : Int → Int) (keys : IdempotencyTable) (item : PreparedUniqueBatchPut) :
    IdempotencyKey :=
  (keys.get? item.put.deduplicationKey).getD (item.keyRow stored)

theorem registerKeys_prepared (fresh : Fresh prepared database) :
    ∃ registered,
      registerKeys (prepared.map (PreparedUniqueBatchPut.keyRow stored)) database.keys =
        some registered ∧
      RegisteredWith stored prepared database.keys registered := by
  obtain ⟨registered, hregistered, hrows⟩ :=
    @registerKeys_eq_some database.keys (prepared.map (PreparedUniqueBatchPut.keyRow stored))
      (by simpa [Function.comp_def, PreparedUniqueBatchPut.keyRow] using fresh.keys)
      (by simpa [Function.comp_def, PreparedUniqueBatchPut.keyRow] using fresh.ids)
      (by
        intro row hrow
        obtain ⟨item, hitem, rfl⟩ := List.mem_map.mp hrow
        exact fresh.unregistered item hitem)
  refine ⟨registered, hregistered, ?_⟩
  rw [RegisteredWith, hrows, List.filter_map]
  rfl

theorem get?_registered (registration : RegisteredWith stored prepared keys registered)
    (member : item ∈ prepared) :
    registered.get? item.put.deduplicationKey = some (entryOf stored keys item) := by
  rw [Table.get?_eq_some_iff, registration]
  unfold entryOf
  cases hfound : keys.get? item.put.deduplicationKey with
  | some row =>
    obtain ⟨hrow, hkey⟩ := Table.get?_eq_some_iff.mp hfound
    exact ⟨List.mem_append_left _ hrow, hkey⟩
  | none =>
    refine ⟨List.mem_append_right _ (List.mem_map.mpr ⟨item, ?_, rfl⟩), rfl⟩
    exact List.mem_filter.mpr ⟨member, by simp [hfound]⟩

/-- An entry disagrees with its item when the key was registered for other content. -/
theorem entryOf_fingerprint_iff :
    (entryOf stored keys item).fingerprint ≠ item.fingerprint ↔
      ∃ row, keys.get? item.put.deduplicationKey = some row ∧
        row.fingerprint ≠ item.fingerprint := by
  unfold entryOf
  cases keys.get? item.put.deduplicationKey <;> simp [PreparedUniqueBatchPut.keyRow]

/-- An entry carries the new identifier when the key was not registered. -/
theorem entryOf_jobID_iff (unregistered : ∀ row ∈ keys.rows, row.jobID ≠ item.jobID) :
    (entryOf stored keys item).jobID = item.jobID ↔
      keys.get? item.put.deduplicationKey = none := by
  unfold entryOf
  cases hfound : keys.get? item.put.deduplicationKey with
  | none => simp [PreparedUniqueBatchPut.keyRow]
  | some row => simpa using unregistered row (Table.get?_eq_some_iff.mp hfound).1

theorem resultFor_eq (unregistered : ∀ row ∈ keys.rows, row.jobID ≠ item.jobID) :
    resultFor keys item = ⟨(entryOf stored keys item).jobID,
      decide ((entryOf stored keys item).jobID = item.jobID)⟩ := by
  have created := @entryOf_jobID_iff keys item stored unregistered
  unfold resultFor entryOf at *
  cases hfound : keys.get? item.put.deduplicationKey with
  | none => simp [PreparedUniqueBatchPut.keyRow]
  | some row =>
    simp only [hfound, Option.getD_some, reduceCtorEq, iff_false] at created
    simp [created]

/-! ## Inserted jobs -/

theorem insertJobs_eq_some {rows : List Job} {table : JobsTable}
    (ids : (rows.map Job.id).Nodup) (distinct : (rows.map Job.deduplicationKey).Nodup)
    (inactive : ∀ job ∈ rows, ∀ other ∈ table.rows,
      other.id ≠ job.id ∧ other.deduplicationKey ≠ job.deduplicationKey) :
    ∃ after, insertJobs rows table = some after ∧ after.rows = table.rows ++ rows := by
  induction rows generalizing table with
  | nil => exact ⟨table, rfl, by simp⟩
  | cons job rest ih =>
    rw [List.map_cons, List.nodup_cons] at ids distinct
    have absent : job.id ∉ table.rows.map Job.id := by
      intro member
      obtain ⟨other, hother, same⟩ := List.mem_map.mp member
      exact (inactive job List.mem_cons_self other hother).1 same
    obtain ⟨middle, hmiddle⟩ : ∃ middle, table.insert? job = some middle := by
      unfold Table.insert?
      rw [dif_neg absent]
      exact ⟨_, rfl⟩
    obtain ⟨_, hmiddleRows⟩ := Table.insert?_eq_some_iff.mp hmiddle
    have inserted : insertJob job table = some middle := by
      refine insertJob_eq_some_iff.mpr ⟨?_, absent, hmiddleRows⟩
      rintro ⟨_, other, hother, same⟩
      exact (inactive job List.mem_cons_self other hother).2 same
    obtain ⟨after, hafter, hafterRows⟩ := @ih middle ids.2 distinct.2 (by
      intro later hlater other hother
      rw [hmiddleRows, List.mem_append, List.mem_singleton] at hother
      rcases hother with hother | rfl
      · exact inactive later (List.mem_cons_of_mem job hlater) other hother
      · exact ⟨fun same => ids.1 (List.mem_map.mpr ⟨later, hlater, same.symm⟩),
          fun same => distinct.1 (List.mem_map.mpr ⟨later, hlater, same.symm⟩)⟩)
    refine ⟨after, by simp [insertJobs, inserted, hafter], ?_⟩
    rw [hafterRows, hmiddleRows, List.append_assoc, List.singleton_append]

theorem insertJobs_unused {rows : List Job} {table after : JobsTable}
    (inserted : insertJobs rows table = some after) :
    ∀ job ∈ rows, ∀ {key : Bytes}, job.deduplicationKey = some key →
      activeKey table key = false := by
  induction rows generalizing table with
  | nil =>
    intro job hjob
    cases hjob
  | cons first rest ih =>
    obtain ⟨middle, hfirst, hrest⟩ := Option.bind_eq_some_iff.mp inserted
    obtain ⟨hunused, _, hrows⟩ := insertJob_eq_some_iff.mp hfirst
    intro job hjob key hkey
    rcases List.mem_cons.mp hjob with rfl | hjob
    · simp only [activeKey, List.any_eq_false, decide_eq_true_eq]
      intro other hother same
      exact hunused ⟨by simp [hkey], other, hother, same.trans hkey.symm⟩
    · have later := ih hrest job hjob hkey
      simp only [activeKey, hrows, List.any_append, Bool.or_eq_false_iff] at later
      exact later.1

theorem newItems_sublist (keys : IdempotencyTable) (prepared : List PreparedUniqueBatchPut) :
    (newItems keys prepared).Sublist prepared := List.filter_sublist

theorem mem_newItems :
    item ∈ newItems keys prepared ↔
      item ∈ prepared ∧ keys.get? item.put.deduplicationKey = none := by
  simp [newItems]

theorem insertJobs_newItems (fresh : Fresh prepared database)
    (unused : ∀ item ∈ newItems database.keys prepared,
      activeKey database.jobs item.put.deduplicationKey = false) :
    ∃ after, insertJobs
        ((newItems database.keys prepared).map (PreparedUniqueBatchPut.jobRow stored))
        database.jobs = some after ∧
      after.rows = database.jobs.rows ++
        (newItems database.keys prepared).map (PreparedUniqueBatchPut.jobRow stored) := by
  have sublist := newItems_sublist database.keys prepared
  apply insertJobs_eq_some
  · rw [List.map_map]
    exact (sublist.map _).nodup fresh.ids
  · rw [List.map_map]
    have keys : ((newItems database.keys prepared).map
        fun item => item.put.deduplicationKey).Nodup := (sublist.map _).nodup fresh.keys
    have optional := keys.map (Option.some_injective Bytes)
    rwa [List.map_map] at optional
  · intro job hjob other hother
    obtain ⟨item, hitem, rfl⟩ := List.mem_map.mp hjob
    refine ⟨fresh.inactive item (sublist.subset hitem) other hother, ?_⟩
    have inactive := unused item hitem
    simp only [activeKey, List.any_eq_false, decide_eq_true_eq] at inactive
    exact inactive other hother

/-! ## The callbacks of a batch -/

section Callbacks

/-- The items agree with the entries of their keys exactly without a conflict. -/
theorem agree_iff :
    (∀ item ∈ prepared, (entryOf stored database.keys item).fingerprint = item.fingerprint) ↔
      ¬ Conflicts database.keys prepared := by
  constructor
  · rintro agree ⟨item, hitem, hrow⟩
    exact entryOf_fingerprint_iff.mpr hrow (agree item hitem)
  · intro agree item hitem
    by_contra hne
    exact agree ⟨item, hitem, entryOf_fingerprint_iff.mp hne⟩

/-- The comparison loop over the registered entries. -/
theorem DatabaseSql.uniqueBatchResults_eq {entries : PreparedUniqueBatchPut → IdempotencyKey}
    (lookup : ∀ item ∈ prepared, keys.get? item.put.deduplicationKey = some (entries item)) :
    uniqueBatchResults keys prepared =
      if ∀ item ∈ prepared, (entries item).fingerprint = item.fingerprint then
        .ok (prepared.map fun item =>
            ⟨(entries item).jobID, decide ((entries item).jobID = item.jobID)⟩,
          prepared.filter fun item => decide ((entries item).jobID = item.jobID))
      else .error (.leaf .errIdempotencyConflict) := by
  induction prepared with
  | nil => simp [uniqueBatchResults]
  | cons item rest ih =>
    have restLookup := fun other hother => lookup other (List.mem_cons_of_mem item hother)
    rw [uniqueBatchResults, lookup item List.mem_cons_self]
    simp only [ih restLookup, List.forall_mem_cons]
    by_cases hsame : (entries item).fingerprint = item.fingerprint
    · by_cases hrest : ∀ other ∈ rest, (entries other).fingerprint = other.fingerprint
      · by_cases hcreated : (entries item).jobID = item.jobID
        all_goals simp [hsame, if_pos hrest, hcreated]
      · simp [hsame, if_neg hrest]
    · simp [hsame]

variable (fresh : Fresh prepared database)
include fresh

theorem filter_created :
    (prepared.filter fun item =>
      decide ((entryOf stored database.keys item).jobID = item.jobID)) =
      newItems database.keys prepared := by
  apply List.filter_congr
  intro item hitem
  rw [Bool.eq_iff_iff, decide_eq_true_eq, entryOf_jobID_iff (fresh.unregistered item hitem),
    Option.isNone_iff_eq_none]

section Registered

variable (registration : RegisteredWith stored prepared database.keys registered)
include registration

/-- The results and created items of a put without a conflict. -/
theorem DatabaseSql.uniqueBatchResults_registered :
    uniqueBatchResults registered prepared =
      open Classical in
      if Conflicts database.keys prepared then .error (.leaf .errIdempotencyConflict)
      else .ok (prepared.map (resultFor database.keys), newItems database.keys prepared) := by
  rw [uniqueBatchResults_eq fun item hitem => get?_registered registration hitem]
  by_cases hconflict : Conflicts database.keys prepared
  · rw [if_pos hconflict, if_neg fun agree => agree_iff.mp agree hconflict]
  · rw [if_neg hconflict, if_pos (agree_iff.mpr hconflict), filter_created fresh]
    congr 2
    exact List.map_congr_left fun item hitem => (resultFor_eq (fresh.unregistered item hitem)).symm

theorem Pgsql.resultOf_registered (member : item ∈ prepared) :
    resultOf registered item =
      if (entryOf stored database.keys item).fingerprint = item.fingerprint then
        some (resultFor database.keys item)
      else none := by
  rw [resultOf, keyRowOf, get?_registered registration member,
    @resultFor_eq database.keys item stored (fresh.unregistered item member)]
  by_cases hsame : (entryOf stored database.keys item).fingerprint = item.fingerprint <;>
    simp [hsame]

/-- The statement inserts a job for every new key, also in a conflicting put. -/
theorem Pgsql.createdItems_registered :
    createdItems registered prepared = newItems database.keys prepared := by
  apply List.filter_congr
  intro item hitem
  rw [resultOf_registered fresh registration hitem]
  unfold entryOf resultFor
  cases hfound : database.keys.get? item.put.deduplicationKey with
  | none => simp [PreparedUniqueBatchPut.keyRow]
  | some row =>
    simp only [Option.getD_some, Option.isNone_some]
    split <;> rfl

theorem Pgsql.results_registered :
    (¬ Conflicts database.keys prepared →
      prepared.filterMap (resultOf registered) = prepared.map (resultFor database.keys)) ∧
    (Conflicts database.keys prepared →
      (prepared.filterMap (resultOf registered)).length ≠ prepared.length) := by
  have rows : prepared.filterMap (resultOf registered) =
      prepared.filterMap fun item =>
        if (entryOf stored database.keys item).fingerprint = item.fingerprint then
          some (resultFor database.keys item)
        else none :=
    List.filterMap_congr fun item hitem => resultOf_registered fresh registration hitem
  constructor
  · intro agree
    rw [rows, List.filterMap_congr (g := fun item => some (resultFor database.keys item))
      fun item hitem => if_pos (agree_iff.mpr agree item hitem), List.filterMap_eq_map']
  · rintro ⟨item, hitem, hrow⟩ same
    have every := List.filterMap_length_eq_length.mp (rows ▸ same) item hitem
    rw [if_neg (entryOf_fingerprint_iff.mpr hrow)] at every
    cases every

/-- MySQL and SQLite: the keys stay registered in a conflicting put. -/
theorem DatabaseSql.stageUniqueBatch_conflict
    {register : List IdempotencyKey → IdempotencyTable → Option IdempotencyTable}
    (registers : register (prepared.map (PreparedUniqueBatchPut.keyRow stored)) database.keys =
      some registered) (disagree : Conflicts database.keys prepared) :
    stageUniqueBatch stored register prepared database =
      (.error (.leaf .errIdempotencyConflict), { database with keys := registered }) := by
  rw [stageUniqueBatch, registers]
  simp only [uniqueBatchResults_registered fresh registration, if_pos disagree]

theorem DatabaseSql.stageUniqueBatch_agree
    {register : List IdempotencyKey → IdempotencyTable → Option IdempotencyTable}
    (registers : register (prepared.map (PreparedUniqueBatchPut.keyRow stored)) database.keys =
      some registered) (agree : ¬ Conflicts database.keys prepared) (inserted : insertJobs
      ((newItems database.keys prepared).map (PreparedUniqueBatchPut.jobRow stored))
      database.jobs = some jobs) :
    stageUniqueBatch stored register prepared database =
      (.ok (prepared.map (resultFor database.keys)),
        { database with jobs := jobs, keys := registered }) := by
  rw [stageUniqueBatch, registers]
  simp only [uniqueBatchResults_registered fresh registration, if_neg agree, inserted]

end Registered

/-- PostgreSQL: a conflicting put has staged its new items when it fails. -/
theorem Pgsql.stageUniqueBatch_inserted
    (registers : registerKeys (prepared.map (PreparedUniqueBatchPut.keyRow Pgsql.stored))
      database.keys = some registered)
    (registration : RegisteredWith Pgsql.stored prepared database.keys registered)
    (inserted : insertJobs
      ((newItems database.keys prepared).map (PreparedUniqueBatchPut.jobRow Pgsql.stored))
      database.jobs = some jobs) :
    (Conflicts database.keys prepared → stageUniqueBatch prepared database =
      (.error (.leaf .errIdempotencyConflict),
        { database with jobs := jobs, keys := registered })) ∧
    (¬ Conflicts database.keys prepared → stageUniqueBatch prepared database =
      (.ok (prepared.map (resultFor database.keys)),
        { database with jobs := jobs, keys := registered })) := by
  obtain ⟨whenAgree, whenDisagree⟩ := results_registered fresh registration
  simp only [stageUniqueBatch, registers, createdItems_registered fresh registration, inserted]
  constructor
  · intro disagree
    rw [if_pos (whenDisagree disagree)]
  · intro agree
    rw [whenAgree agree, if_neg (by simp)]

/-- PostgreSQL: a failed insertion undoes the statement. -/
theorem Pgsql.stageUniqueBatch_refused
    (registers : registerKeys (prepared.map (PreparedUniqueBatchPut.keyRow Pgsql.stored))
      database.keys = some registered)
    (registration : RegisteredWith Pgsql.stored prepared database.keys registered)
    (refused : insertJobs
      ((newItems database.keys prepared).map (PreparedUniqueBatchPut.jobRow Pgsql.stored))
      database.jobs = none) :
    stageUniqueBatch prepared database =
      (.error (errorContext "stage unique batch" (.leaf (.external "duplicate key"))),
        database) := by
  simp only [stageUniqueBatch, registers, createdItems_registered fresh registration, refused]

end Callbacks

/-! ## Outermost puts refine their meaning -/

section Outermost

variable (backend : Backend) (view : View) (digest : Digest)

theorem Staged.of_tables (registration : RegisteredWith stored prepared database.keys registered)
    (rows : jobs.rows = database.jobs.rows ++
      (newItems database.keys prepared).map (PreparedUniqueBatchPut.jobRow stored)) :
    Staged stored (newItems database.keys prepared) database
      { database with jobs := jobs, keys := registered } :=
  { keys := registration, jobs := rows, failed := rfl }

/-- In a covered database no active job carries a new key. -/
theorem Covered.unused (covered : Covered database) :
    ∀ item ∈ newItems database.keys prepared,
      activeKey database.jobs item.put.deduplicationKey = false := by
  intro item hitem
  simp only [activeKey, List.any_eq_false, decide_eq_true_eq]
  intro job hjob hkey
  have registered := covered job hjob _ hkey
  rw [(mem_newItems.mp hitem).2] at registered
  cases registered

/-- The callback of `CreateJobVersionedUniqueBatch`. -/
def Backend.stageUniqueBatch (prepared : List PreparedUniqueBatchPut) :
    DatabaseCall (List UniquePutResult) :=
  match backend with
  | .pgsql => Pgsql.stageUniqueBatch prepared
  | .mysql => DatabaseSql.stageUniqueBatch Mysql.stored Mysql.registerUniqueBatchKeys prepared
  | .sqlite => DatabaseSql.stageUniqueBatch Sqlite.stored registerKeys prepared

def Backend.uniqueBatchContext : Backend → String
  | .pgsql => "jobs.repo.CreateJobVersionedUniqueBatch"
  | .mysql | .sqlite => "create unique versioned job batch"

/-- The text before the error of a check. -/
def Backend.validationContext : Backend → String
  | .pgsql => "jobs.repo.CreateJobVersionedUniqueBatch: "
  | .mysql | .sqlite => ""

/-- A batch put is its checks, then its callback in a transaction. -/
theorem Backend.createJobVersionedUniqueBatch_eq (items : List (UniqueBatchPut × JobID))
    (createdAt : Int) :
    backend.createJobVersionedUniqueBatch view digest items createdAt =
      checkedCall (validateUniqueBatch backend.validationContext (items.map Prod.fst))
        fun database =>
          match backend.manager.runReturning view.attached
              (backend.stageUniqueBatch (prepareUniqueBatchPuts digest items createdAt))
              database with
          | (.error error, after) =>
            (.error (errorContext backend.uniqueBatchContext error), after)
          | (.ok results, after) => (.ok results, after) := by
  cases backend <;> rfl

/-- Without a conflict the callback stages the new items; a conflict is reported
after keys were registered, and after jobs were inserted in PostgreSQL. -/
inductive StageOutcome (stored : Int → Int) (prepared : List PreparedUniqueBatchPut)
    (database : Database) : Except OutboxError (List UniquePutResult) × Database → Prop
  | staged {after : Database} (agree : ¬ Conflicts database.keys prepared)
      (rows : Staged stored (newItems database.keys prepared) database after) :
      StageOutcome stored prepared database
        (.ok (prepared.map (resultFor database.keys)), after)
  | conflict {after : Database} {items : List PreparedUniqueBatchPut}
      (disagree : Conflicts database.keys prepared)
      (registration : RegisteredWith stored prepared database.keys after.keys)
      (sublist : items.Sublist (newItems database.keys prepared))
      (rows : after.jobs.rows =
        database.jobs.rows ++ items.map (PreparedUniqueBatchPut.jobRow stored)) :
      StageOutcome stored prepared database (.error (.leaf .errIdempotencyConflict), after)

theorem Backend.stageUniqueBatch_outcome (fresh : Fresh prepared database)
    (unused : backend = .pgsql ∨ ¬ Conflicts database.keys prepared →
      ∀ item ∈ newItems database.keys prepared,
        activeKey database.jobs item.put.deduplicationKey = false) :
    StageOutcome backend.stored prepared database
      (backend.stageUniqueBatch prepared database) := by
  obtain ⟨registered, registers, registration⟩ := @registerKeys_prepared _ backend.stored _ fresh
  have sqlCases : ∀ register : List IdempotencyKey → IdempotencyTable → Option IdempotencyTable,
      register (prepared.map (PreparedUniqueBatchPut.keyRow backend.stored)) database.keys =
        some registered →
      StageOutcome backend.stored prepared database
        (DatabaseSql.stageUniqueBatch backend.stored register prepared database) := by
    intro register registers
    by_cases hconflict : Conflicts database.keys prepared
    · rw [DatabaseSql.stageUniqueBatch_conflict fresh registration registers hconflict]
      exact .conflict hconflict registration (List.nil_sublist _) (by simp)
    · obtain ⟨jobs, inserted, rows⟩ :=
        @insertJobs_newItems _ backend.stored _ fresh (unused (Or.inr hconflict))
      rw [DatabaseSql.stageUniqueBatch_agree fresh registration registers hconflict inserted]
      exact .staged hconflict (.of_tables registration rows)
  cases backend with
  | pgsql =>
    obtain ⟨jobs, inserted, rows⟩ :=
      @insertJobs_newItems _ Pgsql.stored _ fresh (unused (Or.inl rfl))
    obtain ⟨whenConflict, whenAgree⟩ :=
      Pgsql.stageUniqueBatch_inserted fresh registers registration inserted
    change StageOutcome _ _ _ (Pgsql.stageUniqueBatch prepared database)
    by_cases hconflict : Conflicts database.keys prepared
    · rw [whenConflict hconflict]
      exact .conflict hconflict registration (List.Sublist.refl _) rows
    · rw [whenAgree hconflict]
      exact .staged hconflict (.of_tables registration rows)
  | mysql => exact sqlCases _ (Mysql.registerUniqueBatchKeys_eq_some registers)
  | sqlite => exact sqlCases _ registers

/-- The callback reports a conflict only where there is one, and PostgreSQL only
when its statement could insert the new jobs. -/
theorem Backend.stageUniqueBatch_conflicts {after : Database} {error : OutboxError}
    (fresh : Fresh prepared database)
    (failed : backend.stageUniqueBatch prepared database = (.error error, after))
    (found : error.is .errIdempotencyConflict = true) :
    Conflicts database.keys prepared ∧ (backend = .pgsql →
      ∀ item ∈ newItems database.keys prepared,
        activeKey database.jobs item.put.deduplicationKey = false) := by
  obtain ⟨registered, registers, registration⟩ := @registerKeys_prepared _ backend.stored _ fresh
  have sqlConflict : ∀ register : List IdempotencyKey → IdempotencyTable → Option IdempotencyTable,
      register (prepared.map (PreparedUniqueBatchPut.keyRow backend.stored)) database.keys =
        some registered →
      DatabaseSql.stageUniqueBatch backend.stored register prepared database =
        (.error error, after) → Conflicts database.keys prepared := by
    intro register registers hcall
    by_contra agree
    rw [DatabaseSql.stageUniqueBatch, registers] at hcall
    simp only [DatabaseSql.uniqueBatchResults_registered fresh registration, if_neg agree] at hcall
    split at hcall
    · cases hcall
      cases found
    · cases hcall
  cases backend with
  | pgsql =>
    change Pgsql.stageUniqueBatch prepared database = _ at failed
    cases hinsert : insertJobs ((newItems database.keys prepared).map
        (PreparedUniqueBatchPut.jobRow Pgsql.stored)) database.jobs with
    | none =>
      rw [Pgsql.stageUniqueBatch_refused fresh registers registration hinsert] at failed
      cases failed
      cases found
    | some jobs =>
      obtain ⟨_, whenAgree⟩ :=
        Pgsql.stageUniqueBatch_inserted fresh registers registration hinsert
      refine ⟨?_, fun _ item hitem => ?_⟩
      · by_contra agree
        rw [whenAgree agree] at failed
        cases failed
      · exact insertJobs_unused hinsert _ (List.mem_map_of_mem hitem) rfl
  | mysql =>
    exact ⟨sqlConflict _ (Mysql.registerUniqueBatchKeys_eq_some registers) failed,
      fun other => (by cases other)⟩
  | sqlite => exact ⟨sqlConflict _ registers failed, fun other => (by cases other)⟩

theorem Backend.createJobVersionedUniqueBatch_outcome {items : List (UniqueBatchPut × JobID)}
    {createdAt : Int} (outermost : view.attached = false) (valid : ValidBatch (items.map Prod.fst))
    (fresh : Fresh (prepareUniqueBatchPuts digest items createdAt) database)
    (covered : Covered database) :
    PutOutcome backend.stored (prepareUniqueBatchPuts digest items createdAt) database
      (backend.createJobVersionedUniqueBatch view digest items createdAt database).1
      (backend.createJobVersionedUniqueBatch view digest items createdAt database).2 := by
  simp only [Backend.createJobVersionedUniqueBatch_eq, checkedCall,
    validateUniqueBatch_eq_ok_iff.mpr valid, outermost, Manager.runReturning_outermost]
  have outcome := backend.stageUniqueBatch_outcome fresh fun _ => covered.unused
  generalize backend.stageUniqueBatch (prepareUniqueBatchPuts digest items createdAt) database =
    staged at outcome ⊢
  cases outcome with
  | staged agree rows => exact .staged agree rows
  | conflict disagree => exact .conflict disagree rfl

theorem registerKey_cases (fresh : Fresh [item] database) (covered : Covered database) :
    (∃ row, database.keys.get? item.put.deduplicationKey = some row ∧
      row.jobID ≠ item.jobID ∧
      registerKey (item.keyRow stored) database.keys = some database.keys) ∨
    (database.keys.get? item.put.deduplicationKey = none ∧ ∃ registered jobs,
      registerKey (item.keyRow stored) database.keys = some registered ∧
      registered.get? item.put.deduplicationKey = some (item.keyRow stored) ∧
      insertJob (item.jobRow stored) database.jobs = some jobs ∧
      Staged stored [item] database { database with jobs := jobs, keys := registered }) := by
  cases hfound : database.keys.get? item.put.deduplicationKey with
  | some row =>
    have hne := fresh.unregistered item (List.mem_singleton_self item) row
      (Table.get?_eq_some_iff.mp hfound).1
    exact Or.inl ⟨row, rfl, hne, by simp [registerKey, PreparedUniqueBatchPut.keyRow, hfound]⟩
  | none =>
    have new : newItems database.keys [item] = [item] := by simp [newItems, hfound]
    obtain ⟨registered, registers, registration⟩ := @registerKeys_prepared _ stored _ fresh
    obtain ⟨jobs, inserted, rows⟩ := @insertJobs_newItems _ stored _ fresh covered.unused
    have staged := Staged.of_tables registration rows
    have entry := get?_registered registration (List.mem_singleton_self item)
    rw [new] at staged inserted
    refine Or.inr ⟨rfl, registered, jobs, ?_, ?_, ?_, staged⟩
    · simpa [registerKeys] using registers
    · simpa [entryOf, hfound] using entry
    · simpa [insertJobs] using inserted

theorem PutOutcome.of_registered {row : IdempotencyKey}
    (found : database.keys.get? item.put.deduplicationKey = some row) :
    (row.fingerprint = item.fingerprint →
      PutOutcome stored [item] database (.ok [⟨row.jobID, false⟩]) database) ∧
    (row.fingerprint ≠ item.fingerprint → ∀ error : OutboxError,
      error.is .errIdempotencyConflict = true →
      PutOutcome stored [item] database (.error error) database) := by
  constructor
  · intro same
    have agree : ¬ Conflicts database.keys [item] := by
      rintro ⟨other, hother, entry, hentry, hne⟩
      rw [List.mem_singleton.mp hother] at hentry hne
      rw [found] at hentry
      cases hentry
      exact hne same
    have nothing : Staged stored (newItems database.keys [item]) database database := by
      have new : newItems database.keys [item] = [] := by simp [newItems, found]
      rw [new]
      exact { keys := by simp, jobs := by simp, failed := rfl }
    have outcome := PutOutcome.staged agree nothing
    simpa [resultFor, found] using outcome
  · intro hne error hfound
    exact .conflict ⟨item, List.mem_singleton_self item, row, found, hne⟩ hfound

theorem PutOutcome.of_new {after : Database}
    (absent : database.keys.get? item.put.deduplicationKey = none)
    (staged : Staged stored [item] database after) :
    PutOutcome stored [item] database (.ok [⟨item.jobID, true⟩]) after := by
  have agree : ¬ Conflicts database.keys [item] := by
    rintro ⟨other, hother, entry, hentry, _⟩
    rw [List.mem_singleton.mp hother, absent] at hentry
    cases hentry
  have new : newItems database.keys [item] = [item] := by simp [newItems, absent]
  rw [← new] at staged
  have outcome := PutOutcome.staged agree staged
  simpa [resultFor, absent] using outcome

def single (answer : Except OutboxError UniquePutResult × Database) :
    Except OutboxError (List UniquePutResult) × Database :=
  (answer.1.map fun result => [result], answer.2)

/-- Rolling a failed put back changes nothing: it staged nothing. -/
theorem PutOutcome.rolledBack {answer : Except OutboxError UniquePutResult × Database}
    (outcome : PutOutcome stored [item] database (single answer).1 (single answer).2) :
    answer.1.isOk = false → answer.2 = database := by
  rcases answer with ⟨result, after⟩
  cases result with
  | ok result => exact fun failed => absurd failed (by simp [Except.isOk, Except.toBool])
  | error error =>
    intro _
    change PutOutcome stored [item] database (.error error) after at outcome
    cases outcome
    rfl

section Single

variable (fresh : Fresh [item] database) (covered : Covered database)
include fresh covered

theorem Pgsql.stageUnique_outcome :
    PutOutcome Pgsql.stored [item] database (single (stageUnique item database)).1
      (single (stageUnique item database)).2 := by
  simp only [stageUnique]
  rcases @registerKey_cases database item Pgsql.stored fresh covered with
    ⟨row, found, hother, registers⟩ | ⟨absent, registered, jobs, registers, entry, inserted, staged⟩
  · obtain ⟨whenSame, whenOther⟩ := @PutOutcome.of_registered database item Pgsql.stored row found
    simp only [registers, found]
    split
    · rename_i hne
      exact whenOther hne _ rfl
    · rename_i hsame
      exact whenSame (not_not.mp hsame)
  · simp only [registers, entry, inserted]
    rw [if_neg (by simp [PreparedUniqueBatchPut.keyRow]),
      if_neg (by simp [PreparedUniqueBatchPut.keyRow])]
    exact .of_new absent staged

theorem Mysql.createJobVersionedUnique_outcome :
    PutOutcome Mysql.stored [item] database (single (createJobVersionedUnique item database)).1
      (single (createJobVersionedUnique item database)).2 := by
  simp only [createJobVersionedUnique, registerOrKeep]
  rcases @registerKey_cases database item Mysql.stored fresh covered with
    ⟨row, found, hother, registers⟩ | ⟨absent, registered, jobs, registers, entry, inserted, staged⟩
  · obtain ⟨whenSame, whenOther⟩ := @PutOutcome.of_registered database item Mysql.stored row found
    simp only [registers, Option.getD_some, found]
    split
    · rename_i hne
      exact whenOther hne _ rfl
    · rename_i hsame
      exact whenSame (not_not.mp hsame)
  · simp only [registers, Option.getD_some, entry, inserted]
    rw [if_neg (by simp [PreparedUniqueBatchPut.keyRow]),
      if_neg (by simp [PreparedUniqueBatchPut.keyRow])]
    exact .of_new absent staged

theorem Sqlite.createJobVersionedUnique_outcome :
    PutOutcome Sqlite.stored [item] database (single (createJobVersionedUnique item database)).1
      (single (createJobVersionedUnique item database)).2 := by
  simp only [createJobVersionedUnique]
  rcases @registerKey_cases database item Sqlite.stored fresh covered with
    ⟨row, found, hother, registers⟩ | ⟨absent, registered, jobs, registers, entry, inserted, staged⟩
  · obtain ⟨whenSame, whenOther⟩ := @PutOutcome.of_registered database item Sqlite.stored row found
    simp only [registers, found]
    split
    · rename_i hne
      exact whenOther hne _ rfl
    · rename_i hsame
      exact whenSame (not_not.mp hsame)
  · simp only [registers, absent, entry, inserted]
    rw [if_neg (by simp [PreparedUniqueBatchPut.keyRow]), if_neg (by simp)]
    exact .of_new absent staged

end Single

/-- A single put, in a transaction of its own or in the caller's. -/
theorem Backend.createJobVersionedUniqueResult_outcome {put : UniqueBatchPut} {id : JobID}
    {createdAt : Int} (valid : ValidPut put)
    (fresh : Fresh (prepareUniqueBatchPuts digest [(put, id)] createdAt) database)
    (covered : Covered database) :
    PutOutcome backend.stored (prepareUniqueBatchPuts digest [(put, id)] createdAt) database
      (single (backend.createJobVersionedUniqueResult view digest put id createdAt database)).1
      (single (backend.createJobVersionedUniqueResult view digest put id createdAt
        database)).2 := by
  have accepted : ∀ context, validateUniquePut context put = .ok () := fun context =>
    validateUniquePut_eq_ok_iff.mpr valid
  cases backend with
  | pgsql =>
    simp only [Backend.createJobVersionedUniqueResult, Pgsql.createJobVersionedUniqueResult,
      checkedCall, accepted]
    exact Pgsql.stageUnique_outcome fresh covered
  | mysql =>
    have outcome := Mysql.createJobVersionedUnique_outcome fresh covered
    simp only [Backend.createJobVersionedUniqueResult, Mysql.createJobVersionedUniqueResult,
      checkedCall, accepted]
    split
    · exact outcome
    · split
      · rename_i error after hanswer
        rw [hanswer] at outcome
        exact outcome.rolledBack rfl ▸ outcome
      · rename_i result after hanswer
        rwa [hanswer] at outcome
  | sqlite =>
    have outcome := Sqlite.createJobVersionedUnique_outcome fresh covered
    simp only [Backend.createJobVersionedUniqueResult, Sqlite.createJobVersionedUniqueResult,
      checkedCall, accepted, Sqlite.withImmediateTransaction]
    split
    · exact outcome
    · split
      · rename_i result after hanswer
        rwa [hanswer] at outcome
      · rename_i error after hanswer
        rw [hanswer] at outcome
        exact outcome.rolledBack rfl ▸ outcome

end Outermost

end OutboxFormal.Storage
