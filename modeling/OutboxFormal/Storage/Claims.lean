import OutboxFormal.Storage.Rows

/-!
# Claims

The three backends find and reserve ready rows in different ways. Each claim
either fails and leaves the table alone, or answers with exactly the rows it
reserved, all of which were ready at the claim's instant.
-/

namespace OutboxFormal.Storage

open Library

variable {token : LeaseToken} {now until_ : Int}

variable {rows : List Job} {job : Job} {table : JobsTable}
variable {capabilities : List JobCapability} {capability : JobCapability}
variable {limit maxMessages maxBytes : Int}

/-- A row is claimed exactly when the answer contains it. -/
def claimEvents (token : LeaseToken) (now until_ : Int) (answer : Except OutboxError (List Job))
    (id : JobID) (event : RowEvent) : Prop :=
  event = .kept ∧ (∀ jobs, answer = .ok jobs → id ∉ jobs.map Job.id) ∨
    event = .claimed now until_ token ∧ ∃ jobs, answer = .ok jobs ∧ id ∈ jobs.map Job.id

theorem claimEvents_error {error : OutboxError} {id : JobID} :
    claimEvents token now until_ (.error error) id .kept :=
  Or.inl ⟨rfl, fun _ same => by cases same⟩

/-- A refused claim takes nothing. -/
theorem claims_checked {stored : Int → Int} {check : Except OutboxError Unit}
    {call : RepoCall (List Job)}
    (spec : check = .ok () → RowSpec stored (claimEvents token now until_) call) :
    RowSpec stored (claimEvents token now until_) (checked check call) :=
  rowSpec_checked (fun _ _ => claimEvents_error) spec

section Reserve

variable {stored : Int → Int} {selected : Job → Bool} {jobs : List Job}

/-- Reserving a selection of ready rows, answered with their identifiers. -/
theorem reserve_rowStep (named : token ≠ .nil)
    (isReady : ∀ job ∈ table.rows, selected job = true → ready (stored now) job = true)
    (answered : ∀ id, id ∈ jobs.map Job.id ↔
      ∃ job ∈ table.rows, job.id = id ∧ selected job = true) (id : JobID) :
    ∃ event, claimEvents token now until_ (.ok jobs) id event ∧
      RowStep stored event (table.get? id)
        ((reserveWhere stored selected until_ token table).get? id) := by
  have unclaimed : id ∉ jobs.map Job.id → claimEvents token now until_ (.ok jobs) id .kept :=
    fun absent => Or.inl ⟨rfl, fun other same => by cases same; exact absent⟩
  rw [reserveWhere, Table.get?_update]
  cases found : table.get? id with
  | none =>
    refine ⟨.kept, unclaimed ?_, .kept none⟩
    rw [answered]
    rintro ⟨job, hmember, hid, _⟩
    exact Table.get?_eq_none_iff.mp found job hmember hid
  | some job =>
    obtain ⟨hmember, hid⟩ := Table.get?_eq_some_iff.mp found
    by_cases hselected : selected job = true
    · refine ⟨.claimed now until_ token, Or.inr ⟨rfl, jobs, rfl, ?_⟩, ?_⟩
      · exact (answered id).mpr ⟨job, hmember, hid, hselected⟩
      · simpa [hselected] using RowStep.claimed named (isReady job hmember hselected)
    · refine ⟨.kept, unclaimed ?_, by simpa [hselected] using RowStep.kept (some job)⟩
      rw [answered]
      rintro ⟨other, hother, hsame, hchosen⟩
      rw [table.row_unique hother hmember (hsame.trans hid.symm)] at hchosen
      exact hselected hchosen

/-- The identifiers found again after the reservation, by a predicate that a
reservation makes true of the rows it selects. -/
theorem ids_matching_reserved {loaded : Job → Bool}
    (loads : ∀ job ∈ table.rows, loaded (if selected job then reserveRow (stored until_) token job
      else job) = true ↔ selected job = true) (id : JobID) :
    id ∈ (ordered ((reserveWhere stored selected until_ token table).matching loaded)).map
        Job.id ↔
      ∃ job ∈ table.rows, job.id = id ∧ selected job = true := by
  simp only [List.mem_map, mem_ordered, Table.mem_matching, reserveWhere, Table.mem_update]
  constructor
  · rintro ⟨after, ⟨⟨job, hmember, rfl⟩, hloaded⟩, hid⟩
    have hselected := (loads job hmember).mp hloaded
    rw [if_pos hselected] at hid
    exact ⟨job, hmember, hid, hselected⟩
  · rintro ⟨job, hmember, hid, hselected⟩
    refine ⟨_, ⟨⟨job, hmember, rfl⟩, (loads job hmember).mpr hselected⟩, ?_⟩
    rw [if_pos hselected]
    exact hid

/-- Reading back as many rows as were reserved reads back the reserved ones. -/
theorem loads_of_length {loaded : Job → Bool}
    (includes : ∀ job, selected job = true →
      loaded (reserveRow (stored until_) token job) = true)
    (same : ((reserveWhere stored selected until_ token table).matching loaded).length =
      (table.matching selected).length) :
    ∀ job ∈ table.rows, loaded (if selected job then reserveRow (stored until_) token job
      else job) = true ↔ selected job = true := by
  let reserved := fun job : Job => if selected job then reserveRow (stored until_) token job
    else job
  have rows : (reserveWhere stored selected until_ token table).rows =
      table.rows.map reserved := by
    change table.rows.filterMap (fun job => some (reserved job)) = _
    rw [List.filterMap_eq_map']
  have sublist : (table.rows.filter selected).Sublist
      (table.rows.filter fun job => loaded (reserved job)) :=
    List.monotone_filter_right _ fun job hselected => by
      simpa [reserved, hselected] using includes job hselected
  have equal := sublist.eq_of_length (by
    rw [← Table.matching, ← same, Table.matching, rows, List.filter_map, List.length_map]
    rfl)
  intro job hmember
  have member : job ∈ table.rows.filter selected ↔
      job ∈ table.rows.filter fun job => loaded (reserved job) := by rw [equal]
  simpa [hmember, reserved, iff_comm] using member

end Reserve

/-! ## PostgreSQL -/

namespace Pgsql

theorem rowSpec_reserveReturning {op : String} {selection : JobsTable → List Job}
    (named : token ≠ .nil) (isReady : ∀ table, ∀ job ∈ selection table,
      job ∈ table.rows ∧ ready (stored now) job = true) :
    RowSpec stored (claimEvents token now until_)
      (fun table => reserveReturning op (selection table) until_ token table) := by
  intro table id
  dsimp only [reserveReturning]
  split
  · exact ⟨.kept, claimEvents_error, .kept _⟩
  · have step := fun jobs answered => @reserve_rowStep token now until_ table stored
      (fun job => decide (job.id ∈ (selection table).map Job.id)) jobs named ?_ answered id
    · have answered := fun id => @ids_matching_reserved token until_ table stored
        (fun job => decide (job.id ∈ (selection table).map Job.id))
        (fun job => decide (job.id ∈ (selection table).map Job.id))
        (fun job _ => by split <;> simp_all) id
      split
      · rename_i hempty
        -- Nothing was reserved, so no row changed.
        obtain ⟨event, hallowed, hstep⟩ := step _ answered
        rw [List.isEmpty_iff.mp hempty] at hallowed
        rcases hallowed with ⟨rfl, _⟩ | ⟨_, jobs, hjobs, hmember⟩
        · exact ⟨.kept, claimEvents_error, hstep⟩
        · cases hjobs
          simp at hmember
      · exact step _ answered
    · intro job hmember hchosen
      obtain ⟨other, hother, hsame⟩ := List.mem_map.mp (of_decide_eq_true hchosen)
      obtain ⟨hstored, hready⟩ := isReady table other hother
      rw [table.row_unique hmember hstored hsame.symm]
      exact hready

theorem mem_candidates {locked : JobID → Bool} {limit : Nat}
    (member : job ∈ candidates locked now limit rows) :
    job ∈ rows ∧ ready (stored now) job = true := by
  have hfilter := List.mem_filter.mp (mem_orderedLimit member)
  exact ⟨hfilter.1, (Bool.and_eq_true_iff.mp hfilter.2).1⟩

theorem mem_joinRequested (member : job ∈ joinRequested capabilities rows) : job ∈ rows := by
  obtain ⟨row, hrow, hjoined⟩ := List.mem_flatMap.mp member
  obtain ⟨_, _, rfl⟩ := List.mem_map.mp hjoined
  exact hrow

theorem mem_ranked {ordinal bytesBefore : Nat} {entry : Nat × Nat × Job}
    (member : entry ∈ ranked ordinal bytesBefore rows) : entry.2.2 ∈ rows := by
  induction rows generalizing ordinal bytesBefore with
  | nil => cases member
  | cons job rest ih =>
    rcases List.mem_cons.mp member with rfl | hrest
    · exact List.mem_cons_self
    · exact List.mem_cons_of_mem job (ih hrest)

theorem mem_boundedSelection (member : job ∈ boundedSelection maxBytes rows) :
    job ∈ rows := by
  obtain ⟨entry, hentry, rfl⟩ := List.mem_map.mp member
  exact mem_ranked (List.mem_filter.mp hentry).1

theorem withOp_eq_ok {op : String} {check : Except OutboxError Unit}
    (passed : withOp op check = .ok ()) : check = .ok () := by
  cases check with
  | error error => cases passed
  | ok _ => rfl

theorem rowSpec_findAndReserveJobsForCapabilities {locked : JobID → Bool} :
    RowSpec stored (claimEvents token now until_)
      (findAndReserveJobsForCapabilities locked now until_ token capabilities limit) := by
  unfold findAndReserveJobsForCapabilities
  split
  · exact rowSpec_rejected fun _ => claimEvents_error
  · refine claims_checked fun hrequest => claims_checked fun _ => ?_
    refine rowSpec_reserveReturning (validateClaim_token (withOp_eq_ok hrequest)) ?_
    intro table job hjob
    exact ⟨mem_joinRequested (mem_candidates hjob).1, (mem_candidates hjob).2⟩

theorem rowSpec_findAndReserveJobsForCapabilityBounded {locked : JobID → Bool} :
    RowSpec stored (claimEvents token now until_)
      (findAndReserveJobsForCapabilityBounded locked now until_ token capability
        maxMessages maxBytes) := by
  refine claims_checked fun hrequest => claims_checked fun _ => claims_checked fun _ => ?_
  refine rowSpec_reserveReturning (validateClaim_token (withOp_eq_ok hrequest)) ?_
  intro table job hjob
  obtain ⟨hmember, hready⟩ := mem_candidates (mem_boundedSelection hjob)
  exact ⟨(List.mem_filter.mp hmember).1, hready⟩

end Pgsql

/-! ## MySQL -/

namespace Mysql

/-- The rows a reserving transaction updates. -/
def reservable (now : Int) (ids : List JobID) (job : Job) : Bool :=
  decide (job.id ∈ ids) && ready (stored now) job

/-- A reserving transaction claims every row it answers with, or nothing. -/
theorem reserveBatchCandidates_cases (now until_ : Int) (token : LeaseToken)
    (ids : List JobID) (table : JobsTable) :
    (reserveBatchCandidates now until_ token ids table).2 = table ∧
        (∀ jobs, (reserveBatchCandidates now until_ token ids table).1 ≠ .ok (some jobs)) ∨
      ∃ jobs, reserveBatchCandidates now until_ token ids table =
          (.ok (some jobs), reserveWhere stored (reservable now ids) until_ token table) ∧
        ∀ id, id ∈ jobs.map Job.id ↔
          ∃ job ∈ table.rows, job.id = id ∧ reservable now ids job = true := by
  simp only [reserveBatchCandidates]
  split
  · exact Or.inl ⟨rfl, by simp⟩
  split
  · exact Or.inl ⟨rfl, by simp⟩
  split
  · exact Or.inl ⟨rfl, by simp⟩
  split
  · exact Or.inl ⟨rfl, by simp⟩
  · rename_i hloaded
    rw [not_not, length_ordered] at hloaded
    refine Or.inr ⟨_, rfl, fun id => ids_matching_reserved (loads_of_length ?_ hloaded) id⟩
    intro job hselected
    have hid : job.id ∈ ids := of_decide_eq_true (Bool.and_eq_true_iff.mp hselected).1
    simp [hid, reserveRow]

theorem rowSpec_claimRounds {candidateIDs : JobsTable → List JobID} (named : token ≠ .nil)
    (snapshots : List JobsTable) :
    RowSpec stored (claimEvents token now until_)
      (claimRounds candidateIDs now until_ token snapshots) := by
  induction snapshots with
  | nil => exact rowSpec_rejected fun _ => claimEvents_error
  | cons snapshot rest ih =>
    intro table id
    simp only [claimRounds]
    split
    · exact ⟨.kept, claimEvents_error, .kept _⟩
    · rcases reserveBatchCandidates_cases now until_ token (candidateIDs snapshot) table with
        ⟨hkept, hnone⟩ | ⟨jobs, hreserved, hanswered⟩
      · rcases hcall : reserveBatchCandidates now until_ token (candidateIDs snapshot) table
          with ⟨answer, after⟩
        rw [hcall] at hkept hnone
        dsimp only at hkept
        subst hkept
        match answer with
        | .error error => exact ⟨.kept, claimEvents_error, .kept _⟩
        | .ok none => exact ih after id
        | .ok (some jobs) => exact absurd rfl (hnone jobs)
      · rw [hreserved]
        refine reserve_rowStep named (fun job _ hselected => ?_) hanswered id
        exact (Bool.and_eq_true_iff.mp hselected).2

theorem rowSpec_findAndReserveJobsForCapabilities {snapshots : List JobsTable} :
    RowSpec stored (claimEvents token now until_)
      (findAndReserveJobsForCapabilities snapshots now until_ token capabilities limit) := by
  unfold findAndReserveJobsForCapabilities
  split
  · exact rowSpec_rejected fun _ => claimEvents_error
  · refine claims_checked fun _ => claims_checked fun hrequest => ?_
    exact rowSpec_claimRounds (validateClaim_token hrequest) snapshots

theorem rowSpec_findAndReserveJobsForCapabilityBounded {snapshots : List JobsTable} :
    RowSpec stored (claimEvents token now until_)
      (findAndReserveJobsForCapabilityBounded snapshots now until_ token capability
        maxMessages maxBytes) := by
  refine claims_checked fun hrequest => claims_checked fun _ => claims_checked fun _ => ?_
  exact rowSpec_claimRounds (validateClaim_token hrequest) snapshots

end Mysql

/-! ## SQLite -/

namespace Sqlite

/-- Updating the rows with distinct stored identifiers affects one row each. -/
theorem reserveIDs_affected {ids : List JobID} (distinct : ids.Nodup)
    (present : ∀ id ∈ ids, ∃ job ∈ table.rows, job.id = id) :
    (reserveIDs ids until_ token table).1 = ids.length := by
  refine (Table.length_matching_eq_iff distinct ?_).mpr ?_
  · exact fun job _ hselected => of_decide_eq_true hselected
  · intro id hid
    obtain ⟨job, hmember, rfl⟩ := present id hid
    exact ⟨job, hmember, rfl, decide_eq_true hid⟩

/-- Selected rows are stored, ready, and distinct under their identifiers. -/
theorem selectReady_spec (now : Int) (matching : Job → Bool) (limit : Int)
    (table : JobsTable) :
    (∀ job ∈ selectReady now matching limit table,
      job ∈ table.rows ∧ ready (stored now) job = true) ∧
      ((selectReady now matching limit table).map Job.id).Nodup := by
  constructor
  · intro job hjob
    have hfilter := List.mem_filter.mp (mem_orderedLimit hjob)
    exact ⟨hfilter.1, (Bool.and_eq_true_iff.mp hfilter.2).1⟩
  · exact nodup_map_orderedLimit (table.nodup_map_matching _)

/-- Reserving stored, ready rows with distinct identifiers. -/
theorem reserveIDs_rowStep {jobs : List Job} (named : token ≠ .nil)
    (isReady : ∀ job ∈ rows, job ∈ table.rows ∧ ready (stored now) job = true)
    (answered : jobs.map Job.id = rows.map Job.id) (id : JobID) :
    ∃ event, claimEvents token now until_ (.ok jobs) id event ∧
      RowStep stored event (table.get? id)
        ((reserveIDs (rows.map Job.id) until_ token table).2.get? id) := by
  refine reserve_rowStep named ?_ ?_ id
  · intro job hmember hchosen
    obtain ⟨other, hother, hsame⟩ := List.mem_map.mp (of_decide_eq_true hchosen)
    rw [table.row_unique hmember (isReady other hother).1 hsame.symm]
    exact (isReady other hother).2
  · intro wanted
    rw [answered]
    constructor
    · intro hwanted
      obtain ⟨job, hjob, rfl⟩ := List.mem_map.mp hwanted
      exact ⟨job, (isReady job hjob).1, rfl, decide_eq_true hwanted⟩
    · rintro ⟨job, _, rfl, hchosen⟩
      exact of_decide_eq_true hchosen

theorem claimEvents_withImmediateTransaction {attached : Bool} {work : RepoCall (List Job)}
    (spec : RowSpec stored (claimEvents token now until_) work) :
    RowSpec stored (claimEvents token now until_) (withImmediateTransaction attached work) := by
  intro table id
  cases attached with
  | true => exact spec table id
  | false =>
    have inner := spec table id
    dsimp only [withImmediateTransaction]
    rcases hwork : work table with ⟨answer, after⟩
    rw [hwork] at inner
    cases answer with
    | ok jobs => exact inner
    | error error => exact ⟨.kept, claimEvents_error, .kept _⟩

theorem rowSpec_findAndReserveBatchWithExecutor (named : token ≠ .nil) :
    RowSpec stored (claimEvents token now until_)
      (findAndReserveBatchWithExecutor now until_ token capabilities limit) := by
  intro table id
  simp only [findAndReserveBatchWithExecutor]
  obtain ⟨isReady, distinct⟩ := selectReady_spec now
    (fun job => capabilities.any fun capability => hasCapability capability job) limit table
  generalize selectReady now _ limit table = jobs at isReady distinct ⊢
  split
  · exact ⟨.kept, claimEvents_error, .kept _⟩
  split
  · rename_i hmismatch
    refine absurd ?_ hmismatch
    rw [reserveIDs_affected distinct, List.length_map]
    intro wanted hwanted
    obtain ⟨job, hjob, hid⟩ := List.mem_map.mp hwanted
    exact ⟨job, (isReady job hjob).1, hid⟩
  · exact reserveIDs_rowStep named isReady (by simp [Function.comp_def]) id

theorem boundedCandidateIDs_selected (maxBytes : Int) (rows : List Job) :
    ∃ picked : List Job, picked.Sublist rows ∧
      DatabaseSql.boundedCandidateIDs maxBytes [] 0 false rows = picked.map Job.id := by
  obtain ⟨picked, hpicked, heq⟩ :=
    DatabaseSql.boundedCandidateIDs_eq_append maxBytes [] 0 false rows
  exact ⟨picked, hpicked, by simpa using heq⟩

/-- Reading the reserved rows back by identifier and token finds each of them. -/
theorem ids_readBack {ids : List JobID} (id : JobID) :
    id ∈ (ordered ((reserveIDs ids until_ token table).2.matching fun job =>
        decide (job.id ∈ ids) && decide (job.leaseToken = token))).map Job.id ↔
      ∃ job ∈ table.rows, job.id = id ∧ decide (job.id ∈ ids) = true := by
  refine ids_matching_reserved (fun job _ => ?_) id
  by_cases hid : job.id ∈ ids <;> simp [hid, reserveRow]

theorem length_readBack {ids : List JobID} (distinct : ids.Nodup)
    (present : ∀ id ∈ ids, ∃ job ∈ table.rows, job.id = id) :
    (ordered ((reserveIDs ids until_ token table).2.matching fun job =>
      decide (job.id ∈ ids) && decide (job.leaseToken = token))).length =
        ids.length := by
  rw [length_ordered]
  refine (Table.length_matching_eq_iff distinct ?_).mpr ?_
  · exact fun job _ hselected => of_decide_eq_true (Bool.and_eq_true_iff.mp hselected).1
  · intro id hid
    obtain ⟨job, hmember, hsame⟩ := present id hid
    have read := (@ids_readBack token until_ table ids id).mpr
      ⟨job, hmember, hsame, decide_eq_true (hsame ▸ hid)⟩
    obtain ⟨after, hafter, hafterID⟩ := List.mem_map.mp read
    obtain ⟨hstored, hselected⟩ := Table.mem_matching.mp (mem_ordered.mp hafter)
    exact ⟨after, hstored, hafterID, hselected⟩

/-- The identifiers a bounded claim reserves. -/
def boundedIDs (now : Int) (capability : JobCapability) (maxMessages maxBytes : Int)
    (table : JobsTable) : List JobID :=
  DatabaseSql.boundedCandidateIDs maxBytes [] 0 false
    (selectReady now (hasCapability capability) maxMessages table)

theorem boundedIDs_spec (now : Int) (capability : JobCapability) (maxMessages maxBytes : Int)
    (table : JobsTable) :
    (boundedIDs now capability maxMessages maxBytes table).Nodup ∧
      ∀ id ∈ boundedIDs now capability maxMessages maxBytes table,
        ∃ job ∈ table.rows, job.id = id ∧ ready (stored now) job = true := by
  obtain ⟨isReady, distinct⟩ := selectReady_spec now (hasCapability capability) maxMessages table
  obtain ⟨picked, hpicked, heq⟩ := boundedCandidateIDs_selected maxBytes
    (selectReady now (hasCapability capability) maxMessages table)
  rw [boundedIDs, heq]
  refine ⟨(hpicked.map Job.id).nodup distinct, fun wanted hwanted => ?_⟩
  obtain ⟨job, hjob, hid⟩ := List.mem_map.mp hwanted
  obtain ⟨hstored, hready⟩ := isReady job (hpicked.subset hjob)
  exact ⟨job, hstored, hid, hready⟩

/-- The checks of a bounded claim after its selection always pass. -/
theorem findAndReserveBatchBoundedWithExecutor_eq (now until_ : Int) (token : LeaseToken)
    (capability : JobCapability) (maxMessages maxBytes : Int) (table : JobsTable) :
    findAndReserveBatchBoundedWithExecutor now until_ token capability maxMessages maxBytes
        table =
      let ids := boundedIDs now capability maxMessages maxBytes table
      if ids = [] then (.error (.leaf .errNoJobs), table)
      else
        (.ok (ordered ((reserveIDs ids until_ token table).2.matching fun job =>
          decide (job.id ∈ ids) && decide (job.leaseToken = token))),
          (reserveIDs ids until_ token table).2) := by
  obtain ⟨distinct, inside⟩ := boundedIDs_spec now capability maxMessages maxBytes table
  have present : ∀ wanted ∈ boundedIDs now capability maxMessages maxBytes table,
      ∃ job ∈ table.rows, job.id = wanted := by
    intro wanted hwanted
    obtain ⟨job, hstored, hid, _⟩ := inside wanted hwanted
    exact ⟨job, hstored, hid⟩
  simp only [findAndReserveBatchBoundedWithExecutor]
  rw [← boundedIDs]
  by_cases empty : boundedIDs now capability maxMessages maxBytes table = []
  · rw [if_pos empty, if_pos (by simp [empty])]
  · rw [if_neg empty, if_neg (by simpa using empty),
      if_neg (not_not.mpr (reserveIDs_affected distinct present)),
      if_neg (not_not.mpr (length_readBack distinct present))]

theorem rowSpec_findAndReserveBatchBoundedWithExecutor (named : token ≠ .nil) :
    RowSpec stored (claimEvents token now until_)
      (findAndReserveBatchBoundedWithExecutor now until_ token capability
        maxMessages maxBytes) := by
  intro table id
  rw [findAndReserveBatchBoundedWithExecutor_eq]
  obtain ⟨_, inside⟩ := boundedIDs_spec now capability maxMessages maxBytes table
  dsimp only
  split
  · exact ⟨.kept, claimEvents_error, .kept _⟩
  · refine reserve_rowStep named ?_ ids_readBack id
    intro job hmember hchosen
    obtain ⟨other, hother, hsame, hready⟩ := inside job.id (of_decide_eq_true hchosen)
    rwa [table.row_unique hmember hother hsame.symm]

theorem rowSpec_findAndReserveJobsForCapabilities {attached : Bool} :
    RowSpec stored (claimEvents token now until_)
      (findAndReserveJobsForCapabilities attached now until_ token capabilities limit) := by
  unfold findAndReserveJobsForCapabilities
  split
  · exact rowSpec_rejected fun _ => claimEvents_error
  · refine claims_checked fun _ => claims_checked fun hrequest => ?_
    exact claimEvents_withImmediateTransaction
      (rowSpec_findAndReserveBatchWithExecutor (validateClaim_token hrequest))

theorem rowSpec_findAndReserveJobsForCapabilityBounded {attached : Bool} :
    RowSpec stored (claimEvents token now until_)
      (findAndReserveJobsForCapabilityBounded attached now until_ token capability
        maxMessages maxBytes) := by
  refine claims_checked fun hrequest => claims_checked fun _ => claims_checked fun _ => ?_
  exact claimEvents_withImmediateTransaction
    (rowSpec_findAndReserveBatchBoundedWithExecutor (validateClaim_token hrequest))

end Sqlite

end OutboxFormal.Storage
