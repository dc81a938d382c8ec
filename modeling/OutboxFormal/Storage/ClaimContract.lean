import OutboxFormal.Library.Selection
import OutboxFormal.Storage.Claims

/-!
# One claim specification for three backends

A claim takes the first rows, in queue order, among the ready rows of the
requested capabilities. PostgreSQL says so in one statement over a join,
MySQL unites one limited query for each capability and checks the candidates
again when it reserves them, and SQLite goes through a list of identifiers.
Without a concurrent writer all three have the effect and the answer of
`claimContract`, as long as the attempt counter fits its column.
-/

namespace OutboxFormal.Storage

open Library

variable {job : Job} {rows : List Job}

variable {now until_ limit : Int} {token : LeaseToken} {capabilities : List JobCapability}
  {table : JobsTable}

/-! ## Queue order -/

/-- `queueLe` as a relation. -/
abbrev QueueOrder (first second : Job) : Prop := queueLe first second = true

theorem queueOrder_iff {first second : Job} :
    QueueOrder first second ↔ first.availableAt < second.availableAt ∨
      first.availableAt = second.availableAt ∧
        (first.createdAt < second.createdAt ∨
          first.createdAt = second.createdAt ∧
            first.id.uuid.toNat ≤ second.id.uuid.toNat) := by
  unfold QueueOrder queueLe
  split_ifs <;> simp_all

instance : Std.Total QueueOrder where
  total first second := by
    simp only [queueOrder_iff]
    omega

instance : IsTrans Job QueueOrder where
  trans first second third := by
    simp only [queueOrder_iff]
    omega

theorem id_eq_of_tied {first second : Job} (forward : QueueOrder first second)
    (backward : QueueOrder second first) : first.id = second.id := by
  have same : first.id.uuid.toNat = second.id.uuid.toNat := by
    rw [queueOrder_iff] at forward backward
    omega
  cases hfirst : first.id
  cases hsecond : second.id
  rw [hfirst, hsecond] at same
  exact congrArg JobID.mk (BitVec.eq_of_toNat_eq same)

/-- Rows with distinct identifiers are told apart by the queue order. -/
theorem separated_of_nodup (distinct : (rows.map Job.id).Nodup) :
    Separated QueueOrder rows :=
  (List.pairwise_map.mp distinct).imp fun different tied =>
    different (id_eq_of_tied tied.1 tied.2)

theorem orderedLimit_eq_firstRows (limit : Nat) (rows : List Job) :
    orderedLimit limit rows = firstRows QueueOrder limit rows := rfl

theorem ordered_map_reserveRow (until_ : Int) (token : LeaseToken) (rows : List Job) :
    ordered (rows.map (reserveRow until_ token)) = (ordered rows).map (reserveRow until_ token) :=
  (List.map_insertionSort QueueOrder QueueOrder (reserveRow until_ token) rows
    fun _ _ _ _ => Iff.rfl).symm

/-! ## The contract -/

/-- The row is requested and ready. -/
def claimable (now : Int) (capabilities : List JobCapability) (job : Job) : Bool :=
  (capabilities.any fun capability => hasCapability capability job) && ready now job

/-- The first claimable rows in queue order. -/
def claimSelection (now : Int) (capabilities : List JobCapability) (limit : Int)
    (table : JobsTable) : List Job :=
  orderedLimit limit.toNat (table.rows.filter (claimable now capabilities))

def reserveRows (rows : List Job) (until_ : Int) (token : LeaseToken) (table : JobsTable) :
    JobsTable :=
  reserveWhere id (fun job => decide (job.id ∈ rows.map Job.id)) until_ token table

/-- What a claim answers and leaves when nobody else writes. -/
def claimContract (now until_ : Int) (token : LeaseToken) (capabilities : List JobCapability)
    (limit : Int) : RepoCall (List Job) := fun table =>
  if table.rows.any (claimable now capabilities) then
    let rows := claimSelection now capabilities limit table
    (.ok (rows.map (reserveRow until_ token)), reserveRows rows until_ token table)
  else (.error (.leaf .errNoJobs), table)

theorem mem_claimSelection (member : job ∈ claimSelection now capabilities limit table) :
    job ∈ table.rows ∧ claimable now capabilities job = true :=
  List.mem_filter.mp (mem_orderedLimit member)

theorem nodup_claimSelection :
    ((claimSelection now capabilities limit table).map Job.id).Nodup :=
  nodup_map_orderedLimit (table.nodup_map_matching _)

theorem pairwise_claimSelection :
    (claimSelection now capabilities limit table).Pairwise QueueOrder :=
  pairwise_firstRows

theorem claimSelection_eq_nil_iff (positive : 1 ≤ limit) :
    claimSelection now capabilities limit table = [] ↔
      table.rows.any (claimable now capabilities) = false := by
  have some_row : 0 < limit.toNat := by omega
  rw [← List.length_eq_zero_iff, claimSelection, orderedLimit_eq_firstRows, length_firstRows]
  simp [List.any_eq_false, Nat.pos_iff_ne_zero.mp some_row]

theorem any_claimable_of_ne_nil (positive : 1 ≤ limit)
    (found : claimSelection now capabilities limit table ≠ []) :
    table.rows.any (claimable now capabilities) = true := by
  rw [← Bool.not_eq_false]
  exact mt (claimSelection_eq_nil_iff positive).mpr found

theorem any_claimable_nil : table.rows.any (claimable now []) = false := by
  simp [claimable]

theorem claimSelection_nil : claimSelection now [] limit table = [] := by
  have nothing : table.rows.filter (claimable now []) = [] := by
    simp [claimable]
  rw [claimSelection, nothing]
  exact List.take_nil

theorem claimContract_nil :
    claimContract now until_ token [] limit table = (.error (.leaf .errNoJobs), table) := by
  rw [claimContract, any_claimable_nil]
  rfl

theorem mem_iff_id_mem {allowed : Job → Prop}
    (inside : ∀ {job}, job ∈ rows → job ∈ table.rows ∧ allowed job) :
    job ∈ rows ↔ job ∈ table.rows ∧ decide (job.id ∈ rows.map Job.id) = true := by
  constructor
  · intro member
    exact ⟨(inside member).1, decide_eq_true (List.mem_map_of_mem member)⟩
  · rintro ⟨hmember, hid⟩
    obtain ⟨other, hother, hsame⟩ := List.mem_map.mp (of_decide_eq_true hid)
    rwa [← table.row_unique (inside hother).1 hmember hsame]

/-- A table reads back the rows it holds under the given identifiers, in order. -/
theorem ordered_matching_eq {chosen : Job → Bool} (sorted : rows.Pairwise QueueOrder)
    (distinct : (rows.map Job.id).Nodup)
    (members : ∀ job, job ∈ rows ↔ job ∈ table.rows ∧ chosen job = true) :
    ordered (table.matching chosen) = rows := by
  have same : (table.matching chosen).Perm rows := by
    refine (List.perm_ext_iff_of_nodup ?_ ?_).mpr fun job => ?_
    · exact List.Nodup.of_map Job.id (table.nodup_map_matching chosen)
    · exact List.Nodup.of_map Job.id distinct
    · rw [Table.mem_matching, members]
  refine List.Perm.eq_of_pairwise ?_ (List.pairwise_insertionSort QueueOrder _) sorted
    ((ordered_perm _).trans same)
  intro first second hfirst hsecond forward backward
  exact (separated_of_nodup distinct).eq_of_tied
    (same.mem_iff.mp (mem_ordered.mp hfirst)) hsecond forward backward

/-- Reading back, in order, the rows a reservation has marked. -/
theorem ordered_matching_reserveWhere {stored : Int → Int} {rows : List Job}
    {chosen loaded : Job → Bool} (sorted : rows.Pairwise QueueOrder)
    (distinct : (rows.map Job.id).Nodup)
    (members : ∀ job, job ∈ rows ↔ job ∈ table.rows ∧ chosen job = true)
    (loads : ∀ job ∈ table.rows, loaded (if chosen job then reserveRow (stored until_) token job
      else job) = true ↔ chosen job = true) :
    ordered ((reserveWhere stored chosen until_ token table).matching loaded) =
      rows.map (reserveRow (stored until_) token) := by
  let reserved := fun job : Job => if chosen job then reserveRow (stored until_) token job
    else job
  have after : (reserveWhere stored chosen until_ token table).rows = table.rows.map reserved := by
    change table.rows.filterMap (fun job => some (reserved job)) = _
    rw [List.filterMap_eq_map']
  have marked : (reserveWhere stored chosen until_ token table).matching loaded =
      (table.matching chosen).map (reserveRow (stored until_) token) := by
    rw [Table.matching, after, List.filter_map, Table.matching]
    have kept : table.rows.filter (loaded ∘ reserved) = table.rows.filter chosen :=
      List.filter_congr fun job hmember => Bool.eq_iff_iff.mpr (loads job hmember)
    rw [kept]
    refine List.map_congr_left fun job hmember => ?_
    exact if_pos (List.mem_filter.mp hmember).2
  rw [marked, ordered_map_reserveRow, ordered_matching_eq sorted distinct members]

/-! ## Whole milliseconds -/

theorem reserveWhere_stored {stored : Int → Int} {until_ : Int} (chosen : Job → Bool)
    (token : LeaseToken) (table : JobsTable) :
    reserveWhere stored chosen until_ token table =
      reserveWhere id chosen (stored until_) token table := rfl

/-- Counters below the bound pass it by no claim. -/
theorem not_any_exceeds {bound : Int} (fits : ∀ job ∈ rows, job.attempts < bound) :
    ¬ rows.any (fun job => bound < job.attempts + 1) = true := by
  simpa [List.any_eq_true, Int.add_one_le_iff] using fits

theorem hasCapability_iff {capability : JobCapability} :
    hasCapability capability job = true ↔ capability = ⟨job.name, job.schemaVersion⟩ := by
  cases capability
  simp only [hasCapability, Bool.and_eq_true, decide_eq_true_eq, JobCapability.mk.injEq]
  exact ⟨fun same => ⟨same.1.symm, same.2.symm⟩, fun same => ⟨same.1.symm, same.2.symm⟩⟩

theorem validateCapabilities_eq_ok {capabilities : List JobCapability}
    (valid : ∀ capability ∈ capabilities, capability.validate = .ok ()) :
    DatabaseSql.validateCapabilities capabilities = .ok () ∧
      Pgsql.validateCapabilities capabilities = .ok () := by
  induction capabilities with
  | nil => exact ⟨rfl, rfl⟩
  | cons capability rest ih =>
    rw [DatabaseSql.validateCapabilities, Pgsql.validateCapabilities,
      valid capability List.mem_cons_self]
    exact ih fun other member => valid other (List.mem_cons_of_mem _ member)

/-- The arguments a claim accepts: distinct valid capabilities, a non-zero token
and a limit within bounds. -/
structure AcceptedClaim (token : LeaseToken) (capabilities : List JobCapability) (limit : Int) :
    Prop where
  distinct : capabilities.Nodup
  valid : ∀ capability ∈ capabilities, capability.validate = .ok ()
  named : token ≠ .nil
  positive : 1 ≤ limit
  bounded : limit ≤ maxReservationBatchSize

namespace AcceptedClaim

theorem validateClaim_eq_ok (claim : AcceptedClaim token capabilities limit)
    (limitText : String) : validateClaim limitText token limit = .ok () := by
  have inRange : ¬ (limit < 1 ∨ (maxReservationBatchSize : Int) < limit) := by
    have := claim.positive
    have := claim.bounded
    omega
  rw [validateClaim, LeaseToken.validate_eq_ok_iff.mpr claim.named]
  exact if_neg inRange

theorem validateBatchClaim_eq_ok (claim : AcceptedClaim token capabilities limit) :
    DatabaseSql.validateBatchClaim token limit = .ok () :=
  claim.validateClaim_eq_ok _

end AcceptedClaim

/-- The requests of the contract: accepted ones with instants in whole milliseconds. -/
structure ClaimRequest (now until_ : Int) (token : LeaseToken)
    (capabilities : List JobCapability) (limit : Int) : Prop
    extends AcceptedClaim token capabilities limit where
  now_whole : millisecond ∣ now
  until_whole : millisecond ∣ until_

/-! ## PostgreSQL -/

namespace Pgsql

theorem map_filter_hasCapability (distinct : capabilities.Nodup) (job : Job) :
    ((capabilities.filter fun capability => hasCapability capability job).map fun _ => job) =
      if capabilities.any (fun capability => hasCapability capability job) then [job]
      else [] := by
  have same : (fun capability => hasCapability capability job) =
      (fun capability : JobCapability => capability == ⟨job.name, job.schemaVersion⟩) :=
    funext fun capability => Bool.eq_iff_iff.mpr (hasCapability_iff.trans beq_iff_eq.symm)
  rw [same, List.filter_beq, distinct.count]
  by_cases requested : (⟨job.name, job.schemaVersion⟩ : JobCapability) ∈ capabilities
  all_goals simp [requested, List.any_eq_true]

theorem joinRequested_eq_filter (distinct : capabilities.Nodup) (rows : List Job) :
    joinRequested capabilities rows =
      rows.filter fun job => capabilities.any fun capability => hasCapability capability job := by
  induction rows with
  | nil => rfl
  | cons job rest ih =>
    rw [joinRequested, List.flatMap_cons, map_filter_hasCapability distinct, List.filter_cons]
    change _ ++ joinRequested capabilities rest = _
    rw [ih]
    split <;> rfl

theorem candidates_eq_claimSelection (distinct : capabilities.Nodup) :
    candidates (fun _ => false) now limit.toNat (joinRequested capabilities table.rows) =
      claimSelection (stored now) capabilities limit table := by
  rw [candidates, joinRequested_eq_filter distinct, List.filter_filter, claimSelection]
  congr 2
  funext job
  rw [claimable, Bool.not_false, Bool.and_true, Bool.and_comm]

/-- The statement reserves the rows of the contract, or counts past `smallint`. -/
theorem reserveReturning_claimSelection {op : String} (positive : 1 ≤ limit) :
    reserveReturning op (claimSelection now capabilities limit table) until_ token table =
      if (claimSelection now capabilities limit table).any
          (fun job => smallintMax < job.attempts + 1) then
        (.error (errorContext (op ++ ": query context")
          (.leaf (.external "smallint out of range"))), table)
      else claimContract now (stored until_) token capabilities limit table := by
  have readBack := @ordered_matching_reserveWhere until_ token table stored
    (claimSelection now capabilities limit table)
    (fun job => decide (job.id ∈ (claimSelection now capabilities limit table).map Job.id))
    (fun job => decide (job.id ∈ (claimSelection now capabilities limit table).map Job.id))
    pairwise_claimSelection nodup_claimSelection (fun job => mem_iff_id_mem mem_claimSelection)
    (fun job _ => by split <;> simp_all)
  dsimp only [reserveReturning]
  split
  · rfl
  · rw [readBack, claimContract, reserveWhere_stored]
    by_cases empty : claimSelection now capabilities limit table = []
    · rw [(claimSelection_eq_nil_iff positive).mp empty, empty]
      refine congrArg (Prod.mk _) ?_
      exact Table.update_eq_self fun job _ => by simp
    · rw [any_claimable_of_ne_nil positive empty]
      simp [empty, reserveRows]

theorem findAndReserveJobsForCapabilities_eq
    (claim : AcceptedClaim token capabilities limit) :
    findAndReserveJobsForCapabilities (fun _ => false) now until_ token capabilities limit table =
      if (claimSelection (stored now) capabilities limit table).any
          (fun job => smallintMax < job.attempts + 1) then
        (.error (errorContext "jobs.repo.FindAndReserveJobs: query context"
          (.leaf (.external "smallint out of range"))), table)
      else claimContract (stored now) (stored until_) token capabilities limit table := by
  unfold findAndReserveJobsForCapabilities
  split
  · rename_i none_requested
    rw [List.isEmpty_iff.mp none_requested, claimContract_nil, claimSelection_nil]
    rfl
  · have checkedLimit : validateBatchRequest token limit = .ok () := claim.validateClaim_eq_ok _
    simp only [findAndReserveJobs]
    rw [checkedLimit, (validateCapabilities_eq_ok claim.valid).2]
    change reserveReturning _ (candidates _ now limit.toNat
      (joinRequested capabilities table.rows)) until_ token table = _
    rw [candidates_eq_claimSelection claim.distinct,
      reserveReturning_claimSelection claim.positive]
    rfl

end Pgsql

/-! ## MySQL -/

namespace Mysql

theorem eraseDups_of_nodup (distinct : capabilities.Nodup) :
    capabilities.eraseDups = capabilities := by
  induction capabilities with
  | nil => rfl
  | cons capability rest ih =>
    obtain ⟨absent, later⟩ := List.nodup_cons.mp distinct
    have kept : rest.filter (fun other => !other == capability) = rest :=
      List.filter_eq_self.mpr fun other member => by
        have different : other ≠ capability := fun same => absent (same ▸ member)
        simpa using different
    rw [List.eraseDups_cons, kept, ih later]

def capabilityRows (now : Int) (table : JobsTable) (capability : JobCapability) : List Job :=
  table.rows.filter fun job => hasCapability capability job && ready (stored now) job

theorem flatMap_capabilityRows_perm (distinct : capabilities.Nodup) :
    (capabilities.flatMap (capabilityRows now table)).Perm
      (table.rows.filter (claimable (stored now) capabilities)) := by
  have rowsNodup := List.Nodup.of_map Job.id table.nodup
  refine (List.perm_ext_iff_of_nodup ?_ (rowsNodup.filter _)).mpr fun job => ?_
  · refine List.nodup_flatMap.mpr ⟨fun capability _ => rowsNodup.filter _, ?_⟩
    refine distinct.imp fun {first second} different => ?_
    intro job hfirst hsecond
    have ofFirst := (Bool.and_eq_true_iff.mp (List.mem_filter.mp hfirst).2).1
    have ofSecond := (Bool.and_eq_true_iff.mp (List.mem_filter.mp hsecond).2).1
    exact different ((hasCapability_iff.mp ofFirst).trans (hasCapability_iff.mp ofSecond).symm)
  · simp only [List.mem_flatMap, capabilityRows, List.mem_filter, claimable, Bool.and_eq_true,
      List.any_eq_true]
    constructor
    · rintro ⟨capability, hrequested, hmember, hcapability, hready⟩
      exact ⟨hmember, ⟨capability, hrequested, hcapability⟩, hready⟩
    · rintro ⟨hmember, ⟨capability, hrequested, hcapability⟩, hready⟩
      exact ⟨capability, hrequested, hmember, hcapability, hready⟩

/-- The limited queries of the capabilities, united under the outer limit,
select the first claimable rows. -/
theorem batchCandidateIDs_eq (distinct : capabilities.Nodup) :
    batchCandidateIDs now capabilities limit.toNat table =
      (claimSelection (stored now) capabilities limit table).map Job.id := by
  have same := @flatMap_capabilityRows_perm now capabilities table distinct
  have separated : Separated QueueOrder
      (table.rows.filter (claimable (stored now) capabilities)) :=
    separated_of_nodup (table.nodup_map_matching _)
  have united := separated.subperm same.subperm
  rw [batchCandidateIDs, eraseDups_of_nodup distinct]
  refine congrArg (List.map Job.id) ?_
  calc firstRows QueueOrder limit.toNat
        (capabilities.flatMap fun capability =>
          firstRows QueueOrder limit.toNat (capabilityRows now table capability))
      = firstRows QueueOrder limit.toNat (capabilities.flatMap (capabilityRows now table)) :=
        firstRows_flatMap_firstRows capabilities (capabilityRows now table) united
    _ = firstRows QueueOrder limit.toNat
          (table.rows.filter (claimable (stored now) capabilities)) :=
        firstRows_perm united same
    _ = claimSelection (stored now) capabilities limit table := rfl

/-- Nobody else wrote, so every candidate is still ready. -/
theorem reservable_iff {job : Job} (member : job ∈ table.rows) :
    reservable now ((claimSelection (stored now) capabilities limit table).map Job.id) job = true ↔
      job.id ∈ (claimSelection (stored now) capabilities limit table).map Job.id := by
  rw [reservable, Bool.and_eq_true, decide_eq_true_eq]
  refine ⟨And.left, fun hid => ⟨hid, ?_⟩⟩
  obtain ⟨other, hother, hsame⟩ := List.mem_map.mp hid
  obtain ⟨hstored, hclaimable⟩ := mem_claimSelection hother
  rw [table.row_unique member hstored hsame.symm]
  exact (Bool.and_eq_true_iff.mp hclaimable).2

theorem reserveBatchCandidates_eq_some {ids : List JobID} {jobs : List Job}
    (small : ¬ ((table.matching (reservable now ids)).any
      fun job => intMax < job.attempts + 1) = true)
    (won : (table.matching (reservable now ids)).length ≠ 0)
    (bounded : (table.matching (reservable now ids)).length ≤ ids.length)
    (loaded : ordered ((reserveWhere stored (reservable now ids) until_ token table).matching
      fun job => decide (job.id ∈ ids) && decide (job.leaseToken = token)) = jobs)
    (counted : jobs.length = (table.matching (reservable now ids)).length) :
    reserveBatchCandidates now until_ token ids table =
      (.ok (some jobs), reserveWhere stored (reservable now ids) until_ token table) := by
  have named : (fun job : Job => decide (job.id ∈ ids) && ready (stored now) job) =
      reservable now ids := rfl
  simp only [reserveBatchCandidates, named]
  rw [if_neg small, if_neg won, if_neg (Nat.not_lt.mpr bounded), loaded,
    if_neg (not_not.mpr counted)]

/-- The rows the reserving transaction takes are the selected ones. -/
theorem mem_claimSelection_iff :
    job ∈ claimSelection (stored now) capabilities limit table ↔ job ∈ table.rows ∧
      reservable now ((claimSelection (stored now) capabilities limit table).map Job.id) job =
        true := by
  refine (mem_iff_id_mem mem_claimSelection).trans (and_congr_right fun member => ?_)
  rw [decide_eq_true_eq]
  exact (reservable_iff member).symm

theorem reserveBatchCandidates_claimSelection
    (found : claimSelection (stored now) capabilities limit table ≠ [])
    (fits : ∀ job ∈ claimSelection (stored now) capabilities limit table,
      job.attempts < intMax) :
    reserveBatchCandidates now until_ token
        ((claimSelection (stored now) capabilities limit table).map Job.id) table =
      (.ok (some ((claimSelection (stored now) capabilities limit table).map
          (reserveRow (stored until_) token))),
        reserveRows (claimSelection (stored now) capabilities limit table) (stored until_)
          token table) := by
  let rows := claimSelection (stored now) capabilities limit table
  let chosen := reservable now (rows.map Job.id)
  have chosen_iff : ∀ job, job ∈ rows ↔ job ∈ table.rows ∧ chosen job = true :=
    fun job => mem_claimSelection_iff
  have readBack := @ordered_matching_reserveWhere until_ token table stored rows chosen
    (fun job => decide (job.id ∈ rows.map Job.id) && decide (job.leaseToken = token))
    pairwise_claimSelection nodup_claimSelection chosen_iff fun job hmember => by
      have selected := @reservable_iff now limit capabilities table job hmember
      by_cases hchosen : chosen job = true
      · simpa [hchosen, reserveRow] using List.mem_map.mp (selected.mp hchosen)
      · have absent : job.id ∉ rows.map Job.id := fun hid => hchosen (selected.mpr hid)
        simp [hchosen, absent]
  have counted : (table.matching chosen).length = rows.length := by
    rw [← length_ordered,
      ordered_matching_eq pairwise_claimSelection nodup_claimSelection chosen_iff]
  have reserved : reserveWhere stored chosen until_ token table =
      reserveRows rows (stored until_) token table := by
    rw [reserveWhere_stored]
    refine Table.update_congr fun job hmember => ?_
    exact Bool.eq_iff_iff.mpr ((reservable_iff hmember).trans decide_eq_true_iff.symm)
  have small : ¬ ((table.matching chosen).any fun job => intMax < job.attempts + 1) = true :=
    not_any_exceeds fun job hmember =>
      fits job ((chosen_iff job).mpr (Table.mem_matching.mp hmember))
  have nonempty : rows.length ≠ 0 := fun zero => found (List.length_eq_zero_iff.mp zero)
  have transaction := reserveBatchCandidates_eq_some small (by rw [counted]; exact nonempty)
    (by rw [counted, List.length_map]) readBack (by rw [counted, List.length_map])
  rw [transaction, reserved]

/-- A counter at its largest value fails the reserving transaction. -/
theorem reserveBatchCandidates_full
    (member : job ∈ claimSelection (stored now) capabilities limit table)
    (full : intMax ≤ job.attempts) :
    reserveBatchCandidates now until_ token
        ((claimSelection (stored now) capabilities limit table).map Job.id) table =
      (.error (errorContext "reserve batch claim candidates"
        (.leaf (.external "out of range value for column attempts"))), table) := by
  dsimp only [reserveBatchCandidates]
  refine if_pos (List.any_eq_true.mpr ⟨job, ?_, decide_eq_true (by omega)⟩)
  exact Table.mem_matching.mpr (mem_claimSelection_iff.mp member)

theorem findAndReserveJobsForCapabilities_eq {rest : List JobsTable}
    (claim : AcceptedClaim token capabilities limit) :
    findAndReserveJobsForCapabilities (table :: rest) now until_ token capabilities limit table =
      if (claimSelection (stored now) capabilities limit table).any
          (fun job => intMax < job.attempts + 1) then
        (.error (errorContext "reserve batch claim candidates"
          (.leaf (.external "out of range value for column attempts"))), table)
      else claimContract (stored now) (stored until_) token capabilities limit table := by
  unfold findAndReserveJobsForCapabilities
  split
  · rename_i none_requested
    rw [List.isEmpty_iff.mp none_requested, claimContract_nil, claimSelection_nil]
    rfl
  · rw [checked_eq_of_ok _ (validateCapabilities_eq_ok claim.valid).1, findAndReserveBatch,
      checked_eq_of_ok _ claim.validateBatchClaim_eq_ok]
    simp only [claimRounds]
    rw [batchCandidateIDs_eq claim.distinct]
    split_ifs with empty exceeds exceeds
    · rw [List.isEmpty_iff, List.map_eq_nil_iff] at empty
      simp [empty] at exceeds
    · rw [List.isEmpty_iff, List.map_eq_nil_iff] at empty
      rw [claimContract, (claimSelection_eq_nil_iff claim.positive).mp empty]
      rfl
    · obtain ⟨job, member, full⟩ := List.any_eq_true.mp exceeds
      rw [reserveBatchCandidates_full member (Int.lt_add_one_iff.mp (of_decide_eq_true full))]
    · have found : claimSelection (stored now) capabilities limit table ≠ [] := by
        simpa using empty
      rw [claimContract, any_claimable_of_ne_nil claim.positive found,
        reserveBatchCandidates_claimSelection found fun job member => ?_]
      · rfl
      · have small : ¬ intMax < job.attempts + 1 := fun full =>
          exceeds (List.any_eq_true.mpr ⟨job, member, decide_eq_true full⟩)
        omega

end Mysql

/-! ## SQLite -/

namespace Sqlite

theorem selectReady_eq_claimSelection :
    selectReady now (fun job => capabilities.any fun capability => hasCapability capability job)
        limit table =
      claimSelection (stored now) capabilities limit table := by
  rw [selectReady, claimSelection]
  congr 2
  funext job
  rw [claimable, Bool.and_comm]

/-- The claim at any resolution: the deadline is truncated when it is stored, and
returned as it was asked for. -/
theorem findAndReserveBatchWithExecutor_eq :
    findAndReserveBatchWithExecutor now until_ token capabilities limit table =
      if claimSelection (stored now) capabilities limit table = [] then
        (.error (.leaf .errNoJobs), table)
      else
        (.ok ((claimSelection (stored now) capabilities limit table).map
          (reserveRow until_ token)),
          reserveRows (claimSelection (stored now) capabilities limit table) (stored until_)
            token table) := by
  have affected := @reserveIDs_affected token until_ table
    ((claimSelection (stored now) capabilities limit table).map Job.id)
    nodup_claimSelection fun wanted hwanted => by
      obtain ⟨job, hjob, hid⟩ := List.mem_map.mp hwanted
      exact ⟨job, (mem_claimSelection hjob).1, hid⟩
  simp only [findAndReserveBatchWithExecutor]
  rw [selectReady_eq_claimSelection]
  by_cases empty : claimSelection (stored now) capabilities limit table = []
  · rw [if_pos empty, if_pos (by simp [empty])]
  · rw [if_neg empty, if_neg (by simpa using empty), affected, List.length_map,
      if_neg (not_not.mpr rfl)]
    rfl

/-- Work that changes nothing when it fails needs no rollback. -/
theorem withImmediateTransaction_eq {α : Type} {attached : Bool} {work : RepoCall α}
    (kept : ∀ error after, work table = (.error error, after) → after = table) :
    withImmediateTransaction attached work table = work table := by
  cases attached with
  | true => rfl
  | false =>
    dsimp only [withImmediateTransaction]
    rcases outcome : work table with ⟨answer, after⟩
    cases answer with
    | error error => rw [kept error after outcome]; rfl
    | ok value => rfl

theorem findAndReserveJobsForCapabilities_eq {attached : Bool}
    (valid : DatabaseSql.validateCapabilities capabilities = .ok ())
    (accepted : DatabaseSql.validateBatchClaim token limit = .ok ()) :
    findAndReserveJobsForCapabilities attached now until_ token capabilities limit table =
      findAndReserveBatchWithExecutor now until_ token capabilities limit table := by
  unfold findAndReserveJobsForCapabilities
  split
  · rename_i none_requested
    rw [findAndReserveBatchWithExecutor_eq, List.isEmpty_iff.mp none_requested,
      if_pos claimSelection_nil]
    rfl
  · rw [checked_eq_of_ok _ valid, findAndReserveBatch, checked_eq_of_ok _ accepted]
    refine withImmediateTransaction_eq fun error after failed => ?_
    rw [findAndReserveBatchWithExecutor_eq] at failed
    split at failed <;> cases failed
    rfl

end Sqlite

/-! ## The three backends -/

def countedTable (attempts : Int) : JobsTable :=
  ⟨[{ newJob ⟨1⟩ none (bytes "mail") 1 [] 0 0 with attempts := attempts }], by simp⟩

end OutboxFormal.Storage
