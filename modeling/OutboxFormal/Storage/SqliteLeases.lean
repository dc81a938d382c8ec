import OutboxFormal.Storage.ClaimContract

/-!
# The lease a SQLite claim returns

The bounded claim reads the reserved rows back. The ordinary claim patches the
rows it selected in memory with the deadline it was given, while the table keeps
that deadline in whole milliseconds. A returned row is the stored row exactly
when the deadline loses nothing, and only then does every instant before the
returned deadline find the lease alive.
-/

namespace OutboxFormal.Storage.Sqlite

open Library DatabaseSql

/-- No claim made at this instant returns the row. -/
def Unclaimable (instant : Int) (table : JobsTable) (id : JobID) : Prop :=
  (∀ attached until_ token capabilities limit jobs,
    (findAndReserveJobsForCapabilities attached instant until_ token capabilities limit
      table).1 = .ok jobs → id ∉ jobs.map Job.id) ∧
  ∀ attached until_ token capability maxMessages maxBytes jobs,
    (findAndReserveJobsForCapabilityBounded attached instant until_ token capability
      maxMessages maxBytes table).1 = .ok jobs → id ∉ jobs.map Job.id

def Affected (token : LeaseToken) (instant : Int) (table : JobsTable) (id : JobID) : Prop :=
  (deleteJobWithLease id token instant table).1 = .ok 1 ∧
    (∀ until_, (extendJobLeases [id] token instant until_ table).1 = .ok 1) ∧
    (releaseUnstartedJobsWithLease [id] token instant table).1 = .ok 1

/-- The returned row is the stored one, and its deadline is the end of a lease
that excludes other claims and admits its owner. -/
structure HoldsLease (token : LeaseToken) (table : JobsTable) (job : Job) : Prop where
  is_stored : job ∈ table.rows
  excludes : ∀ reserved, job.reservedAt = some reserved → ∀ instant, instant < reserved →
    Unclaimable instant table job.id
  admits : ∀ reserved, job.reservedAt = some reserved → ∀ instant, instant < reserved →
    Affected token instant table job.id

section Lease

variable {token : LeaseToken} {table : JobsTable} {job : Job} {reserved instant : Int}

theorem not_mem_of_rowSpec {now until_ : Int} {call : RepoCall (List Job)} {jobs : List Job}
    (spec : RowSpec stored (claimEvents token now until_) call) (member : job ∈ table.rows)
    (isReserved : job.reservedAt = some reserved) (early : now < reserved)
    (answered : (call table).1 = .ok jobs) : job.id ∉ jobs.map Job.id := by
  intro returned
  have found : table.get? job.id = some job := Table.get?_eq_some_iff.mpr ⟨member, rfl⟩
  obtain ⟨event, allowed, step⟩ := spec table job.id
  rw [found] at step
  rcases allowed with ⟨_, absent⟩ | ⟨rfl, _⟩
  · exact absent jobs answered returned
  · generalize (call table).2.get? job.id = after at step
    cases step with
    | claimed _ isReady =>
      have past := (ready_iff.mp isReady).2 reserved isReserved
      have rounded : stored now ≤ now := milliTime_le now
      omega

theorem unclaimable_of_reserved (member : job ∈ table.rows)
    (isReserved : job.reservedAt = some reserved) (early : instant < reserved) :
    Unclaimable instant table job.id := by
  constructor
  · intro attached until_ token capabilities limit jobs answered
    exact not_mem_of_rowSpec rowSpec_findAndReserveJobsForCapabilities member isReserved early
      answered
  · intro attached until_ token capability maxMessages maxBytes jobs answered
    exact not_mem_of_rowSpec rowSpec_findAndReserveJobsForCapabilityBounded member isReserved
      early answered

/-- A statement about one identifier affects one row when it selects that row. -/
theorem affecting_eq_one_iff {selected : Job → Bool} {effect : JobsTable → JobsTable}
    (single : ∀ row ∈ table.rows, selected row = true → row.id = job.id)
    (member : job ∈ table.rows) :
    (affecting selected effect table).1 = .ok 1 ↔ selected job = true := by
  have counted : (table.matching selected).length = [job.id].length ↔ _ :=
    Table.length_matching_eq_iff (List.nodup_singleton _) fun row hrow hselected => by
      simp [single row hrow hselected]
  have cast : (affecting selected effect table).1 = .ok 1 ↔
      (table.matching selected).length = [job.id].length := by
    simp only [affecting, Except.ok.injEq, List.length_singleton]
    omega
  rw [cast, counted]
  constructor
  · intro every
    obtain ⟨row, hrow, hid, hselected⟩ := every job.id List.mem_cons_self
    rwa [table.row_unique hrow member hid] at hselected
  · intro hselected wanted hwanted
    rw [List.mem_singleton.mp hwanted]
    exact ⟨job, member, rfl, hselected⟩

theorem validateBatchLease_singleton (id : JobID) :
    validateBatchLease [id] token = validateSingle "invalid job id" id token := by
  have counted : leaseCountAccepted [id] = true := rfl
  have zero : [id].any JobID.isZero = id.isZero := Bool.or_false _
  unfold validateBatchLease validateSingle
  rw [counted, zero]
  exact if_pos rfl

/-- What the owner's operations ask of a row that carries its token. -/
theorem affected_iff (member : job ∈ table.rows) (named : token ≠ .nil)
    (owned : job.leaseToken = token) (isReserved : job.reservedAt = some reserved)
    (early : instant < reserved) :
    Affected token instant table job.id ↔ job.id ≠ .nil ∧ 0 < job.attempts := by
  have isLeased : leased token (stored instant) job = true :=
    leased_iff.mpr ⟨owned, reserved, isReserved,
      Int.lt_of_le_of_lt (milliTime_le instant) early⟩
  have single : ∀ row ∈ table.rows,
      singleSelection stored job.id token instant row = true → row.id = job.id :=
    fun row _ selected => of_decide_eq_true (Bool.and_eq_true_iff.mp selected).1
  have listed : ∀ row ∈ table.rows,
      leaseSelection stored [job.id] token instant row = true → row.id = job.id :=
    fun row _ selected => by
      simpa using of_decide_eq_true (Bool.and_eq_true_iff.mp selected).1
  have released : ∀ row ∈ table.rows,
      releaseSelection stored [job.id] token instant row = true → row.id = job.id :=
    fun row hrow selected => listed row hrow (Bool.and_eq_true_iff.mp selected).1
  simp only [Affected, deleteJobWithLease, extendJobLeases, releaseUnstartedJobsWithLease,
    checked_eq_ok_iff, validateBatchLease_singleton, validateSingle_eq_ok_iff,
    affecting_eq_one_iff single member, affecting_eq_one_iff listed member,
    affecting_eq_one_iff released member]
  simp only [singleSelection, leaseSelection, releaseSelection, isLeased]
  simp [named]

theorem holdsLease_iff (member : job ∈ table.rows) (named : token ≠ .nil)
    (owned : job.leaseToken = token) (isReserved : job.reservedAt = some reserved) :
    HoldsLease token table job ↔ job.id ≠ .nil ∧ 0 < job.attempts := by
  constructor
  · intro holds
    have early : reserved - 1 < reserved := by omega
    exact (affected_iff member named owned isReserved early).mp
      (holds.admits reserved isReserved (reserved - 1) early)
  · intro claimed
    refine ⟨member, fun deadline hdeadline instant early => ?_,
      fun deadline hdeadline instant early => ?_⟩
    · exact unclaimable_of_reserved member hdeadline early
    · exact (affected_iff member named owned hdeadline early).mpr claimed

end Lease

/-! ## The rows after a reservation -/

section Reservation

variable {now until_ : Int} {token : LeaseToken} {table : JobsTable} {rows : List Job}

theorem mem_reserveRows {job : Job} (member : job ∈ table.rows) (chosen : job ∈ rows) :
    reserveRow until_ token job ∈ (reserveRows rows until_ token table).rows := by
  rw [reserveRows, reserveWhere, Table.mem_update]
  exact ⟨job, member, (if_pos (decide_eq_true (List.mem_map_of_mem chosen))).symm⟩

/-- A patched row is stored when its deadline lost nothing. -/
theorem reserveRow_mem_iff {job : Job} (member : job ∈ table.rows) (chosen : job ∈ rows) :
    reserveRow until_ token job ∈ (reserveRows rows (stored until_) token table).rows ↔
      stored until_ = until_ := by
  constructor
  · intro patched
    have same := (reserveRows rows (stored until_) token table).row_unique patched
      (mem_reserveRows member chosen) rfl
    exact (Option.some.inj (congrArg Job.reservedAt same)).symm
  · intro lossless
    rw [lossless]
    exact mem_reserveRows member chosen

/-- A patched row is a lease when its deadline lost nothing. -/
theorem holdsLease_reserveRow_iff {job : Job} (named : token ≠ .nil) (member : job ∈ table.rows)
    (chosen : job ∈ rows) :
    HoldsLease token (reserveRows rows (stored until_) token table)
        (reserveRow until_ token job) ↔
      stored until_ = until_ ∧ job.id ≠ .nil ∧ 0 ≤ job.attempts := by
  rw [← reserveRow_mem_iff member chosen]
  constructor
  · intro holds
    have lease := (holdsLease_iff holds.is_stored named rfl rfl).mp holds
    exact ⟨holds.is_stored, lease.1, Int.lt_add_one_iff.mp lease.2⟩
  · rintro ⟨isStored, hid, hattempts⟩
    exact (holdsLease_iff isStored named rfl rfl).mpr ⟨hid, Int.lt_add_one_iff.mpr hattempts⟩

/-- The rows read back by identifier and token are the reserved ones. -/
theorem mem_readBack_iff {ids : List JobID} {job : Job} :
    job ∈ ordered ((reserveIDs ids until_ token table).2.matching fun job =>
        decide (job.id ∈ ids) && decide (job.leaseToken = token)) ↔
      ∃ row ∈ table.rows, row.id ∈ ids ∧ job = reserveRow (stored until_) token row := by
  rw [mem_ordered, Table.mem_matching, reserveIDs]
  dsimp only
  rw [reserveWhere, Table.mem_update]
  constructor
  · rintro ⟨⟨row, member, rfl⟩, loaded⟩
    by_cases chosen : row.id ∈ ids
    · exact ⟨row, member, chosen, by simp [chosen]⟩
    · simp [chosen] at loaded
  · rintro ⟨row, member, chosen, rfl⟩
    exact ⟨⟨row, member, by simp [chosen]⟩, by simp [chosen, reserveRow]⟩

end Reservation

/-! ## The two claims -/

def ReturnsLeases (token : LeaseToken) (claim : Except OutboxError (List Job) × JobsTable) :
    Prop :=
  ∀ jobs, claim.1 = .ok jobs → ∀ job ∈ jobs, HoldsLease token claim.2 job

section Claims

variable {attached : Bool} {table : JobsTable} {now until_ : Int} {token : LeaseToken}

theorem accepted_of_claim {capabilities : List JobCapability} {limit : Int} {jobs : List Job}
    (answered : (findAndReserveJobsForCapabilities attached now until_ token capabilities limit
      table).1 = .ok jobs) :
    validateCapabilities capabilities = .ok () ∧ validateBatchClaim token limit = .ok () := by
  unfold findAndReserveJobsForCapabilities at answered
  split at answered
  · cases answered
  · obtain ⟨valid, batch⟩ := checked_eq_ok_iff.mp answered
    exact ⟨valid, (checked_eq_ok_iff.mp batch).1⟩

theorem returnsLeases_iff {capabilities : List JobCapability} {limit : Int} :
    ReturnsLeases token
        (findAndReserveJobsForCapabilities attached now until_ token capabilities limit table) ↔
      (validateCapabilities capabilities = .ok () → validateBatchClaim token limit = .ok () →
        ∀ job ∈ claimSelection (stored now) capabilities limit table,
          stored until_ = until_ ∧ job.id ≠ .nil ∧ 0 ≤ job.attempts) := by
  constructor
  · intro holds valid accepted job chosen
    have found : claimSelection (stored now) capabilities limit table ≠ [] :=
      List.ne_nil_of_mem chosen
    rw [findAndReserveJobsForCapabilities_eq valid accepted, findAndReserveBatchWithExecutor_eq,
      if_neg found] at holds
    exact (holdsLease_reserveRow_iff (validateClaim_token accepted) (mem_claimSelection chosen).1
      chosen).mp (holds _ rfl _ (List.mem_map_of_mem chosen))
  · intro lossless jobs answered job returned
    obtain ⟨valid, accepted⟩ := accepted_of_claim answered
    rw [findAndReserveJobsForCapabilities_eq valid accepted,
      findAndReserveBatchWithExecutor_eq] at answered ⊢
    split at answered
    · cases answered
    · rename_i found
      cases answered
      obtain ⟨row, chosen, rfl⟩ := List.mem_map.mp returned
      rw [if_neg found]
      exact (holdsLease_reserveRow_iff (validateClaim_token accepted)
        (mem_claimSelection chosen).1 chosen).mpr (lossless valid accepted row chosen)

theorem findAndReserveJobsForCapabilityBounded_eq {capability : JobCapability}
    {maxMessages maxBytes : Int} (accepted : validateBatchClaim token maxMessages = .ok ())
    (positive : validateMaxBytes maxBytes = .ok ())
    (valid : validateCapabilities [capability] = .ok ()) :
    findAndReserveJobsForCapabilityBounded attached now until_ token capability maxMessages
        maxBytes table =
      findAndReserveBatchBoundedWithExecutor now until_ token capability maxMessages maxBytes
        table := by
  rw [findAndReserveJobsForCapabilityBounded, checked_eq_of_ok _ accepted,
    checked_eq_of_ok _ positive, checked_eq_of_ok _ valid]
  refine withImmediateTransaction_eq fun error after failed => ?_
  rw [findAndReserveBatchBoundedWithExecutor_eq] at failed
  dsimp only at failed
  split at failed <;> cases failed
  rfl

theorem holdsLease_readBack_iff {ids : List JobID} {row : Job} (named : token ≠ .nil)
    (member : row ∈ table.rows) (chosen : row.id ∈ ids) :
    HoldsLease token (reserveIDs ids until_ token table).2
        (reserveRow (stored until_) token row) ↔ row.id ≠ .nil ∧ 0 ≤ row.attempts := by
  have loaded := (@mem_readBack_iff until_ token table ids _).mpr ⟨row, member, chosen, rfl⟩
  have isStored := (Table.mem_matching.mp (mem_ordered.mp loaded)).1
  exact (holdsLease_iff isStored named rfl rfl).trans
    (and_congr_right fun _ => Int.lt_add_one_iff)

theorem returnsLeases_bounded_iff {capability : JobCapability} {maxMessages maxBytes : Int} :
    ReturnsLeases token
        (findAndReserveJobsForCapabilityBounded attached now until_ token capability
          maxMessages maxBytes table) ↔
      (validateBatchClaim token maxMessages = .ok () → validateMaxBytes maxBytes = .ok () →
        validateCapabilities [capability] = .ok () →
        ∀ job ∈ table.rows, job.id ∈ boundedIDs now capability maxMessages maxBytes table →
          job.id ≠ .nil ∧ 0 ≤ job.attempts) := by
  constructor
  · intro holds accepted positive valid job member chosen
    have found : boundedIDs now capability maxMessages maxBytes table ≠ [] :=
      List.ne_nil_of_mem chosen
    rw [findAndReserveJobsForCapabilityBounded_eq accepted positive valid,
      findAndReserveBatchBoundedWithExecutor_eq] at holds
    dsimp only at holds
    rw [if_neg found] at holds
    exact (holdsLease_readBack_iff (validateClaim_token accepted) member chosen).mp
      (holds _ rfl _ (mem_readBack_iff.mpr ⟨job, member, chosen, rfl⟩))
  · intro claimed jobs answered job returned
    have checks := answered
    rw [findAndReserveJobsForCapabilityBounded, checked_eq_ok_iff, checked_eq_ok_iff,
      checked_eq_ok_iff] at checks
    obtain ⟨accepted, positive, valid, _⟩ := checks
    rw [findAndReserveJobsForCapabilityBounded_eq accepted positive valid,
      findAndReserveBatchBoundedWithExecutor_eq] at answered ⊢
    dsimp only at answered ⊢
    split at answered
    · cases answered
    · rename_i found
      cases answered
      rw [if_neg found]
      obtain ⟨row, member, chosen, rfl⟩ := mem_readBack_iff.mp returned
      exact (holdsLease_readBack_iff (validateClaim_token accepted) member chosen).mpr
        (claimed accepted positive valid row member chosen)

end Claims

/-- The ordinary claim returns the leases it stored exactly when the deadline is
a whole number of milliseconds, or nothing is claimed; the bounded claim always
does. Identifiers are non-zero and counters not negative in every row the
repository writes. -/
theorem claims_return_stored_leases_iff (attached : Bool) (table : JobsTable)
    (now until_ : Int) (token : LeaseToken) :
    (∀ capabilities limit,
      ReturnsLeases token
          (findAndReserveJobsForCapabilities attached now until_ token capabilities limit
            table) ↔
        (validateCapabilities capabilities = .ok () → validateBatchClaim token limit = .ok () →
          ∀ job ∈ claimSelection (stored now) capabilities limit table,
            stored until_ = until_ ∧ job.id ≠ .nil ∧ 0 ≤ job.attempts)) ∧
      ∀ capability maxMessages maxBytes,
        ReturnsLeases token
            (findAndReserveJobsForCapabilityBounded attached now until_ token capability
              maxMessages maxBytes table) ↔
          (validateBatchClaim token maxMessages = .ok () → validateMaxBytes maxBytes = .ok () →
            validateCapabilities [capability] = .ok () →
            ∀ job ∈ table.rows, job.id ∈ boundedIDs now capability maxMessages maxBytes table →
              job.id ≠ .nil ∧ 0 ≤ job.attempts) := by
  exact ⟨fun _ _ => returnsLeases_iff, fun _ _ _ => returnsLeases_bounded_iff⟩

/-- A claim until one nanosecond past a second: the row it returns is not the row
it stored, and one nanosecond before the returned deadline another claim takes
the row while its owner can no longer delete it. -/
theorem claim_returns_later_deadline :
    let claim := findAndReserveJobsForCapabilities false 0 (second + 1) ⟨7⟩
      [⟨bytes "mail", 1⟩] 1 (countedTable 0)
    claim.1 = .ok ((countedTable 0).rows.map (reserveRow (second + 1) ⟨7⟩)) ∧
      claim.2.rows = (countedTable 0).rows.map (reserveRow second ⟨7⟩) ∧
      (findAndReserveJobsForCapabilities false second (2 * second) ⟨8⟩
        [⟨bytes "mail", 1⟩] 1 claim.2).1 = .ok (claim.2.rows.map (reserveRow (2 * second) ⟨8⟩)) ∧
      (deleteJobWithLease ⟨1⟩ ⟨7⟩ second claim.2).1 = .ok 0 := by
  decide

end OutboxFormal.Storage.Sqlite
