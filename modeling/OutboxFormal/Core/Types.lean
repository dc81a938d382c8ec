import Mathlib.Algebra.Order.Ring.Int
import OutboxFormal.Library.GoErrors
import OutboxFormal.Library.Table

/-!
# Identifiers, instants, errors and stored rows

The data model shared by the service and the storage backends. A Go string is
a byte string. An instant is an `Int`, the nanoseconds since the zero
`time.Time`, and a duration is an `Int` of nanoseconds; so `IsZero` is equality
with zero and instants before year one are negative. Identifiers are 128-bit
UUIDs; the nil UUID is zero.
-/

namespace OutboxFormal

open Library

/-! ## Strings -/

/-- A Go string. -/
abbrev Bytes := List UInt8

instance : LawfulBEq Bytes := inferInstance

def bytes (literal : String) : Bytes :=
  literal.toList.flatMap String.utf8EncodeChar

/-- The printed form of a byte string inside an error text. -/
def printed (value : Bytes) : String :=
  String.ofList (value.map fun byte => Char.ofNat byte.toNat)

/-! ## Instants -/

def microsecond : Int := 1000
def millisecond : Int := 1000000
def second : Int := 1000000000

/-- `t.Truncate(step)`: round down to a multiple of `step` since the zero time. -/
def truncate (time : Int) (step : Int) : Int := time / step * step

def unixEpoch : Int := 62135596800 * second

/-- `t.UnixMilli()`. -/
def unixMilli (time : Int) : Int := (time - unixEpoch) / millisecond

/-- `time.UnixMilli(m)`. -/
def ofUnixMilli (milliseconds : Int) : Int := milliseconds * millisecond + unixEpoch

/-! ## Identifiers -/

/-- A UUID as its 128 bits, most significant byte first. -/
abbrev UUID := BitVec 128

def hexDigit (nibble : Nat) : UInt8 :=
  UInt8.ofNat (if nibble < 10 then 48 + nibble else 87 + nibble)

def uuidNibbles (uuid : UUID) : List Nat :=
  (List.range 32).map fun index => uuid.toNat / 16 ^ (31 - index) % 16

/-- `uuid.UUID.String()`: five dash-separated groups of hexadecimal digits. -/
def uuidString (uuid : UUID) : Bytes :=
  let digits := (uuidNibbles uuid).map hexDigit
  digits.take 8 ++ bytes "-" ++ (digits.drop 8).take 4 ++ bytes "-" ++
    (digits.drop 12).take 4 ++ bytes "-" ++ (digits.drop 16).take 4 ++ bytes "-" ++
    digits.drop 20

structure JobID where
  uuid : UUID
  deriving DecidableEq, Repr

structure LeaseToken where
  uuid : UUID
  deriving DecidableEq, Repr

structure MessageID where
  uuid : UUID
  deriving DecidableEq, Repr

def JobID.nil : JobID := ⟨0⟩
def LeaseToken.nil : LeaseToken := ⟨0⟩
def MessageID.nil : MessageID := ⟨0⟩

def JobID.isZero (id : JobID) : Bool := id = .nil
def LeaseToken.isZero (token : LeaseToken) : Bool := token = .nil
def MessageID.isZero (id : MessageID) : Bool := id = .nil

def JobID.string (id : JobID) : Bytes := uuidString id.uuid
def MessageID.string (id : MessageID) : Bytes := uuidString id.uuid

/-! ## Errors -/

/-- The sentinel errors of `backends/pgsql/replay`. -/
inductive ReplayError where
  | errNotConfigured
  | errInvalidRequest
  | errAdmissionRequired
  | errNotAdmitted
  | errUnsupportedFanout
  | errNestedTransaction
  | errSourceNotFound
  | errInvalidSource
  | errSourceActive
  | errRequestConflict
  | errReplayNotFound
  deriving DecidableEq, Repr

def ReplayError.message : ReplayError → String
  | .errNotConfigured => "replay requires a PostgreSQL client"
  | .errInvalidRequest => "replay requires nonzero request and failed job IDs"
  | .errAdmissionRequired => "replay requires host admission"
  | .errNotAdmitted => "replay admission requires a stable business key"
  | .errUnsupportedFanout => "fan-out replay is unsupported"
  | .errNestedTransaction => "replay must own its transaction"
  | .errSourceNotFound => "replay source not found"
  | .errInvalidSource => "invalid replay source"
  | .errSourceActive => "original job or previous replay is still active"
  | .errRequestConflict => "replay request conflicts with retained provenance"
  | .errReplayNotFound => "replay provenance not found"

/-- The sentinel and leaf errors the runtime compares against or reports. -/
inductive ErrorLeaf where
  | errNoJobs
  | errServiceDraining
  | errServiceRunning
  | errLeaseLost
  | errUnsupportedClaim
  | errEmptyReservationBatch
  | errReservationBatchSizeUnsupported
  | errInvalidSchemaVersion
  | errIdempotencyConflict
  | errInvalidBatchResult
  | errBatchRepositoryNotConfigured
  | errUniqueRepositoryNotConfigured
  | errFanoutRepositoryNotConfigured
  | errRetryPolicy
  | errCancelledClaimCleanup
  | errInvalidFanout
  | errJobIDUuidZero
  | errLeaseTokenUUIDZero
  | errMessageIDUuidZero
  | contextCanceled
  | contextDeadlineExceeded
  | handlerPanicError (jobName : Bytes) (value : String)
  | replay (error : ReplayError)
  | external (message : String)
  deriving DecidableEq, Repr

def ErrorLeaf.message : ErrorLeaf → String
  | .errNoJobs => "no jobs found"
  | .errServiceDraining => "outbox service is draining"
  | .errServiceRunning => "outbox service is already running"
  | .errLeaseLost => "outbox job lease lost"
  | .errUnsupportedClaim => "outbox repository claimed an unsupported capability"
  | .errEmptyReservationBatch =>
    "outbox repository returned an empty reservation batch with a nil error; " ++
      "return ErrNoJobs when no jobs are available"
  | .errReservationBatchSizeUnsupported =>
    "outbox reservation batch size is unsupported by repository"
  | .errInvalidSchemaVersion => "outbox schema version must be positive"
  | .errIdempotencyConflict => "outbox idempotency key conflicts with different job content"
  | .errInvalidBatchResult => "outbox invalid batch result"
  | .errBatchRepositoryNotConfigured => "outbox batch repository is not configured"
  | .errUniqueRepositoryNotConfigured => "outbox unique repository is not configured"
  | .errFanoutRepositoryNotConfigured => "outbox fan-out repository is not configured"
  | .errRetryPolicy => "outbox invalid retry policy"
  | .errCancelledClaimCleanup => "outbox could not release cancelled claim"
  | .errInvalidFanout => "outbox invalid fan-out snapshot"
  | .errJobIDUuidZero => "JobID uuid is zero"
  | .errLeaseTokenUUIDZero => "LeaseToken uuid is zero"
  | .errMessageIDUuidZero => "MessageID uuid is zero"
  | .contextCanceled => "context canceled"
  | .contextDeadlineExceeded => "context deadline exceeded"
  | .handlerPanicError jobName value =>
    "panic in batch job \"" ++ printed jobName ++ "\": " ++ value
  | .replay error => error.message
  | .external message => message

/-- The typed wrappers `Permanent`, `RetryAt` and `DeferAt`. -/
inductive Disposition where
  | permanent
  | retryAt (time : Int)
  | deferAt (time : Int)
  deriving DecidableEq, Repr

abbrev OutboxError := GoError ErrorLeaf Disposition

/-- `%w` as the first verb of a format: the leaf, then the rest of the text. -/
def leafError (value : ErrorLeaf) (after : String) : OutboxError :=
  .wrap "" (.leaf value) after

/-- `fmt.Errorf("context: %w", err)`. -/
def errorContext (context : String) (inner : OutboxError) : OutboxError :=
  .wrap (context ++ ": ") inner ""

def JobID.validate (id : JobID) : Except OutboxError Unit :=
  if id.isZero then .error (.wrap "validate: " (.leaf .errJobIDUuidZero) "") else .ok ()

def LeaseToken.validate (token : LeaseToken) : Except OutboxError Unit :=
  if token.isZero then .error (.wrap "validate: " (.leaf .errLeaseTokenUUIDZero) "") else .ok ()

def MessageID.validate (id : MessageID) : Except OutboxError Unit :=
  if id.isZero then .error (.wrap "validate: " (.leaf .errMessageIDUuidZero) "") else .ok ()

/-! ## Capabilities and rows -/

def defaultSchemaVersion : Int := 1

def maxReservationBatchSize : Nat := 1000

/-- A handler name with the payload schema it understands. -/
structure JobCapability where
  name : Bytes
  schemaVersion : Int
  deriving DecidableEq, Repr

def JobCapability.validate (capability : JobCapability) : Except OutboxError Unit :=
  if capability.schemaVersion ≤ 0 then
    .error (leafError .errInvalidSchemaVersion (": " ++ toString capability.schemaVersion))
  else .ok ()

def normalizeSchemaVersion (version : Int) : Int :=
  if version ≤ 0 then defaultSchemaVersion else version

/-- A row of `jobs`, and the value a claim returns for it. -/
structure Job where
  id : JobID
  queue : Bytes
  name : Bytes
  schemaVersion : Int
  payload : Bytes
  attempts : Int
  reservedAt : Option Int
  leaseToken : LeaseToken
  deduplicationKey : Option Bytes
  availableAt : Int
  createdAt : Int
  deriving DecidableEq, Repr

/-- A row of `jobs_failed`. -/
structure JobFailed where
  id : JobID
  jobID : JobID
  connection : Bytes
  queue : Bytes
  name : Bytes
  schemaVersion : Int
  payload : Bytes
  reason : String
  exception : Bytes
  failedAt : Int
  createdAt : Int
  deriving DecidableEq, Repr

/-- The `jobs` table, keyed by `id`. -/
abbrev JobsTable := Table Job.id

/-- The `jobs_failed` table; `job_id` carries a unique constraint. -/
abbrev JobsFailedTable := Table JobFailed.jobID

theorem JobID.validate_eq_ok_iff {id : JobID} : id.validate = .ok () ↔ id ≠ .nil := by
  unfold JobID.validate JobID.isZero
  split <;> simp_all

theorem LeaseToken.validate_eq_ok_iff {token : LeaseToken} :
    token.validate = .ok () ↔ token ≠ .nil := by
  unfold LeaseToken.validate LeaseToken.isZero
  split <;> simp_all

theorem JobCapability.validate_eq_ok_iff {capability : JobCapability} :
    capability.validate = .ok () ↔ 0 < capability.schemaVersion := by
  unfold JobCapability.validate
  split <;> simp_all

/-! ## Instants at a coarser resolution -/

/-- The instant a `UnixMilli` column stores for a Go time. -/
def milliTime (time : Int) : Int := ofUnixMilli (unixMilli time)

theorem milliTime_le (time : Int) : milliTime time ≤ time := by
  unfold milliTime ofUnixMilli unixMilli millisecond unixEpoch second
  omega

theorem milliTime_eq_truncate (time : Int) : milliTime time = truncate time millisecond := by
  unfold milliTime ofUnixMilli unixMilli truncate millisecond unixEpoch second
  omega

theorem truncate_le {step : Int} (positive : 0 < step) (time : Int) :
    truncate time step ≤ time :=
  Int.ediv_mul_le time (Int.ne_of_gt positive)

/-! ## Canonical text -/

theorem hexDigit_injOn : ∀ first < 16, ∀ second < 16,
    hexDigit first = hexDigit second → first = second := by
  decide

/-- Nibbles below a bound determine a number below it. -/
theorem eq_of_nibbles {count : Nat} : ∀ {first second : Nat}, first < 16 ^ count →
    second < 16 ^ count →
    (∀ index < count, first / 16 ^ index % 16 = second / 16 ^ index % 16) → first = second := by
  induction count with
  | zero =>
    intro first second hfirst hsecond _
    omega
  | succ count ih =>
    intro first second hfirst hsecond same
    have low := same 0 (Nat.succ_pos count)
    have high : first / 16 = second / 16 := by
      refine ih (by rw [Nat.pow_succ] at hfirst; omega) (by rw [Nat.pow_succ] at hsecond; omega) ?_
      intro index bound
      rw [Nat.div_div_eq_div_mul, Nat.div_div_eq_div_mul, ← Nat.pow_succ']
      exact same (index + 1) (Nat.succ_lt_succ bound)
    rw [Nat.pow_zero, Nat.div_one, Nat.div_one] at low
    omega

theorem uuidNibbles_injective {first second : UUID}
    (same : uuidNibbles first = uuidNibbles second) : first = second := by
  refine BitVec.eq_of_toNat_eq (@eq_of_nibbles 32 _ _ first.isLt second.isLt ?_)
  intro index bound
  have entry := List.map_inj_left.mp same (31 - index) (List.mem_range.mpr (by omega))
  have position : 31 - (31 - index) = index := by omega
  rwa [position] at entry

theorem filter_uuidString (uuid : UUID) :
    (uuidString uuid).filter (fun byte => byte != 45) = (uuidNibbles uuid).map hexDigit := by
  have plain : ∀ digits : List UInt8, digits.Sublist ((uuidNibbles uuid).map hexDigit) →
      digits.filter (fun byte => byte != 45) = digits := by
    intro digits part
    refine List.filter_eq_self.mpr fun byte member => ?_
    obtain ⟨nibble, hnibble, rfl⟩ := List.mem_map.mp (part.subset member)
    obtain ⟨index, _, rfl⟩ := List.mem_map.mp hnibble
    have every : ∀ nibble < 16, (hexDigit nibble != 45) = true := by decide
    exact every _ (Nat.mod_lt _ (by decide))
  have dash : (bytes "-").filter (fun byte => byte != 45) = [] := by decide
  simp only [uuidString, List.filter_append, dash, List.append_nil]
  generalize (uuidNibbles uuid).map hexDigit = digits at plain ⊢
  have tail := fun count => List.drop_sublist count digits
  rw [plain _ (List.take_sublist 8 digits), plain _ ((List.take_sublist 4 _).trans (tail 8)),
    plain _ ((List.take_sublist 4 _).trans (tail 12)),
    plain _ ((List.take_sublist 4 _).trans (tail 16)), plain _ (tail 20)]
  have step : ∀ count more, digits.take count ++ (digits.drop count).take more =
      digits.take (count + more) := fun count more => List.take_add.symm
  rw [step, step, step, List.take_append_drop]

theorem uuidString_injective {first second : UUID}
    (same : uuidString first = uuidString second) : first = second := by
  have digits : (uuidNibbles first).map hexDigit = (uuidNibbles second).map hexDigit := by
    rw [← filter_uuidString, ← filter_uuidString, same]
  refine uuidNibbles_injective ?_
  refine List.map_inj_left.mpr fun index member => ?_
  rw [uuidNibbles, uuidNibbles, List.map_map, List.map_map] at digits
  exact hexDigit_injOn _ (Nat.mod_lt _ (by decide)) _ (Nat.mod_lt _ (by decide))
    (List.map_inj_left.mp digits index member)

end OutboxFormal
