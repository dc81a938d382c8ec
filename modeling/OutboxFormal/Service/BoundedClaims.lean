import OutboxFormal.Library.Prefix
import OutboxFormal.Service.Claim
import OutboxFormal.Storage.Mysql
import OutboxFormal.Storage.Pgsql
import OutboxFormal.Storage.Sqlite

/-!
# The selectors of bounded claims

The loops of the MySQL and SQLite repositories, the window query of PostgreSQL
and the splitter of the service each cut an ordered list of candidates at a
payload budget. All of them are the longest admissible prefix, and the checks of
the service accept what the repositories select.
-/

namespace OutboxFormal

open Library Storage

/-- `len(job.Payload)`. -/
abbrev payloadSize (job : Job) : Nat := job.payload.length

/-! ## The loops of MySQL and SQLite -/

namespace Storage.DatabaseSql

/-- Once the limit is reached the loop only drains its rows. -/
theorem boundedCandidateIDs_reached (maxBytes : Int) (jobIDs : List JobID) (usedBytes : Int)
    (rows : List Job) : boundedCandidateIDs maxBytes jobIDs usedBytes true rows = jobIDs := by
  induction rows with
  | nil => rfl
  | cons job rest ih => simpa [boundedCandidateIDs] using ih

/-- After the first row the loop takes the longest prefix of what is left. -/
theorem boundedCandidateIDs_started (maxBytes : Int) {jobIDs : List JobID} (usedBytes : Int)
    (rows : List Job) (started : jobIDs ≠ []) :
    boundedCandidateIDs maxBytes jobIDs usedBytes false rows =
      jobIDs ++ (longestPrefix payloadSize maxBytes usedBytes rows).map Job.id := by
  induction rows generalizing jobIDs usedBytes with
  | nil => simp [boundedCandidateIDs, longestPrefix]
  | cons job rest ih =>
    have nonempty : jobIDs.isEmpty = false := by simpa using started
    simp only [boundedCandidateIDs, longestPrefix, nonempty]
    by_cases fits : usedBytes + payloadSize job ≤ maxBytes
    · have unreached : decide (maxBytes < usedBytes + (payloadSize job : Int)) = false := by
        simpa using fits
      simp only [fits, unreached, or_true, if_true, if_false, Bool.false_eq_true]
      rw [ih _ (by simp)]
      simp
    · simp [fits, boundedCandidateIDs_reached]

theorem boundedCandidateIDs_eq (maxBytes : Int) (rows : List Job) :
    boundedCandidateIDs maxBytes [] 0 false rows =
      (firstOrPrefix payloadSize maxBytes rows).map Job.id := by
  cases rows with
  | nil => rfl
  | cons first rest =>
    simp only [boundedCandidateIDs, List.isEmpty_nil, true_or, if_true, if_false,
      Bool.false_eq_true, List.nil_append, zero_add]
    by_cases fits : (payloadSize first : Int) ≤ maxBytes
    · have unreached : decide (maxBytes < (payloadSize first : Int)) = false := by
        simpa using fits
      rw [unreached, firstOrPrefix, if_pos fits,
        boundedCandidateIDs_started _ _ _ (List.cons_ne_nil _ _)]
      rfl
    · have reached : decide (maxBytes < (payloadSize first : Int)) = true := by
        simpa using fits
      rw [reached, firstOrPrefix, if_neg fits, boundedCandidateIDs_reached]
      rfl

end Storage.DatabaseSql

/-! ## The window query of PostgreSQL -/

namespace Storage.Pgsql

/-- The window rows that `selected` keeps. -/
def keptRows (maxBytes : Int) (entries : List (Nat × Nat × Job)) : List Job :=
  (entries.filter fun entry =>
    decide (entry.1 = 1) || decide ((entry.2.1 : Int) ≤ maxBytes)).map fun entry => entry.2.2

theorem keptRows_cons (maxBytes : Int) (entry : Nat × Nat × Job)
    (entries : List (Nat × Nat × Job)) :
    keptRows maxBytes (entry :: entries) =
      if entry.1 = 1 ∨ (entry.2.1 : Int) ≤ maxBytes then entry.2.2 :: keptRows maxBytes entries
      else keptRows maxBytes entries := by
  by_cases kept : entry.1 = 1 ∨ (entry.2.1 : Int) ≤ maxBytes
  · rw [if_pos kept, keptRows, List.filter_cons_of_pos (by simpa using kept)]
    rfl
  · rw [if_neg kept, keptRows, List.filter_cons_of_neg (by simpa using kept)]
    rfl

/-- Past the budget the running sum excludes every later row. -/
theorem keptRows_exceeded {maxBytes : Int} (ordinal bytesBefore : Nat) (rows : List Job)
    (exceeded : maxBytes < bytesBefore) :
    keptRows maxBytes (ranked (ordinal + 1) bytesBefore rows) = [] := by
  induction rows generalizing ordinal bytesBefore with
  | nil => rfl
  | cons job rest ih =>
    have later : maxBytes < (bytesBefore + job.payload.length : Nat) := by
      push_cast
      omega
    rw [ranked, keptRows_cons, if_neg (by simpa using later)]
    exact ih (ordinal + 1) _ later

/-- From the second row on the window is the longest prefix. -/
theorem keptRows_ranked {maxBytes : Int} (ordinal bytesBefore : Nat) (rows : List Job) :
    keptRows maxBytes (ranked (ordinal + 1) bytesBefore rows) =
      longestPrefix payloadSize maxBytes bytesBefore rows := by
  induction rows generalizing ordinal bytesBefore with
  | nil => rfl
  | cons job rest ih =>
    rw [longestPrefix, ranked, keptRows_cons]
    by_cases fits : (bytesBefore : Int) + payloadSize job ≤ maxBytes
    · rw [if_pos fits, if_pos (by simpa using fits), ih (ordinal + 1)]
      rfl
    · rw [if_neg fits, if_neg (by simpa using fits)]
      exact keptRows_exceeded (ordinal + 1) _ rest (by simpa using fits)

theorem boundedSelection_eq (maxBytes : Int) (rows : List Job) :
    boundedSelection maxBytes rows = firstOrPrefix payloadSize maxBytes rows := by
  cases rows with
  | nil => rfl
  | cons first rest =>
    have window : boundedSelection maxBytes (first :: rest) =
        first :: keptRows maxBytes (ranked 1 first.payload.length rest) := by
      simp [boundedSelection, keptRows, ranked]
    rw [window, firstOrPrefix]
    by_cases fits : (payloadSize first : Int) ≤ maxBytes
    · rw [if_pos fits, keptRows_ranked 0]
    · rw [if_neg fits, keptRows_exceeded 0 _ rest (Int.not_le.mp fits)]

end Storage.Pgsql

/-! ## The splitter and the checks of the service -/

theorem selectBatchPayloadLimitWithUsed_eq (maxBytes used : Int) (jobs : List Job) :
    (selectBatchPayloadLimitWithUsed maxBytes used jobs).1 =
      longestPrefix payloadSize maxBytes used jobs := by
  induction jobs generalizing used with
  | nil => rfl
  | cons job rest ih =>
    simp only [selectBatchPayloadLimitWithUsed, longestPrefix, payloadSize]
    by_cases fits : used + job.payload.length ≤ maxBytes
    · rw [if_neg (Int.not_lt.mpr fits), if_pos fits, ih]
    · rw [if_pos (Int.not_le.mp fits), if_neg fits]

/-- Past the first row the payload check accepts what fits the budget. -/
theorem validateBoundedPayloadFrom_accepts {total : Nat} {maxBytes usedBytes : Int} (index : Nat)
    (jobs : List Job) (within : usedBytes + totalSize payloadSize jobs ≤ maxBytes) :
    validateBoundedPayloadFrom total maxBytes (index + 1) usedBytes jobs = none := by
  induction jobs generalizing index usedBytes with
  | nil => rfl
  | cons job rest ih =>
    have rest_nonneg := totalSize_nonneg payloadSize rest
    rw [totalSize_cons] at within
    have fits : ¬ maxBytes - usedBytes < (job.payload.length : Int) := by
      simp only [payloadSize] at within
      omega
    simp only [validateBoundedPayloadFrom, Nat.add_eq_zero_iff, one_ne_zero, and_false, false_and,
      if_false, fits]
    apply ih
    simp only [payloadSize] at within
    omega

/-- A single job is accepted whatever its size, and more jobs if they fit. -/
theorem validateBoundedExecutionBatchPayload_accepts {maxBytes : Int} {jobs : List Job}
    (admissible : totalSize payloadSize jobs ≤ maxBytes ∨ jobs.length ≤ 1) :
    validateBoundedExecutionBatchPayload jobs maxBytes = none := by
  cases jobs with
  | nil => rfl
  | cons first rest =>
    have rest_nonneg := totalSize_nonneg payloadSize rest
    simp only [validateBoundedExecutionBatchPayload, validateBoundedPayloadFrom, true_and,
      List.length_cons]
    by_cases exceeds : maxBytes < (first.payload.length : Int)
    · have alone : rest.length + 1 = 1 := by
        rcases admissible with within | short
        · rw [totalSize_cons] at within
          simp only [payloadSize] at within
          omega
        · simpa using short
      rw [if_pos exceeds, if_pos alone]
    · rw [if_neg exceeds, if_neg (by omega)]
      apply validateBoundedPayloadFrom_accepts
      rcases admissible with within | short
      · simpa [payloadSize] using within
      · have empty : rest = [] := by simpa using short
        subst empty
        simpa using exceeds

/-- The number of rows is within the limit: what is left are the row checks. -/
theorem validateClaimedExecutionBatch_counted {jobs : List Job} {limit : Int}
    (capability : JobCapability) (leaseToken : LeaseToken) (nonempty : jobs ≠ [])
    (within : (jobs.length : Int) ≤ limit) :
    validateClaimedExecutionBatch jobs capability leaseToken limit =
      validateClaimedRows capability leaseToken [] jobs := by
  rw [validateClaimedExecutionBatch, if_neg (by simpa using nonempty),
    if_neg (Int.not_lt.mpr within)]

/-! ## Agreement -/

/-- The three repositories select the longest admissible prefix of the first
`maxMessages` candidates, the checks of the service accept it, and the splitter
of the service selects the same rows when the first one fits. -/
theorem bounded_selectors_agree (candidates : List Job) (maxMessages maxBytes : Int)
    (positiveMessages : 1 ≤ maxMessages) (_positiveBytes : 1 ≤ maxBytes) :
    ∃ selected : List Job,
      LongestAdmissible payloadSize maxBytes (candidates.take maxMessages.toNat) selected ∧
      DatabaseSql.boundedCandidateIDs maxBytes [] 0 false (candidates.take maxMessages.toNat) =
        selected.map Job.id ∧
      (∀ table now capability,
        Mysql.capabilityCandidates now maxMessages.toNat table capability =
          candidates.take maxMessages.toNat →
        Mysql.findBoundedBatchCandidateIDs now capability maxMessages.toNat maxBytes table =
          selected.map Job.id) ∧
      Pgsql.boundedSelection maxBytes (candidates.take maxMessages.toNat) = selected ∧
      (∀ capability leaseToken, selected ≠ [] →
        validateClaimedExecutionBatch selected capability leaseToken maxMessages =
          validateClaimedRows capability leaseToken [] selected) ∧
      validateBoundedExecutionBatchPayload selected maxBytes = none ∧
      ∀ first rest, candidates.take maxMessages.toNat = first :: rest →
        (first.payload.length : Int) ≤ maxBytes →
        (selectBatchPayloadLimitWithUsed maxBytes 0 (candidates.take maxMessages.toNat)).1 =
          selected := by
  have admissible : LongestAdmissible payloadSize maxBytes (candidates.take maxMessages.toNat)
      (firstOrPrefix payloadSize maxBytes (candidates.take maxMessages.toNat)) :=
    firstOrPrefix_longestAdmissible _
  refine ⟨_, admissible, DatabaseSql.boundedCandidateIDs_eq _ _, ?_,
    Pgsql.boundedSelection_eq _ _, ?_, ?_, ?_⟩
  · intro table now capability same
    rw [Mysql.findBoundedBatchCandidateIDs, same]
    exact DatabaseSql.boundedCandidateIDs_eq _ _
  · intro capability leaseToken nonempty
    apply validateClaimedExecutionBatch_counted capability leaseToken nonempty
    have shorter := admissible.isPrefix.length_le
    rw [List.length_take] at shorter
    omega
  · apply validateBoundedExecutionBatchPayload_accepts
    cases limited : candidates.take maxMessages.toNat with
    | nil => exact Or.inr (by simp [firstOrPrefix])
    | cons first rest =>
      rw [limited] at admissible
      by_cases fits : (payloadSize first : Int) ≤ maxBytes
      · exact Or.inl (admissible.fits first rest rfl fits)
      · rw [admissible.oversized first rest rfl (Int.not_le.mp fits)]
        exact Or.inr le_rfl
  · intro first rest limited fits
    rw [limited, selectBatchPayloadLimitWithUsed_eq, firstOrPrefix_of_fits]
    exact fits

/-- Two payloads that reach a limit of three bytes exactly, an empty one and one
that is too much. -/
def Sample.candidates : List Job :=
  [(1, [1]), (2, [2, 3]), (3, []), (4, [4])].map fun row => newJob ⟨row.1⟩ none [] 1 row.2 0 0

theorem bounded_selectors_agree_at_limit :
    (1 : Int) ≤ 10 ∧ (1 : Int) ≤ 3 ∧ ∃ selected : List Job,
      LongestAdmissible payloadSize 3 (Sample.candidates.take 10) selected ∧
      DatabaseSql.boundedCandidateIDs 3 [] 0 false (Sample.candidates.take 10) =
        selected.map Job.id ∧
      Pgsql.boundedSelection 3 (Sample.candidates.take 10) = selected ∧
      selected.length = 3 := by
  obtain ⟨selected, longest, loop, -, window, -⟩ :=
    bounded_selectors_agree Sample.candidates 10 3 (by decide) (by decide)
  refine ⟨by decide, by decide, selected, longest, loop, window, ?_⟩
  rw [← window]
  decide

end OutboxFormal
