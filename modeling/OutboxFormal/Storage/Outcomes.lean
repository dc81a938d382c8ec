import OutboxFormal.Storage.Transaction

/-!
# Batch outcomes and request validation

The repository-facing outcome of one batch item, the checks every backend runs
on a list of outcomes before its first statement, and the checks of claim and
lease requests. PostgreSQL prefixes its texts with the operation name and
checks the token before the list; the other two backends check the list first.
-/

namespace OutboxFormal.Storage

open Library

variable {context : String} {token : LeaseToken}

/-! ## Outcomes -/

/-- `BatchJobOutcomeKind`; any other `uint8` is an unknown kind. -/
inductive BatchJobOutcomeKind where
  | success
  | retry
  | defer
  | dlq
  | unknown (value : Nat)
  deriving DecidableEq, Repr

/-- Success and DLQ outcomes remove the active row. -/
def BatchJobOutcomeKind.terminal : BatchJobOutcomeKind → Bool
  | .success | .dlq => true
  | _ => false

/-- Retry and defer outcomes make the row available again. -/
def BatchJobOutcomeKind.requeues : BatchJobOutcomeKind → Bool
  | .retry | .defer => true
  | _ => false

structure BatchJobOutcome where
  jobID : JobID
  kind : BatchJobOutcomeKind
  availableAt : Int := 0
  reason : String := ""
  deriving DecidableEq, Repr

/-- The column assignments of a requeued outcome: `CASE WHEN kind = defer THEN
attempts - 1 ELSE attempts END`, the next availability, and no lease. -/
def requeueRow (kind : BatchJobOutcomeKind) (availableAt : Int) (job : Job) : Job :=
  { job with
    attempts := if kind = .defer then job.attempts - 1 else job.attempts
    availableAt := availableAt
    reservedAt := none
    leaseToken := .nil }

@[simp] theorem requeueRow_id (kind : BatchJobOutcomeKind) (availableAt : Int) (job : Job) :
    (requeueRow kind availableAt job).id = job.id := rfl

theorem requeueRow_retry (availableAt : Int) (job : Job) :
    requeueRow .retry availableAt job = rescheduleRow availableAt job := rfl

theorem requeueRow_defer (availableAt : Int) (job : Job) :
    requeueRow .defer availableAt job = deferRow availableAt job := rfl

/-- The checks of one outcome after its identifier was accepted. -/
def validateOutcomeKind (context : String) (index : Nat) (outcome : BatchJobOutcome) :
    Except OutboxError Unit :=
  match outcome.kind with
  | .success => .ok ()
  | .retry | .defer =>
    if outcome.availableAt = 0 then
      .error (.text (context ++ s!"outcome {index} has an empty availability time"))
    else .ok ()
  | .dlq =>
    if outcome.reason = "" then
      .error (.text (context ++ s!"outcome {index} has an invalid DLQ record"))
    else .ok ()
  | .unknown value =>
    .error (.text (context ++ s!"outcome {index} has unknown kind {value}"))

/-- The loop over the outcomes: `seen` are the identifiers already accepted. -/
def validateOutcomesFrom (context duplicateText : String) :
    Nat → List JobID → List BatchJobOutcome → Except OutboxError Unit
  | _, _, [] => .ok ()
  | index, seen, outcome :: rest =>
    match outcome.jobID.validate with
    | .error error => .error (errorContext (context ++ s!"outcome {index}") error)
    | .ok () =>
      if outcome.jobID ∈ seen then
        .error (.text (context ++ duplicateText ++ printed outcome.jobID.string))
      else
        match validateOutcomeKind context index outcome with
        | .error error => .error error
        | .ok () =>
          validateOutcomesFrom context duplicateText (index + 1)
            (outcome.jobID :: seen) rest

/-- Token, count and per-item checks of `ApplyBatchJobOutcomes`. -/
def validateOutcomes (context duplicateText : String) (token : LeaseToken)
    (outcomes : List BatchJobOutcome) : Except OutboxError Unit :=
  match token.validate with
  | .error error => .error (errorContext (context ++ "invalid lease token") error)
  | .ok () =>
    if outcomes.length < 1 ∨ maxReservationBatchSize < outcomes.length then
      .error (.text (context ++
        s!"outcome count must be between 1 and {maxReservationBatchSize}"))
    else validateOutcomesFrom context duplicateText 0 [] outcomes

structure AcceptedOutcomes (token : LeaseToken) (outcomes : List BatchJobOutcome) : Prop where
  token_ne : token ≠ .nil
  nonempty : 1 ≤ outcomes.length
  bounded : outcomes.length ≤ maxReservationBatchSize
  ids_ne : ∀ outcome ∈ outcomes, outcome.jobID ≠ .nil
  distinct : (outcomes.map BatchJobOutcome.jobID).Nodup
  known : ∀ outcome ∈ outcomes, outcome.kind.terminal = true ∨ outcome.kind.requeues = true
  scheduled : ∀ outcome ∈ outcomes, outcome.kind.requeues = true → outcome.availableAt ≠ 0
  explained : ∀ outcome ∈ outcomes, outcome.kind = .dlq → outcome.reason ≠ ""

theorem validateOutcomeKind_eq_ok_iff {context : String} {index : Nat}
    {outcome : BatchJobOutcome} :
    validateOutcomeKind context index outcome = .ok () ↔
      (outcome.kind.terminal = true ∨ outcome.kind.requeues = true) ∧
      (outcome.kind.requeues = true → outcome.availableAt ≠ 0) ∧
      (outcome.kind = .dlq → outcome.reason ≠ "") := by
  unfold validateOutcomeKind
  cases hkind : outcome.kind <;>
    simp [BatchJobOutcomeKind.terminal, BatchJobOutcomeKind.requeues]

/-- The loop accepts exactly the lists whose items pass on their own and whose
identifiers are new and distinct. -/
theorem validateOutcomesFrom_eq_ok_iff {duplicateText : String} {index : Nat} {seen : List JobID}
    {outcomes : List BatchJobOutcome} :
    validateOutcomesFrom context duplicateText index seen outcomes = .ok () ↔
      (∀ outcome ∈ outcomes, outcome.jobID ≠ .nil ∧ outcome.jobID ∉ seen ∧
        (outcome.kind.terminal = true ∨ outcome.kind.requeues = true) ∧
        (outcome.kind.requeues = true → outcome.availableAt ≠ 0) ∧
        (outcome.kind = .dlq → outcome.reason ≠ "")) ∧
      (outcomes.map BatchJobOutcome.jobID).Nodup := by
  induction outcomes generalizing index seen with
  | nil => simp [validateOutcomesFrom]
  | cons outcome rest ih =>
    unfold validateOutcomesFrom
    cases hid : outcome.jobID.validate with
    | error error =>
      have zero : outcome.jobID = .nil := by
        by_contra hne
        rw [JobID.validate_eq_ok_iff.mpr hne] at hid
        cases hid
      simp [zero]
    | ok _ =>
      have nonzero := JobID.validate_eq_ok_iff.mp hid
      by_cases hseen : outcome.jobID ∈ seen
      · simp [hseen]
      · simp only [hseen, if_false]
        cases hkind : validateOutcomeKind context index outcome with
        | error error =>
          simp only [List.mem_cons, forall_eq_or_imp, reduceCtorEq, false_iff]
          rintro ⟨⟨⟨_, _, accepted⟩, _⟩, _⟩
          rw [(@validateOutcomeKind_eq_ok_iff context index outcome).mpr accepted] at hkind
          cases hkind
        | ok _ =>
          have accepted := validateOutcomeKind_eq_ok_iff.mp hkind
          simp only [ih, List.mem_cons, forall_eq_or_imp, List.map_cons,
            List.nodup_cons, List.mem_map, not_or, not_exists, not_and]
          constructor
          · rintro ⟨hrest, hnodup⟩
            refine ⟨⟨⟨nonzero, hseen, accepted⟩, ?_⟩, ?_, hnodup⟩
            · intro item hitem
              obtain ⟨hne, ⟨_, hfresh⟩, hitemKind⟩ := hrest item hitem
              exact ⟨hne, hfresh, hitemKind⟩
            · intro item hitem same
              exact (hrest item hitem).2.1.1 same
          · rintro ⟨⟨_, hrest⟩, hfresh, hnodup⟩
            refine ⟨?_, hnodup⟩
            intro item hitem
            obtain ⟨hne, hseenItem, hitemKind⟩ := hrest item hitem
            exact ⟨hne, ⟨hfresh item hitem, hseenItem⟩, hitemKind⟩

theorem validateOutcomes_eq_ok_iff {duplicateText : String} {outcomes : List BatchJobOutcome} :
    validateOutcomes context duplicateText token outcomes = .ok () ↔
      AcceptedOutcomes token outcomes := by
  unfold validateOutcomes
  cases htoken : token.validate with
  | error error =>
    simp only [reduceCtorEq, false_iff]
    intro accepted
    rw [LeaseToken.validate_eq_ok_iff.mpr accepted.token_ne] at htoken
    cases htoken
  | ok _ =>
    have token_ne := LeaseToken.validate_eq_ok_iff.mp htoken
    dsimp only
    split
    · rename_i hcount
      simp only [reduceCtorEq, false_iff]
      intro accepted
      have := accepted.nonempty
      have := accepted.bounded
      omega
    · rename_i hcount
      rw [validateOutcomesFrom_eq_ok_iff]
      constructor
      · rintro ⟨hitems, hnodup⟩
        exact
          { token_ne := token_ne
            nonempty := by omega
            bounded := by omega
            ids_ne := fun outcome hmember => (hitems outcome hmember).1
            distinct := hnodup
            known := fun outcome hmember => (hitems outcome hmember).2.2.1
            scheduled := fun outcome hmember => (hitems outcome hmember).2.2.2.1
            explained := fun outcome hmember => (hitems outcome hmember).2.2.2.2 }
      · intro accepted
        refine ⟨fun outcome hmember => ⟨accepted.ids_ne outcome hmember, by simp,
          accepted.known outcome hmember, accepted.scheduled outcome hmember,
          accepted.explained outcome hmember⟩, accepted.distinct⟩

/-! ## Claim and lease requests -/

/-- The checks of a claim: a non-zero token and a limit between 1 and 1000. -/
def validateClaim (limitText : String) (token : LeaseToken) (limit : Int) :
    Except OutboxError Unit :=
  match token.validate with
  | .error error => .error (errorContext "invalid lease token" error)
  | .ok () =>
    if limit < 1 ∨ (maxReservationBatchSize : Int) < limit then .error (.text limitText)
    else .ok ()

/-- The checks of an operation on one leased row. -/
def validateSingle (context : String) (id : JobID) (token : LeaseToken) :
    Except OutboxError Unit :=
  if id.isZero then .error (.text context)
  else
    match token.validate with
    | .error error => .error (errorContext "invalid lease token" error)
    | .ok () => .ok ()

def leaseCountAccepted (ids : List JobID) : Bool :=
  decide (1 ≤ ids.length) && decide (ids.length ≤ maxReservationBatchSize)

theorem validateClaim_token {limitText : String} {limit : Int}
    (accepted : validateClaim limitText token limit = .ok ()) : token ≠ .nil := by
  unfold validateClaim at accepted
  cases htoken : token.validate with
  | error error =>
    rw [htoken] at accepted
    cases accepted
  | ok _ => exact LeaseToken.validate_eq_ok_iff.mp htoken

theorem validateSingle_eq_ok_iff {id : JobID} :
    validateSingle context id token = .ok () ↔ id ≠ .nil ∧ token ≠ .nil := by
  unfold validateSingle
  by_cases hid : id = .nil
  · simp [hid, JobID.isZero]
  · cases htoken : token.validate with
    | error error =>
      have zero : token = .nil := by
        by_contra hne
        rw [LeaseToken.validate_eq_ok_iff.mpr hne] at htoken
        cases htoken
      simp [hid, JobID.isZero, zero]
    | ok _ =>
      simp [hid, JobID.isZero, LeaseToken.validate_eq_ok_iff.mp htoken]

end OutboxFormal.Storage
