import OutboxFormal.Library.Guarded
import OutboxFormal.Service.Footprints
import OutboxFormal.Service.LedgerBound

/-!
# The critical sections of a lease manager

The ledger is a value behind the manager's mutex whose invariant is the cached
bound. One specification says what a renewal does to the deadlines, which
extensions it asks for, and what it leaves behind when it fails. Storage calls
of a finalization need leases that outlive the deadline of their context.
-/

namespace OutboxFormal

open Library GoError
open Library.Monitor (wp_imp wp_seq wp_step)

variable {after : Ledger}

/-! ## The ledger behind its mutex -/

/-- How effects use the ledger of a manager. A clock reading is later than the
zero time. -/
def BatchLeaseManager.guard (m : BatchLeaseManager) : Guard Answer Ledger where
  step
    | .lock group, ledger => if group = m.group then .acquire ledger else .elsewhere
    | .lockContext group _, .ok ledger => if group = m.group then .acquire ledger else .elsewhere
    | .store group ledger, _ => if group = m.group then .write ledger else .elsewhere
    | .unlock group, _ => if group = m.group then .release else .elsewhere
    | _, _ => .elsewhere
  possible
    | .now, time => 0 < time
    | _, _ => True

/-- The context of a storage call that finalizes rows. -/
def Effect.storageCtx : Effect → Option Ctx
  | .leased ctx _ _ _ _ | .runInTx ctx _ => some ctx
  | _ => none

/-- Every outstanding deadline is at least the given one. -/
def Ledger.LeasedUntil (ledger : Ledger) (until_ : Int) : Prop :=
  ∀ entry ∈ ledger.outstanding.rows, until_ ≤ entry.2

/-- What a finalization has to observe when it calls the storage. Leases that
outlive the deadline of the context always suffice. -/
structure Duties where
  permits : Option Ledger → Effect → Prop
  lenient : ∀ held effect, effect.storageCtx = none → permits held effect
  sufficient : ∀ ledger effect parent deadline,
    effect.storageCtx = some (.withDeadline parent deadline) →
    ledger.LeasedUntil (deadline + batchFinalizationMargin) → permits (some ledger) effect

namespace Duties

def free : Duties := ⟨fun _ _ => True, fun _ _ _ => trivial, fun _ _ _ _ _ _ => trivial⟩

/-- Every outstanding lease extends past the deadline of the context. -/
def Covered (held : Option Ledger) (ctx : Ctx) : Prop :=
  ∃ ledger parent deadline, held = some ledger ∧ ctx = .withDeadline parent deadline ∧
    ledger.LeasedUntil (deadline + batchFinalizationMargin)

/-- Storage calls need leases that outlive their context. -/
def covered : Duties where
  permits held effect := ∀ ctx, effect.storageCtx = some ctx → Covered held ctx
  lenient held effect none ctx some := by
    rw [none] at some
    cases some
  sufficient ledger effect parent deadline some leased ctx same := by
    rw [some] at same
    cases same
    exact ⟨ledger, parent, deadline, rfl, rfl, leased⟩

/-- Leases until the given time permit storage calls under the context. -/
def Met (duties : Duties) (ctx : Ctx) (leaseUntil : Int) : Prop :=
  ∀ ledger effect, effect.storageCtx = some ctx → ledger.LeasedUntil leaseUntil →
    duties.permits (some ledger) effect

theorem met_free (ctx : Ctx) (leaseUntil : Int) : free.Met ctx leaseUntil :=
  fun _ _ _ _ => trivial

theorem met_withDeadline (duties : Duties) (parent : Ctx) (deadline : Int) :
    duties.Met (.withDeadline parent deadline) (deadline + batchFinalizationMargin) :=
  fun ledger effect stores leased => duties.sufficient ledger effect parent deadline stores leased

end Duties

/-- A request to extend leases, with its answer. -/
structure ExtensionRequest where
  jobIDs : List JobID
  until_ : Int
  affected : Int
  err : Option OutboxError
  deriving DecidableEq

/-- What a renewal read, asked for and reported. -/
structure Renewal where
  reading : Int
  asked : List ExtensionRequest
  retained : Option OutboxError
  cancelled : Option OutboxError
  deriving DecidableEq

namespace Renewal

def start : Renewal := ⟨0, [], none, none⟩

def next (renewal : Renewal) : (effect : Effect) → Answer effect → Renewal
  | .now, time => { renewal with reading := time }
  | .extendJobLeases _ jobIDs _ _ until_, answer =>
    { renewal with asked := ⟨jobIDs, until_, answer.1, answer.2⟩ :: renewal.asked }
  | .setError _ error, _ => { renewal with retained := some error }
  | .cancelCause _ cause, _ => { renewal with cancelled := cause }
  | _, _ => renewal

def observer : Observer Answer (Option Ledger) Renewal where
  start := start
  next _ := next
  allowed _ _ _ := True

end Renewal

namespace BatchLeaseManager

abbrev client (m : BatchLeaseManager) (duties : Duties) : Monitor Answer (Option Ledger) :=
  m.guard.client Ledger.Bounded duties.permits

abbrev recorded (m : BatchLeaseManager) (duties : Duties) :
    Monitor Answer (Option Ledger × Renewal) :=
  (m.client duties).observed Renewal.observer

end BatchLeaseManager

/-- Effects that neither use the ledger nor finalize rows. -/
def Effect.aside : Effect → Bool
  | .lock _ | .lockContext _ _ | .store _ _ | .unlock _ | .leased .. | .runInTx _ _ => false
  | _ => true

section Sections

variable {m : BatchLeaseManager} {duties : Duties} {ledger : Ledger} {renewal : Renewal}
variable {held : Option Ledger}

theorem allowed_aside {effect : Effect} (aside : effect.aside = true) :
    (m.client duties).allowed held effect := by
  constructor
  · refine duties.lenient held effect ?_
    cases effect with
    | leased | runInTx => cases aside
    | _ => rfl
  · intro answer _
    cases effect with
    | lock | lockContext | store | unlock => cases aside
    | _ => trivial

theorem next_aside {effect : Effect} (aside : effect.aside = true) (answer : Answer effect) :
    (m.client duties).next held effect answer = held := by
  cases effect with
  | lock | lockContext | store | unlock => cases aside
  | _ => rfl

theorem allowed_store (bounded : after.Bounded) :
    (m.client duties).allowed (some ledger) (.store m.group after) := by
  refine ⟨duties.lenient _ _ rfl, fun answer _ => ?_⟩
  simp [BatchLeaseManager.guard, Guard.Disciplined, bounded]

theorem next_store :
    (m.client duties).next held (.store m.group after) () = some after := by
  simp [BatchLeaseManager.guard, Guard.client, Guard.next]

theorem next_lock : (m.client duties).next held (.lock m.group) ledger = some ledger := by
  simp [BatchLeaseManager.guard, Guard.client, Guard.next]

theorem next_lockContext {ctx : Ctx} :
    (m.client duties).next held (.lockContext m.group ctx) (.ok ledger) = some ledger := by
  simp [BatchLeaseManager.guard, Guard.client, Guard.next]

theorem next_unlock : (m.client duties).next held (.unlock m.group) () = none := by
  simp [BatchLeaseManager.guard, Guard.client, Guard.next]

/-! ## Renewals -/

section Renewals

variable {α : Type} {returns : α → Option Ledger × Renewal → Prop}
variable {unwinds : Option Ledger × Renewal → Prop}

theorem wp_aside {effect : Effect} {next : Answer effect → Go α} (aside : effect.aside = true)
    (meets : ∀ answer, m.guard.possible effect answer →
      (m.recorded duties).wp (next answer) returns unwinds (held, renewal.next effect answer)) :
    (m.recorded duties).wp (.perform effect >>= next) returns unwinds (held, renewal) := by
  refine wp_step ⟨allowed_aside aside, trivial⟩ fun answer expected => ?_
  have kept : (m.recorded duties).next (held, renewal) effect answer =
      (held, renewal.next effect answer) :=
    congrArg (·, renewal.next effect answer) (next_aside aside answer)
  rw [kept]
  exact meets answer expected.1

/-- Write back a ledger with the invariant, then the rest. -/
theorem wp_store {next : Unit → Go α} (bounded : after.Bounded)
    (meets : (m.recorded duties).wp (next ()) returns unwinds (some after, renewal)) :
    (m.recorded duties).wp (Go.store m.group after >>= next) returns unwinds
      (some ledger, renewal) := by
  refine wp_step ⟨allowed_store bounded, trivial⟩ fun _ _ => ?_
  have written : (m.recorded duties).next (some ledger, renewal) (.store m.group after) () =
      (some after, renewal) := congrArg (·, renewal) next_store
  rw [written]
  exact meets

theorem wp_failLeaseLocked (error : OutboxError) :
    (m.recorded duties).wp (m.failLeaseLocked error)
      (fun failure last => failure = some error ∧
        last = (held, { renewal with retained := some error, cancelled := some error }))
      unwinds (held, renewal) := by
  exact wp_aside rfl fun _ _ => wp_aside rfl fun _ _ => ⟨rfl, rfl⟩

inductive Checked (ledger : Ledger) (renewal : Renewal) (now : Int) :
    Option OutboxError × Ledger → Option Ledger × Renewal → Prop
  | passed {after : Ledger} (bounded : after.Bounded)
      (outstanding : after.outstanding = ledger.outstanding)
      (ordered : after.orderedIDs = ledger.orderedIDs)
      (live : ∀ entry ∈ ledger.outstanding.rows, now < entry.2) :
      Checked ledger renewal now (none, after) (some after, renewal)
  | expired {error : OutboxError} {entry : JobID × Int}
      (member : entry ∈ ledger.outstanding.rows) (elapsed : entry.2 ≤ now) :
      Checked ledger renewal now (some error, ledger)
        (some ledger, { renewal with retained := some error, cancelled := some error })

theorem wp_checkLeasesLocked (bounded : ledger.Bounded) (now : Int) :
    (m.recorded duties).wp (m.checkLeasesLocked ledger now) (Checked ledger renewal now)
      unwinds (some ledger, renewal) := by
  unfold BatchLeaseManager.checkLeasesLocked
  split
  · rename_i fast
    refine .passed bounded rfl rfl fun entry member => ?_
    exact lt_of_lt_of_le fast (bounded.bound entry member)
  · split
    · rename_i entry found
      refine wp_seq (wp_failLeaseLocked _) ?_
      rintro failure last ⟨rfl, rfl⟩
      exact .expired (List.mem_of_find?_eq_some found) (by simpa using List.find?_some found)
    · rename_i scanned
      have recomputed := bounded.recomputeEarliest
      refine wp_store recomputed (.passed recomputed rfl rfl fun entry member => ?_)
      simpa using List.find?_eq_none.mp scanned entry member

/-- What a renewal promises. -/
structure Ensured (ledger : Ledger) (requiredUntil targetUntil : Int)
    (result : Option OutboxError × Ledger) (renewal : Renewal) : Prop where
  bounded : result.2.Bounded
  ids : result.2.ids = ledger.ids
  ordered : result.2.orderedIDs = ledger.orderedIDs
  /-- No deadline decreases. -/
  grown : ∀ id before after, (id, before) ∈ ledger.outstanding.rows →
    (id, after) ∈ result.2.outstanding.rows → before ≤ after
  /-- Only rows that expire too early are extended, and past what was asked. -/
  asked : ∀ request ∈ renewal.asked, max requiredUntil targetUntil < request.until_ ∧
    ∀ id ∈ request.jobIDs, ∃ until_, (id, until_) ∈ ledger.outstanding.rows ∧
      until_ < requiredUntil
  succeeded : result.1 = none → ∀ entry ∈ result.2.outstanding.rows,
    requiredUntil ≤ entry.2 ∧ renewal.reading < entry.2
  /-- A failure is retained and cancels the batch; the deadlines are unchanged
  unless a lease was found expired after a confirmed extension. -/
  failed : ∀ error, result.1 = some error →
    renewal.retained = some error ∧ renewal.cancelled = some error ∧
      (result.2.outstanding = ledger.outstanding ∨
        ∃ request ∈ renewal.asked, request.affected = request.jobIDs.length ∧ request.err = none ∧
          result.2.outstanding =
            (ledger.extended request.jobIDs request.until_).outstanding ∧
          ∃ entry ∈ result.2.outstanding.rows, entry.2 ≤ renewal.reading)

/-- The requests are for rows that expire too early, and past what was asked. -/
abbrev Justified (ledger : Ledger) (requiredUntil targetUntil : Int)
    (requests : List ExtensionRequest) : Prop :=
  ∀ request ∈ requests, max requiredUntil targetUntil < request.until_ ∧
    ∀ id ∈ request.jobIDs, ∃ until_, (id, until_) ∈ ledger.outstanding.rows ∧
      until_ < requiredUntil

theorem max_lt_renewalDeadline (requiredUntil targetUntil : Int) :
    max requiredUntil targetUntil < renewalDeadline requiredUntil targetUntil := by
  unfold renewalDeadline truncate millisecond
  split <;> omega

theorem Ensured.of_failure {requiredUntil targetUntil : Int} {error : OutboxError}
    (bounded : after.Bounded) (outstanding : after.outstanding = ledger.outstanding)
    (ordered : after.orderedIDs = ledger.orderedIDs)
    (asked : Justified ledger requiredUntil targetUntil renewal.asked) :
    Ensured ledger requiredUntil targetUntil (some error, after)
      { renewal with retained := some error, cancelled := some error } where
  bounded := bounded
  ids := congrArg (fun deadlines : Deadlines => deadlines.rows.map Prod.fst) outstanding
  ordered := ordered
  grown id before later first second := by
    rw [show (some error, after).2.outstanding = ledger.outstanding from outstanding] at second
    cases ledger.outstanding.row_unique first second rfl
    exact le_rfl
  asked := asked
  succeeded := nofun
  failed failure same := by
    cases same
    exact ⟨rfl, rfl, Or.inl outstanding⟩

theorem Ensured.of_unchanged {requiredUntil targetUntil : Int} (bounded : after.Bounded)
    (outstanding : after.outstanding = ledger.outstanding)
    (ordered : after.orderedIDs = ledger.orderedIDs) (quiet : renewal.asked = [])
    (live : ∀ entry ∈ ledger.outstanding.rows, renewal.reading < entry.2)
    (enough : ∀ entry ∈ ledger.outstanding.rows, requiredUntil ≤ entry.2) :
    Ensured ledger requiredUntil targetUntil (none, after) renewal where
  bounded := bounded
  ids := congrArg (fun deadlines : Deadlines => deadlines.rows.map Prod.fst) outstanding
  ordered := ordered
  grown id before later first second := by
    rw [show (none, after).2.outstanding = ledger.outstanding from outstanding] at second
    cases ledger.outstanding.row_unique first second rfl
    exact le_rfl
  asked request member := by
    rw [quiet] at member
    cases member
  succeeded _ entry member := by
    rw [show (none, after).2.outstanding = ledger.outstanding from outstanding] at member
    exact ⟨enough entry member, live entry member⟩
  failed := nofun

section Extension

variable {requiredUntil targetUntil affected : Int} {jobIDs : List JobID}
variable {failure : Option OutboxError}

/-- The request for the rows that expire too early. -/
def requested (ledger : Ledger) (requiredUntil targetUntil affected : Int)
    (err : Option OutboxError) : ExtensionRequest :=
  ⟨ledger.expiringBefore requiredUntil, renewalDeadline requiredUntil targetUntil, affected, err⟩

theorem requested_expiring (err : Option OutboxError) :
    Justified ledger requiredUntil targetUntil
      [requested ledger requiredUntil targetUntil affected err] := by
  intro request member
  rw [List.mem_singleton.mp member]
  exact ⟨max_lt_renewalDeadline _ _, fun _ => Ledger.mem_expiringBefore⟩

/-- A confirmed extension of the rows that expire too early. -/
theorem Ledger.Bounded.renewed (bounded : ledger.Bounded)
    (some_ : ledger.expiringBefore requiredUntil ≠ []) :
    (ledger.extended (ledger.expiringBefore requiredUntil)
      (renewalDeadline requiredUntil targetUntil)).recomputeEarliest.Bounded := by
  obtain ⟨id, member⟩ := List.exists_mem_of_ne_nil _ some_
  obtain ⟨until_, row, early⟩ := Ledger.mem_expiringBefore member
  apply bounded.extended
  · intro other expiring
    obtain ⟨later, found, -⟩ := Ledger.mem_expiringBefore expiring
    exact Ledger.mem_ids.mpr ⟨later, found⟩
  · have := bounded.deadline_pos row
    have := lt_renewalDeadline requiredUntil targetUntil
    omega

theorem Ledger.Bounded.le_of_renewed (bounded : ledger.Bounded) {entry : JobID × Int}
    (member : entry ∈ (ledger.extended (ledger.expiringBefore requiredUntil)
      (renewalDeadline requiredUntil targetUntil)).outstanding.rows) :
    requiredUntil ≤ entry.2 := by
  rcases Ledger.mem_extended.mp member with ⟨-, same⟩ | ⟨row, unlisted⟩
  · rw [same]
    exact (lt_renewalDeadline requiredUntil targetUntil).le
  · by_contra early
    exact unlisted (bounded.mem_expiringBefore row (not_le.mp early))

theorem grown_of_renewed {id : JobID} {before after : Int}
    (first : (id, before) ∈ ledger.outstanding.rows)
    (second : (id, after) ∈ (ledger.extended (ledger.expiringBefore requiredUntil)
      (renewalDeadline requiredUntil targetUntil)).outstanding.rows) :
    before ≤ after := by
  rcases Ledger.mem_extended.mp second with ⟨listed, same⟩ | ⟨row, -⟩
  · obtain ⟨until_, row, early⟩ := Ledger.mem_expiringBefore listed
    cases ledger.outstanding.row_unique first row rfl
    have := lt_renewalDeadline requiredUntil targetUntil
    dsimp only at same
    omega
  · cases ledger.outstanding.row_unique first row rfl
    exact le_rfl

/-- Only the deadlines and the order of a ledger matter to a renewal. -/
theorem Ensured.of_same {origin : Ledger} {result : Option OutboxError × Ledger}
    (ensured : Ensured ledger requiredUntil targetUntil result renewal)
    (outstanding : ledger.outstanding = origin.outstanding)
    (ordered : ledger.orderedIDs = origin.orderedIDs) :
    Ensured origin requiredUntil targetUntil result renewal := by
  obtain ⟨order, deadlines, bound⟩ := ledger
  obtain ⟨order', deadlines', bound'⟩ := origin
  cases outstanding
  cases ordered
  exact { ensured with }

/-- How a renewal ends: the ledger it returns is the one behind the mutex. -/
def Renewed (ledger : Ledger) (requiredUntil targetUntil : Int)
    (result : Option OutboxError × Ledger) (last : Option Ledger × Renewal) : Prop :=
  last.1 = some result.2 ∧ Ensured ledger requiredUntil targetUntil result last.2

theorem wp_failed {error : OutboxError} (bounded : ledger.Bounded)
    (asked : Justified ledger requiredUntil targetUntil renewal.asked) :
    (m.recorded duties).wp (do return (← m.failLeaseLocked error, ledger))
      (Renewed ledger requiredUntil targetUntil) unwinds (some ledger, renewal) := by
  refine wp_seq (wp_failLeaseLocked error) ?_
  rintro _ _ ⟨rfl, rfl⟩
  exact ⟨rfl, .of_failure bounded rfl rfl asked⟩

theorem Ensured.of_extension {result : Option OutboxError × Ledger} (bounded : ledger.Bounded)
    (after : result.2.Bounded)
    (outstanding : result.2.outstanding = (ledger.extended (ledger.expiringBefore requiredUntil)
      (renewalDeadline requiredUntil targetUntil)).outstanding)
    (ordered : result.2.orderedIDs = ledger.orderedIDs)
    (asked : renewal.asked = [requested ledger requiredUntil targetUntil
      (ledger.expiringBefore requiredUntil).length none])
    (live : result.1 = none → ∀ entry ∈ result.2.outstanding.rows, renewal.reading < entry.2)
    (stopped : ∀ error, result.1 = some error →
      renewal.retained = some error ∧ renewal.cancelled = some error ∧
        ∃ entry ∈ result.2.outstanding.rows, entry.2 ≤ renewal.reading) :
    Ensured ledger requiredUntil targetUntil result renewal where
  bounded := after
  ids := by
    refine (congrArg (fun deadlines : Deadlines => deadlines.rows.map Prod.fst)
      outstanding).trans ?_
    refine Ledger.ids_extended fun id expiring => ?_
    obtain ⟨until_, row, -⟩ := Ledger.mem_expiringBefore expiring
    exact Ledger.mem_ids.mpr ⟨until_, row⟩
  ordered := ordered
  grown id before later first second := by
    rw [outstanding] at second
    exact grown_of_renewed first second
  asked := asked ▸ requested_expiring none
  succeeded passed entry member := by
    refine ⟨?_, live passed entry member⟩
    rw [outstanding] at member
    exact bounded.le_of_renewed member
  failed error failure := by
    obtain ⟨retained, cancelled, expired⟩ := stopped error failure
    refine ⟨retained, cancelled, Or.inr ⟨requested ledger requiredUntil targetUntil
      (ledger.expiringBefore requiredUntil).length none, ?_, rfl, rfl, outstanding, expired⟩⟩
    rw [asked]
    exact List.mem_singleton_self _

theorem wp_enterExtension (bounded : ledger.Bounded)
    (expires : ledger.expiringBefore requiredUntil ≠ []) {err : Option OutboxError}
    (asked : renewal.asked = [requested ledger requiredUntil targetUntil affected err])
    (confirmed : failure = none → err = none) :
    (m.recorded duties).wp (m.enterExtension ledger (ledger.expiringBefore requiredUntil)
        (renewalDeadline requiredUntil targetUntil) affected failure)
      (Renewed ledger requiredUntil targetUntil) unwinds (some ledger, renewal) := by
  have expiring := asked ▸ @requested_expiring ledger requiredUntil targetUntil affected err
  cases failure with
  | some error => exact wp_failed bounded expiring
  | none =>
    cases confirmed rfl
    dsimp only [BatchLeaseManager.enterExtension]
    split
    · exact wp_failed bounded expiring
    · rename_i complete
      cases not_not.mp complete
      have renewed := @Ledger.Bounded.renewed _ _ targetUntil bounded expires
      refine wp_store renewed (wp_aside rfl fun now _ => ?_)
      refine wp_imp (wp_checkLeasesLocked renewed now) ?_
      rintro _ _ (⟨checked, outstanding, ordered, live⟩ | ⟨member, elapsed⟩)
      · refine ⟨rfl, .of_extension bounded checked outstanding ordered asked ?_ nofun⟩
        intro _ entry member
        rw [outstanding] at member
        exact live entry member
      · refine ⟨rfl, .of_extension bounded renewed rfl rfl asked nofun ?_⟩
        intro error same
        cases same
        exact ⟨rfl, rfl, _, member, elapsed⟩

theorem wp_extendLocked {ctx : Ctx} {now : Int} (bounded : ledger.Bounded)
    (expires : ledger.expiringBefore requiredUntil ≠ []) (quiet : renewal.asked = []) :
    (m.recorded duties).wp (m.extendLocked ctx ledger now (ledger.expiringBefore requiredUntil)
        (renewalDeadline requiredUntil targetUntil))
      (Renewed ledger requiredUntil targetUntil) unwinds (some ledger, renewal) := by
  refine wp_aside rfl fun answer _ => ?_
  have asked : (renewal.next (.extendJobLeases (.withDeadline ctx ledger.earliestUntil)
      (ledger.expiringBefore requiredUntil) m.leaseToken now
      (renewalDeadline requiredUntil targetUntil)) answer).asked =
        [requested ledger requiredUntil targetUntil answer.1 answer.2] :=
    congrArg (requested ledger requiredUntil targetUntil answer.1 answer.2 :: ·) quiet
  cases failed : answer.2 with
  | some error =>
    change (m.recorded duties).wp (m.enterExtension ledger (ledger.expiringBefore requiredUntil)
      (renewalDeadline requiredUntil targetUntil) answer.1 (some error)) _ _ _
    exact wp_enterExtension bounded expires asked nofun
  | none =>
    refine wp_aside rfl fun cause _ => ?_
    exact wp_enterExtension bounded expires asked fun _ => failed

theorem wp_ensureLeasesLocked {ctx : Ctx} (bounded : ledger.Bounded) (quiet : renewal.asked = []) :
    (m.recorded duties).wp (m.ensureLeasesLocked ctx ledger requiredUntil targetUntil)
      (Renewed ledger requiredUntil targetUntil) unwinds (some ledger, renewal) := by
  refine wp_aside rfl fun now _ => ?_
  refine wp_seq (wp_checkLeasesLocked bounded now) ?_
  rintro _ _ (⟨checked, outstanding, ordered, live⟩ | ⟨member, elapsed⟩)
  · rename_i after
    dsimp only
    split
    · have scanned := checked.earliestInOrder
      refine wp_store scanned ?_
      split
      · rename_i sufficient
        refine ⟨rfl, .of_unchanged scanned outstanding ordered quiet live fun entry row => ?_⟩
        by_contra early
        have listed := checked.mem_expiringBefore (outstanding ▸ row) (not_le.mp early)
        rw [List.isEmpty_iff.mp sufficient] at listed
        cases listed
      · rename_i expires
        refine wp_imp (wp_extendLocked scanned ?_ quiet) ?_
        · exact fun none => expires (List.isEmpty_iff.mpr none)
        · rintro result last ⟨kept, ensured⟩
          exact ⟨kept, ensured.of_same outstanding ordered⟩
    · rename_i sufficient
      refine ⟨rfl, .of_unchanged checked outstanding ordered quiet live fun entry row => ?_⟩
      have := checked.bound entry (outstanding ▸ row)
      omega
  · refine ⟨rfl, .of_failure bounded rfl rfl fun request member => ?_⟩
    rw [show (renewal.next .now now).asked = [] from quiet] at member
    cases member

end Extension

end Renewals

end Sections

end OutboxFormal
