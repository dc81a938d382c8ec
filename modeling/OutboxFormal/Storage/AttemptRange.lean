import OutboxFormal.Storage.ClaimContract
import OutboxFormal.Storage.RowInvariant

/-!
# The range of the PostgreSQL attempt counter

`jobs.attempts` is a `smallint`, every claim of a row counts one attempt, and no
statement bounds the count. A claim whose ordered prefix holds a row with the
largest count fails as a whole. How often a row was claimed, less what releases
and defers gave back, decides between the two.
-/

namespace OutboxFormal.Storage

open Library

namespace Pgsql

/-! ## One statement -/

/-- A claim that selects stored rows succeeds exactly if it can count the attempt of
each of them. -/
theorem reserveReturning_succeeds_iff {op : String} {selected : List Job} {until_ : Int}
    {token : LeaseToken} {table : JobsTable} (found : selected ≠ [])
    (inside : ∀ job ∈ selected, job ∈ table.rows) :
    (∃ jobs, jobs ≠ [] ∧ (reserveReturning op selected until_ token table).1 = .ok jobs) ↔
      ∀ job ∈ selected, job.attempts + 1 ≤ smallintMax := by
  unfold reserveReturning
  dsimp only
  split
  · rename_i overflows
    obtain ⟨job, member, large⟩ := List.any_eq_true.mp overflows
    constructor
    · rintro ⟨jobs, _, failed⟩
      cases failed
    · intro counted
      exact absurd (counted job member) (Int.not_le.mpr (of_decide_eq_true large))
  · rename_i counts
    have counted : ∀ job ∈ selected, job.attempts + 1 ≤ smallintMax := by
      intro job member
      by_contra large
      exact counts (List.any_eq_true.mpr ⟨job, member, decide_eq_true (Int.not_le.mp large)⟩)
    obtain ⟨job, member⟩ := List.exists_mem_of_ne_nil _ found
    have reserved : reserveRow (stored until_) token job ∈
        (reserveWhere stored (fun job => decide (job.id ∈ selected.map Job.id)) until_ token
          table).matching fun job => decide (job.id ∈ selected.map Job.id) := by
      have chosen : decide (job.id ∈ selected.map Job.id) = true :=
        decide_eq_true (List.mem_map_of_mem member)
      refine Table.mem_matching.mpr ⟨Table.mem_update.mpr ⟨job, inside job member, ?_⟩, chosen⟩
      rw [if_pos chosen]
    have nonempty : (ordered ((reserveWhere stored
        (fun job => decide (job.id ∈ selected.map Job.id)) until_ token table).matching
          fun job => decide (job.id ∈ selected.map Job.id))) ≠ [] :=
      List.ne_nil_of_mem (mem_ordered.mpr reserved)
    rw [if_neg (by simpa using nonempty)]
    exact ⟨fun _ => counted, fun _ => ⟨_, nonempty, rfl⟩⟩

/-! ## Claim requests -/

/-- The requests of the two claim operations. -/
inductive ClaimCall where
  | capabilities (requested : List JobCapability) (limit : Int)
  | bounded (capability : JobCapability) (maxMessages maxBytes : Int)

namespace ClaimCall

def call (view : View) (now until_ : Int) (token : LeaseToken) : ClaimCall → Call
  | .capabilities requested limit =>
    .findAndReserveJobsForCapabilities view now until_ token requested limit
  | .bounded capability maxMessages maxBytes =>
    .findAndReserveJobsForCapabilityBounded view now until_ token capability maxMessages maxBytes

/-- The request passes the checks of its operation. -/
def Accepted (token : LeaseToken) : ClaimCall → Prop
  | .capabilities requested limit =>
    validateBatchRequest token limit = .ok () ∧ validateCapabilities requested = .ok ()
  | .bounded capability maxMessages maxBytes =>
    validateBatchRequest token maxMessages = .ok () ∧ 1 ≤ maxBytes ∧
      validateCapabilities [capability] = .ok ()

/-- The ordered prefix of the ready rows that the statement updates. -/
def selection (locked : JobID → Bool) (now : Int) (table : JobsTable) : ClaimCall → List Job
  | .capabilities requested limit =>
    candidates locked now limit.toNat (joinRequested requested table.rows)
  | .bounded capability maxMessages maxBytes =>
    boundedSelection maxBytes (candidates locked now maxMessages.toNat
      (table.rows.filter (hasCapability capability)))

variable {request : ClaimCall} {locked : JobID → Bool} {now : Int} {token : LeaseToken}

theorem selection_subset {table : JobsTable} :
    ∀ job ∈ request.selection locked now table, job ∈ table.rows := by
  intro job member
  cases request with
  | capabilities requested limit => exact mem_joinRequested (mem_candidates member).1
  | bounded capability maxMessages maxBytes =>
    exact (List.mem_filter.mp (mem_candidates (mem_boundedSelection member)).1).1

/-- The context of the errors of an operation. -/
def op : ClaimCall → String
  | .capabilities .. => "jobs.repo.FindAndReserveJobs"
  | .bounded .. => "jobs.repo.FindAndReserveJobsForCapabilityBounded"

/-- An accepted request runs its statement on the rows it selects. -/
theorem run_call (digest : Digest) {view : View} (until_ : Int) (database : Database)
    (accepted : request.Accepted token)
    (found : request.selection view.lockedJobs now database.jobs ≠ []) :
    (request.call view now until_ token).run .pgsql digest database =
      answering .claimed (onJobs (reserveReturning request.op
        (request.selection view.lockedJobs now database.jobs) until_ token)) database := by
  cases request with
  | capabilities requested limit =>
    obtain ⟨limited, valid⟩ := accepted
    have some_requested : requested.isEmpty = false := by
      cases requested with
      | nil =>
        have nothing : joinRequested [] database.jobs.rows = [] :=
          List.flatMap_eq_nil_iff.mpr fun _ _ => rfl
        refine absurd ?_ found
        rw [selection, nothing]
        exact List.take_nil
      | cons _ _ => rfl
    simp only [call, Call.run, Backend.findAndReserveJobsForCapabilities,
      findAndReserveJobsForCapabilities, some_requested, findAndReserveJobs, limited, valid]
    rfl
  | bounded capability maxMessages maxBytes =>
    obtain ⟨limited, positive, valid⟩ := accepted
    simp only [call, Call.run,
      Backend.findAndReserveJobsForCapabilityBounded, findAndReserveJobsForCapabilityBounded,
      limited, if_neg (Int.not_lt.mpr positive), valid]
    rfl

end ClaimCall

/-! ## Runs -/

/-- After every history of calls, a claim that finds ready rows succeeds exactly if
every row of its ordered prefix was claimed, less its refunds, fewer times than the
largest `smallint`. -/
theorem claim_succeeds_iff_counted (digest : Digest) (history : List Call) (view : View)
    (now until_ : Int) (token : LeaseToken) (request : ClaimCall)
    (accepted : request.Accepted token)
    (found : request.selection view.lockedJobs now
      ((repository .pgsql digest).final .empty history).jobs ≠ []) :
    (∃ jobs, jobs ≠ [] ∧ ((repository .pgsql digest).step (request.call view now until_ token)
        ((repository .pgsql digest).final .empty history)).1 = .claimed (.ok jobs)) ↔
      ∀ job ∈ request.selection view.lockedJobs now
          ((repository .pgsql digest).final .empty history).jobs,
        ((tally ((repository .pgsql digest).trace .empty history) job.id).claims : Int) -
          (tally ((repository .pgsql digest).trace .empty history) job.id).refunds <
            smallintMax := by
  obtain ⟨rows, _⟩ := history_rows .pgsql digest history
  have counted := @reserveReturning_succeeds_iff request.op _ until_ token _ found
    ClaimCall.selection_subset
  have ran := ClaimCall.run_call digest until_ _ accepted found
  change (∃ jobs, jobs ≠ [] ∧ ((request.call view now until_ token).run .pgsql digest _).1 = _) ↔ _
  rw [ran]
  simp only [answering, onJobs]
  simp only [Answer.claimed.injEq]
  rw [counted]
  refine forall₂_congr fun job member => ?_
  have invariant := rows job.id job
    (Table.get?_eq_some_iff.mpr ⟨ClaimCall.selection_subset job member, rfl⟩)
  rw [← invariant.attempts_eq]
  exact Int.add_one_le_iff

/-! ## A row whose lease always expires -/

namespace Sample

def capability : JobCapability := ⟨bytes "mail", 1⟩

def token : LeaseToken := ⟨1⟩

/-- A claim every minute, each after the lease of the one before has ended. -/
def instant (round : Nat) : Int := round * (60 * second)

def deadline (round : Nat) : Int := instant round + 30 * second

def view : View where
  attached := false
  lockedJobs _ := false
  lockedKeys _ := false
  collation first second := decide (first ≤ second)
  snapshots := []

def digest : Digest := ⟨fun _ => [], fun content => content⟩

def claim (round : Nat) : Call :=
  .findAndReserveJobsForCapabilities view (instant round) (deadline round) token [capability] 1

def row : Nat → Job
  | 0 => newJob ⟨1⟩ none capability.name capability.schemaVersion (bytes "null") 0 0
  | round + 1 => reserveRow (deadline round) token (row round)

/-- One put and a number of claims. -/
def reclaims (rounds : Nat) : List Call :=
  .createJobVersioned ⟨1⟩ 0 ⟨capability.name, capability.schemaVersion, bytes "null", 0⟩ ::
    (List.range rounds).map claim

def holding (job : Job) : Database := ⟨⟨[job], List.nodup_singleton _⟩, Table.empty, Table.empty⟩

theorem row_fields (round : Nat) :
    (row round).attempts = round ∧ (row round).availableAt = 0 ∧
      hasCapability capability (row round) = true := by
  induction round with
  | zero => exact ⟨rfl, rfl, by decide⟩
  | succ round ih =>
    refine ⟨?_, ih.2.1, ih.2.2⟩
    change (row round).attempts + 1 = _
    rw [ih.1]
    rfl

theorem stored_instant (round : Nat) : stored (instant round) = instant round := by
  simp only [stored, truncate, instant, second, microsecond]
  omega

theorem stored_deadline (round : Nat) : stored (deadline round) = deadline round := by
  simp only [stored, truncate, deadline, instant, second, microsecond]
  omega

theorem ready_row (round : Nat) : ready (stored (instant round)) (row round) = true := by
  rw [stored_instant]
  apply ready_iff.mpr
  constructor
  · rw [(row_fields round).2.1]
    simp only [instant, second]
    omega
  · intro reserved leased
    cases round with
    | zero => cases leased
    | succ round =>
      cases leased
      simp only [deadline, instant, second]
      omega

theorem selection_row (round : Nat) :
    (ClaimCall.capabilities [capability] 1).selection view.lockedJobs (instant round)
      (holding (row round)).jobs = [row round] := by
  have joined : joinRequested [capability] [row round] = [row round] := by
    simp [joinRequested, (row_fields round).2.2]
  have kept : [row round].filter (fun job =>
      ready (stored (instant round)) job && !view.lockedJobs job.id) = [row round] := by
    rw [List.filter_cons, ready_row]
    rfl
  change candidates view.lockedJobs (instant round) 1 (joinRequested [capability] [row round]) = _
  rw [joined, candidates, kept]
  rfl

theorem run_claim (round : Nat) :
    (claim round).run .pgsql digest (holding (row round)) =
      if smallintMax < (round : Int) + 1 then
        (.claimed (.error (errorContext "jobs.repo.FindAndReserveJobs: query context"
          (.leaf (.external "smallint out of range")))), holding (row round))
      else (.claimed (.ok [row (round + 1)]), holding (row (round + 1))) := by
  have found := selection_row round
  have ran := @ClaimCall.run_call (.capabilities [capability] 1) (instant round) token digest view
    (deadline round) (holding (row round)) ⟨by decide, by decide⟩ (found ▸ List.cons_ne_nil _ _)
  change (claim round).run _ _ _ = _ at ran
  rw [ran, found, answering, onJobs]
  have chosen : decide ((row round).id ∈ [row round].map Job.id) = true :=
    decide_eq_true (List.mem_singleton_self _)
  have after : reserveWhere stored (fun job => decide (job.id ∈ [row round].map Job.id))
      (deadline round) token (holding (row round)).jobs = (holding (row (round + 1))).jobs := by
    apply Table.ext
    change [row round].filterMap (fun job =>
      some (if decide (job.id ∈ [row round].map Job.id) = true then
        reserveRow (stored (deadline round)) token job else job)) = [row (round + 1)]
    rw [stored_deadline, List.filterMap_cons, chosen]
    rfl
  unfold reserveReturning
  simp only [List.any_cons, List.any_nil, Bool.or_false, (row_fields round).1, decide_eq_true_eq]
  split
  · rfl
  · rw [after]
    have same : decide ((row (round + 1)).id ∈ [row round].map Job.id) = true := chosen
    have read : (holding (row (round + 1))).jobs.matching
        (fun job => decide (job.id ∈ [row round].map Job.id)) = [row (round + 1)] := by
      change [row (round + 1)].filter _ = _
      rw [List.filter_cons, same]
      rfl
    rw [read]
    rfl

/-- Each round counts one attempt, up to the largest count. -/
theorem final_reclaims {rounds : Nat} (counted : rounds ≤ 32767) :
    (repository .pgsql digest).final .empty (reclaims rounds) = holding (row rounds) := by
  induction rounds with
  | zero => rfl
  | succ rounds ih =>
    have one : reclaims (rounds + 1) = reclaims rounds ++ [claim rounds] := by
      rw [reclaims, List.range_succ, List.map_append]
      rfl
    rw [one, Machine.final_append_singleton, ih (Nat.le_of_succ_le counted)]
    change ((claim rounds).run .pgsql digest (holding (row rounds))).2 = _
    have below : ¬ smallintMax < (rounds : Int) + 1 := by
      simp only [smallintMax]
      omega
    rw [run_claim, if_neg below]

end Sample

/-- A job that was claimed three times and is ready is claimed again. -/
theorem fourth_claim_succeeds :
    ∃ jobs, jobs ≠ [] ∧ ((repository .pgsql Sample.digest).step
        ((ClaimCall.capabilities [Sample.capability] 1).call Sample.view (Sample.instant 3)
          (Sample.deadline 3) Sample.token)
        ((repository .pgsql Sample.digest).final .empty (Sample.reclaims 3))).1 =
      .claimed (.ok jobs) := by
  have found : (ClaimCall.capabilities [Sample.capability] 1).selection Sample.view.lockedJobs
      (Sample.instant 3) ((repository .pgsql Sample.digest).final .empty (Sample.reclaims 3)).jobs =
      [Sample.row 3] := by
    rw [Sample.final_reclaims (by decide)]
    exact Sample.selection_row 3
  apply (claim_succeeds_iff_counted Sample.digest (Sample.reclaims 3) Sample.view (Sample.instant 3)
    (Sample.deadline 3) Sample.token (.capabilities [Sample.capability] 1)
    ⟨by decide, by decide⟩ (found ▸ List.cons_ne_nil _ _)).mpr
  rw [found]
  decide +kernel

/-- A job that is claimed again and again after its lease expired, 32767 times, is
ready; the next claim fails and changes nothing. -/
theorem expired_leases_block_claims :
    (∃ job ∈ ((repository .pgsql Sample.digest).final .empty (Sample.reclaims 32767)).jobs.rows,
      ready (stored (Sample.instant 32767)) job = true ∧
        hasCapability Sample.capability job = true) ∧
    (repository .pgsql Sample.digest).step (Sample.claim 32767)
        ((repository .pgsql Sample.digest).final .empty (Sample.reclaims 32767)) =
      (.claimed (.error (errorContext "jobs.repo.FindAndReserveJobs: query context"
          (.leaf (.external "smallint out of range")))),
        (repository .pgsql Sample.digest).final .empty (Sample.reclaims 32767)) := by
  rw [Sample.final_reclaims (Nat.le_refl _)]
  constructor
  · exact ⟨_, List.mem_singleton_self _, Sample.ready_row _, (Sample.row_fields _).2.2⟩
  · change (Sample.claim 32767).run .pgsql Sample.digest _ = _
    rw [Sample.run_claim, if_pos (by decide)]

end Pgsql

end OutboxFormal.Storage
