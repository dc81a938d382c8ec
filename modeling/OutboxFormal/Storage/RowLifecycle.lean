import OutboxFormal.Storage.QueueStats

/-!
# The life of a stored row

A row is written only by a call that presents its live lease or by a claim after
that lease has ended, and it leaves the table only through a fenced finalization.
Both follow from the events of a row, over every history on every backend.
-/

namespace OutboxFormal.Storage

open Library

/-! ## What a call presents -/

def Call.token? : Call → Option LeaseToken
  | .findAndReserveJobsForCapabilities _ _ _ token _ _
  | .findAndReserveJobsForCapabilityBounded _ _ _ token _ _ _
  | .extendJobLeases _ token _ _ | .releaseUnstartedJobsWithLease _ token _
  | .applyBatchJobOutcomes _ token _ _ | .deferJobWithLease _ _ token _ _
  | .deleteJobWithLease _ token _ | .rescheduleJobWithLease _ token _ _ => some token
  | _ => none

def Call.claimedAt : Call → Option Int
  | .findAndReserveJobsForCapabilities _ now _ _ _ _
  | .findAndReserveJobsForCapabilityBounded _ now _ _ _ _ _ => some now
  | _ => none

/-- A deletion of the row, or a batch whose outcome for it ends the job. -/
def Call.Finalizes (call : Call) (id : JobID) (token : LeaseToken) (now : Int) : Prop :=
  call = .deleteJobWithLease id token now ∨
    ∃ attached outcomes, call = .applyBatchJobOutcomes attached token now outcomes ∧
      ∃ outcome ∈ outcomes, outcome.jobID = id ∧ outcome.kind.terminal = true

def RowEvent.OfCall (call : Call) (id : JobID) : RowEvent → Prop
  | .kept | .inserted _ => True
  | .claimed now _ _ => call.claimedAt = some now
  | .extended _ _ token | .released _ token | .rescheduled _ _ token | .deferred _ _ token =>
    call.token? = some token
  | .deleted now token => call.token? = some token ∧ call.Finalizes id token now

theorem Call.ofCall_events {stored : Int → Int} {digest : Digest} {call : Call} {answer : Answer}
    {id : JobID} {event : RowEvent} (allowed : call.events stored digest answer id event) :
    event.OfCall call id := by
  cases call with
  | findAndReserveJobsForCapabilities | findAndReserveJobsForCapabilityBounded =>
    rcases allowed with ⟨rfl, _⟩ | ⟨rfl, _⟩
    · trivial
    · rfl
  | createJobVersioned | createJobVersionedUniqueResult | createJobVersionedUniqueBatch =>
    rcases allowed with rfl | ⟨_, _, rfl⟩ <;> trivial
  | extendJobLeases | releaseUnstartedJobsWithLease | rescheduleJobWithLease =>
    rcases allowed with rfl | ⟨_, rfl⟩
    · trivial
    · rfl
  | deleteJobWithLease =>
    rcases allowed with rfl | ⟨rfl, rfl⟩
    · trivial
    · exact ⟨rfl, Or.inl rfl⟩
  | applyBatchJobOutcomes =>
    rcases allowed with rfl | ⟨_, outcome, member, same, ⟨ends, rfl⟩ | ⟨_, rfl⟩ | ⟨_, rfl⟩⟩
    · trivial
    · exact ⟨rfl, Or.inr ⟨_, _, rfl, outcome, member, same, ends⟩⟩
    · rfl
    · rfl
  | deferJobWithLease =>
    rcases allowed with rfl | ⟨_, outcome, member, _, ⟨ends, rfl⟩ | ⟨_, rfl⟩ | ⟨_, rfl⟩⟩
    · trivial
    · -- A defer ends no job.
      rw [List.mem_singleton.mp member] at ends
      cases ends
    · rfl
    · rfl
  | createFailedJobVersioned | pruneJobIdempotencyKeys =>
    cases allowed
    trivial

/-! ## One call -/

/-- What a row keeps for life: all but its schedule, its lease and its attempts. -/
def rowOrigin (job : Job) : Job :=
  { job with attempts := 0, reservedAt := none, leaseToken := .nil, availableAt := 0 }

section Calls

variable (backend : Backend) (digest : Digest) {id : JobID} {job : Job}

/-- A call leaves a row alone, claims it when it is ready, or presents its live
lease; only a finalization removes it. -/
theorem Call.run_cases (call : Call) {database : Database}
    (present : database.jobs.get? id = some job) :
    (call.run backend digest database).2.jobs.get? id = some job ∨
    ((∃ now, call.claimedAt = some now ∧ ready (backend.stored now) job = true) ∨
      ∃ token now, call.token? = some token ∧ leased token (backend.stored now) job = true) ∧
      ((∃ row, (call.run backend digest database).2.jobs.get? id = some row ∧
          rowOrigin row = rowOrigin job) ∨
        ∃ token now, call.Finalizes id token now ∧
          leased token (backend.stored now) job = true) := by
  obtain ⟨event, allowed, step⟩ := call.run_row backend digest database id
  have presents := Call.ofCall_events allowed
  rw [present] at step
  generalize (call.run backend digest database).2.jobs.get? id = after at step
  cases step with
  | kept => exact Or.inl rfl
  | claimed _ isReady => exact Or.inr ⟨Or.inl ⟨_, presents, isReady⟩, Or.inl ⟨_, rfl, rfl⟩⟩
  | extended _ isLeased | rescheduled _ isLeased | released _ isLeased | deferred _ isLeased =>
    exact Or.inr ⟨Or.inr ⟨_, _, presents, isLeased⟩, Or.inl ⟨_, rfl, rfl⟩⟩
  | deleted _ isLeased =>
    exact Or.inr ⟨Or.inr ⟨_, _, presents.1, isLeased⟩, Or.inr ⟨_, _, presents.2, isLeased⟩⟩

/-! ## Histories -/

/-- A lease excludes everybody else until it ends: as long as no call presents its
token and every claim is made before its deadline, at the instant as the backend
stores it, the row stays as it is. -/
theorem lease_excludes_others (history : List Call) (database : Database) (reserved : Int)
    (present : database.jobs.get? id = some job) (held : job.reservedAt = some reserved)
    (others : ∀ call ∈ history, call.token? ≠ some job.leaseToken)
    (early : ∀ call ∈ history, ∀ now, call.claimedAt = some now → backend.stored now < reserved) :
    ((repository backend digest).final database history).jobs.get? id = some job := by
  induction history generalizing database with
  | nil => exact present
  | cons call rest ih =>
    refine ih _ ?_ (fun other member => others other (List.mem_cons_of_mem call member))
      fun other member => early other (List.mem_cons_of_mem call member)
    rcases call.run_cases backend digest present with same | ⟨changes, _⟩
    · exact same
    rcases changes with ⟨now, claims, isReady⟩ | ⟨token, now, presents, isLeased⟩
    · have ended := (ready_iff.mp isReady).2 reserved held
      exact absurd (early call List.mem_cons_self now claims) (Int.not_lt.mpr ended)
    · rw [← (leased_iff.mp isLeased).1] at presents
      exact absurd presents (others call List.mem_cons_self)

/-- No stored job is lost or altered: after any history its row is still there
with the content it was stored with, or some call of the history finalized it
under a live lease of its row. -/
theorem stored_jobs_kept_or_finalized (history : List Call) (database : Database)
    (present : database.jobs.get? id = some job) :
    (∃ row, ((repository backend digest).final database history).jobs.get? id = some row ∧
      rowOrigin row = rowOrigin job) ∨
    ∃ step ∈ (repository backend digest).trace database history, ∃ row token now,
      step.before.jobs.get? id = some row ∧ rowOrigin row = rowOrigin job ∧
        step.input.Finalizes id token now ∧ leased token (backend.stored now) row = true := by
  induction history generalizing database job with
  | nil => exact Or.inl ⟨job, present, rfl⟩
  | cons call rest ih =>
    rcases call.run_cases backend digest present with same | ⟨_, ⟨row, kept, origin⟩ | ends⟩
    · rcases ih _ same with stays | ⟨step, member, later⟩
      · exact Or.inl stays
      · exact Or.inr ⟨step, List.mem_cons_of_mem _ member, later⟩
    · rw [← origin]
      rcases ih _ kept with stays | ⟨step, member, later⟩
      · exact Or.inl stays
      · exact Or.inr ⟨step, List.mem_cons_of_mem _ member, later⟩
    · obtain ⟨token, now, finalizes, isLeased⟩ := ends
      exact Or.inr ⟨_, List.mem_cons_self, job, token, now, present, rfl, finalizes, isLeased⟩

end Calls

namespace Sample

/-- A job that is claimed until the end of its first minute. -/
def leasedMail : Database :=
  (repository .pgsql transparentDigest).final .empty [mail 1 0,
    .findAndReserveJobsForCapabilities alone 0 (60 * second) ⟨1⟩ [⟨bytes "mail", 1⟩] 1]

def leasedRow : Job :=
  reserveRow (60 * second) ⟨1⟩ (newJob ⟨1⟩ none (bytes "mail") 1 [] 0 0)

/-- What another worker tries in the meantime. -/
def intrusion : List Call :=
  [.findAndReserveJobsForCapabilities alone (30 * second) (90 * second) ⟨2⟩ [⟨bytes "mail", 1⟩] 1,
    .deleteJobWithLease ⟨1⟩ ⟨2⟩ (30 * second)]

end Sample

theorem lease_excludes_intrusion :
    ((repository .pgsql transparentDigest).final Sample.leasedMail Sample.intrusion).jobs.get? ⟨1⟩ =
      some Sample.leasedRow :=
  lease_excludes_others .pgsql transparentDigest Sample.intrusion Sample.leasedMail (60 * second)
    (by decide +kernel) rfl (by decide) (by decide)

theorem stored_mail_finalized :
    ∃ step ∈ (repository .pgsql transparentDigest).trace Sample.leasedMail
        [.deleteJobWithLease ⟨1⟩ ⟨1⟩ second], ∃ row token now,
      step.before.jobs.get? ⟨1⟩ = some row ∧ rowOrigin row = rowOrigin Sample.leasedRow ∧
        step.input.Finalizes ⟨1⟩ token now ∧
        leased token (Backend.pgsql.stored now) row = true := by
  have removed : ((repository .pgsql transparentDigest).final Sample.leasedMail
      [.deleteJobWithLease ⟨1⟩ ⟨1⟩ second]).jobs.get? ⟨1⟩ = none := by decide +kernel
  refine (stored_jobs_kept_or_finalized .pgsql transparentDigest
    [.deleteJobWithLease ⟨1⟩ ⟨1⟩ second] Sample.leasedMail (by decide +kernel)).resolve_left ?_
  rintro ⟨row, stays, _⟩
  cases removed.symm.trans stays

end OutboxFormal.Storage
