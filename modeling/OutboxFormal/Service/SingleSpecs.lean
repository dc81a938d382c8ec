import OutboxFormal.Service.ClaimSpecs

/-!
# The single path under custody

From the first claim of a group to its recorded result. Once the handler of a
row has begun, the row leaves the ledger before anything else may be released,
whichever way the handler ends.
-/

namespace OutboxFormal

open Library
open Library.Monitor (wp_bind wp_mono wp_onExit wp_step)
open Library.Program (only_bind only_perform only_pure)

variable {unwinds : Custody → Prop} {ctx : Ctx} {job : Job}

variable {returns : Option OutboxError → Custody → Prop} {after : Custody} {jobs : List Job}
variable {error : Option OutboxError}

namespace Custody

variable {strict : Prop} {process : Nat} {m : BatchLeaseManager} {books : Custody}

/-! ## The lease manager of a group -/

def managed (custody : Custody) (m : BatchLeaseManager) (jobs : List Job) : Custody :=
  { custody with
    group := some m.group
    manager := some m
    keys := (Ledger.ofJobs jobs).ids
    ordered := (Ledger.ofJobs jobs).orderedIDs
    entered := enterIDs (Ledger.ofJobs jobs).ids custody.entered }

/-- Work on claimed rows starts with their manager, and its cleanup is quiet. -/
theorem wp_withManager {s : Service} {α : Type} {returns : α → Custody → Prop}
    {work : BatchLeaseManager → Go α} {token : LeaseToken} {start : Custody}
    (fresh : Same ((books.opened token).claim jobs) start)
    (accepted : ∀ job ∈ jobs, Accepted strict token job) (works : ∀ m middle, m.leaseToken = token →
      Same (((books.opened token).claim jobs).managed m jobs) middle →
      Works strict process (work m)
        (fun value last => ∀ final, Same last final → returns value final) (fun _ => True) middle) :
    Works strict process (s.withManager token jobs work) returns (fun _ => True) start := by
  unfold Service.withManager
  obtain ⟨readings, sent, extended, more, rfl⟩ := fresh
  refine wp_step ⟨⟨process, rfl⟩, rfl⟩ fun group _ => wp_onExit.mpr ?_
  refine wp_step ⟨⟨process, rfl⟩, rfl, rfl, rfl, rfl, rfl, ?_, ?_⟩ fun _ _ => ?_
  · intro entry member
    obtain ⟨job, hjob, same⟩ := Ledger.mem_ofJobs member
    exact ⟨job, List.mem_append_left _ hjob, same⟩
  · exact fun hstrict => Ledger.bounded_ofJobs fun job member => (accepted job member).2 hstrict
  · refine wp_onExit.mpr (wp_mono
      (works ⟨group, token, s.reserveFor⟩ _ rfl ⟨readings, sent, extended, more, rfl⟩) ?_ ?_)
    · intro value last meets
      refine wp_bind.mpr (wp_quiet quiet_stopAndWait fun _ middle same => ?_)
      exact ⟨trivial, fun _ _ => meets middle same⟩
    · intro last _
      refine wp_step trivial fun _ _ => ?_
      refine wp_bind.mpr (wp_quiet quiet_stopAndWait fun _ middle _ => ?_)
      exact ⟨trivial, fun _ _ => trivial⟩

/-- Nothing in the ledger has begun or was handed back. -/
def Unstarted (custody : Custody) : Prop :=
  custody.distinct = true → custody.lapsed = [] →
    custody.ordered.Nodup ∧ ∀ id ∈ custody.keys, id ∉ custody.released ∧ id ∉ custody.begun

/-! ## Handler calls -/

/-- The handler of one row began and ended. -/
def Handled (job : Job) (before after : Custody) : Prop :=
  ∃ succeeded, before.succeeded ⊆ succeeded ∧
    Same { before with
      begun := job.id :: before.begun, ran := job.id :: before.ran, succeeded := succeeded } after

theorem Same.succeeded {before : Custody} (same : Same before after) :
    before.succeeded ⊆ after.succeeded := by
  obtain ⟨_, _, _, -, rfl⟩ := same
  exact List.Subset.refl _

theorem Same.claimed {before : Custody} (same : Same before after) :
    before.claimed ⊆ after.claimed := by
  obtain ⟨_, _, _, -, rfl⟩ := same
  exact List.Subset.refl _

theorem wp_handlerEnded {now : Int} {succeeded : List (LeaseToken × JobID)}
    (more : books.succeeded ⊆ succeeded)
    (success : error = none → (job.leaseToken, job.id) ∈ succeeded)
    (meets : ∀ error last, Handled job books last →
      (error = none → (job.leaseToken, job.id) ∈ last.succeeded) → returns error last) :
    Works strict process (do
        match ← Go.cause ctx with
        | some cause => return some cause
        | none => return error) returns (fun _ => True)
      { books with
        readings := now :: books.readings, begun := job.id :: books.begun
        ran := job.id :: books.ran, succeeded := succeeded } := by
  refine wp_quietly rfl fun cause _ asked => ?_
  have handled : Handled job books _ :=
    ⟨succeeded, more, Same.trans ⟨_, _, _, List.subset_cons_self _ _, rfl⟩ asked⟩
  cases cause with
  | some cause => exact meets _ _ handled (by simp)
  | none => exact meets error _ handled fun none => asked.succeeded (success none)

/-- Only `runtime.Goexit` leaves a handler call without its end in the books; a
nil error means that the handler succeeded. -/
theorem wp_executeJob {handler : JobHandler} (row : job ∈ books.claimed)
    (startable : books.Startable strict job.id) (meets : ∀ error last, Handled job books last →
      (error = none → (job.leaseToken, job.id) ∈ last.succeeded) → returns error last) :
    Works strict process (Service.executeJob ctx handler job) returns
      (fun _ => True) books := by
  refine wp_step trivial fun now _ => ?_
  refine wp_bind.mpr (wp_step ⟨row, startable⟩ fun _ _ => ?_)
  refine wp_step trivial fun exit _ => ?_
  cases exit with
  | goexit => exact trivial
  | panicked value => exact wp_handlerEnded (List.Subset.refl _) (by simp) meets
  | returned error =>
    cases error with
    | some error => exact wp_handlerEnded (List.Subset.refl _) (by simp) meets
    | none =>
      exact wp_handlerEnded (List.subset_cons_self _ _) (fun _ => List.mem_cons_self) meets

/-! ## Finalizations of one row -/

theorem Attempts.of_same {jobIDs : List JobID} {first second third : Custody}
    (same : Same first second) (attempts : Attempts jobIDs second third) :
    Attempts jobIDs first third := by
  obtain ⟨attempted, within, same'⟩ := attempts
  obtain ⟨readings, sent, extended, more, rfl⟩ := same
  refine ⟨attempted, within, Same.trans ?_ same'⟩
  exact ⟨readings, sent, extended, more, rfl⟩

theorem quiet_observeJobOutcome (s : Service) (job : Job) (kind : RuntimeOutcomeKind)
    (availableAt : Int) :
    (s.observeJobOutcome job kind availableAt).Only fun effect => effect.quiet = true :=
  only_observeJobOutcome (by rfl) (fun _ => rfl) job kind availableAt

section Finalization

variable {s : Service} {availableAt : Int}
  (row : job ∈ books.claimed ∧ job.leaseToken = books.token)
include row

theorem wp_leased {method : Int → LeasedMethod} {α : Type}
    {next : Int → Int × Option OutboxError → Go α}
    (delete : ∀ now, method now = .delete → (job.leaseToken, job.id) ∈ books.succeeded)
    (quiet : ∀ now answer, (next now answer).Only fun effect => effect.quiet = true) :
    Works strict process
      (Go.now >>= fun now => Go.leased ctx (method now) job.id job.leaseToken now >>= next now)
      (fun _ => Attempts [job.id] books) unwinds books := by
  refine wp_quietly rfl fun now _ ticked => wp_step ⟨row.2, delete now, job, row.1, rfl⟩ ?_
  refine fun answer _ => wp_quiet (quiet now answer) fun _ last same => .of_same ticked ?_
  refine ⟨job.id :: books.attempted, ?_, same⟩
  intro id member
  exact (List.mem_cons.mp member).imp_left List.mem_singleton.mpr

theorem wp_ackBatch (succeeded : (job.leaseToken, job.id) ∈ books.succeeded) :
    Works strict process (s.ackBatch ctx job) (fun _ => Attempts [job.id] books) unwinds books := by
  refine wp_leased row (fun _ _ => succeeded) ?_
  rintro now ⟨affected, failure⟩
  cases failure with
  | some error => exact only_pure
  | none =>
    dsimp only
    split
    · exact only_pure
    · exact only_bind (quiet_observeJobOutcome s job _ _) fun _ => only_pure

theorem wp_rescheduleLeased :
    Works strict process (s.rescheduleLeased ctx job availableAt) (fun _ => Attempts [job.id] books)
      unwinds books := by
  refine wp_leased row (fun _ => nofun) ?_
  rintro now ⟨affected, failure⟩
  cases failure with
  | some error => exact only_pure
  | none =>
    dsimp only
    split
    · exact only_pure
    · exact only_bind (quiet_observeJobOutcome s job _ _) fun _ => only_pure

theorem wp_deferLeased :
    Works strict process (s.deferLeased ctx job availableAt) (fun _ => Attempts [job.id] books)
      unwinds books := by
  unfold Service.deferLeased
  split
  · exact (Same.refl books).attempts _
  · refine wp_leased row (fun _ => nofun) ?_
    rintro now ⟨affected, failure⟩
    cases failure with
    | some error => exact only_pure
    | none =>
      dsimp only
      split
      · exact only_pure
      · exact only_bind (only_perform rfl) fun _ =>
          only_bind (quiet_observeJobOutcome s job _ _) fun _ => only_pure

theorem wp_dlqBatch {reason : String} :
    Works strict process (s.dlqBatch ctx job reason) (fun _ => Attempts [job.id] books) unwinds
      books := by
  have attempted : ∀ last, Same { books with attempted := [job.id] ++ books.attempted } last →
      Attempts [job.id] books last := fun last same =>
    ⟨_, fun _ member => List.mem_append.mp member, same⟩
  refine wp_step ⟨row.2, row.1⟩ fun failure _ => ?_
  cases failure with
  | some error => exact attempted _ (Same.refl _)
  | none =>
    refine wp_quiet ?_ fun _ last same => attempted last same
    exact only_bind (quiet_observeJobOutcome s job _ _) fun _ => only_pure

end Finalization

/-! ## The single path -/

/-- Before the handlers of the remaining rows: nothing was released, and what is
left in the ledger belongs to rows whose handler has not begun. -/
structure Working (strict : Prop) (custody : Custody) (m : BatchLeaseManager)
    (rest : List Job) : Prop where
  ready : Ready custody m
  rows : ∀ job ∈ rest, job ∈ custody.claimed ∧ job.leaseToken = custody.token
  unreleased : custody.released = []
  nodup : custody.distinct = true → custody.ordered.Nodup ∧ (rest.map Job.id).Nodup
  keys : custody.distinct = true → ∀ id ∈ custody.keys, id ∈ rest.map Job.id
  unbegun : custody.distinct = true → ∀ id ∈ rest.map Job.id, id ∉ custody.begun
  held : strict → custody.distinct = true ∧
    ∀ id ∈ rest.map Job.id, id ∈ custody.keys ∧ id ∉ custody.attempted
  ran : ∀ id ∈ custody.entered, id ∈ custody.ran ∨ id ∈ rest.map Job.id
  covered : ∀ id ∈ custody.keys, id ∈ custody.ordered
  apart : ∀ id ∈ custody.keys, id ∉ custody.begun

/-- After the handler of one row: the row may still be in the ledger. -/
structure Finishing (strict : Prop) (custody : Custody) (m : BatchLeaseManager) (job : Job)
    (rest : List Job) : Prop where
  ready : Ready custody m
  row : job ∈ custody.claimed ∧ job.leaseToken = custody.token
  rows : ∀ job ∈ rest, job ∈ custody.claimed ∧ job.leaseToken = custody.token
  unreleased : custody.released = []
  nodup : custody.distinct = true → custody.ordered.Nodup ∧ ((job :: rest).map Job.id).Nodup
  keys : custody.distinct = true → ∀ id ∈ custody.keys, id = job.id ∨ id ∈ rest.map Job.id
  unbegun : custody.distinct = true → ∀ id ∈ rest.map Job.id, id ∉ custody.begun
  held : strict → custody.distinct = true ∧
    ∀ id ∈ rest.map Job.id, id ∈ custody.keys ∧ id ∉ custody.attempted
  ran : ∀ id ∈ custody.entered, id ∈ custody.ran ∨ id ∈ rest.map Job.id
  covered : ∀ id ∈ custody.keys, id ∈ custody.ordered
  apart : ∀ id ∈ custody.keys, id ≠ job.id → id ∉ custody.begun

variable {rest : List Job}

theorem Working.same (working : Working strict books m rest) (same : Same books after) :
    Working strict after m rest := by
  have ready := working.ready.same same
  obtain ⟨_, _, _, -, rfl⟩ := same
  exact { working with ready := ready }

theorem Working.unstarted (working : Working strict books m rest) : Unstarted books := by
  intro distinct _
  refine ⟨(working.nodup distinct).1, fun id key => ⟨?_, ?_⟩⟩
  · rw [working.unreleased]
    exact List.not_mem_nil
  · exact working.unbegun distinct id (working.keys distinct id key)

theorem Working.startable (working : Working strict books m (job :: rest)) :
    books.Startable strict job.id := by
  refine ⟨fun _ _ => ?_, fun hstrict => (working.held hstrict).2 job.id List.mem_cons_self⟩
  rw [working.unreleased]
  exact List.not_mem_nil

theorem Working.handled (working : Working strict books m (job :: rest))
    (handled : Handled job books after) : Finishing strict after m job rest := by
  obtain ⟨succeeded, -, _, _, _, -, rfl⟩ := handled
  have tail : ∀ id ∈ rest.map Job.id, id ∈ (job :: rest).map Job.id := fun id member =>
    List.mem_cons_of_mem _ member
  obtain ⟨ready, rows, unreleased, nodup, keys, unbegun, held, ran, covered, apart⟩ := working
  refine ⟨{ ready with }, rows job List.mem_cons_self,
    fun other member => rows other (List.mem_cons_of_mem _ member), unreleased, nodup,
    fun distinct id key => List.mem_cons.mp (keys distinct id key), ?_,
    fun hstrict => ⟨(held hstrict).1, fun id member => (held hstrict).2 id (tail id member)⟩, ?_,
    covered, ?_⟩
  · intro distinct id member begun
    rcases List.mem_cons.mp begun with rfl | begun
    · exact (List.nodup_cons.mp (nodup distinct).2).1 member
    · exact unbegun distinct id (tail id member) begun
  · intro id entered
    rcases ran id entered with hran | member
    · exact Or.inl (List.mem_cons_of_mem _ hran)
    · rcases List.mem_cons.mp member with rfl | member
      · exact Or.inl List.mem_cons_self
      · exact Or.inr member
  · intro id key other begun
    rcases List.mem_cons.mp begun with same | begun
    · exact other same
    · exact apart id key begun

theorem Finishing.attempts (finishing : Finishing strict books m job rest)
    (attempts : Attempts [job.id] books after) : Finishing strict after m job rest := by
  obtain ⟨attempted, within, _, _, _, -, rfl⟩ := attempts
  obtain ⟨ready, row, rows, unreleased, nodup, keys, unbegun, held, ran, covered, apart⟩ :=
    finishing
  refine ⟨{ ready with }, row, rows, unreleased, nodup,
    keys, unbegun, fun hstrict => ⟨(held hstrict).1, fun id member => ?_⟩, ran, covered, apart⟩
  refine ⟨((held hstrict).2 id member).1, fun tried => ?_⟩
  rcases within id tried with same | tried
  · rw [List.mem_singleton.mp same] at member
    exact (List.nodup_cons.mp (nodup (held hstrict).1).2).1 member
  · exact ((held hstrict).2 id member).2 tried

/-- Once the row has left the ledger, the rest can be worked on. -/
theorem Finishing.drop (finishing : Finishing strict books m job rest)
    (attempts : Attempts [job.id] { books with keys := without books.keys job.id } after) :
    Working strict after m rest := by
  obtain ⟨attempted, within, same⟩ := attempts
  have attempted' := finishing.attempts ⟨attempted, within, Same.refl _⟩
  obtain ⟨ready, row, rows, unreleased, nodup, keys, unbegun, held, ran, covered, apart⟩ :=
    attempted'
  obtain ⟨_, _, _, -, rfl⟩ := same
  refine ⟨⟨ready.manager, ready.token, ready.free, ?_⟩, rows, unreleased,
    fun distinct => ⟨(nodup distinct).1, (List.nodup_cons.mp (nodup distinct).2).2⟩, ?_, unbegun,
    fun hstrict => ⟨(held hstrict).1, fun id member => ?_⟩, ran, ?_, ?_⟩
  · exact fun id member => ready.entered id (List.mem_filter.mp member).1
  · intro distinct id member
    obtain ⟨key, other⟩ := List.mem_filter.mp member
    exact (keys distinct id key).resolve_left (of_decide_eq_true other)
  · obtain ⟨key, untried⟩ := (held hstrict).2 id member
    refine ⟨List.mem_filter.mpr ⟨key, decide_eq_true ?_⟩, untried⟩
    rintro rfl
    exact (List.nodup_cons.mp (nodup (held hstrict).1).2).1 member
  · exact fun id member => covered id (List.mem_filter.mp member).1
  · intro id member
    obtain ⟨key, other⟩ := List.mem_filter.mp member
    exact apart id key (of_decide_eq_true other)

section Single

variable {s : Service} {handler : JobHandler}

theorem Kept.row {start : Custody} (kept : Kept books start)
    (row : job ∈ books.claimed ∧ job.leaseToken = books.token) :
    job ∈ start.claimed ∧ job.leaseToken = start.token := by
  obtain ⟨_, _, _, _, -, rfl⟩ := kept
  exact row

section Finishing

variable (finishing : Finishing strict books m job rest)
  (failed : ∀ error last, Finishing strict last m job rest → returns (some error) last)
  (succeeded : ∀ last, Working strict last m rest → returns none last)
include finishing failed succeeded

/-- A finalization either removes the row from the ledger or fails. -/
theorem wp_finalizeJob {finalization : Ctx → Go (Option OutboxError)}
    (callback : ∀ finalizeCtx start, Kept books start →
      job ∈ start.claimed ∧ job.leaseToken = start.token →
      Works strict process (finalization finalizeCtx) (fun _ => Attempts [job.id] start)
        (fun _ => False) start) :
    Works strict process (m.finalize ctx job.id finalization) returns unwinds books :=
  wp_finalize finishing.ready
    (fun finalizeCtx start kept => callback finalizeCtx start kept (kept.row finishing.row))
    (fun error last attempts => failed error last (finishing.attempts attempts))
    (fun last attempts => succeeded last (finishing.drop attempts))

theorem wp_finishFailedJob {handleErr : OutboxError} :
    Works strict process (s.finishFailedJob ctx m handler job handleErr) returns unwinds books := by
  unfold Service.finishFailedJob
  split
  · exact wp_finalizeJob finishing failed succeeded fun _ _ _ row => wp_dlqBatch row
  · split
    · exact wp_finalizeJob finishing failed succeeded fun _ _ _ => wp_deferLeased
    · split
      · exact wp_finalizeJob finishing failed succeeded fun _ _ _ row => wp_dlqBatch row
      · split
        · refine wp_quietly rfl fun now _ ticked => ?_
          refine wp_bind.mpr (wp_quiet (only_retryTime (fun _ => rfl) job handleErr now 0) ?_)
          rintro ⟨availableAt, failure⟩ middle same
          have finishing' := finishing.attempts ((ticked.trans same).attempts _)
          cases failure with
          | some error => exact failed error middle finishing'
          | none =>
            exact wp_finalizeJob finishing' failed succeeded fun _ _ _ => wp_rescheduleLeased
        · refine wp_bind.mpr (wp_forget finishing.ready fun last same => ?_)
          exact succeeded last (finishing.drop (same.attempts _))

end Finishing

theorem wp_processBatchJob {returns : Bool × Option OutboxError → Custody → Prop}
    (working : Working strict books m (job :: rest))
    (unstarted : ∀ error last, Working strict last m (job :: rest) →
      returns (false, some error) last)
    (failed : ∀ error last, Finishing strict last m job rest → returns (true, some error) last)
    (succeeded : ∀ last, Working strict last m rest → returns (true, none) last) :
    Works strict process (s.processBatchJob ctx m job) returns (fun _ => True) books := by
  unfold Service.processBatchJob
  split
  · exact unstarted _ books working
  · refine wp_bind.mpr (wp_admitBatch working.ready fun error middle same _ => ?_)
    have working := working.same same
    cases error with
    | some error => exact unstarted _ middle working
    | none =>
      refine wp_bind.mpr (wp_executeJob (working.rows job List.mem_cons_self).1
        working.startable fun handleErr last handled success => ?_)
      refine wp_quietly rfl fun cause _ asked => ?_
      have finishing := (working.handled handled).attempts (asked.attempts _)
      cases cause with
      | some cause => exact failed _ _ finishing
      | none =>
        cases handleErr with
        | some handleErr =>
          exact wp_bind.mpr (wp_finishFailedJob finishing failed succeeded)
        | none =>
          refine wp_bind.mpr (wp_finalizeJob finishing failed succeeded fun _ start kept row => ?_)
          refine wp_ackBatch row ?_
          obtain ⟨_, _, _, _, -, rfl⟩ := kept
          exact asked.succeeded (success rfl)

/-- The loop stops with nothing left to start, or with unstarted rows only. -/
theorem wp_processBatchJobs (working : Working strict books m jobs)
    (meets : ∀ error last, Ready last m → Unstarted last →
      (error = none → ∀ id ∈ last.entered, id ∈ last.ran) → returns error last) :
    Works strict process (s.processBatchJobs ctx m jobs) returns (fun _ => True) books := by
  induction jobs generalizing books with
  | nil =>
    refine meets none books working.ready working.unstarted fun _ id entered => ?_
    exact (working.ran id entered).resolve_right List.not_mem_nil
  | cons job rest ih =>
    unfold Service.processBatchJobs
    refine wp_bind.mpr (wp_processBatchJob working ?_ ?_ ?_)
    · intro error last working
      exact meets _ last working.ready working.unstarted nofun
    · intro error last finishing
      refine wp_bind.mpr (wp_forget finishing.ready fun final same => ?_)
      have working := finishing.drop (same.attempts _)
      exact meets _ final working.ready working.unstarted nofun
    · exact fun last working => ih working

/-! ## The result of a group -/

/-- A group that ends without an error ran the handler of every row it entered. -/
def Settled (error : Option OutboxError) (custody : Custody) : Prop :=
  custody.locked = none ∧ (error = none → ∀ id ∈ custody.entered, id ∈ custody.ran)

theorem Settled.same (settled : Settled error books) (same : Same books after) :
    Settled error after := by
  obtain ⟨_, _, _, -, rfl⟩ := same
  exact settled

theorem wp_releaseRest {next : Option OutboxError → Option OutboxError → Option OutboxError}
    (ready : Ready books m) (unstarted : Unstarted books)
    (ran : ∀ heartbeatErr releaseErr, next heartbeatErr releaseErr = none →
      ∀ id ∈ books.entered, id ∈ books.ran)
    (meets : ∀ error last, Settled error last → returns error last) :
    Works strict process (do
        let heartbeatErr ← m.stopAndWait
        let releaseErr ← m.releaseUnstarted ctx
        return next heartbeatErr releaseErr) returns (fun _ => True) books := by
  refine wp_bind.mpr (wp_quiet quiet_stopAndWait fun heartbeatErr middle same => ?_)
  have unstarted' : Unstarted middle := by
    obtain ⟨_, _, _, -, rfl⟩ := same
    exact unstarted
  refine wp_bind.mpr (wp_releaseUnstarted (ready.same same) unstarted' ?_)
  intro releaseErr last keys released attempted same'
  refine meets _ last ?_
  obtain ⟨_, _, _, -, rfl⟩ := same
  obtain ⟨_, _, _, -, rfl⟩ := same'
  exact ⟨ready.free, ran heartbeatErr releaseErr⟩

theorem groupError_eq_none {processErr heartbeatErr releaseErr : Option OutboxError}
    (clean : Service.groupError processErr heartbeatErr releaseErr = none) :
    processErr = none := by
  cases processErr with
  | none => rfl
  | some error =>
    have joined : GoError.join [some error, heartbeatErr, releaseErr] ≠ none := fun none =>
      nomatch GoError.join_eq_none_iff.mp none _ List.mem_cons_self
    simp only [Service.groupError, Option.some_or, reduceCtorEq, false_and, if_false] at clean
    by_cases drained : GoError.errorsIs (some error) ErrorLeaf.errServiceDraining = true ∧
        releaseErr = none ∧ heartbeatErr = none
    · rw [if_pos drained] at clean
      cases clean
    · rw [if_neg drained] at clean
      exact absurd clean joined

theorem wp_processGroup (working : Working strict books m jobs)
    (meets : ∀ error last, Settled error last → returns error last) :
    Works strict process (s.processGroup m jobs) returns (fun _ => True) books := by
  refine wp_bind.mpr (wp_processBatchJobs working ?_)
  intro processErr last ready unstarted ran
  exact wp_releaseRest ready unstarted (fun _ _ clean => ran (groupError_eq_none clean)) meets

theorem wp_reportGroup {claimedJobs : Nat} (settled : Settled error books)
    (meets : ∀ last, last.locked = none → returns error last) :
    Works strict process (s.reportGroup claimedJobs error) returns unwinds books := by
  have quiet : (s.observeLeaseLoss error claimedJobs).Only fun effect => effect.quiet = true :=
    only_observeLeaseLoss (by rfl) (fun _ => rfl) error claimedJobs
  refine wp_bind.mpr (wp_quiet quiet ?_)
  intro _ middle same
  have settled := settled.same same
  cases error with
  | some error => exact ⟨trivial, fun _ _ => meets middle settled.1⟩
  | none => exact ⟨settled.2 rfl, fun _ _ => meets middle settled.1⟩

/-- Work on a claimed group starts with every row in the ledger. -/
theorem working_managed {token : LeaseToken} (own : m.leaseToken = token)
    (nodup : strict → (jobs.map Job.id).Nodup)
    (accepted : ∀ job ∈ jobs, Accepted strict token job) :
    Working strict (((books.opened token).claim jobs).managed m jobs) m jobs := by
  have distinct : (((books.opened token).claim jobs).managed m jobs).distinct = true →
      (jobs.map Job.id).Nodup := of_decide_eq_true
  refine ⟨⟨rfl, own.symm, rfl, ?_⟩, ?_, rfl, ?_, ?_, ?_, ?_, ?_, ?_, ?_⟩
  · exact fun id key => mem_enterIDs.mpr (Or.inl key)
  · exact fun job member => ⟨List.mem_append_left _ member, (accepted job member).1⟩
  · intro flag
    refine ⟨?_, distinct flag⟩
    change (Ledger.ofJobs jobs).orderedIDs.Nodup
    rw [Ledger.orderedIDs_ofJobs]
    exact distinct flag
  · exact fun _ id key => Ledger.mem_ids_ofJobs key
  · exact fun _ _ _ => List.not_mem_nil
  · intro hstrict
    refine ⟨decide_eq_true (nodup hstrict), fun id member => ?_⟩
    refine ⟨?_, List.not_mem_nil⟩
    change id ∈ (Ledger.ofJobs jobs).ids
    rw [Ledger.ids_ofJobs (nodup hstrict)]
    exact member
  · intro id entered
    rcases mem_enterIDs.mp entered with key | impossible
    · exact Or.inr (Ledger.mem_ids_ofJobs key)
    · cases impossible
  · exact fun id member => Ledger.ordered_ofJobs member
  · exact fun _ _ => List.not_mem_nil

theorem wp_findAndProcessBatch {capabilities : List JobCapability} (free : books.locked = none)
    (meets : ∀ error last, last.locked = none → returns error last) :
    Works strict process (s.findAndProcessBatch capabilities) returns
      (fun _ => True) books := by
  refine wp_bind.mpr (wp_claimBatch free ?_ ?_)
  · intro error last free
    exact wp_reportGroup ⟨free, nofun⟩ (meets _)
  · intro jobs token last nodup accepted same
    refine wp_bind.mpr (wp_withManager same accepted fun m middle own same' => ?_)
    refine wp_processGroup ((working_managed own nodup accepted).same same') ?_
    intro error last settled final same
    exact wp_reportGroup (settled.same same) (meets error)

end Single

end Custody

end OutboxFormal
