import OutboxFormal.Service.BatchResults
import OutboxFormal.Service.SingleSpecs
import OutboxFormal.Service.Skeleton

/-!
# The execution-batch path and the worker under custody

One handler call covers every row of the ledger, so a batch is abandoned with
all of its rows before the call and forgotten with all of them after it. A
success outcome is only written for an item the handler reported as done.
-/

namespace OutboxFormal

open Library
open Library.Monitor (wp_bind wp_seq wp_step wp_yields)
open Library.Program (only_bind only_perform only_pure)

variable {capability : JobCapability} {registration : BatchJobRegistration}
variable {returns : Option OutboxError → Custody → Prop} {result : BatchResult} {after : Custody}
variable {unwinds : Custody → Prop} {error : OutboxError}

namespace Custody

variable {strict : Prop} {process : Nat} {m : BatchLeaseManager} {books : Custody}
variable {s : Service} {ctx : Ctx} {jobs : List Job}

/-! ## The batch handler -/

/-- After the handler call: whatever happens to the ledger, every row that was
ever entered ran. -/
structure Batched (custody : Custody) (m : BatchLeaseManager) (jobs : List Job) : Prop where
  ready : Ready custody m
  rows : ∀ job ∈ jobs, job ∈ custody.claimed
  nodup : custody.distinct = true → custody.ordered.Nodup
  ran : ∀ id ∈ custody.entered, id ∈ custody.ran

theorem Batched.attempts (batched : Batched books m jobs) {jobIDs : List JobID}
    (attempts : Attempts jobIDs books after) : Batched after m jobs := by
  obtain ⟨_, -, _, _, _, -, rfl⟩ := attempts
  obtain ⟨ready, rows, nodup, ran⟩ := batched
  exact ⟨{ ready with }, rows, nodup, ran⟩

theorem Batched.clear (batched : Batched books m jobs) {jobIDs : List JobID}
    (attempts : Attempts jobIDs { books with keys := [] } after) :
    Batched after m jobs ∧ Unstarted after := by
  obtain ⟨_, -, _, _, _, -, rfl⟩ := attempts
  obtain ⟨ready, rows, nodup, ran⟩ := batched
  exact ⟨⟨{ ready with entered := nofun }, rows, nodup, ran⟩,
    fun distinct _ => ⟨nodup distinct, nofun⟩⟩

theorem jobIDs_items (jobs : List Job) :
    (jobs.map Service.batchJobItem).map BatchJobItem.jobID = jobs.map Job.id := by
  rw [List.map_map]
  rfl

/-- An admitted batch may start every one of its items. -/
theorem Collected.startable (collected : Collected strict books m jobs)
    (live : strict → ∀ id ∈ books.keys, id ∉ books.lapsed) :
    ∀ item ∈ jobs.map Service.batchJobItem,
      books.Owns item.jobID ∧ books.Startable strict item.jobID := by
  intro item member
  obtain ⟨job, hjob, rfl⟩ := List.mem_map.mp member
  have key : job.id ∈ books.keys := (collected.ids job.id).mpr (List.mem_map_of_mem hjob)
  refine ⟨⟨job, collected.rows job hjob, rfl⟩,
    fun distinct lapsed => collected.claiming.unreleased distinct lapsed _ key, ?_⟩
  intro hstrict
  refine ⟨key, fun attempted => live hstrict _ key ?_⟩
  exact collected.claiming.held hstrict _ attempted key

/-- A result without a top-level error was reported by the handler itself. -/
def Reported (custody : Custody) (leaseToken : LeaseToken) (result : BatchResult) : Prop :=
  ∀ item ∈ result, item.err = none → (leaseToken, item.jobID) ∈ custody.succeeded

theorem Same.reported {before : Custody} {leaseToken : LeaseToken} (same : Same before after)
    (reported : Reported before leaseToken result) :
    Reported after leaseToken result := fun item member clean =>
  same.succeeded (reported item member clean)

/-- The books after the handler of a batch ended. -/
def ended (custody : Custody) (jobs : List Job) (readings : List Int)
    (succeeded : List (LeaseToken × JobID)) : Custody :=
  { custody with
    readings := readings
    begun := (jobs.map Service.batchJobItem).map BatchJobItem.jobID ++ custody.begun
    ran := (jobs.map Service.batchJobItem).map BatchJobItem.jobID ++ custody.ran
    succeeded := succeeded }

theorem Collected.batched (collected : Collected strict books m jobs) (readings : List Int)
    (succeeded : List (LeaseToken × JobID)) :
    Batched (books.ended jobs readings succeeded) m jobs := by
  obtain ⟨⟨ready, claiming, left, -, -, nodup⟩, ids, rows⟩ := collected
  refine ⟨{ ready with }, rows, nodup, ?_⟩
  intro id entered
  refine List.mem_append_left _ ?_
  rw [jobIDs_items]
  exact (ids id).mp (left id entered)

section Handler

variable {returns : BatchResult × Option OutboxError → Custody → Prop}
  (collected : Collected strict books m jobs)
  (meets : ∀ result error last, Batched last m jobs →
    (error = none → Reported last m.leaseToken result) → returns (result, error) last)
include collected meets

theorem wp_batchHandlerReturned {error : Option OutboxError} {readings : List Int}
    {succeeded : List (LeaseToken × JobID)}
    (reported : error = none → Reported (books.ended jobs readings succeeded) m.leaseToken result) :
    Works strict process (do
        match ← Go.cause ctx with
        | some cause => return ([], some cause)
        | none => return (result, error)) returns (fun _ => True)
      (books.ended jobs readings succeeded) := by
  refine wp_quietly rfl fun cause _ same => ?_
  have batched := (collected.batched readings succeeded).attempts (same.attempts [])
  cases cause with
  | some cause => exact meets _ _ _ batched (by simp)
  | none => exact meets _ _ _ batched fun clean => same.reported (reported clean)

theorem wp_executeBatchHandler (live : strict → ∀ id ∈ books.keys, id ∉ books.lapsed) :
    Works strict process (Service.executeBatchHandler ctx capability registration m.leaseToken
        (jobs.map Service.batchJobItem)) returns (fun _ => True) books := by
  refine wp_step trivial fun now _ => ?_
  refine wp_step ⟨collected.ready.token.symm, collected.startable live⟩ fun _ _ => ?_
  refine wp_step trivial fun exit _ => ?_
  cases exit with
  | goexit => exact trivial
  | panicked value =>
    exact meets _ _ _ (collected.batched (now :: books.readings) books.succeeded) (by simp)
  | returned answer =>
    obtain ⟨result, error⟩ := answer
    cases error with
    | some error => exact wp_batchHandlerReturned collected meets (by simp)
    | none =>
      refine wp_batchHandlerReturned collected meets fun _ item member clean => ?_
      refine List.mem_append_left _ (List.mem_map.mpr ⟨item, ?_, rfl⟩)
      exact List.mem_filter.mpr ⟨member, Option.isNone_iff_eq_none.mpr clean⟩

end Handler

/-! ## Outcomes -/

/-- Outcomes are written for claimed rows, and success only for items that were
reported as done. -/
def Earned (custody : Custody) (leaseToken : LeaseToken)
    (outcomes : List Storage.BatchJobOutcome) : Prop :=
  ∀ outcome ∈ outcomes, custody.Owns outcome.jobID ∧
    (outcome.kind = .success → (leaseToken, outcome.jobID) ∈ custody.succeeded)

theorem wp_topLevelBatchRetryTime {returns : Int → Custody → Prop}
    (meets : ∀ time last, Same books last → returns time last) :
    Works strict process (s.topLevelBatchRetryTime capability error) returns unwinds books := by
  refine wp_quiet ?_ meets
  refine only_bind (only_perform rfl) fun now => ?_
  split
  · exact only_bind (only_perform rfl) fun _ => only_pure
  · split
    · exact only_bind (only_perform rfl) fun _ => only_pure
    · exact only_perform rfl

section Outcomes

variable (batched : Batched books m jobs)
  (failed : ∀ error last, Batched last m jobs → returns (some error) last)
  (succeeded : ∀ last, Batched last m jobs → Unstarted last → returns none last)
include batched failed succeeded

/-- The outcomes are applied to the whole ledger or not at all. -/
theorem wp_applyExecutionBatchOutcomes {outcomes : List Storage.BatchJobOutcome}
    (earned : Earned books m.leaseToken outcomes) :
    Works strict process (s.applyExecutionBatchOutcomes ctx m jobs outcomes) returns
      (fun _ => True) books := by
  refine wp_quietly rfl fun now _ ticked => ?_
  have batched' := batched.attempts (ticked.attempts [])
  refine wp_bind.mpr (@wp_finalizeAll _ _ strict process m _ _ batched'.ready _
    (outcomes.map Storage.BatchJobOutcome.jobID) _ ?_ ?_ ?_)
  · intro start kept
    obtain ⟨_, _, _, _, -, rfl⟩ := kept
    refine ⟨⟨batched.ready.token.symm, batched.rows, earned⟩, fun answer _ => ?_⟩
    exact ⟨_, fun _ member => List.mem_append.mp member, Same.refl _⟩
  · exact fun error last attempts => failed error last (batched'.attempts attempts)
  · intro last attempts
    obtain ⟨cleared, unstarted⟩ := batched'.clear attempts
    have quiet : (s.observeBatchOutcomes jobs outcomes).Only fun effect => effect.quiet = true :=
      only_observeBatchOutcomes (by rfl) (fun _ => rfl) jobs outcomes
    refine wp_bind.mpr (wp_quiet quiet ?_)
    intro _ final same
    refine succeeded final (cleared.attempts (same.attempts [])) ?_
    obtain ⟨_, _, _, -, rfl⟩ := same
    exact unstarted

theorem wp_finishExecutionBatch {handleErr : Option OutboxError}
    (reported : handleErr = none → Reported books m.leaseToken result) :
    Works strict process (s.finishExecutionBatch ctx m capability registration jobs
        (jobs.map Service.batchJobItem) result handleErr) returns (fun _ => True) books := by
  cases handleErr with
  | some handleErr =>
    unfold Service.finishExecutionBatch
    dsimp only
    split
    · exact failed _ books batched
    · split
      · exact failed _ books batched
      · split
        · exact failed _ books batched
        · refine wp_bind.mpr (wp_topLevelBatchRetryTime fun availableAt last same => ?_)
          refine wp_applyExecutionBatchOutcomes (batched.attempts (same.attempts [])) failed
            succeeded ?_
          intro outcome member
          obtain ⟨job, row, rfl⟩ := List.mem_map.mp member
          exact ⟨⟨job, same.claimed (batched.rows job row), rfl⟩, nofun⟩
  | none =>
    unfold Service.finishExecutionBatch
    dsimp only
    split
    · exact failed _ books batched
    · rename_i errors valid
      obtain ⟨cover, rfl⟩ := exactCover_of_ok valid
      have quiet : ∀ effect : Effect, effect.ofRetries = true → effect.quiet = true :=
        fun effect retries => by cases effect <;> first | rfl | cases retries
      refine wp_step trivial fun _ _ => wp_quietly rfl fun now _ ticked => ?_
      refine wp_seq (wp_yields (yields_paired cover now)
        (wp_quiet (only_itemOutcomes quiet _ _ _ _) fun _ _ same => same)) ?_
      rintro outcomes last ⟨paired, same⟩
      have same := ticked.trans same
      cases outcomes with
      | error error => exact failed _ last (batched.attempts (same.attempts []))
      | ok outcomes =>
        refine wp_applyExecutionBatchOutcomes (batched.attempts (same.attempts [])) failed
          succeeded ?_
        intro outcome member
        obtain ⟨job, row, named, answer, own, settles⟩ := paired.exists_job member
        rw [named]
        refine ⟨⟨job, same.claimed (batched.rows job row), rfl⟩, fun success => ?_⟩
        have earned := reported rfl answer own.1 (settles.success success)
        rw [own.2.1] at earned
        exact same.succeeded earned

end Outcomes

/-! ## The group -/

section Group

variable (meets : ∀ error last, Settled error last → returns error last)
include meets

/-- A batch that stops before its handler releases every row. -/
theorem wp_abandonExecutionBatch (collecting : Collecting strict books m) :
    Works strict process (s.abandonExecutionBatch m error) returns (fun _ => True) books := by
  refine @wp_releaseRest (.run s.process) returns strict process m books
    (fun heartbeatErr releaseErr => GoError.join [some error, heartbeatErr, releaseErr])
    collecting.ready ?_ ?_ meets
  · intro distinct lapsed
    refine ⟨collecting.nodup distinct, fun id key => ?_⟩
    refine ⟨collecting.claiming.unreleased distinct lapsed id key, ?_⟩
    rw [collecting.claiming.idle]
    exact List.not_mem_nil
  · intro _ _ clean
    cases GoError.join_eq_none_iff.mp clean _ List.mem_cons_self

/-- A batch that stops after its handler leaves every row leased. -/
theorem wp_forgetExecutionBatch (batched : Batched books m jobs) :
    Works strict process (Service.forgetExecutionBatch m error) returns
      (fun _ => True) books := by
  refine wp_bind.mpr (wp_forgetAll batched.ready fun middle same => ?_)
  refine wp_bind.mpr (wp_quiet quiet_stopAndWait fun heartbeatErr last same' => ?_)
  refine meets _ last ?_
  obtain ⟨_, _, _, -, rfl⟩ := same
  obtain ⟨_, _, _, -, rfl⟩ := same'
  exact ⟨batched.ready.free, fun _ => batched.ran⟩

theorem wp_settleExecutionBatch {handleErr : Option OutboxError} (batched : Batched books m jobs)
    (reported : handleErr = none → Reported books m.leaseToken result) :
    Works strict process
      (s.settleExecutionBatch m capability registration jobs (jobs.map Service.batchJobItem)
        result handleErr) returns (fun _ => True) books := by
  refine wp_bind.mpr (wp_finishExecutionBatch batched ?_ ?_ reported)
  · intro error middle batched
    refine wp_bind.mpr (wp_forgetAll batched.ready fun last same => ?_)
    obtain ⟨cleared, unstarted⟩ := batched.clear (same.attempts [])
    exact wp_releaseRest cleared.ready unstarted (fun _ _ _ => cleared.ran) meets
  · intro last batched unstarted
    exact wp_releaseRest batched.ready unstarted (fun _ _ _ => batched.ran) meets

theorem wp_runExecutionBatch (collected : Collected strict books m jobs) :
    Works strict process (s.runExecutionBatch m capability registration jobs)
      returns (fun _ => True) books := by
  refine wp_bind.mpr (wp_admitBatch collected.ready fun error middle same live => ?_)
  have admitted := collected.same same
  cases error with
  | some error => exact wp_abandonExecutionBatch meets admitted.toCollecting
  | none =>
    have live' : strict → ∀ id ∈ middle.keys, id ∉ middle.lapsed := by
      obtain ⟨_, _, _, -, rfl⟩ := same
      exact fun hstrict => live hstrict rfl
    refine wp_bind.mpr (wp_executeBatchHandler admitted ?_ live')
    intro result handleErr last batched reported
    refine wp_step trivial fun cause _ => ?_
    cases cause with
    | some cause => exact wp_forgetExecutionBatch meets batched
    | none =>
      cases panicked : handleErr.filter Service.isHandlerPanic with
      | some error => exact wp_forgetExecutionBatch meets batched
      | none => exact wp_settleExecutionBatch meets batched reported

end Group

theorem Collected.sorted (collected : Collected strict books m jobs) :
    Collected strict books m (sortExecutionBatchJobs jobs) := by
  have perm : (sortExecutionBatchJobs jobs).Perm jobs := List.perm_insertionSort _ jobs
  refine ⟨collected.toCollecting, fun id => ?_, fun job member => ?_⟩
  · exact (collected.ids id).trans (perm.map Job.id).mem_iff.symm
  · exact collected.rows job (perm.mem_iff.mp member)

theorem wp_processExecutionBatch {returns : Nat × Option OutboxError → Custody → Prop}
    (collected : Collected strict books m jobs)
    (meets : ∀ count error last, Settled error last → returns (count, error) last) :
    Works strict process
      (s.processExecutionBatch capability registration m jobs) returns (fun _ => True) books := by
  refine wp_bind.mpr (wp_fillExecutionBatch collected fun filled error last collecting done => ?_)
  cases error with
  | some error => exact wp_bind.mpr (wp_abandonExecutionBatch (meets filled.length) collecting)
  | none => exact wp_bind.mpr (wp_runExecutionBatch (meets filled.length) (done rfl).sorted)

/-- The ledger of a new manager holds the rows of the first claim. -/
theorem collected_managed {token : LeaseToken} (own : m.leaseToken = token)
    (nodup : (jobs.map Job.id).Nodup) :
    Collected strict (((books.opened token).claim jobs).managed m jobs) m jobs := by
  refine ⟨⟨⟨rfl, own.symm, rfl, ?_⟩, ⟨rfl, rfl, ?_, ?_⟩, ?_, ?_, ?_, ?_⟩, ?_, ?_⟩
  · exact fun id key => mem_enterIDs.mpr (Or.inl key)
  · exact nofun
  · exact fun _ _ _ _ => List.not_mem_nil
  · intro id entered
    exact (mem_enterIDs.mp entered).resolve_right List.not_mem_nil
  · intro id member
    change id ∈ (Ledger.ofJobs jobs).ids
    rw [Ledger.ids_ofJobs nodup]
    change id ∈ (Ledger.ofJobs jobs).orderedIDs at member
    rwa [Ledger.orderedIDs_ofJobs] at member
  · exact fun id member => Ledger.ordered_ofJobs member
  · intro _
    change (Ledger.ofJobs jobs).orderedIDs.Nodup
    rw [Ledger.orderedIDs_ofJobs]
    exact nodup
  · intro id
    change id ∈ (Ledger.ofJobs jobs).ids ↔ _
    rw [Ledger.ids_ofJobs nodup]
  · exact fun job member => List.mem_append_left _ member

theorem wp_findAndProcessExecutionBatch {returns : Bool × Option OutboxError → Custody → Prop}
    (free : books.locked = none)
    (meets : ∀ claimed error last, last.locked = none → returns (claimed, error) last) :
    Works strict process (s.findAndProcessExecutionBatch capability) returns
      (fun _ => True) books := by
  have refused : ∀ {count error last}, last.locked = none →
      Works strict process (s.reportGroup count (some error))
        (fun value last => returns (false, value) last) (fun _ => True) last := fun free =>
    wp_reportGroup ⟨free, nofun⟩ (meets false _)
  unfold Service.findAndProcessExecutionBatch
  split
  · exact wp_bind.mpr (refused free)
  · split
    · exact wp_bind.mpr (refused free)
    · refine wp_bind.mpr (wp_claimInitialExecutionBatch free ?_ ?_)
      · intro error token last claiming onward
        dsimp only
        split
        · refine wp_bind.mpr (wp_reportGroup ⟨claiming.free, fun _ id entered => ?_⟩
            (meets false none))
          obtain ⟨_, _, _, _, _, -, -, _, _, _, -, rfl⟩ := onward
          cases entered
        · exact wp_bind.mpr (refused claiming.free)
      · intro jobs token last accepted nodup same
        refine wp_bind.mpr (wp_withManager same accepted fun m middle own same' => ?_)
        refine wp_processExecutionBatch ((collected_managed own nodup).same same')
          fun count error last settled final same => ?_
        exact wp_bind.mpr (wp_reportGroup (settled.same same) (meets true error))

/-! ## Workers -/

theorem turns (strict : Prop) (s : Service) :
    Turns (custody strict (.worker s.process)) s (fun books => books.locked = none)
      (fun _ books => books.locked = none) (fun _ => True) where
  between effect turn books free := by
    cases effect with
    | isDraining | err | waitForWorker | halt => exact ⟨trivial, fun _ _ => free⟩
    | returned result =>
      cases result with
      | group => cases turn
      | runWorker => exact ⟨trivial, fun _ _ => free⟩
    | _ => cases turn
  checks capability books free := by
    refine wp_step trivial fun now _ => ?_
    refine ⟨trivial, fun paused _ => ?_⟩
    cases paused <;> exact free
  single capabilities books free := wp_findAndProcessBatch free fun _ _ free => free
  batch capability books free := wp_findAndProcessExecutionBatch free fun _ _ _ free => free

/-- A worker meets the custody monitor from its start to its end. -/
theorem watched_worker (strict : Prop) (s : Service) (index : Nat) :
    (Thread.start (Role.worker s.process, s.worker index)).Watched (custody strict) :=
  (turns strict s).watched rfl (fun _ _ => trivial) index

end Custody

end OutboxFormal
