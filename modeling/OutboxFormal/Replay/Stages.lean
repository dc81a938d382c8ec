import OutboxFormal.Replay.World

/-!
# The stages of a replay

What a call has done so far determines which statement it may issue next, and
with which arguments.
-/

namespace OutboxFormal.Replay

open Library Storage
open Library.Monitor (wp_bind wp_pure wp_seq wp_step)

variable {source : Source} {baseline : Option Record} {key : Bytes} {admission : Admission}

/-- Where a call stands; the last three remember where its transaction ended. -/
inductive Stage where
  | idle
  | begun
  | missing
  | locked (source : Source)
  | prior (source : Source) (record : Record)
  | unrecorded (source : Source)
  | based (source : Source) (baseline : Option Record)
  | quiet (source : Source) (baseline : Option Record)
  | staged (source : Source) (baseline : Option Record) (jobID : JobID)
  | queued (source : Source) (baseline : Option Record) (jobID : JobID)
  | recorded (record : Record)
  | refused
  | failed
  | done (stage : Stage)
  | uncertain (stage : Stage)
  | closed (stage : Stage)

def retained (source : Source) : Option Record → Source
  | none => source
  | some baseline => source.withKeyOf baseline.source

def Stage.next : Stage → (statement : Statement) → Reply statement → Stage
  | stage, .contextErr, none => stage
  | _, .contextErr, some _ => .failed
  | _, .begin_, .ok () => .begun
  | _, .begin_, .error _ => .failed
  | _, .source _, .ok none => .missing
  | _, .source _, .ok (some source) => .locked source
  | _, .source _, .error _ => .failed
  | .locked source, .byRequestID _, .ok none => .unrecorded source
  | .locked source, .byRequestID _, .ok (some record) => .prior source record
  | _, .byRequestID _, .ok _ => .refused
  | _, .byRequestID _, .error _ => .failed
  | .unrecorded source, .byFailedJobID _, .ok baseline => .based source baseline
  | _, .byFailedJobID _, .ok _ => .refused
  | _, .byFailedJobID _, .error _ => .failed
  | .based source baseline, .active .., .ok false => .quiet (retained source baseline) baseline
  | _, .active .., .ok _ => .refused
  | _, .active .., .error _ => .failed
  | stage, .clock, _ => stage
  | .quiet source baseline, .create _, .ok result =>
    if result.created then .staged source baseline result.jobID else .refused
  | _, .create _, .ok _ => .refused
  | _, .create _, .error _ => .failed
  | .staged source baseline jobID, .queue .., .ok affected =>
    if affected = 1 then .queued source baseline jobID else .refused
  | _, .queue .., .ok _ => .refused
  | _, .queue .., .error _ => .failed
  | _, .record requestID source jobID businessKey, .ok createdAt =>
    .recorded ⟨requestID, jobID, source, businessKey, createdAt⟩
  | _, .record .., .error (.requestID _) => .refused
  | _, .record .., .error (.other _) => .failed
  | stage, .commit, .ok () => .done stage
  | stage, .commit, .error _ => .uncertain stage
  | stage, .rollback, _ => .closed stage
  | stage, .returns _, _ => stage

/-- The checks before the first statement. -/
structure Invocation.WellFormed (invocation : Invocation) : Prop where
  configured : invocation.configured = true
  outermost : invocation.nested = false
  requestID : invocation.request.requestID ≠ .nil
  failedJobID : invocation.request.failedJobID ≠ .nil
  admission : invocation.admission ≠ none

def Invocation.Confirms (invocation : Invocation) (source : Source) (record : Record) : Prop :=
  source.withKeyOf record.source = record.source ∧
    ∀ admission, invocation.admission = some admission →
      admission record.source = .returned record.businessKey

/-- A stage before the commit at which a call gives up. -/
def Stage.Stops (invocation : Invocation) : Stage → Prop
  | .idle | .begun | .done _ | .uncertain _ | .closed _ => False
  | .locked source => validateSource source ≠ .ok ()
  | .prior source record => ¬ invocation.Confirms source record
  | _ => True

def CommitFailed (error : OutboxError) : Prop :=
  ∃ cause, error = errorContext "replay" (errorContext "commit failed" cause) ∨
    ∃ rollback, error = errorContext "replay"
      (GoError.joinTwo (errorContext "commit failed" cause)
        (errorContext "rollback failed" rollback))

/-- The result a call may commit. -/
def Stage.Yields (stage : Stage) (result : Result) : Prop :=
  (∃ record, stage = .recorded record ∧ result = ⟨record, true⟩) ∨
    ∃ source record, stage = .prior source record ∧ result = ⟨record, false⟩

def Stage.allows (invocation : Invocation) (stage : Stage) : Statement → Prop
  | .contextErr => stage = .idle
  | .begin_ => stage = .idle ∧ invocation.WellFormed
  | .source id => stage = .begun ∧ id = invocation.request.failedJobID
  | .byRequestID id => ∃ source, stage = .locked source ∧ id = invocation.request.requestID
  | .byFailedJobID id => ∃ source, stage = .unrecorded source ∧ id = source.failedJobID
  | .active originalJobID failedJobID => ∃ source baseline, stage = .based source baseline ∧
      (∀ record, baseline = some record → source.withKeyOf record.source = record.source) ∧
      originalJobID = source.originalJobID ∧ failedJobID = source.failedJobID
  | .clock => True
  | .create put => ∃ source baseline, stage = .quiet source baseline ∧
      put.deduplicationKey = replayKey invocation.request.requestID
  | .queue _ id => ∃ source baseline, stage = .staged source baseline id
  | .record requestID source jobID businessKey =>
    ∃ baseline, stage = .queued source baseline jobID ∧
      requestID = invocation.request.requestID ∧ requestID ≠ .nil ∧
      validateSource source = .ok () ∧
      ∀ record, baseline = some record → record.requestID ≠ .nil →
        businessKey = record.businessKey
  | .commit => ∃ result, stage.Yields result
  | .rollback => stage.Stops invocation ∨ ∃ before, stage = .uncertain before
  | .returns (.returned result) => ∃ before : Stage, stage = .done before ∧ before.Yields result
  | .returns (.failed error) =>
    (∃ before : Stage, stage = .closed before ∧
      (before.Stops invocation ∨ (∃ last, before = .uncertain last) ∧ CommitFailed error)) ∨
    stage = .failed ∨ stage = .idle ∧ ¬ invocation.WellFormed
  | .returns _ => False

/-- A failed lookup is not a missing record. -/
def Expected : (statement : Statement) → Reply statement → Prop
  | .byRequestID _, .error error => error.is (.replay .errReplayNotFound) = false
  | .byFailedJobID _, .error error => error.is (.replay .errReplayNotFound) = false
  | _, _ => True

def replaying (invocation : Invocation) : Monitor Reply Stage where
  start := .idle
  next := Stage.next
  allowed := Stage.allows invocation
  expects := fun _ => Expected

/-! ## The program follows the stages -/

section Program

variable {invocation : Invocation}

/-- What the callback leaves: a result to commit, or a reason to roll back. -/
def Finished (invocation : Invocation) : Exit Result → Stage → Prop
  | .returned result, stage => stage.Yields result
  | _, stage => stage.Stops invocation

theorem wp_retain {jobID : JobID} (named : invocation.request.requestID ≠ .nil)
    (valid : validateSource source = .ok ())
    (agrees : ∀ record, baseline = some record → record.requestID ≠ .nil →
      key = record.businessKey) :
    (replaying invocation).wp (retain invocation.request.requestID source key jobID)
      (Finished invocation) (fun _ => True) (.staged source baseline jobID) := by
  refine wp_step ⟨source, baseline, rfl⟩ fun affected _ => ?_
  match affected with
  | .error error => trivial
  | .ok affected =>
    dsimp only
    split
    · rename_i other
      have stops : Stage.next (.staged source baseline jobID) (.queue source.queue jobID)
          (Except.ok affected) = .refused := if_neg other
      change Stage.Stops invocation (Stage.next (.staged source baseline jobID)
        (.queue source.queue jobID) (Except.ok affected))
      rw [stops]
      trivial
    · rename_i one
      have continues : Stage.next (.staged source baseline jobID) (.queue source.queue jobID)
          (Except.ok affected) = .queued source baseline jobID := if_pos (not_not.mp one)
      change (replaying invocation).wp _ _ _ (Stage.next (.staged source baseline jobID)
        (.queue source.queue jobID) (Except.ok affected))
      rw [continues]
      refine wp_step ⟨baseline, rfl, rfl, named, valid, agrees⟩ fun answer _ => ?_
      match answer with
      | .ok createdAt => exact Or.inl ⟨_, rfl, rfl⟩
      | .error (.requestID error) => trivial
      | .error (.other error) => trivial

theorem wp_stage (named : invocation.request.requestID ≠ .nil)
    (valid : validateSource source = .ok ())
    (agrees : ∀ record, baseline = some record → record.requestID ≠ .nil →
      key = record.businessKey) :
    (replaying invocation).wp (stage invocation.request.requestID source key)
      (Finished invocation) (fun _ => True) (.quiet source baseline) := by
  refine wp_step trivial fun now _ => ?_
  refine wp_step ⟨source, baseline, rfl, rfl⟩ fun answer _ => ?_
  match answer with
  | .error error =>
    dsimp only
    split <;> trivial
  | .ok result =>
    obtain ⟨jobID, created⟩ := result
    cases created with
    | false => trivial
    | true => exact wp_retain named valid agrees

theorem wp_admitted (named : invocation.request.requestID ≠ .nil)
    (valid : validateSource source = .ok ())
    (retains : ∀ record, baseline = some record → source.withKeyOf record.source = record.source) :
    (replaying invocation).wp
      (admitted invocation.request.requestID (retained source baseline) baseline key)
      (Finished invocation) (fun _ => True) (.based source baseline) := by
  have sameValid : validateSource (retained source baseline) = .ok () := by
    cases baseline <;> exact valid
  have original : (retained source baseline).originalJobID = source.originalJobID := by
    cases baseline <;> rfl
  have failedJob : (retained source baseline).failedJobID = source.failedJobID := by
    cases baseline <;> rfl
  unfold admitted
  split
  · trivial
  split
  · trivial
  rename_i conflicts
  refine wp_step ⟨source, baseline, rfl, retains, original, failedJob⟩ fun answer _ => ?_
  match answer with
  | .error error => trivial
  | .ok true => trivial
  | .ok false =>
    refine wp_stage named sameValid fun record present zero => ?_
    subst present
    by_contra differs
    refine conflicts ?_
    simp [MessageID.isZero, zero, differs]

/-- The host admits the retained source of a first request. -/
theorem wp_admission (admission : Admission) (baseline : Option Record)
    (named : invocation.request.requestID ≠ .nil) (valid : validateSource source = .ok ())
    (retains : ∀ record, baseline = some record →
      source.withKeyOf record.source = record.source) :
    (replaying invocation).wp
      (match admission (retained source baseline) with
      | .failed error => pure (.failed (errorContext "host admission" error))
      | .panicked value => pure (.panicked value)
      | .goexit => pure .goexit
      | .returned key =>
        admitted invocation.request.requestID (retained source baseline) baseline key)
      (Finished invocation) (fun _ => True) (.based source baseline) := by
  split
  · trivial
  · trivial
  · trivial
  · exact wp_admitted named valid retains

theorem wp_first (named : invocation.request.requestID ≠ .nil)
    (valid : validateSource source = .ok ()) :
    (replaying invocation).wp (first invocation.request.requestID admission source)
      (Finished invocation) (fun _ => True) (.unrecorded source) := by
  refine wp_bind.mpr (wp_step ⟨source, rfl, rfl⟩ fun answer expected => ?_)
  rcases answer with error | _ | baseline
  · have other : (errorContext "read replay provenance" error).is
        (.replay .errReplayNotFound) = false := expected
    dsimp only [found]
    rw [other, if_neg Bool.false_ne_true]
    trivial
  · exact wp_admission admission none named valid (by simp)
  · dsimp only [found]
    split
    · trivial
    · rename_i same
      refine wp_admission admission (some baseline) named valid ?_
      rintro record ⟨⟩
      exact not_not.mp same

theorem finished_repeated (given : invocation.admission = some admission) (source : Source)
    (prior : Record) :
    Finished invocation (repeated admission source prior) (.prior source prior) := by
  unfold repeated
  split
  · rename_i differs
    exact fun confirms => differs confirms.1
  · have refuses : ∀ exit : Exit Bytes, admission prior.source = exit →
        exit ≠ .returned prior.businessKey → ¬ invocation.Confirms source prior := by
      intro exit answered other confirms
      exact other (answered.symm.trans (confirms.2 admission given))
    split
    · rename_i error answered
      exact refuses _ answered nofun
    · rename_i value answered
      exact refuses _ answered nofun
    · rename_i answered
      exact refuses _ answered nofun
    · rename_i key answered
      split
      · rename_i differs
        exact refuses _ answered fun same => differs (Exit.returned.inj same)
      · exact Or.inr ⟨source, prior, rfl, rfl⟩

theorem wp_replay (given : invocation.admission = some admission)
    (named : invocation.request.requestID ≠ .nil) :
    (replaying invocation).wp (replay invocation.request admission)
      (Finished invocation) (fun _ => True) .begun := by
  refine wp_bind.mpr (wp_step ⟨rfl, rfl⟩ fun answer _ => ?_)
  match answer with
  | .error error => trivial
  | .ok none => trivial
  | .ok (some source) =>
    dsimp only
    rw [wp_pure]
    dsimp only
    cases valid : validateSource source with
    | error error =>
      change validateSource source ≠ .ok ()
      rw [valid]
      exact nofun
    | ok _ =>
      refine wp_bind.mpr (wp_step ⟨source, rfl, rfl⟩ fun answer expected => ?_)
      match answer with
      | .error error =>
        have other : (errorContext "read replay provenance" error).is
            (.replay .errReplayNotFound) = false := expected
        rw [wp_pure]
        dsimp only [found]
        rw [if_pos (by rw [other]; rfl)]
        trivial
      | .ok none => exact wp_first named valid
      | .ok (some prior) => exact finished_repeated given source prior

/-- What a transaction leaves for the return of the call. -/
def Closed (invocation : Invocation) : Exit Result → Stage → Prop
  | .returned result, stage => ∃ before : Stage, stage = .done before ∧ before.Yields result
  | .failed error, stage =>
    (∃ before : Stage, stage = .closed before ∧ (before.Stops invocation ∨
      (∃ last, before = .uncertain last) ∧ CommitFailed (errorContext "replay" error))) ∨
    stage = .failed
  | .panicked _, _ => False
  | .goexit, _ => True

theorem wp_rollBack {error : OutboxError} {stage : Stage} (stops : stage.Stops invocation) :
    (replaying invocation).wp (rollBack error) (Closed invocation) (fun _ => True) stage := by
  refine wp_step (Or.inl stops) fun answer _ => ?_
  match answer with
  | none => exact Or.inl ⟨stage, rfl, Or.inl stops⟩
  | some rollback => exact Or.inl ⟨stage, rfl, Or.inl stops⟩

theorem wp_commit {result : Result} {stage : Stage} (yields : stage.Yields result) :
    (replaying invocation).wp (commit result) (Closed invocation) (fun _ => True) stage := by
  refine wp_step ⟨result, yields⟩ fun answer _ => ?_
  match answer with
  | .ok () => exact ⟨stage, rfl, yields⟩
  | .error cause =>
    refine wp_step (Or.inr ⟨stage, rfl⟩) fun answer _ => ?_
    match answer with
    | none => exact Or.inl ⟨.uncertain stage, rfl, Or.inr ⟨⟨stage, rfl⟩, cause, Or.inl rfl⟩⟩
    | some rollback =>
      exact Or.inl ⟨.uncertain stage, rfl,
        Or.inr ⟨⟨stage, rfl⟩, cause, Or.inr ⟨rollback, rfl⟩⟩⟩

theorem wp_readCommitted {callback : Repo (Exit Result)} (well : invocation.WellFormed)
    (meets : (replaying invocation).wp callback (Finished invocation) (fun _ => True) .begun) :
    (replaying invocation).wp (readCommitted callback) (Closed invocation) (fun _ => True)
      .idle := by
  refine wp_step ⟨rfl, well⟩ fun answer _ => ?_
  match answer with
  | .error error => exact Or.inr rfl
  | .ok () =>
    refine wp_seq meets ?_
    intro exit stage finished
    cases exit with
    | returned result => exact wp_commit finished
    | failed error => exact wp_rollBack finished
    | panicked value => exact wp_rollBack finished
    | goexit => exact wp_step (Or.inl finished) fun _ _ => trivial

theorem watched_program (invocation : Invocation) :
    (Thread.start (invocation, invocation.program)).Watched replaying := by
  have refuses : ∀ error : OutboxError, ¬ invocation.WellFormed →
      (replaying invocation).wp (conclude (.failed error)) (fun _ _ => True) (fun _ => True)
        .idle :=
    fun error ill => ⟨Or.inr (Or.inr ⟨rfl, ill⟩), fun _ _ => trivial⟩
  refine wp_bind.mpr ?_
  unfold Invocation.replay
  split
  · rename_i unconfigured
    exact refuses _ fun well => by simp [well.configured] at unconfigured
  rename_i configured
  split
  · rename_i zero
    refine refuses _ fun well => ?_
    simp [MessageID.isZero, JobID.isZero, well.requestID, well.failedJobID] at zero
  rename_i ids
  split
  · rename_i absent
    exact refuses _ fun well => well.admission absent
  rename_i admission given
  refine wp_step rfl fun answer _ => ?_
  cases answer with
  | some error => exact ⟨Or.inr (Or.inl rfl), fun _ _ => trivial⟩
  | none =>
    dsimp only
    split
    · rename_i nested
      exact refuses _ fun well => by simp [well.outermost] at nested
    rename_i outermost
    have well : invocation.WellFormed := by
      simp only [Bool.or_eq_true, MessageID.isZero, JobID.isZero, decide_eq_true_eq,
        not_or] at ids
      exact ⟨by simpa using configured, by simpa using outermost, ids.1, ids.2, by simp [given]⟩
    refine wp_seq (wp_readCommitted well (wp_replay given well.requestID)) ?_
    intro exit stage closed
    cases exit with
    | returned result => exact ⟨closed, fun _ _ => trivial⟩
    | failed error =>
      exact ⟨closed.imp_right Or.inl, fun _ _ => trivial⟩
    | panicked value => cases closed
    | goexit => trivial

end Program

end OutboxFormal.Replay
