import OutboxFormal.Library.Maintained
import OutboxFormal.Service.Dispositions

/-!
# Results of batch handlers

A result is accepted exactly if it answers every input once and nothing else.
The two loops of the check keep a map of positions and a list of errors; equally
many distinct known ids cover all inputs, so no position keeps its initial nil.
Every claimed job is then settled by the answer with its own id, whatever the
order of the answers.
-/

namespace OutboxFormal

open Library Storage GoError

structure ExactCover (input : List BatchJobItem) (result : BatchResult) : Prop where
  nonzero : ∀ item ∈ input, item.jobID.isZero = false
  distinct : (input.map BatchJobItem.jobID).Nodup
  covers : (result.map BatchItemResult.jobID).Perm (input.map BatchJobItem.jobID)

def resultError (result : BatchResult) (id : JobID) : Option OutboxError :=
  (result.find? fun item => item.jobID = id).bind BatchItemResult.err

/-! ## Positions -/

section Positions

variable {positions final : JobID → Option Nat} {index : Nat} {input : List BatchJobItem}

theorem batchPositions_ok (accepted : batchPositions positions index input = .ok final) :
    (∀ item ∈ input, item.jobID.isZero = false ∧ positions item.jobID = none) ∧
      (input.map BatchJobItem.jobID).Nodup ∧
      ∀ id, final id = if id ∈ input.map BatchJobItem.jobID
        then some (index + (input.map BatchJobItem.jobID).idxOf id) else positions id := by
  induction input generalizing positions index with
  | nil =>
    cases accepted
    exact ⟨nofun, List.nodup_nil, fun id => rfl⟩
  | cons item rest ih =>
    unfold batchPositions at accepted
    split at accepted
    · cases accepted
    · rename_i nonzero
      split at accepted
      · cases accepted
      · rename_i unseen
        obtain ⟨fresh, distinct, placed⟩ := ih accepted
        have absent : item.jobID ∉ rest.map BatchJobItem.jobID := by
          intro repeated
          obtain ⟨other, member, same⟩ := List.mem_map.mp repeated
          have free := (fresh other member).2
          rw [same, Function.update_self] at free
          cases free
        refine ⟨?_, List.nodup_cons.mpr ⟨absent, distinct⟩, ?_⟩
        · intro other member
          rcases List.mem_cons.mp member with rfl | member
          · exact ⟨Bool.not_eq_true _ ▸ nonzero, Option.not_isSome_iff_eq_none.mp unseen⟩
          · obtain ⟨nonzero, free⟩ := fresh other member
            have apart : other.jobID ≠ item.jobID := by
              intro same
              exact absent (same ▸ List.mem_map_of_mem member)
            rw [Function.update_of_ne apart] at free
            exact ⟨nonzero, free⟩
        · intro id
          rw [placed id, List.map_cons]
          by_cases same : id = item.jobID
          · subst same
            rw [if_neg absent, if_pos List.mem_cons_self, Function.update_self,
              List.idxOf_cons_self, Nat.add_zero]
          · rw [Function.update_of_ne same, List.idxOf_cons_ne _ (Ne.symm same)]
            simp only [List.mem_cons, same, false_or, Nat.succ_eq_add_one]
            rw [Nat.add_right_comm, Nat.add_assoc]

theorem batchPositions_total
    (fresh : ∀ item ∈ input, item.jobID.isZero = false ∧ positions item.jobID = none)
    (distinct : (input.map BatchJobItem.jobID).Nodup) :
    ∃ final, batchPositions positions index input = .ok final := by
  induction input generalizing positions index with
  | nil => exact ⟨positions, rfl⟩
  | cons item rest ih =>
    obtain ⟨nonzero, free⟩ := fresh item List.mem_cons_self
    obtain ⟨absent, distinct⟩ := List.nodup_cons.mp distinct
    rw [batchPositions, nonzero, free]
    apply ih _ distinct
    intro other member
    obtain ⟨nonzero, unseen⟩ := fresh other (List.mem_cons_of_mem _ member)
    have apart : other.jobID ≠ item.jobID := by
      intro same
      exact absent (same ▸ List.mem_map_of_mem member)
    rw [Function.update_of_ne apart]
    exact ⟨nonzero, unseen⟩

end Positions

/-! ## Errors by position -/

section Errors

variable {positions : JobID → Option Nat} {seen : List JobID}
variable {errs final : List (Option OutboxError)} {result : BatchResult}

/-- Every accepted answer is at the position of its id; the other positions keep
what they had. -/
theorem batchErrors_ok (accepted : batchErrors positions seen errs result = .ok final)
    (apart : ∀ first second position, positions first = some position →
      positions second = some position → first = second) :
    (∀ item ∈ result, (positions item.jobID).isSome = true ∧ item.jobID ∉ seen) ∧
      (result.map BatchItemResult.jobID).Nodup ∧ final.length = errs.length ∧
      ∀ id position, positions id = some position → position < errs.length →
        final[position]? =
          ((result.find? fun item => item.jobID = id).map BatchItemResult.err).or
            errs[position]? := by
  induction result generalizing seen errs with
  | nil =>
    cases accepted
    exact ⟨nofun, List.nodup_nil, rfl, fun _ _ _ _ => rfl⟩
  | cons item rest ih =>
    unfold batchErrors at accepted
    split at accepted
    · cases accepted
    · rename_i place located
      split at accepted
      · cases accepted
      · rename_i unseen
        obtain ⟨known, distinct, same, placed⟩ := ih accepted
        have absent : item.jobID ∉ rest.map BatchItemResult.jobID := by
          intro repeated
          obtain ⟨other, member, same⟩ := List.mem_map.mp repeated
          exact (known other member).2 (same ▸ List.mem_cons_self)
        refine ⟨?_, List.nodup_cons.mpr ⟨absent, distinct⟩, ?_, ?_⟩
        · intro other member
          rcases List.mem_cons.mp member with rfl | member
          · exact ⟨Option.isSome_iff_exists.mpr ⟨place, located⟩, unseen⟩
          · obtain ⟨known, fresh⟩ := known other member
            exact ⟨known, fun before => fresh (List.mem_cons_of_mem _ before)⟩
        · rw [same, List.length_set]
        · intro id position found inside
          rw [placed id position found (by rwa [List.length_set])]
          by_cases own : item.jobID = id
          · subst own
            obtain rfl : place = position := Option.some.inj (located.symm.trans found)
            have unanswered : rest.find? (fun other => other.jobID = item.jobID) = none := by
              rw [List.find?_eq_none]
              intro other member same
              exact absent (of_decide_eq_true same ▸ List.mem_map_of_mem member)
            rw [unanswered, List.getElem?_set_self inside]
            simp
          · have elsewhere : place ≠ position := by
              rintro rfl
              exact own (apart _ _ _ located found)
            rw [List.find?_cons_of_neg (by simpa using own), List.getElem?_set_ne elsewhere]

theorem batchErrors_total
    (known : ∀ item ∈ result, (positions item.jobID).isSome = true ∧ item.jobID ∉ seen)
    (distinct : (result.map BatchItemResult.jobID).Nodup) :
    ∃ final, batchErrors positions seen errs result = .ok final := by
  induction result generalizing seen errs with
  | nil => exact ⟨errs, rfl⟩
  | cons item rest ih =>
    obtain ⟨located, unseen⟩ := known item List.mem_cons_self
    obtain ⟨place, located⟩ := Option.isSome_iff_exists.mp located
    obtain ⟨absent, distinct⟩ := List.nodup_cons.mp distinct
    simp only [batchErrors, located, if_neg unseen]
    apply ih _ distinct
    intro other member
    obtain ⟨known, fresh⟩ := known other (List.mem_cons_of_mem _ member)
    refine ⟨known, fun before => ?_⟩
    rcases List.mem_cons.mp before with same | before
    · exact absent (same ▸ List.mem_map_of_mem member)
    · exact fresh before

end Errors

/-! ## Exact covers -/

section Covers

variable {input : List BatchJobItem} {result : BatchResult} {errs : List (Option OutboxError)}

theorem positions_apart {positions : JobID → Option Nat} {ids : List JobID}
    (placed : ∀ id, positions id = if id ∈ ids then some (ids.idxOf id) else none)
    {first second : JobID} {position : Nat} (located : positions first = some position)
    (same : positions second = some position) : first = second := by
  rw [placed] at located same
  split at located
  · rename_i member
    split at same
    · cases located
      exact ((List.idxOf_inj member).mp (Option.some.inj same).symm)
    · cases same
  · cases located

theorem exactCover_of_ok (valid : validateBatchResult input result = .ok errs) :
    ExactCover input result ∧
      errs = input.map fun item => resultError result item.jobID := by
  unfold validateBatchResult at valid
  split at valid
  · cases valid
  · rename_i lengths
    split at valid
    · cases valid
    · rename_i positions accepted
      obtain ⟨fresh, distinct, placed⟩ := batchPositions_ok accepted
      simp only [Nat.zero_add] at placed
      obtain ⟨known, once, length, found⟩ := batchErrors_ok valid
        fun _ _ _ first second => positions_apart placed first second
      have subset : result.map BatchItemResult.jobID ⊆ input.map BatchJobItem.jobID := by
        intro id reported
        obtain ⟨item, member, rfl⟩ := List.mem_map.mp reported
        have located := (known item member).1
        rw [placed] at located
        by_contra unknown
        rw [if_neg unknown] at located
        cases located
      have covers : (result.map BatchItemResult.jobID).Perm (input.map BatchJobItem.jobID) := by
        apply (List.subperm_of_subset once subset).perm_of_length_le
        rw [List.length_map, List.length_map]
        exact (not_not.mp lengths).ge
      refine ⟨⟨fun item member => (fresh item member).1, distinct, covers⟩, ?_⟩
      apply List.ext_getElem?
      intro index
      by_cases inside : index < input.length
      · have located : positions (input[index]).jobID = some index := by
          have member : (input[index]).jobID ∈ input.map BatchJobItem.jobID :=
            List.mem_map_of_mem (List.getElem_mem inside)
          have unique := distinct.idxOf_getElem index (by rwa [List.length_map])
          rw [List.getElem_map] at unique
          rw [placed, if_pos member, unique]
        rw [found _ index located (by rwa [List.length_replicate]), List.getElem?_map,
          List.getElem?_eq_getElem inside, List.getElem?_replicate, if_pos inside,
          Option.map_some, resultError]
        cases result.find? (fun item => item.jobID = (input[index]).jobID) <;> rfl
      · have beyond : input.length ≤ index := Nat.not_lt.mp inside
        rw [List.getElem?_eq_none (by rw [length, List.length_replicate]; exact beyond),
          List.getElem?_eq_none (by rwa [List.length_map])]

theorem ok_of_exactCover (cover : ExactCover input result) :
    ∃ errs, validateBatchResult input result = .ok errs := by
  have lengths : result.length = input.length := by
    simpa only [List.length_map] using cover.covers.length_eq
  obtain ⟨positions, accepted⟩ := @batchPositions_total (fun _ => none) 0 input
    (fun item member => ⟨cover.nonzero item member, rfl⟩) cover.distinct
  obtain ⟨-, -, placed⟩ := batchPositions_ok accepted
  have known : ∀ item ∈ result, (positions item.jobID).isSome = true ∧ item.jobID ∉ [] := by
    intro item member
    rw [placed, if_pos (cover.covers.mem_iff.mp (List.mem_map_of_mem member))]
    exact ⟨rfl, List.not_mem_nil⟩
  obtain ⟨errs, collected⟩ := @batchErrors_total positions []
    (List.replicate input.length none) result known
    (cover.covers.nodup_iff.mpr cover.distinct)
  refine ⟨errs, ?_⟩
  unfold validateBatchResult
  rw [if_neg (not_not.mpr lengths), accepted]
  exact collected

theorem validateBatchResult_eq_ok_iff :
    validateBatchResult input result = .ok errs ↔
      ExactCover input result ∧ errs = input.map fun item => resultError result item.jobID := by
  constructor
  · exact exactCover_of_ok
  · rintro ⟨cover, rfl⟩
    obtain ⟨errs, valid⟩ := ok_of_exactCover cover
    obtain ⟨-, same⟩ := exactCover_of_ok valid
    rw [valid, same]

namespace ExactCover

theorem answer (cover : ExactCover input result) {item : BatchJobItem} (member : item ∈ input) :
    ∃ answer ∈ result, answer.jobID = item.jobID ∧
      (∀ other ∈ result, other.jobID = item.jobID → other = answer) ∧
      resultError result item.jobID = answer.err := by
  have reported := cover.covers.mem_iff.mpr (List.mem_map_of_mem member)
  obtain ⟨answer, present, same⟩ := List.mem_map.mp reported
  have once := cover.covers.nodup_iff.mpr cover.distinct
  have unique : ∀ other ∈ result, other.jobID = item.jobID → other = answer := by
    intro other member own
    exact List.inj_on_of_nodup_map once member present (own.trans same.symm)
  refine ⟨answer, present, same, unique, ?_⟩
  unfold resultError
  cases found : result.find? (fun other => decide (other.jobID = item.jobID)) with
  | none => exact absurd (decide_eq_true same) (List.find?_eq_none.mp found answer present)
  | some first =>
    have own : first.jobID = item.jobID := by simpa using List.find?_some found
    rw [unique first (List.mem_of_find?_eq_some found) own]
    rfl

/-- The order of the answers does not matter. -/
theorem perm (cover : ExactCover input result) {other : BatchResult}
    (reordered : other.Perm result) : ExactCover input other :=
  ⟨cover.nonzero, cover.distinct, (reordered.map _).trans cover.covers⟩

theorem resultError_perm (cover : ExactCover input result) {other : BatchResult}
    (reordered : other.Perm result) {item : BatchJobItem} (member : item ∈ input) :
    resultError other item.jobID = resultError result item.jobID := by
  obtain ⟨answer, present, same, unique, reported⟩ := cover.answer member
  obtain ⟨first, there, own, -, found⟩ := (cover.perm reordered).answer member
  rw [found, reported, unique first (reordered.mem_iff.mp there) own]

end ExactCover

end Covers

/-! ## Outcomes -/

section Outcomes

variable {configured : Bool} {now maxAttempts : Int} {job : Job} {outcome : BatchJobOutcome}
variable {s : Service} {registration : BatchJobRegistration}

theorem batchOutcome_jobID {policy : RetryAttempt → RetryDelay} {failure : Option OutboxError}
    (settled : batchOutcome configured policy now maxAttempts (job, failure) = .ok outcome) :
    outcome.jobID = job.id := by
  cases failure with
  | none =>
    cases settled
    rfl
  | some error =>
    simp only [batchOutcome] at settled
    cases kind : settlement configured policy now maxAttempts job error <;>
      rw [kind] at settled <;> cases settled <;> rfl

theorem yields_retryPolicyDelay (attempt : RetryAttempt) (now : Int) :
    (Service.retryPolicyDelay attempt).Yields fun answer =>
      ∃ delay : RetryDelay, delay.settlement now =
        match answer with
        | (_, some refusal) => .failed refusal
        | (duration, none) => .retry (now + duration) := by
  intro delay
  cases delay with
  | panicked value stack => exact ⟨.panicked value stack, rfl⟩
  | delay duration =>
    by_cases negative : duration < 0
    · simp only [Program.bind, negative, if_true]
      exact ⟨.delay duration, if_pos negative⟩
    · simp only [Program.bind, negative, if_false]
      exact ⟨.delay duration, if_neg negative⟩

/-- The scheduled retry of an item, or the refusal of the policy. -/
theorem yields_retryTime (s : Service) (job : Job) (error : OutboxError) (now : Int) :
    (s.retryTime job error now (batchAttemptBackoff job.attempts)).Yields fun scheduled =>
      ∃ delay : RetryDelay,
        (retrySettlement s.retryPolicy (fun _ => delay) now job error).outcome now job =
          match scheduled with
          | (_, some refusal) => .error refusal
          | (availableAt, none) =>
            .ok { jobID := job.id, kind := .retry, availableAt := availableAt } := by
  unfold Service.retryTime retrySettlement
  rw [retryAtTime_eq]
  cases error.marks.findSome? Disposition.retryTime? with
  | some time => exact ⟨.delay 0, by rw [notBefore_eq_max]; rfl⟩
  | none =>
    dsimp only
    cases s.retryPolicy with
    | false => exact ⟨.delay 0, rfl⟩
    | true =>
      refine Program.yields_bind (yields_retryPolicyDelay _ now) ?_
      rintro ⟨duration, refusal⟩ ⟨delay, same⟩
      cases refusal <;> exact ⟨delay, congrArg (Settlement.outcome now job) same⟩

/-- Whatever the retry policy answers, an item is classified like any failure. -/
theorem yields_itemOutcome (s : Service) (capability : JobCapability)
    (registration : BatchJobRegistration) (now : Int) (job : Job) (failure : Option OutboxError) :
    (s.itemOutcome capability registration now job failure).Yields fun result =>
      ∃ delay : RetryDelay, result = batchOutcome s.retryPolicy (fun _ => delay) now
        registration.maxAttempts (job, failure) := by
  cases failure with
  | none => exact ⟨.delay 0, rfl⟩
  | some error =>
    unfold Service.itemOutcome batchOutcome settlement
    dsimp only
    by_cases lasting : isPermanent error = true
    · rw [if_pos lasting]
      simp only [(isPermanent_iff error).mp lasting, if_true]
      exact ⟨.delay 0, rfl⟩
    · rw [if_neg lasting]
      simp only [mt (isPermanent_iff error).mpr lasting, if_false, deferTime_eq]
      cases error.marks.findSome? Disposition.deferTime? with
      | some time =>
        apply Program.yields_after
        intro _
        exact ⟨.delay 0, by rw [notBefore_eq_max]; rfl⟩
      | none =>
        dsimp only
        split
        · exact ⟨.delay 0, rfl⟩
        · refine Program.yields_bind (yields_retryTime s job error now) ?_
          rintro ⟨availableAt, refusal⟩ ⟨delay, same⟩
          cases refusal <;> exact ⟨delay, same.symm⟩

/-- The outcome settles the item, for some answer of the retry policy. -/
def Settles (s : Service) (registration : BatchJobRegistration) (now : Int)
    (item : Job × Option OutboxError) (outcome : BatchJobOutcome) : Prop :=
  ∃ delay : RetryDelay, batchOutcome s.retryPolicy (fun _ => delay) now registration.maxAttempts
    item = .ok outcome

theorem Settles.jobID {item : Job × Option OutboxError}
    (settles : Settles s registration now item outcome) : outcome.jobID = item.1.id := by
  obtain ⟨delay, settled⟩ := settles
  exact batchOutcome_jobID settled

/-- Only an item without an error is acknowledged. -/
theorem Settles.success {failure : Option OutboxError}
    (settles : Settles s registration now (job, failure) outcome) (kind : outcome.kind = .success) :
    failure = none := by
  obtain ⟨delay, settled⟩ := settles
  cases failure with
  | none => rfl
  | some error =>
    simp only [batchOutcome] at settled
    cases same :
      settlement s.retryPolicy (fun _ => delay) now registration.maxAttempts job error <;>
      rw [same] at settled <;> cases settled <;> cases kind

/-- Every item has its own outcome, unless the retry policy fails. -/
theorem yields_itemOutcomes (s : Service) (capability : JobCapability)
    (registration : BatchJobRegistration) (now : Int) (items : List (Job × Option OutboxError)) :
    (s.itemOutcomes capability registration now items).Yields fun
      | .ok outcomes => List.Forall₂ (Settles s registration now) items outcomes
      | .error refusal => refusal.is .errRetryPolicy = true := by
  induction items with
  | nil => exact List.Forall₂.nil
  | cons item rest ih =>
    obtain ⟨job, failure⟩ := item
    refine Program.yields_bind (yields_itemOutcome s capability registration now job failure) ?_
    rintro first ⟨delay, own⟩
    cases first with
    | error refusal =>
      cases failure with
      | none => cases own
      | some error =>
        have failed : settlement s.retryPolicy (fun _ => delay) now registration.maxAttempts
            job error = .failed refusal := by
          simp only [batchOutcome] at own
          cases kind : settlement s.retryPolicy (fun _ => delay) now
              registration.maxAttempts job error <;> rw [kind] at own <;> cases own
          rfl
        exact (settlement_failed failed).1
    | ok outcome =>
      refine Program.yields_bind ih ?_
      intro others settled
      cases others with
      | error refusal => exact settled
      | ok outcomes => exact List.Forall₂.cons ⟨delay, own.symm⟩ settled

end Outcomes

/-! ## The finished batch -/

def OwnAnswer (result : BatchResult) (id : JobID) (answer : BatchItemResult) : Prop :=
  answer ∈ result ∧ answer.jobID = id ∧ ∀ other ∈ result, other.jobID = id → other = answer

/-- One outcome for every job in order, which settles it by its own answer. -/
def Paired (s : Service) (registration : BatchJobRegistration) (now : Int) (result : BatchResult)
    (jobs : List Job) (outcomes : List BatchJobOutcome) : Prop :=
  List.Forall₂ (fun job outcome => outcome.jobID = job.id ∧
    ∃ answer, OwnAnswer result job.id answer ∧
      Settles s registration now (job, answer.err) outcome) jobs outcomes

theorem Paired.exists_job {s : Service} {registration : BatchJobRegistration} {now : Int}
    {result : BatchResult} {jobs : List Job} {outcomes : List BatchJobOutcome}
    {outcome : BatchJobOutcome} (paired : Paired s registration now result jobs outcomes)
    (member : outcome ∈ outcomes) :
    ∃ job ∈ jobs, outcome.jobID = job.id ∧ ∃ answer, OwnAnswer result job.id answer ∧
      Settles s registration now (job, answer.err) outcome := by
  obtain ⟨index, inside, rfl⟩ := List.mem_iff_getElem.mp member
  exact ⟨_, List.getElem_mem _, paired.get (paired.length_eq ▸ inside) inside⟩

section Finished

variable {s : Service} {ctx : Ctx} {m : BatchLeaseManager} {capability : JobCapability}
variable {registration : BatchJobRegistration} {jobs : List Job} {result : BatchResult}

theorem paired_of_settles {now : Int} {outcomes : List BatchJobOutcome}
    (cover : ExactCover (jobs.map Service.batchJobItem) result)
    (settled : List.Forall₂ (Settles s registration now)
      (jobs.zip ((jobs.map Service.batchJobItem).map fun item => resultError result item.jobID))
      outcomes) : Paired s registration now result jobs outcomes := by
  rw [List.map_map, ← List.map_prod_left_eq_zip, List.forall₂_map_left_iff] at settled
  have answered : ∀ job ∈ jobs, ∃ answer, OwnAnswer result job.id answer ∧
      resultError result job.id = answer.err := by
    intro job member
    obtain ⟨answer, present, same, unique, reported⟩ :=
      cover.answer (List.mem_map_of_mem (f := Service.batchJobItem) member)
    exact ⟨answer, ⟨present, same, unique⟩, reported⟩
  refine ((List.forall₂_and_left (R := _) jobs outcomes).mpr ⟨answered, settled⟩).imp ?_
  rintro job outcome ⟨⟨answer, own, reported⟩, settles⟩
  refine ⟨settles.jobID, answer, own, ?_⟩
  rw [← reported]
  exact settles

/-- A result that is no exact cover is refused before anything is done. -/
theorem finishExecutionBatch_refused
    (uncovered : ¬ ExactCover (jobs.map Service.batchJobItem) result) :
    ∃ error, s.finishExecutionBatch ctx m capability registration jobs
      (jobs.map Service.batchJobItem) result none = pure (some error) := by
  cases valid : validateBatchResult (jobs.map Service.batchJobItem) result with
  | ok errs => exact absurd (exactCover_of_ok valid).1 uncovered
  | error error =>
    refine ⟨error, ?_⟩
    simp only [Service.finishExecutionBatch, valid]

/-- What a run of a finished batch stored: an outcome for every job at once, or
nothing and an error. -/
def StoredOnce (s : Service) (registration : BatchJobRegistration) (token : LeaseToken)
    (result : BatchResult) (jobs : List Job) (failure : Option OutboxError) (deeds : Deeds) :
    Prop :=
  (∃ now ∈ deeds.readings, ∃ outcomes, Paired s registration now result jobs outcomes ∧
    deeds.stored = [.transaction (.applyOutcomes token jobs outcomes)]) ∨
  deeds.stored = [] ∧ ∃ error, failure = some error ∧
    (error.is .errRetryPolicy = true ∨ deeds.lost = true)

def Unstored (before after : Deeds) : Prop :=
  after.stored = before.stored ∧ before.readings ⊆ after.readings

theorem Unstored.refl (deeds : Deeds) : Unstored deeds deeds := ⟨rfl, List.Subset.refl _⟩

theorem Unstored.trans {first second third : Deeds} (left : Unstored first second)
    (right : Unstored second third) : Unstored first third :=
  ⟨right.1.trans left.1, List.Subset.trans left.2 right.2⟩

theorem yields_paired (cover : ExactCover (jobs.map Service.batchJobItem) result) (now : Int) :
    (s.itemOutcomes capability registration now (jobs.zip
      ((jobs.map Service.batchJobItem).map fun item => resultError result item.jobID))).Yields fun
      | .ok outcomes => Paired s registration now result jobs outcomes
      | .error refusal => refusal.is .errRetryPolicy = true := by
  refine Program.yields_mono (yields_itemOutcomes s capability registration now _) ?_
  intro settled known
  cases settled with
  | error refusal => exact known
  | ok outcomes => exact paired_of_settles cover known

theorem wp_unstored {expected : (effect : Effect) → Answer effect → Prop} {deeds : Deeds}
    (now : Int) (items : List (Job × Option OutboxError)) :
    Records [] expected (s.itemOutcomes capability registration now items) (fun _ => Unstored deeds)
      deeds := by
  refine Monitor.wp_only Unstored.refl (fun _ _ _ => Unstored.trans) (fun _ _ _ => trivial) ?_
    (only_itemOutcomes (fun _ => id) _ _ _ _) fun _ _ kept => kept
  intro before effect answer retries
  cases effect <;> first
    | exact ⟨rfl, List.subset_cons_self _ _⟩
    | exact Unstored.refl _
    | cases retries

theorem wp_finishExecutionBatch_once {expected : (effect : Effect) → Answer effect → Prop}
    (cover : ExactCover (jobs.map Service.batchJobItem) result) :
    Records [] expected (s.finishExecutionBatch ctx m capability registration jobs
        (jobs.map Service.batchJobItem) result none)
      (StoredOnce s registration m.leaseToken result jobs) {} := by
  have valid := validateBatchResult_eq_ok_iff.mpr ⟨cover, rfl⟩
  simp only [Service.finishExecutionBatch, valid]
  refine Monitor.wp_step trivial fun _ _ => Monitor.wp_step trivial fun now _ => ?_
  refine Monitor.wp_seq (Monitor.wp_yields (yields_paired cover now) (wp_unstored _ _)) ?_
  rintro settled last ⟨known, unstored, readings⟩
  cases settled with
  | error refusal => exact Or.inr ⟨unstored, refusal, rfl, Or.inl known⟩
  | ok outcomes =>
    refine Monitor.wp_imp
      (Recording.wp_applyExecutionBatchOutcomes (.refl last) ctx jobs outcomes) ?_
    rintro failure final (stored | ⟨kept, fails, lost⟩)
    · refine Or.inl ⟨now, stored.readings (readings List.mem_cons_self), outcomes, known, ?_⟩
      exact stored.stored.trans (congrArg (_ :: ·) unstored)
    · obtain ⟨error, rfl⟩ := Option.isSome_iff_exists.mp fails
      exact Or.inr ⟨kept.stored.trans unstored, error, rfl, Or.inr lost⟩

end Finished

/-- A batch result is accepted exactly if it is an exact cover of the inputs, and
then every position reports the only answer with its id. Every run that finishes
such a batch without an error stored, once, an outcome for every claimed job that
settles it by its own answer, in any order of the answers; a run with an error
stored that or nothing. -/
theorem results_cover_inputs (input : List BatchJobItem) (result : BatchResult) :
    ((∃ errs, validateBatchResult input result = .ok errs) ↔ ExactCover input result) ∧
    (∀ errs, validateBatchResult input result = .ok errs →
      errs.length = input.length ∧
        ∀ (index : Nat) (item : BatchJobItem), input[index]? = some item →
        ∃ answer, OwnAnswer result item.jobID answer ∧ errs[index]? = some answer.err) ∧
    ∀ (s : Service) (ctx : Ctx) (m : BatchLeaseManager) (capability : JobCapability)
      (registration : BatchJobRegistration) (jobs : List Job),
      input = jobs.map Service.batchJobItem →
      (¬ ExactCover input result → ∃ error, s.finishExecutionBatch ctx m capability registration
        jobs input result none = pure (some error)) ∧
      (ExactCover input result →
        (∀ events failure, (s.finishExecutionBatch ctx m capability registration jobs input result
            none).After events (.ret failure) →
          StoredOnce s registration m.leaseToken result jobs failure
            ((recording [] fun _ _ => True).state events)) ∧
        ∀ other : BatchResult, other.Perm result →
          s.finishExecutionBatch ctx m capability registration jobs input other none =
            s.finishExecutionBatch ctx m capability registration jobs input result none) := by
  refine ⟨⟨fun ⟨errs, valid⟩ => (exactCover_of_ok valid).1, ok_of_exactCover⟩, ?_, ?_⟩
  · intro errs valid
    obtain ⟨cover, rfl⟩ := exactCover_of_ok valid
    refine ⟨List.length_map _, fun index item located => ?_⟩
    obtain ⟨answer, present, same, unique, reported⟩ := cover.answer (List.mem_of_getElem? located)
    refine ⟨answer, ⟨present, same, unique⟩, ?_⟩
    rw [List.getElem?_map, located, Option.map_some, reported]
  · rintro s ctx m capability registration jobs rfl
    refine ⟨finishExecutionBatch_refused, fun cover => ⟨fun events failure ran => ?_, ?_⟩⟩
    · exact recorded_of_after ran (fun _ _ => trivial) (wp_finishExecutionBatch_once cover)
    · intro other reordered
      have same : (jobs.map Service.batchJobItem).map (fun item => resultError other item.jobID) =
          (jobs.map Service.batchJobItem).map (fun item => resultError result item.jobID) :=
        List.map_congr_left fun item member => cover.resultError_perm reordered member
      have valid := validateBatchResult_eq_ok_iff.mpr ⟨cover, rfl⟩
      have valid' := validateBatchResult_eq_ok_iff.mpr ⟨cover.perm reordered, rfl⟩
      rw [same] at valid'
      simp only [Service.finishExecutionBatch, valid, valid']

/-- Two answers in the other order: the first job is deferred by its own answer and
the second acknowledged. -/
theorem results_cover_two_inputs :
    ∃ events, Sample.finishing.After events (.ret none) ∧
      ∃ now outcomes,
        Paired Sample.single Sample.registered now Sample.swapped Sample.pair outcomes ∧
        ((recording [] fun _ _ => True).state events).stored =
          [.transaction (.applyOutcomes Sample.token Sample.pair outcomes)] := by
  obtain ⟨accepted, -, finished⟩ := results_cover_inputs (Sample.pair.map Service.batchJobItem)
    Sample.swapped
  have cover := accepted.mp ⟨[some Sample.joined, none], by decide⟩
  obtain ⟨events, ran⟩ : ∃ events, Sample.finishing.run Sample.obliging = some (none, events) :=
    ⟨_, rfl⟩
  have after := Program.after_of_run ran
  obtain ⟨stores, -⟩ := (finished _ _ _ _ _ _ rfl).2 cover
  rcases stores events none after with ⟨now, -, outcomes, stored⟩ | ⟨-, error, absurd, -⟩
  · exact ⟨events, after, now, outcomes, stored⟩
  · cases absurd

end OutboxFormal
