import OutboxFormal.Service.WorkerLeases

/-!
# Claims and the collector under custody

While a worker still claims, no handler of its group has begun, and a row that
was handed back is not in the ledger. Claims, the release of cancelled claims,
the checks on claimed rows and the fill loop keep this, and what the collector
returns is what the ledger holds.
-/

namespace OutboxFormal

open Library
open Library.Monitor (wp_bind wp_step)

variable {token : LeaseToken} {capability : JobCapability}

variable {jobs rows : List Job} {after before : Custody} {returns : Claimed → Custody → Prop}
variable {registration : BatchJobRegistration}

namespace Custody

variable {strict : Prop} {process : Nat} {m : BatchLeaseManager} {books : Custody}
variable {unwinds : Custody → Prop}

/-! ## Between claims -/

/-- Nothing has begun, and no id of the ledger was handed back since it was
entered, unless a later claim returned it. -/
structure Claiming (strict : Prop) (custody : Custody) : Prop where
  free : custody.locked = none
  idle : custody.begun = []
  held : strict → ∀ id ∈ custody.attempted, id ∈ custody.keys → id ∈ custody.lapsed
  unreleased : custody.distinct = true → custody.lapsed = [] →
    ∀ id ∈ custody.keys, id ∉ custody.released

/-- Further claims and releases leave the ledger alone. -/
def Onward (before after : Custody) : Prop :=
  ∃ claimed distinct lapsed released attempted, before.claimed ⊆ claimed ∧
    (distinct = true → before.distinct = true) ∧
    Same { before with
      claimed := claimed, distinct := distinct, lapsed := lapsed, released := released
      attempted := attempted } after

theorem Same.onward (same : Same before after) : Onward before after :=
  ⟨_, _, _, _, _, List.Subset.refl _, id, same⟩

theorem Onward.trans {first second third : Custody} (left : Onward first second)
    (right : Onward second third) : Onward first third := by
  obtain ⟨_, _, _, _, _, rows, flag, _, _, _, more, rfl⟩ := left
  obtain ⟨_, _, _, _, _, rows', flag', _, _, _, more', rfl⟩ := right
  exact ⟨_, _, _, _, _, List.Subset.trans rows rows', flag ∘ flag', _, _, _,
    List.Subset.trans more more', rfl⟩

theorem onward_claim (books : Custody) (rows : List Job) : Onward books (books.claim rows) := by
  refine ⟨_, _, _, _, _, List.subset_append_right rows _, ?_, Same.refl _⟩
  intro distinct
  exact (Bool.and_eq_true_iff.mp distinct).1

theorem onward_release (books : Custody) (jobIDs : List JobID) :
    Onward books (books.release jobIDs) :=
  ⟨_, _, _, _, _, List.Subset.refl _, id, Same.refl _⟩

theorem Claiming.same (claiming : Claiming strict books) (same : Same books after) :
    Claiming strict after := by
  obtain ⟨_, _, _, -, rfl⟩ := same
  exact { claiming with }

theorem mem_lapsed_claim {id : JobID} (row : id ∈ rows.map Job.id) (key : id ∈ books.keys) :
    id ∈ (books.claim rows).lapsed :=
  List.mem_append_left _ (List.mem_filter.mpr ⟨row, decide_eq_true key⟩)

theorem Claiming.claim (claiming : Claiming strict books) (rows : List Job) :
    Claiming strict (books.claim rows) := by
  refine ⟨claiming.free, claiming.idle, ?_, ?_⟩
  · intro hstrict id attempted key
    exact List.mem_append_right _ (claiming.held hstrict id (List.mem_filter.mp attempted).1 key)
  · intro distinct lapsed id key released
    have before := List.append_eq_nil_iff.mp lapsed
    exact claiming.unreleased (Bool.and_eq_true_iff.mp distinct).1 before.2 id key
      (List.mem_filter.mp released).1

/-- Handing back rows that are in the ledger only if their lease lapsed. -/
theorem Claiming.release (claiming : Claiming strict books) {jobIDs : List JobID}
    (apart : ∀ id ∈ jobIDs, id ∈ books.keys → id ∈ books.lapsed) :
    Claiming strict (books.release jobIDs) := by
  refine ⟨claiming.free, claiming.idle, ?_, ?_⟩
  · intro hstrict id attempted key
    rcases List.mem_append.mp attempted with returned | attempted
    · exact apart id returned key
    · exact claiming.held hstrict id attempted key
  · intro distinct lapsed id key released
    change books.lapsed = [] at lapsed
    rcases List.mem_append.mp released with returned | released
    · have impossible := apart id returned key
      rw [lapsed] at impossible
      cases impossible
    · exact claiming.unreleased distinct lapsed id key released

/-! ## The claim boundary -/

/-- Rows without a second release: each was just claimed. -/
theorem releasable_claim (claiming : Claiming strict books) {rows : List Job}
    {jobIDs : List JobID} (rowsOnly : ∀ id ∈ jobIDs, id ∈ rows.map Job.id)
    (nodup : jobIDs.Nodup) : (books.claim rows).Releasable jobIDs := by
  intro _ _
  refine ⟨nodup, fun id member => ⟨fun released => ?_, fun begun => ?_⟩⟩
  · have absent := of_decide_eq_true (List.mem_filter.mp released).2
    exact absent (rowsOnly id member)
  · change id ∈ books.begun at begun
    rw [claiming.idle] at begun
    cases begun

theorem mem_confirmedClaim {now : Int} {seen : List JobID} {job : Job}
    (member : job ∈ confirmedClaim token now seen jobs) :
    job ∈ jobs ∧ job.id ∉ seen := by
  induction jobs generalizing seen with
  | nil => cases member
  | cons first rest ih =>
    unfold confirmedClaim at member
    split at member
    · obtain ⟨inRest, unseen⟩ := ih member
      exact ⟨List.mem_cons_of_mem _ inRest, unseen⟩
    · rename_i confirmed
      rcases List.mem_cons.mp member with rfl | member
      · exact ⟨List.mem_cons_self, fun present => confirmed (Or.inr present)⟩
      · obtain ⟨inRest, unseen⟩ := ih member
        exact ⟨List.mem_cons_of_mem _ inRest, fun present =>
          unseen (List.mem_cons_of_mem _ present)⟩

theorem nodup_confirmedClaim (token : LeaseToken) (now : Int) (jobs : List Job)
    (seen : List JobID) : ((confirmedClaim token now seen jobs).map Job.id).Nodup := by
  induction jobs generalizing seen with
  | nil => exact List.nodup_nil
  | cons first rest ih =>
    unfold confirmedClaim
    split
    · exact ih seen
    · refine List.nodup_cons.mpr ⟨?_, ih _⟩
      intro repeated
      obtain ⟨job, member, same⟩ := List.mem_map.mp repeated
      exact (mem_confirmedClaim member).2 (same ▸ List.mem_cons_self)

theorem wp_releaseClaimedBatchTail {returns : Option OutboxError → Custody → Prop} {ctx : Ctx}
    (own : token = books.token) (releasable : books.Releasable (jobs.map Job.id))
    (meets : ∀ error last, Same (books.release (jobs.map Job.id)) last → returns error last) :
    Works strict process (Service.releaseClaimedBatchTail ctx token jobs) returns
      unwinds books := by
  unfold Service.releaseClaimedBatchTail
  split
  · rename_i empty
    rw [List.isEmpty_iff.mp empty] at meets
    exact meets none books (Same.refl _)
  · exact wp_releaseJobs own releasable meets

/-- A claim either returns rows or leaves the worker where it can claim again. -/
theorem wp_claimJobsWithLease {s : Service} {ctx : Ctx} {method : ClaimMethod}
    (claiming : Claiming strict books) (own : token = books.token)
    (failed : ∀ error last, Claiming strict last → Onward books last →
      returns ([], some error) last) (succeeded : ∀ jobs last, (strict → (jobs.map Job.id).Nodup) →
      Same (books.claim jobs) last → returns (jobs, none) last) :
    Works strict process (s.claimJobsWithLease ctx token method) returns unwinds books := by
  unfold Service.claimJobsWithLease
  refine wp_step trivial fun _ _ => wp_step trivial fun draining _ => ?_
  cases draining with
  | true =>
    refine wp_step trivial fun _ _ => ?_
    exact failed _ _ claiming (Same.refl _).onward
  | false =>
    refine wp_quietly rfl fun now _ ticked => ?_
    refine wp_step ⟨⟨process, rfl⟩, own, List.mem_cons_self, claiming.free,
      claiming.idle, claiming.held⟩ fun answer expected => ?_
    obtain ⟨rows, failure⟩ := answer
    refine wp_step trivial fun cause _ => wp_step trivial fun _ _ => ?_
    cases failure with
    | some error =>
      have same : Same books ((books.next .now now).next (.cause _) cause) :=
        ticked.trans (same_of_quiet cause rfl)
      exact failed error _ (claiming.same same) same.onward
    | none =>
      have claimed : Same (books.claim rows) ((books.next .now now).claim rows) :=
        ⟨_, _, _, List.subset_cons_self _ _, rfl⟩
      have same : Same (books.claim rows)
          (((books.next .now now).claim rows).next (.cause _) cause) :=
        claimed.trans (same_of_quiet cause rfl)
      cases cause with
      | none => exact succeeded rows _ expected same
      | some cause =>
        -- The rows are handed back before the cause is reported.
        refine wp_bind.mpr (wp_step trivial fun later _ => ?_)
        have rowsOnly : ∀ id ∈ (confirmedClaim token later [] rows).map Job.id,
            id ∈ rows.map Job.id := by
          intro id member
          obtain ⟨job, confirmed, rfl⟩ := List.mem_map.mp member
          exact List.mem_map_of_mem (mem_confirmedClaim confirmed).1
        refine wp_releaseClaimedBatchTail own
          (releasable_claim claiming rowsOnly (nodup_confirmedClaim token later rows [])) ?_
        intro error last released
        have held := (claiming.claim rows).release
          fun id member key => mem_lapsed_claim (rowsOnly id member) key
        have total : Same ((books.claim rows).release
            ((confirmedClaim token later [] rows).map Job.id)) last := by
          refine Same.trans ?_ released
          exact ⟨_, _, _, fun _ member =>
            List.mem_cons_of_mem _ (List.mem_cons_of_mem _ member), rfl⟩
        have onward : Onward books last :=
          ((onward_claim books rows).trans (onward_release _ _)).trans total.onward
        cases error <;> exact failed _ last (held.same total) onward

/-! ## Checks on claimed rows -/

/-- A row that carries the token, with a deadline later than some reading. -/
def Accepted (strict : Prop) (token : LeaseToken) (job : Job) : Prop :=
  job.leaseToken = token ∧ (strict → 0 < Ledger.deadlineOf job)

theorem accepted_of_valid {job : Job} {now : Int}
    (valid : validateClaimedJobLease job token now = none) (positive : strict → 0 < now) :
    Accepted strict token job := by
  obtain ⟨own, reserved, hreserved, live⟩ := validateClaimedJobLease_eq_none valid
  refine ⟨own, fun hstrict => ?_⟩
  rw [Ledger.deadlineOf, hreserved]
  exact (positive hstrict).trans live

theorem wp_validateClaimedLeases {returns : Option OutboxError → Custody → Prop}
    (meets : ∀ error last, Same books last →
      (error = none → ∀ job ∈ jobs, Accepted strict token job) → returns error last) :
    Works strict process (validateClaimedLeases token jobs) returns unwinds books := by
  induction jobs generalizing books with
  | nil => exact meets none books (Same.refl _) nofun
  | cons job rest ih =>
    refine wp_quietly rfl fun now expected ticked => ?_
    cases valid : validateClaimedJobLease job token now with
    | some error => exact meets _ _ ticked nofun
    | none =>
      refine ih fun error last same accepted => meets error last (ticked.trans same) ?_
      intro passed other member
      rcases List.mem_cons.mp member with rfl | member
      · exact accepted_of_valid valid fun hstrict => (expected hstrict).1
      · exact accepted passed other member

theorem wp_validateClaimedRows {returns : Option OutboxError → Custody → Prop} {seen : List JobID}
    (meets : ∀ error last, Same books last →
      (error = none → (∀ job ∈ jobs, Accepted strict token job ∧ job.id ∉ seen) ∧
        (jobs.map Job.id).Nodup) → returns error last) :
    Works strict process (validateClaimedRows capability token seen jobs) returns
      unwinds books := by
  induction jobs generalizing books seen with
  | nil =>
    refine meets none books (Same.refl _) fun _ => ⟨?_, List.nodup_nil⟩
    simp
  | cons job rest ih =>
    unfold validateClaimedRows
    split
    · exact meets _ books (Same.refl _) (by simp)
    · refine wp_quietly rfl fun now expected ticked => ?_
      cases valid : validateClaimedJobLease job token now with
      | some error => exact meets _ _ ticked (by simp)
      | none =>
        dsimp only
        split
        · exact meets _ _ ticked (by simp)
        · rename_i unseen
          refine ih fun error last same accepted => meets error last (ticked.trans same) ?_
          intro passed
          obtain ⟨rows, nodup⟩ := accepted passed
          constructor
          · intro other member
            rcases List.mem_cons.mp member with rfl | member
            · exact ⟨accepted_of_valid valid fun hstrict => (expected hstrict).1, unseen⟩
            · exact ⟨(rows other member).1, fun present =>
                (rows other member).2 (List.mem_cons_of_mem _ present)⟩
          · refine List.nodup_cons.mpr ⟨fun repeated => ?_, nodup⟩
            obtain ⟨other, member, same⟩ := List.mem_map.mp repeated
            exact (rows other member).2 (same ▸ List.mem_cons_self)

theorem wp_validateClaimedExecutionBatch {returns : Option OutboxError → Custody → Prop}
    {limit : Int} (meets : ∀ error last, Same books last →
      (error = none → (∀ job ∈ jobs, Accepted strict token job) ∧ (jobs.map Job.id).Nodup) →
      returns error last) :
    Works strict process
      (validateClaimedExecutionBatch jobs capability token limit) returns unwinds books := by
  unfold validateClaimedExecutionBatch
  split
  · exact meets _ books (Same.refl _) nofun
  · split
    · exact meets _ books (Same.refl _) nofun
    · refine wp_validateClaimedRows fun error last same accepted => meets error last same ?_
      intro passed
      exact ⟨fun job member => ((accepted passed).1 job member).1, (accepted passed).2⟩

/-! ## Execution batch claims -/

theorem Same.claim (same : Same before after) (rows : List Job) :
    Same (before.claim rows) (after.claim rows) := by
  obtain ⟨readings, sent, extended, more, rfl⟩ := same
  exact ⟨readings, sent, extended, more, rfl⟩

section Fill

variable {s : Service} {ctx : Ctx}

/-- An execution batch claim returns rows that passed every check, or leaves the
worker where it can claim again. -/
theorem wp_claimExecutionBatchForFill {maxMessages maxBytes : Int}
    (claiming : Claiming strict books) (own : token = books.token)
    (failed : ∀ error last, Claiming strict last → Onward books last →
      returns ([], some error) last)
    (succeeded : ∀ jobs last, (∀ job ∈ jobs, Accepted strict token job) →
      (jobs.map Job.id).Nodup → Same (books.claim jobs) last → returns (jobs, none) last) :
    Works strict process
      (s.claimExecutionBatchForFill ctx capability token maxMessages maxBytes) returns unwinds
      books := by
  -- Rows that fail a check stay claimed: only the books of the claim remain.
  have refused : ∀ error jobs last, Same (books.claim jobs) last →
      returns ([], some error) last := fun error jobs last same =>
    failed error last ((claiming.claim jobs).same same)
      ((onward_claim books jobs).trans same.onward)
  unfold Service.claimExecutionBatchForFill
  split
  all_goals
    refine wp_bind.mpr (wp_claimJobsWithLease claiming own (fun _ => failed _)
      fun jobs middle _ same => ?_)
    refine wp_bind.mpr (wp_validateClaimedExecutionBatch fun error last same' accepted => ?_)
    have same := same.trans same'
    cases error with
    | some error => exact refused error jobs last same
    | none => ?_
  · dsimp only
    split
    · exact refused _ jobs last same
    · exact succeeded jobs last (accepted rfl).1 (accepted rfl).2 same
  · exact succeeded jobs last (accepted rfl).1 (accepted rfl).2 same

theorem wp_claimExecutionBatchWithinFillWindow
    {returns : List Job × Bool × Option OutboxError → Custody → Prop}
    {maxMessages maxBytes deadline : Int} (claiming : Claiming strict books)
    (own : token = books.token)
    (flushed : ∀ last, Claiming strict last → Onward books last → returns ([], true, none) last)
    (failed : ∀ error last, Claiming strict last → Onward books last →
      returns ([], false, some error) last)
    (succeeded : ∀ jobs last, (∀ job ∈ jobs, Accepted strict token job) →
      (jobs.map Job.id).Nodup → Same (books.claim jobs) last → returns (jobs, false, none) last) :
    Works strict process
      (s.claimExecutionBatchWithinFillWindow ctx capability token maxMessages maxBytes deadline)
      returns unwinds books := by
  refine wp_quietly rfl fun now _ ticked => ?_
  dsimp only
  split
  · exact flushed _ (claiming.same ticked) ticked.onward
  · refine wp_bind.mpr (wp_claimExecutionBatchForFill (claiming.same ticked) own ?_ ?_)
    · intro error middle claiming' onward'
      refine wp_quietly rfl fun claimCause _ asked => ?_
      have onward := (ticked.onward.trans onward').trans asked.onward
      dsimp only
      split
      · exact failed _ _ (claiming'.same asked) onward
      · refine wp_quietly rfl fun cause _ asked' => ?_
        have claiming := claiming'.same (asked.trans asked')
        have onward := onward.trans asked'.onward
        cases cause with
        | some cause => exact failed _ _ claiming onward
        | none =>
          dsimp only
          split
          · exact flushed _ claiming onward
          · exact failed _ _ claiming onward
    · intro jobs middle accepted nodup same
      exact wp_quietly rfl fun claimCause _ asked =>
        succeeded jobs _ accepted nodup ((ticked.claim jobs).trans (same.trans asked))

/-! ## The collector -/

/-- The group is still collecting: what was entered is still in the ledger. -/
structure Collecting (strict : Prop) (custody : Custody) (m : BatchLeaseManager) : Prop where
  ready : Ready custody m
  claiming : Claiming strict custody
  left : ∀ id ∈ custody.entered, id ∈ custody.keys
  ordered : ∀ id ∈ custody.ordered, id ∈ custody.keys
  covered : ∀ id ∈ custody.keys, id ∈ custody.ordered
  nodup : custody.distinct = true → custody.ordered.Nodup

/-- The ledger holds the collected rows. -/
structure Collected (strict : Prop) (custody : Custody) (m : BatchLeaseManager)
    (jobs : List Job) : Prop extends Collecting strict custody m where
  ids : ∀ id, id ∈ custody.keys ↔ id ∈ jobs.map Job.id
  rows : ∀ job ∈ jobs, job ∈ custody.claimed

theorem Collecting.onward (collecting : Collecting strict books m) (onward : Onward books after)
    (claiming : Claiming strict after) :
    Collecting strict after m := by
  obtain ⟨_, _, _, _, _, -, flag, _, _, _, -, rfl⟩ := onward
  obtain ⟨ready, -, left, ordered, covered, nodup⟩ := collecting
  exact ⟨{ ready with }, claiming, left, ordered, covered, nodup ∘ flag⟩

theorem Collected.onward (collected : Collected strict books m jobs) (onward : Onward books after)
    (claiming : Claiming strict after) :
    Collected strict after m jobs := by
  refine ⟨collected.toCollecting.onward onward claiming, ?_, ?_⟩
  · obtain ⟨_, _, _, _, _, -, -, _, _, _, -, rfl⟩ := onward
    exact collected.ids
  · obtain ⟨_, _, _, _, _, rows, -, _, _, _, -, rfl⟩ := onward
    exact fun job member => rows (collected.rows job member)

theorem Collected.same (collected : Collected strict books m jobs) (same : Same books after) :
    Collected strict after m jobs := collected.onward same.onward (collected.claiming.same same)

theorem Collecting.enterRows (collecting : Collecting strict books m) {added : List Job}
    (claimed : ∀ job ∈ added, job ∈ rows) (fresh : ∀ job ∈ added, job.id ∉ books.keys)
    (nodup : (added.map Job.id).Nodup) :
    Collecting strict ((books.claim rows).enterRows added) m := by
  obtain ⟨ready, claiming, left, ordered, covered, distinct⟩ := collecting
  have claimedIDs : ∀ id ∈ added.map Job.id, id ∈ rows.map Job.id := by
    intro id member
    obtain ⟨job, hjob, rfl⟩ := List.mem_map.mp member
    exact List.mem_map_of_mem (claimed job hjob)
  have claiming' := claiming.claim rows
  refine ⟨⟨ready.manager, ready.token, ready.free, ?_⟩, ⟨claiming.free, claiming.idle, ?_, ?_⟩,
    ?_, ?_, ?_, ?_⟩
  · intro id member
    rcases List.mem_append.mp member with key | new
    · exact List.mem_append_right _ (ready.entered id key)
    · exact List.mem_append_left _ (List.mem_reverse.mpr new)
  · intro hstrict id attempted member
    rcases List.mem_append.mp member with key | new
    · exact claiming'.held hstrict id attempted key
    · exact absurd (claimedIDs id new) (of_decide_eq_true (List.mem_filter.mp attempted).2)
  · intro flag lapsed id member released
    rcases List.mem_append.mp member with key | new
    · exact claiming'.unreleased flag lapsed id key released
    · exact of_decide_eq_true (List.mem_filter.mp released).2 (claimedIDs id new)
  · intro id member
    rcases List.mem_append.mp member with new | entered
    · exact List.mem_append_right _ (List.mem_reverse.mp new)
    · exact List.mem_append_left _ (left id entered)
  · intro id member
    rcases List.mem_append.mp member with old | new
    · exact List.mem_append_left _ (ordered id old)
    · exact List.mem_append_right _ new
  · intro id member
    rcases List.mem_append.mp member with key | new
    · exact List.mem_append_left _ (covered id key)
    · exact List.mem_append_right _ new
  · intro flag
    refine List.nodup_append.mpr ⟨distinct (Bool.and_eq_true_iff.mp flag).1, nodup, ?_⟩
    rintro id old other new rfl
    obtain ⟨job, hjob, rfl⟩ := List.mem_map.mp new
    exact fresh job hjob (ordered _ old)

theorem Collected.enterRows (collected : Collected strict books m jobs) {added : List Job}
    (claimed : ∀ job ∈ added, job ∈ rows) (fresh : ∀ job ∈ added, job.id ∉ books.keys)
    (nodup : (added.map Job.id).Nodup) :
    Collected strict ((books.claim rows).enterRows added) m (jobs ++ added) := by
  refine ⟨collected.toCollecting.enterRows claimed fresh nodup, fun id => ?_, ?_⟩
  · rw [List.map_append]
    exact List.mem_append.trans ((or_congr_left (collected.ids id)).trans List.mem_append.symm)
  · intro job member
    rcases List.mem_append.mp member with old | new
    · exact List.mem_append_right _ (collected.rows job old)
    · exact List.mem_append_left _ (claimed job new)

theorem selectBatchPayloadLimitWithUsed_append (maxBytes used : Int) (jobs : List Job) :
    (selectBatchPayloadLimitWithUsed maxBytes used jobs).1 ++
      (selectBatchPayloadLimitWithUsed maxBytes used jobs).2 = jobs := by
  induction jobs generalizing used with
  | nil => rfl
  | cons job rest ih =>
    unfold selectBatchPayloadLimitWithUsed
    split
    · rfl
    · exact congrArg (job :: ·) (ih _)

/-- What the fill loop does with claimed rows: the selected ones are entered, the
tail is handed back. -/
theorem wp_fillSelected {claimed : List Job} {maxBytes usedBytes : Int}
    {again : List Job → Int → Go Claimed} {start : Custody}
    (collected : Collected strict books m jobs) (nodup : (claimed.map Job.id).Nodup)
    (same : Same (books.claim claimed) start)
    (fails : ∀ {jobs last} error, Collecting strict last m → returns (jobs, some error) last)
    (done : ∀ {jobs last}, Collected strict last m jobs → returns (jobs, none) last)
    (continues : ∀ {last jobs usedBytes}, Collected strict last m jobs →
      Works strict process (again jobs usedBytes) returns unwinds last) :
    Works strict process (do
        let (selected, tail) := selectBatchPayloadLimitWithUsed maxBytes usedBytes claimed
        match ← m.add selected with
        | some error => return (jobs, some error)
        | none =>
          match ← Service.releaseClaimedBatchTail ctx m.leaseToken tail with
          | some error => return (jobs ++ selected, some error)
          | none =>
            if tail.isEmpty then again (jobs ++ selected) (usedBytes + payloadBytes selected)
            else return (jobs ++ selected, none)) returns unwinds start := by
  have parts := selectBatchPayloadLimitWithUsed_append maxBytes usedBytes claimed
  generalize selectBatchPayloadLimitWithUsed maxBytes usedBytes claimed = split at parts ⊢
  obtain ⟨selected, tail⟩ := split
  subst parts
  have parts := List.nodup_append.mp (List.map_append ▸ nodup)
  have collecting : Collecting strict start m :=
    collected.toCollecting.onward ((onward_claim books _).trans same.onward)
      ((collected.claiming.claim _).same same)
  have rows : ∀ job ∈ selected, job ∈ start.claimed := by
    obtain ⟨_, _, _, -, rfl⟩ := same
    exact fun job member => List.mem_append_left _ (List.mem_append_left _ member)
  have sameKeys : start.keys = books.keys := by
    obtain ⟨_, _, _, -, rfl⟩ := same
    rfl
  refine wp_bind.mpr (wp_add collecting.ready collecting.left rows ?_)
  intro error added middle isPrefix complete fresh nodup' entered
  rw [sameKeys] at fresh
  have fromClaim : ∀ job ∈ added, job ∈ selected ++ tail := fun job member =>
    List.mem_append_left _ (isPrefix.subset member)
  have total : Same ((books.claim (selected ++ tail)).enterRows added) middle := by
    refine Same.trans ?_ entered
    obtain ⟨readings, sent, extended, more, rfl⟩ := same
    exact ⟨readings, sent, extended, more, rfl⟩
  cases error with
  | some error =>
    have stopped := collected.toCollecting.enterRows fromClaim fresh nodup'
    exact fails error (stopped.onward total.onward (stopped.claiming.same total))
  | none =>
    obtain rfl := complete rfl
    have held := collected.enterRows fromClaim fresh nodup'
    have held := held.same total
    have apart : ∀ id ∈ tail.map Job.id, id ∈ middle.keys → id ∈ middle.lapsed := by
      obtain ⟨_, _, _, -, rfl⟩ := total
      intro id inTail key
      rcases List.mem_append.mp key with key | inSelected
      · refine mem_lapsed_claim ?_ key
        exact List.map_append ▸ List.mem_append_right _ inTail
      · exact absurd rfl (parts.2.2 id inSelected id inTail)
    have releasable : middle.Releasable (tail.map Job.id) := by
      have before := @releasable_claim strict books collected.claiming (added ++ tail) _
        (fun id member => List.map_append ▸ List.mem_append_right _ member) parts.2.1
      obtain ⟨_, _, _, -, rfl⟩ := total
      exact before
    refine wp_bind.mpr (wp_releaseClaimedBatchTail held.ready.token.symm releasable ?_)
    intro error last released
    have claiming := (held.claiming.release apart).same released
    have final := held.onward ((onward_release _ _).trans released.onward) claiming
    cases error with
    | some error => exact fails error final.toCollecting
    | none =>
      dsimp only
      split
      · exact continues final
      · exact done final

/-- The fill loop stops with the ledger's rows or with an error. -/
theorem wp_fillRounds {deadline : Int} {rounds : Nat} {usedBytes : Int}
    (collected : Collected strict books m jobs)
    (meets : ∀ jobs error last, Collecting strict last m →
      (error = none → Collected strict last m jobs) → returns (jobs, error) last) :
    Works strict process
      (s.fillRounds ctx m capability registration deadline rounds jobs usedBytes) returns unwinds
      books := by
  induction rounds generalizing books jobs usedBytes with
  | zero => exact ⟨trivial, nofun⟩
  | succ rounds ih =>
    have done : ∀ {jobs last}, Collected strict last m jobs → returns (jobs, none) last :=
      fun collected => meets _ none _ collected.toCollecting fun _ => collected
    have fails : ∀ {jobs last} error, Collecting strict last m → returns (jobs, some error) last :=
      fun error collecting => meets _ (some error) _ collecting nofun
    unfold Service.fillRounds
    split
    · exact done collected
    · refine wp_quietly rfl fun now _ ticked => ?_
      have collected' := collected.same ticked
      dsimp only
      split
      · exact done collected'
      · refine wp_bind.mpr (wp_claimExecutionBatchWithinFillWindow collected'.claiming
          collected'.ready.token.symm ?_ ?_ ?_)
        · intro last claiming onward
          exact done (collected'.onward onward claiming)
        · intro error last claiming onward
          have collected := collected'.onward onward claiming
          change Works strict process (if _ then _ else _) returns unwinds last
          split
          · refine wp_quietly rfl fun now _ ticked => ?_
            have collected := collected.same ticked
            split
            · exact done collected
            · refine wp_step trivial fun wake _ => ?_
              cases wake with
              | cancelled =>
                refine wp_quietly rfl fun cause _ asked => ?_
                exact meets _ _ _ (collected.same asked).toCollecting fun _ => collected.same asked
              | drained => exact fails _ collected.toCollecting
              | elapsed => exact ih collected
          · exact fails _ collected.toCollecting
        · intro claimed last accepted nodup same
          exact wp_fillSelected collected' nodup same fails done ih

theorem wp_fillExecutionBatch {initial : List Job} (collected : Collected strict books m initial)
    (meets : ∀ jobs error last, Collecting strict last m →
      (error = none → Collected strict last m jobs) → returns (jobs, error) last) :
    Works strict process
      (s.fillExecutionBatch ctx m capability registration initial) returns unwinds books := by
  unfold Service.fillExecutionBatch
  dsimp only
  split
  · exact meets initial none books collected.toCollecting fun _ => collected
  · exact wp_quietly rfl fun now _ ticked => wp_fillRounds (collected.same ticked) meets

end Fill

/-! ## The first claim of a group -/

def opened (custody : Custody) (token : LeaseToken) : Custody := custody.next .newLeaseToken token

theorem claiming_opened (books : Custody) (token : LeaseToken) :
    Claiming strict (books.opened token) := by
  refine ⟨rfl, rfl, fun _ id attempted => ?_, fun _ _ id key => ?_⟩
  · cases attempted
  · cases key

theorem Same.opened (same : Same before after) (token : LeaseToken) :
    Same (before.opened token) (after.opened token) := by
  obtain ⟨readings, sent, extended, more, rfl⟩ := same
  exact ⟨readings, none, none, more, rfl⟩

theorem quiet_eligibleCapabilities (s : Service) (now : Int) (capabilities : List JobCapability) :
    (s.eligibleCapabilities now capabilities).Only fun effect => effect.quiet = true := by
  induction capabilities with
  | nil => exact Program.only_pure
  | cons capability rest ih =>
    exact Program.only_bind (Program.only_perform rfl) fun _ =>
      Program.only_bind ih fun _ => Program.only_pure

section First

variable {s : Service} {ctx : Ctx}

theorem wp_claimBatch {returns : List Job × LeaseToken × Option OutboxError → Custody → Prop}
    {capabilities : List JobCapability} (free : books.locked = none)
    (failed : ∀ error last, last.locked = none → returns ([], .nil, some error) last)
    (succeeded : ∀ jobs token last, (strict → (jobs.map Job.id).Nodup) →
      (∀ job ∈ jobs, Accepted strict token job) → Same ((books.opened token).claim jobs) last →
      returns (jobs, token, none) last) :
    Works strict process (s.claimBatch ctx capabilities) returns unwinds books := by
  unfold Service.claimBatch
  split
  · exact failed _ books free
  · refine wp_quietly rfl fun now _ ticked => ?_
    refine wp_bind.mpr (wp_quiet (quiet_eligibleCapabilities s now capabilities) ?_)
    intro eligible middle same
    have same := ticked.trans same
    have free' : middle.locked = none := by
      obtain ⟨_, _, _, -, rfl⟩ := same
      exact free
    split
    · exact failed _ middle free'
    · refine wp_step ⟨⟨process, rfl⟩, free'⟩ fun token _ => ?_
      refine wp_bind.mpr (wp_claimJobsWithLease (claiming_opened middle token) rfl ?_ ?_)
      · exact fun error last claiming _ => failed _ last claiming.free
      · intro jobs last nodup claimed
        have total := ((same.opened token).claim jobs).trans claimed
        have claiming : Claiming strict last :=
          ((claiming_opened books token).claim jobs).same total
        have free := claiming.free
        dsimp only
        split
        · exact failed _ last free
        · split
          · exact failed _ last free
          · refine wp_bind.mpr (wp_validateClaimedLeases ?_)
            intro error final same' accepted
            cases error with
            | some error =>
              refine failed _ final ?_
              obtain ⟨_, _, _, -, rfl⟩ := same'
              exact free
            | none => exact succeeded jobs token final nodup (accepted rfl) (total.trans same')

theorem wp_claimInitialExecutionBatch
    {returns : List Job × LeaseToken × Option OutboxError → Custody → Prop}
    (free : books.locked = none)
    (failed : ∀ error token last, Claiming strict last → Onward (books.opened token) last →
      returns ([], token, some error) last)
    (succeeded : ∀ jobs token last, (∀ job ∈ jobs, Accepted strict token job) →
      (jobs.map Job.id).Nodup → Same ((books.opened token).claim jobs) last →
      returns (jobs, token, none) last) :
    Works strict process
      (s.claimInitialExecutionBatch ctx capability registration) returns unwinds books := by
  refine wp_step ⟨⟨process, rfl⟩, free⟩ fun token _ => ?_
  exact wp_bind.mpr (wp_claimExecutionBatchForFill (claiming_opened books token) rfl
    (fun error => failed error token) fun jobs => succeeded jobs token)

end First

end Custody

end OutboxFormal
