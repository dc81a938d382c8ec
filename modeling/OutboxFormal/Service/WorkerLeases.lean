import OutboxFormal.Service.Footprints
import OutboxFormal.Service.LeaseSpecs

/-!
# The lease manager in the hands of its worker

Specifications of the methods only the worker calls: admission, finalization,
entering further rows, and the ways rows leave the ledger without one.
-/

namespace OutboxFormal

open Library
open Library.Monitor (wp_bind wp_mono wp_step)
open Library.Program (only_bind only_perform only_pure)

variable {returns : Option OutboxError → Custody → Prop} {ctx : Ctx} {ledger : Ledger}
variable {start last : Custody}

namespace Custody

variable {strict : Prop} {process : Nat} {m : BatchLeaseManager} {books : Custody}
variable {unwinds : Custody → Prop}

/-- The worker has a lease manager and does not hold its mutex. -/
structure Ready (custody : Custody) (m : BatchLeaseManager) : Prop where
  manager : custody.manager = some m
  token : custody.token = m.leaseToken
  free : custody.locked = none
  entered : ∀ id ∈ custody.keys, id ∈ custody.entered

theorem wp_worker_store {after : Ledger} {returns : Unit → Custody → Prop}
    (holding : Holding strict start m ledger) (justified : start.Justified ledger after)
    (bounded : strict → after.Bounded) (meets : returns () (start.hold m.group after)) :
    Works strict process (Go.store m.group after) returns unwinds start :=
  ⟨⟨ledger, holding.locked, justified, bounded, nofun⟩,
    fun _ _ => meets⟩

/-- A finalization attempted for at most these rows. -/
def Attempts (jobIDs : List JobID) (before after : Custody) : Prop :=
  ∃ attempted, (∀ id ∈ attempted, id ∈ jobIDs ∨ id ∈ before.attempted) ∧
    Same { before with attempted := attempted } after

theorem Same.attempts {before after : Custody} (same : Same before after) (jobIDs : List JobID) :
    Attempts jobIDs before after := ⟨before.attempted, fun _ member => Or.inr member, same⟩

theorem Kept.attempted {before middle : Custody} {attempted : List JobID}
    (kept : Kept before middle) (same : Same { middle with attempted := attempted } last) :
    Kept { before with attempted := attempted } last := by
  obtain ⟨readings, sent, extended, locked, more, rfl⟩ := kept
  obtain ⟨readings', sent', extended', more', rfl⟩ := same
  exact ⟨readings', sent', extended', locked, List.Subset.trans more more', rfl⟩

/-- The books after a release was attempted. -/
def release (custody : Custody) (jobIDs : List JobID) : Custody :=
  { custody with
    released := jobIDs ++ custody.released
    attempted := jobIDs ++ custody.attempted }

theorem wp_releaseJobs {role : Role} {what : String} {jobIDs : List JobID} {leaseToken : LeaseToken}
    (token : leaseToken = books.token) (releasable : books.Releasable jobIDs)
    (meets : ∀ error last, Same (books.release jobIDs) last → returns error last) :
    (custody strict role).wp (releaseJobs what ctx jobIDs leaseToken) returns unwinds books := by
  unfold releaseJobs
  refine wp_step trivial fun first _ => wp_step trivial fun now _ => ?_
  refine wp_step ⟨token, releasable⟩ fun answer _ => ?_
  have same : Same (books.release jobIDs)
      { books.release jobIDs with readings := now :: first :: books.readings } :=
    ⟨_, _, _, fun _ member => List.mem_cons_of_mem _ (List.mem_cons_of_mem _ member), rfl⟩
  obtain ⟨affected, failure⟩ := answer
  cases failure with
  | some error => exact meets _ _ same
  | none =>
    dsimp only
    split <;> exact meets _ _ same

section Ready

variable (ready : Ready books m)
include ready

theorem Ready.same {after : Custody} (same : Same books after) :
    Ready after m := by
  obtain ⟨readings, sent, extended, -, rfl⟩ := same
  exact { ready with }

/-- Taking the mutex changes nothing in the worker's books. -/
theorem Ready.hold (ids : ledger.ids = books.keys) (ordered : ledger.orderedIDs = books.ordered) :
    Kept books (books.hold m.group ledger) := by
  refine ⟨books.readings, none, none, some (m.group, ledger), List.Subset.refl _, ?_⟩
  have entered := enterIDs_of_subset (ids ▸ ready.entered)
  unfold Custody.hold
  rw [entered, ids, ordered]

theorem Ready.unlocked (kept : Kept books last) :
    Same books last.unlocked := by
  obtain ⟨readings, sent, extended, locked, more, rfl⟩ := kept
  refine ⟨readings, none, none, more, ?_⟩
  rw [Custody.unlocked, ready.free]

/-- What the worker's critical sections owe. -/
abbrev Guarded {α : Type} (strict : Prop) (process : Nat) (m : BatchLeaseManager) (books : Custody)
    (body : Ledger → Go α) (returns : α → Custody → Prop) : Prop :=
  ∀ ledger start, Kept books start → Holding strict start m ledger → ledger.ids = books.keys →
    ledger.orderedIDs = books.ordered →
    Works strict process (body ledger) (fun value => Releases m (returns value)) (fun _ => False)
      start

theorem Ready.critical {α : Type} {body : Ledger → Go α} {returns : α → Custody → Prop}
    (meets : Guarded strict process m books body returns) :
    Critical strict (.worker process) m books body returns unwinds := by
  intro ledger holding expected
  obtain ⟨ids, ordered⟩ := expected process rfl
  exact wp_mono (meets ledger _ (ready.hold ids ordered) holding ids ordered) (fun _ _ post => post)
    fun _ => False.elim

theorem wp_worker_locked {α : Type} {body : Ledger → Go α} {returns : α → Custody → Prop}
    (meets : Guarded strict process m books body returns) :
    Works strict process (m.locked body) returns unwinds books :=
  wp_locked ready.manager ready.token ready.free (ready.critical meets)

/-! ## Admission -/

/-- An admitted group holds a lease on every row; under a strict monitor none of
its leases has lapsed. -/
theorem wp_admitBatch {service : Nat} (meets : ∀ error last, Same books last →
      (strict → error = none → ∀ id ∈ books.keys, id ∉ books.lapsed) → returns error last) :
    Works strict process (m.admitBatch ctx service) returns unwinds books := by
  refine wp_worker_locked ready fun ledger start kept holding ids ordered => ?_
  have refused : ∀ error last after, Kept books last → last.locked = some (m.group, after) →
      Releases m (returns (some error)) last := by
    intro error last after kept locked
    exact ⟨⟨after, locked⟩, meets _ _ (ready.unlocked kept) fun _ => nofun⟩
  refine wp_bind.mpr (wp_quiet (only_batchStartError rfl rfl) fun error first same => ?_)
  have kept := kept.trans same.kept
  have holding := holding.same same
  cases error with
  | some error => exact refused error first ledger kept holding.locked
  | none =>
    dsimp only
    split
    · exact refused _ first ledger kept holding.locked
    · refine wp_quietly rfl fun now expected tick =>
        wp_bind.mpr (wp_checkLeasesLocked (holding.same tick) ?_)
      intro error checked last kept' held outstanding ordered' passed
      have keptAll := kept.trans (tick.kept.trans kept')
      cases error with
      | some error => exact refused error last checked keptAll held.locked
      | none =>
        -- A lapsed lease would have failed the check at this reading.
        have live : strict → ∀ id ∈ books.keys, id ∉ books.lapsed := by
          intro hstrict id member lapsed
          obtain ⟨until_, hentry⟩ := Ledger.mem_ids.mp (ids ▸ member)
          have early := passed hstrict rfl _ hentry
          have sameLapsed : first.lapsed = books.lapsed := by
            obtain ⟨_, _, _, _, -, rfl⟩ := kept
            rfl
          have late := (expected hstrict).2 m.group ledger holding.locked _ hentry
            (sameLapsed ▸ lapsed)
          exact absurd early (not_lt.mpr late)
        have finish : ∀ last after, Kept books last → Holding strict last m after →
            Works strict process (batchStartError ctx service)
              (fun value => Releases m (returns value)) (fun _ => False) last := by
          intro last after kept held
          refine wp_quiet (only_batchStartError rfl rfl) fun error final same => ?_
          refine ⟨⟨after, (held.same same).locked⟩, ?_⟩
          exact meets error _ (ready.unlocked (kept.trans same.kept)) fun hstrict _ => live hstrict
        dsimp only
        split
        · refine wp_bind.mpr (wp_ensureLeasesLocked held ?_)
          intro error renewed final kept'' held' _ _
          have keptFinal := keptAll.trans kept''
          cases error with
          | some error => exact refused error final renewed keptFinal held'.locked
          | none => exact finish final renewed keptFinal held'
        · exact finish last checked keptAll held

/-! ## Leaving the ledger -/

theorem Ready.drop (kept : Kept books last) {after : Ledger}
    (subset : ∀ id ∈ after.ids, id ∈ books.keys) (ordered : after.orderedIDs = books.ordered) :
    Same { books with keys := after.ids } (last.hold m.group after).unlocked := by
  obtain ⟨readings, sent, extended, locked, more, rfl⟩ := kept
  refine ⟨readings, none, none, more, ?_⟩
  have entered := enterIDs_of_subset fun id member => ready.entered id (subset id member)
  unfold Custody.unlocked Custody.hold
  dsimp only
  rw [entered, ordered, ready.free]

def without (keys : List JobID) (id : JobID) : List JobID :=
  keys.filter fun other => decide (other ≠ id)

theorem wp_forget {returns : Unit → Custody → Prop} {jobID : JobID}
    (meets : ∀ last, Same { books with keys := without books.keys jobID } last → returns () last) :
    Works strict process (m.forget jobID) returns unwinds books := by
  refine wp_worker_locked ready fun ledger start kept holding ids ordered => ?_
  have dropped : (ledger.remove jobID).ids = without books.keys jobID := by
    rw [Ledger.ids_remove, ids, without]
  refine wp_worker_store holding (.of_subset fun entry member => (Ledger.mem_remove.mp member).1)
    (fun hstrict => (holding.bounded hstrict).remove jobID) ⟨⟨_, rfl⟩, meets _ ?_⟩
  rw [← dropped]
  refine ready.drop kept ?_ ordered
  intro id member
  rw [dropped] at member
  exact (List.mem_filter.mp member).1

theorem wp_forgetAll {returns : Unit → Custody → Prop}
    (meets : ∀ last, Same { books with keys := [] } last → returns () last) :
    Works strict process m.forgetAll returns unwinds books := by
  refine wp_worker_locked ready fun ledger start kept holding ids ordered => ?_
  refine wp_worker_store holding (.of_subset nofun)
    (fun _ => Ledger.Bounded.clear ledger) ⟨⟨_, rfl⟩, meets _ ?_⟩
  exact ready.drop kept nofun ordered

/-! ## Finalization -/

/-- The worker's critical sections that wait for the mutex no longer than a
context allows. -/
theorem wp_worker_lockedContext {body : Ledger → Go (Option OutboxError)}
    (refused : ∀ error, returns (some error) books)
    (meets : Guarded strict process m books body returns) :
    Works strict process (m.lockedContext ctx body) returns unwinds books :=
  wp_lockedContext ready.manager ready.token ready.free refused (ready.critical meets)

/-- Renew, finalize, and drop rows: on an error the ids of the ledger stay. -/
theorem wp_finalizeLocked {requiredUntil targetUntil : Int} {finalization : Go (Option OutboxError)}
    {drop : Ledger → Ledger} {jobIDs : List JobID} (keys : List JobID) (kept : Kept books start)
    (holding : Holding strict start m ledger) (ids : ledger.ids = books.keys)
    (ordered : ledger.orderedIDs = books.ordered) (callback : ∀ middle, Kept books middle →
      Works strict process finalization (fun _ => Attempts jobIDs middle) (fun _ => False) middle)
    (drops : ∀ before, before.ids = books.keys → (drop before).ids = keys ∧
      (drop before).orderedIDs = before.orderedIDs ∧
      (∀ entry ∈ (drop before).outstanding.rows, entry ∈ before.outstanding.rows) ∧
      (before.Bounded → (drop before).Bounded))
    (failed : ∀ error last, Attempts jobIDs books last → returns (some error) last)
    (succeeded : ∀ last, Attempts jobIDs { books with keys := keys } last → returns none last) :
    Works strict process (m.finalizeLocked ctx ledger requiredUntil targetUntil finalization drop)
      (fun value => Releases m (returns value)) (fun _ => False) start := by
  unfold BatchLeaseManager.finalizeLocked
  refine wp_bind.mpr (wp_ensureLeasesLocked holding ?_)
  intro error renewed last kept' held ids' ordered'
  have kept := kept.trans kept'
  cases error with
  | some error =>
    exact ⟨⟨renewed, held.locked⟩, failed _ _ ((ready.unlocked kept).attempts jobIDs)⟩
  | none =>
    refine wp_step trivial fun error _ => ?_
    cases error with
    | some error =>
      exact ⟨⟨renewed, held.locked⟩, failed _ _ ((ready.unlocked kept).attempts jobIDs)⟩
    | none =>
      refine wp_bind.mpr (wp_mono (callback last kept) ?_ fun _ => False.elim)
      rintro outcome final ⟨attempted, within, same⟩
      have ready' : Ready { books with attempted := attempted } m := { ready with }
      have keptFinal : Kept { books with attempted := attempted } final := kept.attempted same
      have within' : ∀ id ∈ attempted, id ∈ jobIDs ∨ id ∈ books.attempted := by
        obtain ⟨_, _, _, _, -, rfl⟩ := kept
        exact within
      have heldFinal : Holding strict final m renewed := by
        obtain ⟨_, _, _, -, rfl⟩ := same
        exact { held with }
      cases outcome with
      | some error =>
        refine ⟨⟨renewed, heldFinal.locked⟩, failed _ _ ⟨attempted, within', ?_⟩⟩
        exact ready'.unlocked keptFinal
      | none =>
        obtain ⟨hkeys, hordered, subset, bounded⟩ := drops renewed (ids'.trans ids)
        refine wp_bind.mpr (wp_worker_store heldFinal (.of_subset subset)
          (fun hstrict => bounded (heldFinal.bounded hstrict)) ?_)
        refine ⟨⟨_, rfl⟩, succeeded _ ⟨attempted, within', ?_⟩⟩
        rw [← hkeys]
        refine ready'.drop keptFinal ?_ (hordered.trans (ordered'.trans ordered))
        intro id member
        obtain ⟨until_, hentry⟩ := Ledger.mem_ids.mp member
        have present := Ledger.mem_ids.mpr ⟨until_, subset _ hentry⟩
        exact (ids'.trans ids) ▸ present

theorem wp_finalize {jobID : JobID} {finalization : Ctx → Go (Option OutboxError)}
    (callback : ∀ finalizeCtx start, Kept books start →
      Works strict process (finalization finalizeCtx) (fun _ => Attempts [jobID] start)
        (fun _ => False) start)
    (failed : ∀ error last, Attempts [jobID] books last → returns (some error) last)
    (succeeded : ∀ last, Attempts [jobID] { books with keys := without books.keys jobID } last →
      returns none last) :
    Works strict process (m.finalize ctx jobID finalization) returns unwinds books := by
  refine wp_quietly rfl fun now _ same => ?_
  have ready' := ready.same same
  have failed' : ∀ error last, Attempts [jobID] (books.next .now now) last →
      returns (some error) last := by
    rintro error last ⟨attempted, within, same'⟩
    refine failed error last ⟨attempted, within, Same.trans ?_ same'⟩
    exact ⟨_, _, _, List.subset_cons_self _ _, rfl⟩
  refine wp_worker_lockedContext ready' (fun error => failed error _ (same.attempts _)) ?_
  intro ledger start kept holding ids ordered
  dsimp only
  split
  · exact ⟨⟨ledger, holding.locked⟩, failed' _ _ ((ready'.unlocked kept).attempts _)⟩
  · refine wp_finalizeLocked ready' (without books.keys jobID) kept holding ids ordered
      (fun middle kept' => callback _ middle (same.kept.trans kept')) ?_ failed' ?_
    · intro before hids
      refine ⟨?_, rfl, fun entry member => (Ledger.mem_remove.mp member).1,
        fun bounded => bounded.remove jobID⟩
      exact (Ledger.ids_remove before jobID).trans (congrArg (without · jobID) hids)
    · rintro last ⟨attempted, within, same'⟩
      refine succeeded last ⟨attempted, within, Same.trans ?_ same'⟩
      exact ⟨_, _, _, List.subset_cons_self _ _, rfl⟩

theorem wp_finalizeAll {leaseUntil : Int} {jobIDs : List JobID}
    {finalization : Go (Option OutboxError)} (callback : ∀ start, Kept books start →
      Works strict process finalization (fun _ => Attempts jobIDs start) (fun _ => False) start)
    (failed : ∀ error last, Attempts jobIDs books last → returns (some error) last)
    (succeeded : ∀ last, Attempts jobIDs { books with keys := [] } last → returns none last) :
    Works strict process (m.finalizeAll ctx leaseUntil finalization) returns unwinds books := by
  refine wp_worker_lockedContext ready
    (fun error => failed error _ ((Same.refl books).attempts _)) ?_
  intro ledger start kept holding ids ordered
  dsimp only
  split
  · exact ⟨⟨ledger, holding.locked⟩, failed _ _ ((ready.unlocked kept).attempts _)⟩
  · refine wp_finalizeLocked ready [] kept holding ids ordered callback ?_ failed succeeded
    intro before _
    exact ⟨rfl, rfl, nofun, fun _ => Ledger.Bounded.clear before⟩

/-! ## Releasing what was not started -/

theorem wp_releaseUnstarted
    (unstarted : books.distinct = true → books.lapsed = [] → books.ordered.Nodup ∧
      ∀ id ∈ books.keys, id ∉ books.released ∧ id ∉ books.begun)
    (meets : ∀ error last keys released attempted,
      Same { books with keys := keys, released := released, attempted := attempted } last →
      returns error last) :
    Works strict process (m.releaseUnstarted ctx) returns unwinds books := by
  refine wp_worker_locked ready fun ledger start kept holding ids ordered => ?_
  dsimp only
  split
  · refine ⟨⟨ledger, holding.locked⟩, ?_⟩
    exact meets none _ _ _ _ (ready.unlocked kept)
  · have releasable : start.Releasable ledger.outstandingIDs := by
      obtain ⟨_, _, _, _, -, rfl⟩ := kept
      intro distinct lapsed
      obtain ⟨nodup, free⟩ := unstarted distinct lapsed
      refine ⟨(ordered ▸ nodup).filter _, fun id member => free id ?_⟩
      exact ids ▸ (Ledger.mem_outstandingIDs.mp member).2
    refine wp_bind.mpr (wp_releaseJobs holding.token.symm releasable ?_)
    intro error last same
    have ready' : Ready (books.release ledger.outstandingIDs) m := { ready with }
    have kept' : Kept (books.release ledger.outstandingIDs) last := by
      obtain ⟨_, _, _, locked, more, rfl⟩ := kept
      obtain ⟨_, _, _, more', rfl⟩ := same
      exact ⟨_, _, _, locked, List.Subset.trans more more', rfl⟩
    have held : Holding strict last m ledger := by
      obtain ⟨_, _, _, -, rfl⟩ := same
      exact { holding with }
    cases error with
    | some error => exact ⟨⟨ledger, held.locked⟩, meets _ _ _ _ _ (ready'.unlocked kept')⟩
    | none =>
      refine wp_bind.mpr (wp_worker_store held
        (.of_subset nofun) (fun _ => Ledger.Bounded.clear ledger) ?_)
      refine ⟨⟨_, rfl⟩, meets none _ [] (ledger.outstandingIDs ++ books.released)
        (ledger.outstandingIDs ++ books.attempted) ?_⟩
      exact ready'.drop kept' nofun ordered

end Ready

/-! ## Entering further rows -/

def enterRows (custody : Custody) (rows : List Job) : Custody :=
  { custody with
    keys := custody.keys ++ rows.map Job.id
    ordered := custody.ordered ++ rows.map Job.id
    entered := (rows.map Job.id).reverse ++ custody.entered }

theorem enterIDs_append {ids entered : List JobID} {id : JobID}
    (present : ∀ other ∈ ids, other ∈ entered) (absent : id ∉ entered) :
    enterIDs (ids ++ [id]) entered = id :: entered := by
  have none : ids.filter (fun other => decide (other ∉ entered)) = [] := by
    simpa using present
  rw [enterIDs, List.filter_append, none]
  simp [absent]

theorem Holding.enter {job : Job} (holding : Holding strict start m ledger)
    (absent : job.id ∉ ledger.ids) (unentered : job.id ∉ start.entered)
    (bounded : strict → (ledger.enter job).Bounded) :
    start.hold m.group (ledger.enter job) =
        { start.enterRows [job] with
          locked := some (m.group, ledger.enter job), sent := none, extended := none } ∧
      Holding strict (start.hold m.group (ledger.enter job)) m (ledger.enter job) := by
  have keys : (ledger.enter job).ids = start.keys ++ [job.id] := by
    rw [Ledger.ids_enter absent, holding.keys]
  have ordered : (ledger.enter job).orderedIDs = start.ordered ++ [job.id] := by
    rw [holding.ordered]
    rfl
  have entered : enterIDs (ledger.enter job).ids start.entered = job.id :: start.entered := by
    rw [keys]
    exact enterIDs_append holding.entered unentered
  constructor
  · unfold hold
    rw [entered, keys, ordered]
    rfl
  · exact ⟨rfl, rfl, rfl, fun id member => mem_enterIDs.mpr (Or.inl member), holding.token,
      bounded⟩

theorem kept_enterRows_cons (start : Custody) (job : Job) (rest : List Job)
    (readings : List Int) (more : start.readings ⊆ readings) (locked : Option (Nat × Ledger)) :
    Kept (start.enterRows (job :: rest))
      (enterRows { start.enterRows [job] with
        readings := readings, locked := locked, sent := none, extended := none } rest) := by
  refine ⟨readings, none, none, locked, more, ?_⟩
  simp [enterRows]

theorem wp_addLocked {jobs : List Job} (holding : Holding strict start m ledger)
    (left : ∀ id ∈ start.entered, id ∈ start.keys) (rows : ∀ job ∈ jobs, job ∈ start.claimed)
    (meets : ∀ error added after last, added <+: jobs → (error = none → added = jobs) →
      (start.keys.Nodup → (start.keys ++ added.map Job.id).Nodup) →
      (∀ job ∈ added, job.id ∉ start.keys) → Kept (start.enterRows added) last →
      Holding strict last m after → returns error last) :
    Works strict process (m.addLocked ledger jobs) returns unwinds start := by
  induction jobs generalizing start ledger with
  | nil =>
    refine meets none [] ledger start (List.prefix_refl _) (fun _ => rfl) (by simp) (by simp) ?_
      holding
    simpa [enterRows] using Kept.refl start
  | cons job rest ih =>
    have refused : ∀ error now, returns (some error) (start.next .now now) := by
      intro error now
      refine meets (some error) [] ledger _ List.nil_prefix nofun
        (by simp) (by simp) ?_ (holding.same (same_of_quiet now rfl))
      simpa [enterRows] using (@same_of_quiet start .now now rfl).kept
    refine wp_quietly rfl fun now expected tick => ?_
    have held := holding.same tick
    cases accepted : validateClaimedJobLease job m.leaseToken now with
    | some error => exact refused error now
    | none =>
      dsimp only
      split
      · exact refused _ now
      · rename_i fresh
        have absent : job.id ∉ ledger.ids := fun present =>
          fresh (Ledger.get?_isSome_iff.mpr present)
        have unentered : job.id ∉ start.entered := fun present =>
          absent (holding.keys ▸ left job.id present)
        obtain ⟨-, reserved, hreserved, live⟩ := validateClaimedJobLease_eq_none accepted
        have positive : strict → 0 < Ledger.deadlineOf job := by
          intro hstrict
          rw [Ledger.deadlineOf, hreserved]
          exact (expected hstrict).1.trans live
        obtain ⟨books, entered⟩ := held.enter absent unentered
          fun hstrict => (holding.bounded hstrict).enter (positive hstrict)
        refine wp_bind.mpr (wp_worker_store held ?_
          (fun hstrict => (holding.bounded hstrict).enter (positive hstrict)) ?_)
        · intro entry member
          rcases Ledger.mem_enter.mp member with rfl | ⟨member, -⟩
          · exact Or.inr (Or.inr ⟨unentered, job, rows job List.mem_cons_self, rfl, rfl⟩)
          · exact Or.inl member
        · change Works strict process (m.addLocked (ledger.enter job) rest)
            returns unwinds ((start.next .now now).hold m.group (ledger.enter job))
          rw [books] at entered ⊢
          refine ih entered ?_
            (fun other member => rows other (List.mem_cons_of_mem job member)) ?_
          · intro id member
            rcases List.mem_cons.mp member with rfl | member
            · exact List.mem_append_right _ (List.mem_singleton_self _)
            · exact List.mem_append_left _ (left id member)
          · intro error added after last isPrefix complete nodup fresh' kept held'
            refine meets error (job :: added) after last ?_ ?_ ?_ ?_ ?_ held'
            · exact List.cons_prefix_cons.mpr ⟨rfl, isPrefix⟩
            · exact fun done => congrArg (job :: ·) (complete done)
            · intro distinct
              have extended : (start.keys ++ [job.id]).Nodup := by
                refine List.nodup_append.mpr ⟨distinct, List.nodup_singleton _, ?_⟩
                rintro id member other hother rfl
                rw [List.mem_singleton.mp hother] at member
                exact absent (holding.keys ▸ member)
              simpa [enterRows, next] using nodup extended
            · intro other member
              rcases List.mem_cons.mp member with rfl | member
              · exact fun present => absent (holding.keys ▸ present)
              · exact fun present => fresh' other member (List.mem_append_left _ present)
            · refine Kept.trans ?_ kept
              exact kept_enterRows_cons start job added _ (List.subset_cons_self _ _) _

/-- The worker enters rows of its claims into a ledger nothing has left yet. -/
theorem wp_add {jobs : List Job} (ready : Ready books m)
    (left : ∀ id ∈ books.entered, id ∈ books.keys) (rows : ∀ job ∈ jobs, job ∈ books.claimed)
    (meets : ∀ error added last, added <+: jobs → (error = none → added = jobs) →
      (∀ job ∈ added, job.id ∉ books.keys) → (added.map Job.id).Nodup →
      Same (books.enterRows added) last → returns error last) :
    Works strict process (m.add jobs) returns unwinds books := by
  refine wp_worker_locked ready fun ledger start kept holding ids ordered => ?_
  have fields : start.entered = books.entered ∧ start.keys = books.keys ∧
      start.claimed = books.claimed := by
    obtain ⟨_, _, _, _, -, rfl⟩ := kept
    exact ⟨rfl, rfl, rfl⟩
  have keysNodup : start.keys.Nodup := by
    rw [holding.keys]
    exact ledger.outstanding.nodup
  refine wp_addLocked holding ?_ ?_ ?_
  · rw [fields.1, fields.2.1]
    exact left
  · rw [fields.2.2]
    exact rows
  · intro error added after last isPrefix complete nodup fresh kept' held
    refine ⟨⟨after, held.locked⟩, meets error added _ isPrefix complete ?_ ?_ ?_⟩
    · rw [← fields.2.1]
      exact fresh
    · exact (List.nodup_append.mp (nodup keysNodup)).2.1
    · obtain ⟨readings, sent, extended, locked, more, rfl⟩ := kept
      obtain ⟨readings', sent', extended', locked', more', rfl⟩ := kept'
      refine ⟨readings', none, none, List.Subset.trans more more', ?_⟩
      unfold unlocked enterRows
      dsimp only
      rw [ready.free]

theorem quiet_stopAndWait : m.stopAndWait.Only fun effect => effect.quiet = true :=
  only_bind (only_perform rfl) fun _ =>
    only_bind (only_perform rfl) fun _ => only_perform rfl

end Custody

end OutboxFormal
