import OutboxFormal.Service.LeaseManager

/-!
# The ledger and its cached bound

`earliestUntil` is a lower bound of the outstanding deadlines: zero for an
empty ledger, and positive otherwise, provided every deadline is positive. The
zero time stands for an absent bound, so positivity is what makes the fold
over the deadlines a minimum.
-/

namespace OutboxFormal

open Library

variable {ledger : Ledger}

variable {entry : JobID × Int} {id : JobID} {jobs : List Job} {job : Job}

namespace Ledger

/-! ## Entries -/

theorem mem_ids :
    id ∈ ledger.ids ↔ ∃ until_, (id, until_) ∈ ledger.outstanding.rows := by
  simp [ids]

theorem get?_isSome_iff :
    (ledger.outstanding.get? id).isSome = true ↔ id ∈ ledger.ids := by
  cases found : ledger.outstanding.get? id with
  | none =>
    have absent := Table.get?_eq_none_iff.mp found
    simp only [Option.isSome_none, Bool.false_eq_true, false_iff, mem_ids]
    rintro ⟨until_, member⟩
    exact absent _ member rfl
  | some entry =>
    obtain ⟨member, same⟩ := Table.get?_eq_some_iff.mp found
    simp only [Option.isSome_some, true_iff, mem_ids]
    exact ⟨entry.2, by rw [← same]; exact member⟩

theorem mem_inOrder :
    entry ∈ ledger.inOrder ↔ entry ∈ ledger.outstanding.rows ∧ entry.1 ∈ ledger.orderedIDs := by
  simp only [inOrder, List.mem_filterMap, Table.get?_eq_some_iff]
  constructor
  · rintro ⟨id, ordered, member, rfl⟩
    exact ⟨member, ordered⟩
  · rintro ⟨member, ordered⟩
    exact ⟨entry.1, ordered, member, rfl⟩

theorem mem_outstandingIDs :
    id ∈ ledger.outstandingIDs ↔ id ∈ ledger.orderedIDs ∧ id ∈ ledger.ids := by
  simp [outstandingIDs, get?_isSome_iff]

theorem mem_expiringBefore {requiredUntil : Int}
    (member : id ∈ ledger.expiringBefore requiredUntil) :
    ∃ until_, (id, until_) ∈ ledger.outstanding.rows ∧ until_ < requiredUntil := by
  simp only [expiringBefore, List.mem_map, List.mem_filter, decide_eq_true_eq] at member
  obtain ⟨entry, ⟨ordered, before⟩, rfl⟩ := member
  exact ⟨entry.2, (mem_inOrder.mp ordered).1, before⟩

theorem mem_enter :
    entry ∈ (ledger.enter job).outstanding.rows ↔
      entry = (job.id, deadlineOf job) ∨ entry ∈ ledger.outstanding.rows ∧ entry.1 ≠ job.id :=
  Table.mem_upsert

theorem ids_enter (absent : job.id ∉ ledger.ids) :
    (ledger.enter job).ids = ledger.ids ++ [job.id] := by
  refine (Table.keys_upsert _ _).trans (if_neg ?_)
  exact absent

theorem mem_remove :
    entry ∈ (ledger.remove id).outstanding.rows ↔
      entry ∈ ledger.outstanding.rows ∧ entry.1 ≠ id := by
  simp [remove, Table.mem_delete]

theorem ids_remove (ledger : Ledger) (id : JobID) :
    (ledger.remove id).ids = ledger.ids.filter fun other => decide (other ≠ id) := by
  simp only [ids, remove, Table.delete_rows, List.filter_map, Function.comp_def]
  congr 1
  refine List.filter_congr fun entry _ => ?_
  by_cases same : entry.1 = id <;> simp [same]

/-- A confirmed extension gives the listed rows the new deadline and leaves the
others as they are. -/
theorem mem_extended {jobIDs : List JobID} {until_ : Int} :
    entry ∈ (ledger.extended jobIDs until_).outstanding.rows ↔
      entry.1 ∈ jobIDs ∧ entry.2 = until_ ∨
        entry ∈ ledger.outstanding.rows ∧ entry.1 ∉ jobIDs := by
  unfold extended
  generalize ledger.outstanding = outstanding
  induction jobIDs generalizing outstanding with
  | nil => simp
  | cons id rest ih =>
    rw [List.foldl_cons, ih, Table.mem_upsert]
    obtain ⟨other, deadline⟩ := entry
    simp only [List.mem_cons, Prod.mk.injEq, not_or]
    constructor
    · rintro (⟨later, same⟩ | ⟨⟨rfl, rfl⟩ | ⟨member, different⟩, notLater⟩)
      · exact Or.inl ⟨Or.inr later, same⟩
      · exact Or.inl ⟨Or.inl rfl, rfl⟩
      · exact Or.inr ⟨member, different, notLater⟩
    · rintro (⟨rfl | later, same⟩ | ⟨member, different, notLater⟩)
      · by_cases later : other ∈ rest
        · exact Or.inl ⟨later, same⟩
        · exact Or.inr ⟨Or.inl ⟨rfl, same⟩, later⟩
      · exact Or.inl ⟨later, same⟩
      · exact Or.inr ⟨Or.inr ⟨member, different⟩, notLater⟩

theorem ids_extended {jobIDs : List JobID} {until_ : Int}
    (present : ∀ id ∈ jobIDs, id ∈ ledger.ids) :
    (ledger.extended jobIDs until_).ids = ledger.ids := by
  unfold extended ids at *
  dsimp only
  generalize ledger.outstanding = outstanding at *
  induction jobIDs generalizing outstanding with
  | nil => rfl
  | cons id rest ih =>
    have kept := (Table.keys_upsert outstanding (id, until_)).trans
      (if_pos (present id List.mem_cons_self))
    rw [List.foldl_cons, ih, kept]
    intro other later
    rw [kept]
    exact present other (List.mem_cons_of_mem id later)

/-! ## The bound -/

/-- The fold of `earlier` over positive deadlines is their minimum. -/
theorem foldl_earlier {deadlines : List Int} (positive : ∀ until_ ∈ deadlines, 0 < until_)
    {bound : Int} (hbound : 0 < bound) :
    0 < deadlines.foldl earlier bound ∧ deadlines.foldl earlier bound ≤ bound ∧
      ∀ until_ ∈ deadlines, deadlines.foldl earlier bound ≤ until_ := by
  induction deadlines generalizing bound with
  | nil => exact ⟨hbound, le_refl bound, by simp⟩
  | cons until_ rest ih =>
    have hfirst : 0 < until_ := positive until_ List.mem_cons_self
    have hrest : ∀ other ∈ rest, 0 < other := fun other member =>
      positive other (List.mem_cons_of_mem until_ member)
    have hpositive : 0 < earlier bound until_ := by
      unfold earlier
      split <;> omega
    have hle : earlier bound until_ ≤ bound ∧ earlier bound until_ ≤ until_ := by
      unfold earlier
      split <;> omega
    obtain ⟨ihPositive, ihBound, ihRest⟩ := ih hrest hpositive
    rw [List.foldl_cons]
    refine ⟨ihPositive, ihBound.trans hle.1, fun other member => ?_⟩
    rcases List.mem_cons.mp member with rfl | member
    · exact ihBound.trans hle.2
    · exact ihRest other member

theorem foldl_earlier_zero {deadlines : List Int} (positive : ∀ until_ ∈ deadlines, 0 < until_)
    (nonempty : deadlines ≠ []) :
    0 < deadlines.foldl earlier 0 ∧ ∀ until_ ∈ deadlines, deadlines.foldl earlier 0 ≤ until_ := by
  cases deadlines with
  | nil => exact absurd rfl nonempty
  | cons until_ rest =>
    have hfirst : 0 < until_ := positive until_ List.mem_cons_self
    have hstart : earlier 0 until_ = until_ := if_pos (Or.inl rfl)
    obtain ⟨hpositive, hbound, hrest⟩ := foldl_earlier
      (fun other member => positive other (List.mem_cons_of_mem until_ member)) hfirst
    rw [List.foldl_cons, hstart]
    refine ⟨hpositive, fun other member => ?_⟩
    rcases List.mem_cons.mp member with rfl | member
    · exact hbound
    · exact hrest other member

/-- Every outstanding id is ordered, and the cached bound is a lower bound. -/
structure Bounded (ledger : Ledger) : Prop where
  ordered : ∀ id ∈ ledger.ids, id ∈ ledger.orderedIDs
  empty : ledger.outstanding.rows = [] → ledger.earliestUntil = 0
  positive : ledger.outstanding.rows ≠ [] → 0 < ledger.earliestUntil
  bound : ∀ entry ∈ ledger.outstanding.rows, ledger.earliestUntil ≤ entry.2

namespace Bounded

theorem deadline_pos (bounded : ledger.Bounded) (member : entry ∈ ledger.outstanding.rows) :
    0 < entry.2 :=
  lt_of_lt_of_le (bounded.positive (List.ne_nil_of_mem member)) (bounded.bound entry member)

/-- A bound found by a scan of all deadlines restores the invariant. -/
theorem of_scan {scanned : List (JobID × Int)} (ordered : ∀ id ∈ ledger.ids, id ∈ ledger.orderedIDs)
    (positive : ∀ entry ∈ ledger.outstanding.rows, 0 < entry.2)
    (complete : ∀ entry, entry ∈ scanned ↔ entry ∈ ledger.outstanding.rows) :
    Bounded { ledger with earliestUntil := (scanned.map Prod.snd).foldl earlier 0 } := by
  have hpositive : ∀ until_ ∈ scanned.map Prod.snd, 0 < until_ := by
    intro until_ member
    obtain ⟨entry, hentry, rfl⟩ := List.mem_map.mp member
    exact positive entry ((complete entry).mp hentry)
  refine ⟨ordered, fun none => ?_, fun nonempty => ?_, fun entry member => ?_⟩
  · have : scanned = [] := List.eq_nil_iff_forall_not_mem.mpr fun entry member => by
      have := (complete entry).mp member
      rw [none] at this
      cases this
    rw [this]
    rfl
  · obtain ⟨entry, hentry⟩ := List.exists_mem_of_ne_nil _ nonempty
    refine (foldl_earlier_zero hpositive ?_).1
    exact List.ne_nil_of_mem (List.mem_map_of_mem ((complete entry).mpr hentry))
  · have hmember : entry.2 ∈ scanned.map Prod.snd :=
      List.mem_map_of_mem ((complete entry).mpr member)
    exact (foldl_earlier_zero hpositive (List.ne_nil_of_mem hmember)).2 entry.2 hmember

theorem recomputeEarliest (bounded : ledger.Bounded) : ledger.recomputeEarliest.Bounded :=
  of_scan bounded.ordered (fun _ member => bounded.deadline_pos member) fun _ => Iff.rfl

theorem mem_inOrder_iff (bounded : ledger.Bounded) (entry : JobID × Int) :
    entry ∈ ledger.inOrder ↔ entry ∈ ledger.outstanding.rows := by
  rw [mem_inOrder]
  refine ⟨And.left, fun member => ⟨member, bounded.ordered entry.1 ?_⟩⟩
  exact List.mem_map_of_mem member

theorem mem_expiringBefore (bounded : ledger.Bounded) {requiredUntil : Int}
    (member : entry ∈ ledger.outstanding.rows) (early : entry.2 < requiredUntil) :
    entry.1 ∈ ledger.expiringBefore requiredUntil := by
  apply List.mem_map_of_mem
  refine List.mem_filter.mpr ⟨(bounded.mem_inOrder_iff entry).mpr member, ?_⟩
  exact decide_eq_true early

theorem earliestInOrder (bounded : ledger.Bounded) :
    Bounded { ledger with earliestUntil := ledger.earliestInOrder } :=
  of_scan bounded.ordered (fun _ member => bounded.deadline_pos member) bounded.mem_inOrder_iff

theorem extended (bounded : ledger.Bounded) {jobIDs : List JobID} {until_ : Int}
    (present : ∀ id ∈ jobIDs, id ∈ ledger.ids) (later : 0 < until_) :
    (ledger.extended jobIDs until_).recomputeEarliest.Bounded := by
  refine of_scan ?_ ?_ fun _ => Iff.rfl
  · rw [ids_extended present]
    exact bounded.ordered
  · intro entry member
    rcases mem_extended.mp member with ⟨-, same⟩ | ⟨member, -⟩
    · exact same ▸ later
    · exact bounded.deadline_pos member

theorem clear (ledger : Ledger) : ledger.clear.Bounded :=
  ⟨by simp [Ledger.clear, ids], fun _ => rfl, by simp [Ledger.clear], by simp [Ledger.clear]⟩

theorem remove (bounded : ledger.Bounded) (id : JobID) : (ledger.remove id).Bounded := by
  have kept : (ledger.remove id).outstanding.rows ≠ [] →
      (ledger.remove id).earliestUntil = ledger.earliestUntil ∧ ledger.outstanding.rows ≠ [] := by
    intro nonempty
    obtain ⟨entry, member⟩ := List.exists_mem_of_ne_nil _ nonempty
    refine ⟨if_neg ?_, List.ne_nil_of_mem (mem_remove.mp member).1⟩
    simpa [Ledger.remove] using nonempty
  refine ⟨fun other member => ?_, fun none => ?_, fun nonempty => ?_, fun entry member => ?_⟩
  · rw [ids_remove, List.mem_filter] at member
    exact bounded.ordered other member.1
  · refine if_pos ?_
    simpa [Ledger.remove] using none
  · rw [(kept nonempty).1]
    exact bounded.positive (kept nonempty).2
  · rw [(kept (List.ne_nil_of_mem member)).1]
    exact bounded.bound entry (mem_remove.mp member).1

theorem enter (bounded : ledger.Bounded) (live : 0 < deadlineOf job) :
    (ledger.enter job).Bounded := by
  have hearliest : 0 < (ledger.enter job).earliestUntil ∧
      (ledger.enter job).earliestUntil ≤ deadlineOf job ∧
      ∀ entry ∈ ledger.outstanding.rows, (ledger.enter job).earliestUntil ≤ entry.2 := by
    by_cases nonempty : ledger.outstanding.rows = []
    · have zero := bounded.empty nonempty
      have value : (ledger.enter job).earliestUntil = deadlineOf job := if_pos (Or.inl zero)
      refine ⟨?_, value.le, ?_⟩
      · exact value.symm ▸ live
      · rw [nonempty]
        simp
    · have positive := bounded.positive nonempty
      refine ⟨?_, ?_, fun entry member => ?_⟩
      · change 0 < earlier ledger.earliestUntil (deadlineOf job)
        unfold earlier
        split <;> omega
      · change earlier ledger.earliestUntil (deadlineOf job) ≤ _
        unfold earlier
        split <;> omega
      · have := bounded.bound entry member
        change earlier ledger.earliestUntil (deadlineOf job) ≤ _
        unfold earlier
        split <;> omega
  refine ⟨fun id member => ?_, fun none => ?_, fun _ => hearliest.1, fun entry member => ?_⟩
  · obtain ⟨until_, hentry⟩ := mem_ids.mp member
    rcases mem_enter.mp hentry with same | ⟨hentry, -⟩
    · cases same
      exact List.mem_append_right _ (List.mem_singleton_self _)
    · exact List.mem_append_left _ (bounded.ordered id (mem_ids.mpr ⟨until_, hentry⟩))
  · have : (job.id, deadlineOf job) ∈ (ledger.enter job).outstanding.rows :=
      mem_enter.mpr (Or.inl rfl)
    rw [none] at this
    cases this
  · rcases mem_enter.mp member with rfl | ⟨member, -⟩
    · exact hearliest.2.1
    · exact hearliest.2.2 entry member

end Bounded

/-! ## The ledger of a new manager -/

theorem mem_foldl_enter (member : entry ∈ (jobs.foldl enter ledger).outstanding.rows) :
    entry ∈ ledger.outstanding.rows ∨
      ∃ job ∈ jobs, job.id = entry.1 ∧ deadlineOf job = entry.2 := by
  induction jobs generalizing ledger with
  | nil => exact Or.inl member
  | cons job rest ih =>
    rcases ih member with member | ⟨other, hother, same⟩
    · rcases mem_enter.mp member with rfl | ⟨member, -⟩
      · exact Or.inr ⟨job, List.mem_cons_self, rfl, rfl⟩
      · exact Or.inl member
    · exact Or.inr ⟨other, List.mem_cons_of_mem job hother, same⟩

theorem mem_ofJobs (member : entry ∈ (ofJobs jobs).outstanding.rows) :
    ∃ job ∈ jobs, job.id = entry.1 ∧ deadlineOf job = entry.2 := by
  rcases mem_foldl_enter member with member | found
  · cases member
  · exact found

theorem orderedIDs_foldl_enter (jobs : List Job) (ledger : Ledger) :
    (jobs.foldl enter ledger).orderedIDs = ledger.orderedIDs ++ jobs.map Job.id := by
  induction jobs generalizing ledger with
  | nil => simp
  | cons job rest ih => simp [ih, enter, List.append_assoc]

theorem orderedIDs_ofJobs (jobs : List Job) : (ofJobs jobs).orderedIDs = jobs.map Job.id :=
  (orderedIDs_foldl_enter jobs empty).trans (List.nil_append _)

theorem ids_foldl_enter {jobs : List Job} {ledger : Ledger}
    (distinct : (ledger.ids ++ jobs.map Job.id).Nodup) :
    (jobs.foldl enter ledger).ids = ledger.ids ++ jobs.map Job.id := by
  induction jobs generalizing ledger with
  | nil => simp
  | cons job rest ih =>
    have absent : job.id ∉ ledger.ids := fun present =>
      (List.nodup_append.mp distinct).2.2 job.id present job.id (by simp) rfl
    have entered := ids_enter absent
    have regrouped : ledger.ids ++ (job :: rest).map Job.id =
        (ledger.enter job).ids ++ rest.map Job.id := by
      rw [entered]
      simp
    rw [List.foldl_cons, ih (regrouped ▸ distinct), regrouped]

theorem ids_ofJobs (distinct : (jobs.map Job.id).Nodup) :
    (ofJobs jobs).ids = jobs.map Job.id :=
  (@ids_foldl_enter jobs empty (by simpa [empty, ids] using distinct)).trans
    (List.nil_append _)

theorem mem_ids_ofJobs (member : id ∈ (ofJobs jobs).ids) :
    id ∈ jobs.map Job.id := by
  obtain ⟨until_, hentry⟩ := mem_ids.mp member
  obtain ⟨job, hjob, same, -⟩ := mem_ofJobs hentry
  exact List.mem_map.mpr ⟨job, hjob, same⟩

theorem ordered_ofJobs (member : id ∈ (ofJobs jobs).ids) :
    id ∈ (ofJobs jobs).orderedIDs := by
  rw [orderedIDs_ofJobs]
  exact mem_ids_ofJobs member

theorem bounded_ofJobs (live : ∀ job ∈ jobs, 0 < deadlineOf job) :
    (ofJobs jobs).Bounded := by
  have start : empty.Bounded :=
    ⟨by simp [empty, ids], fun _ => rfl, by simp [empty], by simp [empty]⟩
  unfold ofJobs
  generalize empty = ledger at start
  induction jobs generalizing ledger with
  | nil => exact start
  | cons job rest ih =>
    exact ih (fun other member => live other (List.mem_cons_of_mem job member)) _
      (start.enter (live job List.mem_cons_self))

end Ledger

/-! ## Claimed leases -/

theorem validateClaimedJobLease_eq_none {token : LeaseToken} {now : Int}
    (accepted : validateClaimedJobLease job token now = none) :
    job.leaseToken = token ∧ ∃ reserved, job.reservedAt = some reserved ∧ now < reserved := by
  unfold validateClaimedJobLease at accepted
  split at accepted
  · cases accepted
  · rename_i sameToken
    split at accepted
    · cases accepted
    · rename_i live
      refine ⟨not_not.mp sameToken, ?_⟩
      cases hreserved : job.reservedAt with
      | none => simp [hreserved] at live
      | some reserved => exact ⟨reserved, rfl, by simpa [hreserved] using live⟩

theorem deadlineOf_pos {token : LeaseToken} {now : Int}
    (accepted : validateClaimedJobLease job token now = none) (positive : 0 < now) :
    0 < Ledger.deadlineOf job := by
  obtain ⟨-, reserved, held, live⟩ := validateClaimedJobLease_eq_none accepted
  rw [Ledger.deadlineOf, held]
  exact positive.trans live

/-! ## Renewal deadlines -/

theorem renewalDeadline_aligned (requiredUntil targetUntil : Int) :
    truncate (renewalDeadline requiredUntil targetUntil) millisecond =
      renewalDeadline requiredUntil targetUntil := by
  unfold renewalDeadline truncate millisecond
  omega

theorem lt_renewalDeadline (requiredUntil targetUntil : Int) :
    requiredUntil < renewalDeadline requiredUntil targetUntil := by
  unfold renewalDeadline truncate millisecond
  split <;> omega

end OutboxFormal
