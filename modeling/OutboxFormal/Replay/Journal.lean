import OutboxFormal.Replay.Stages

/-!
# What holds between replays

The committed journal agrees with the jobs that were ever committed, and the
facts a call relies on between two of its statements are not disturbed by
anything else: its failed row is locked, identifiers are not used twice, and
nobody writes a key or a request that a transaction has pending.
-/

namespace OutboxFormal.Replay

open Library Storage

/-! ## The committed state -/

/-- The identifiers of the jobs that were ever committed. -/
def World.settled (world : World) : List JobID := world.inserted.map Job.id

/-- The failed row a source was read from is there. -/
def Describes (store : Store) (source : Source) : Prop :=
  ∃ row ∈ store.database.failed.rows, source = sourceOf row source.originalDeduplicationKey

/-- Neither the original job nor a job of an earlier replay is in `jobs`. -/
def QuietFor (store : Store) (source : Source) : Prop :=
  ∀ job ∈ store.database.jobs.rows, job.id ≠ source.originalJobID ∧
    ∀ record ∈ store.replays.rows, record.source.failedJobID = source.failedJobID →
      job.id ≠ record.jobID

/-- Every record that a commit created was created in quiet. -/
def Commit.Quiet (commit : Commit) : Prop :=
  ∀ record ∈ commit.after.replays.rows, record ∉ commit.before.replays.rows →
    QuietFor commit.before record.source

def World.committedUnder (world : World) (key : Bytes) : List Job :=
  world.inserted.filter fun job => decide (job.deduplicationKey = some key)

structure Sound (world : World) : Prop where
  covered : Covered world.database
  failedIDs : (world.database.failed.rows.map JobFailed.id).Nodup
  used : ∀ id ∈ world.settled, id ∈ world.used
  jobs : ∀ job ∈ world.database.jobs.rows, job.id ∈ world.settled
  keys : ∀ row ∈ world.database.keys.rows, row.jobID ∈ world.settled
  failed : ∀ row ∈ world.database.failed.rows, row.jobID ∈ world.settled
  replayed : ∀ record ∈ world.store.replays.rows, record.jobID ∈ world.settled
  described : ∀ record ∈ world.store.replays.rows, Describes world.store record.source
  valid : ∀ record ∈ world.store.replays.rows,
    validateSource record.source = .ok () ∧ record.requestID ≠ .nil
  agree : ∀ first ∈ world.store.replays.rows, ∀ second ∈ world.store.replays.rows,
    first.source.failedJobID = second.source.failedJobID →
    first.source = second.source ∧ first.businessKey = second.businessKey
  counted : ∀ id, (world.committedUnder (replayKey id)).length =
    if (world.store.replays.get? id).isSome then 1 else 0
  quiet : ∀ commit ∈ world.commits, commit.Quiet
  kept : ∀ commit ∈ world.commits, commit.before.replays.rows <+: world.store.replays.rows
  begun : ∀ index, (world.begun index).replays.rows <+: world.store.replays.rows
  begunDescribed : ∀ index, ∀ record ∈ (world.begun index).replays.rows,
    Describes (world.begun index) record.source
  pending : ∀ index transaction, world.transactions index = some transaction →
    ∀ item ∈ transaction.staged, item.jobID ∈ world.used ∧
      ∃ id, item.put.deduplicationKey = replayKey id

/-- No two open transactions hold the same of something. -/
def World.Apart {α : Type} (world : World) (held : Transaction → List α) : Prop :=
  ∀ first second firstHolder secondHolder, first ≠ second →
    world.transactions first = some firstHolder → world.transactions second = some secondHolder →
    ∀ value ∈ held firstHolder, value ∉ held secondHolder

def Transaction.keys (transaction : Transaction) : List Bytes :=
  transaction.staged.map fun item => item.put.deduplicationKey

def Transaction.ids (transaction : Transaction) : List JobID :=
  transaction.staged.map PreparedUniqueBatchPut.jobID

structure Exclusive (world : World) : Prop where
  locks : world.Apart Transaction.locked
  keys : world.Apart Transaction.keys
  ids : world.Apart Transaction.ids
  requests : world.Apart Transaction.requests

section Apart

variable {α : Type} {held : Transaction → List α} {world : World}

theorem World.Apart.ends (apart : world.Apart held) (index : Nat) :
    (world.ends index).Apart held := by
  intro first second firstHolder secondHolder differ hfirst hsecond
  have other : ∀ {position transaction}, (world.ends index).transactions position =
      some transaction → world.transactions position = some transaction := by
    intro position transaction found
    by_cases same : position = index
    · subst same
      simp [World.ends] at found
    · simpa [World.ends, same] using found
  exact apart first second _ _ differ (other hfirst) (other hsecond)

/-- A transaction that comes to hold only what no other holds. -/
theorem World.Apart.continues (apart : world.Apart held) {index : Nat}
    {transaction after : Transaction} (isOpen : world.transactions index = some transaction)
    (grows : ∀ value ∈ held after, value ∈ held transaction ∨
      world.FreeOf index fun other => value ∈ held other) :
    (world.continues index after).Apart held := by
  intro first second firstHolder secondHolder differ hfirst hsecond value member other
  by_cases sameFirst : first = index
  · subst sameFirst
    have isSecond : world.transactions second = some secondHolder := by
      simpa [World.continues, differ.symm] using hsecond
    obtain rfl : after = firstHolder := by simpa [World.continues] using hfirst
    rcases grows value member with old | free
    · exact apart first second _ _ differ isOpen isSecond value old other
    · exact free second _ differ.symm isSecond other
  · have isFirst : world.transactions first = some firstHolder := by
      simpa [World.continues, sameFirst] using hfirst
    by_cases sameSecond : second = index
    · subst sameSecond
      obtain rfl : after = secondHolder := by simpa [World.continues] using hsecond
      rcases grows value other with old | free
      · exact apart first second _ _ differ isFirst isOpen value member old
      · exact free first _ differ isFirst member
    · have isSecond : world.transactions second = some secondHolder := by
        simpa [World.continues, sameSecond] using hsecond
      exact apart first second _ _ differ isFirst isSecond value member other

end Apart

/-! ## What a call relies on -/

/-- A failed row is locked and was read. -/
structure Holding (world : World) (transaction : Transaction) (source : Source) : Prop where
  locked : source.failedJobID ∈ transaction.locked
  described : Describes world.store source

/-- The first record of a failed row, and that all its records agree with it. -/
structure Based (world : World) (source : Source) (baseline : Option Record) : Prop where
  recorded : ∀ record, baseline = some record → record ∈ world.store.replays.rows
  first : ∀ record ∈ world.store.replays.rows, record.source.failedJobID = source.failedJobID →
    ∃ earliest, baseline = some earliest ∧ record.source = earliest.source ∧
      record.businessKey = earliest.businessKey

/-- The key of a staged job is not registered, and its identifier is new. -/
structure New (world : World) (item : PreparedUniqueBatchPut) : Prop where
  unregistered : world.database.keys.get? item.put.deduplicationKey = none
  unsettled : item.jobID ∉ world.settled

/-- Everything is checked for a fresh job of the source. -/
structure Ready (world : World) (transaction : Transaction) (source : Source)
    (baseline : Option Record) : Prop where
  holding : Holding world transaction source
  based : Based world source baseline
  retains : ∀ record, baseline = some record → source = record.source
  quiet : QuietFor world.store source

/-- The pending writes of a call that has staged its job. -/
structure Pending (world : World) (transaction : Transaction) (requestID : RequestID)
    (jobID : JobID) (item : PreparedUniqueBatchPut) (writes : List Write) : Prop where
  writes : transaction.writes = .unique item :: writes
  jobID : item.jobID = jobID
  key : item.put.deduplicationKey = replayKey requestID
  new : New world item

/-- A record that may join the journal. -/
structure Admissible (world : World) (transaction : Transaction) (record : Record) : Prop where
  holding : Holding world transaction record.source
  quiet : QuietFor world.store record.source
  agree : ∀ other ∈ world.store.replays.rows,
    other.source.failedJobID = record.source.failedJobID →
    other.source = record.source ∧ other.businessKey = record.businessKey
  valid : validateSource record.source = .ok () ∧ record.requestID ≠ .nil
  pending : record.requestID ∈ transaction.requests
  absent : world.store.replays.get? record.requestID = none

def Facts (world : World) (requestID : RequestID) (transaction : Transaction) : Stage → Prop
  | .begun => transaction.writes = []
  | .locked source | .unrecorded source | .prior source _ =>
    transaction.writes = [] ∧ Holding world transaction source
  | .based source baseline =>
    transaction.writes = [] ∧ Holding world transaction source ∧ Based world source baseline
  | .quiet source baseline => transaction.writes = [] ∧ Ready world transaction source baseline
  | .staged source baseline jobID => Ready world transaction source baseline ∧
      ∃ item, Pending world transaction requestID jobID item []
  | .queued source baseline jobID => Ready world transaction source baseline ∧
      ∃ item name, Pending world transaction requestID jobID item [.queue name jobID]
  | .recorded record => Admissible world transaction record ∧ record.requestID = requestID ∧
      ∃ item name, Pending world transaction requestID record.jobID item
        [.queue name record.jobID, .record record]
  | _ => True

/-- What a stage may say about a request that was recorded when the call began. -/
def Consistent (request : Request) (record : Record) : Stage → Prop
  | .missing => record.source.failedJobID ≠ request.failedJobID
  | .locked source => record.source.failedJobID = request.failedJobID →
      source.withKeyOf record.source = record.source
  | .prior source other => other = record ∧
      (record.source.failedJobID = request.failedJobID →
        source.withKeyOf record.source = record.source)
  | .unrecorded _ | .based .. | .quiet .. | .staged .. | .queued .. | .recorded _ | .refused =>
    False
  | .done before | .uncertain before | .closed before => Consistent request record before
  | .idle | .begun | .failed => True

/-- The record a call has found or committed. -/
def Known (store : Store) : Stage → Prop
  | .prior _ record | .done (.prior _ record) | .done (.recorded record) =>
    record ∈ store.replays.rows
  | _ => True

/-- A call has commits only after it asked for one; a repeated request commits
nothing. -/
def Accounts (stage : Stage) (commit : Commit) : Prop :=
  ∃ before : Stage, (stage = .done before ∨ stage = .uncertain before ∨
    stage = .closed (.uncertain before)) ∧ (∃ result, before.Yields result) ∧
    ∀ source record, before = .prior source record → commit.after = commit.before

structure CallHolds (world : World) (index : Nat) (request : Request) (stage : Stage) : Prop where
  facts : ∀ transaction, world.transactions index = some transaction →
    Facts world request.requestID transaction stage
  consistent : ∀ record ∈ (world.begun index).replays.rows,
    record.requestID = request.requestID → Consistent request record stage
  known : Known world.store stage
  accounts : ∀ commit ∈ world.commits, commit.call = index → Accounts stage commit

/-! ## Undisturbed calls -/

/-- A change of the world that leaves alone what a call relies on. -/
structure Undisturbed (before after : World) (index : Nat) : Prop where
  transactions : ∀ transaction, after.transactions index = some transaction →
    before.transactions index = some transaction
  settled : ∀ id ∈ before.settled, id ∈ after.settled
  jobs : ∀ job ∈ after.database.jobs.rows, job.id ∈ before.settled →
    ∃ old ∈ before.database.jobs.rows, old.id = job.id
  ids : ∀ transaction, before.transactions index = some transaction →
    ∀ id ∈ transaction.ids, id ∉ before.settled → id ∉ after.settled
  keys : ∀ transaction, before.transactions index = some transaction →
    ∀ key ∈ transaction.keys, before.database.keys.get? key = none →
      after.database.keys.get? key = none
  journal : ∀ record ∈ after.store.replays.rows, record ∈ before.store.replays.rows ∨
    ∀ transaction, before.transactions index = some transaction →
      record.source.failedJobID ∉ transaction.locked ∧
        record.requestID ∉ transaction.requests
  retained : ∀ record ∈ before.store.replays.rows, record ∈ after.store.replays.rows
  failed : ∀ transaction, before.transactions index = some transaction →
    ∀ row ∈ before.database.failed.rows, row.id ∈ transaction.locked →
      row ∈ after.database.failed.rows
  begun : after.begun index = before.begun index
  commits : ∀ commit ∈ after.commits, commit.call = index → commit ∈ before.commits

namespace Undisturbed

variable {before after : World} {index : Nat} {transaction : Transaction} {source : Source}
variable (undisturbed : Undisturbed before after index)
include undisturbed

section Open

variable (isOpen : before.transactions index = some transaction)
include isOpen

theorem holding (holding : Holding before transaction source) :
    Holding after transaction source := by
  refine ⟨holding.locked, ?_⟩
  obtain ⟨row, member, same⟩ := holding.described
  have locked : row.id ∈ transaction.locked := by
    have id : source.failedJobID = row.id := congrArg Source.failedJobID same
    exact id ▸ holding.locked
  exact ⟨row, undisturbed.failed transaction isOpen row member locked, same⟩

/-- The records of a locked row are the ones that were there. -/
theorem recorded (locked : source.failedJobID ∈ transaction.locked) {record : Record}
    (member : record ∈ after.store.replays.rows)
    (same : record.source.failedJobID = source.failedJobID) :
    record ∈ before.store.replays.rows :=
  (undisturbed.journal record member).resolve_right fun free =>
    (free transaction isOpen).1 (same ▸ locked)

theorem based (locked : source.failedJobID ∈ transaction.locked) {baseline : Option Record}
    (based : Based before source baseline) : Based after source baseline where
  recorded record present := undisturbed.retained record (based.recorded record present)
  first record member same :=
    based.first record (undisturbed.recorded isOpen locked member same) same

theorem pending {requestID : RequestID} {jobID : JobID} {item : PreparedUniqueBatchPut}
    {writes : List Write} (pending : Pending before transaction requestID jobID item writes) :
    Pending after transaction requestID jobID item writes where
  writes := pending.writes
  jobID := pending.jobID
  key := pending.key
  new := by
    have staged : item ∈ transaction.staged := by
      simp [Transaction.staged, pending.writes]
    exact ⟨undisturbed.keys transaction isOpen _ (List.mem_map_of_mem staged)
      pending.new.unregistered, undisturbed.ids transaction isOpen _ (List.mem_map_of_mem staged)
        pending.new.unsettled⟩

end Open

section Sound

variable (sound : Sound before) (isOpen : before.transactions index = some transaction)
include sound isOpen

theorem quiet (holding : Holding before transaction source) (quiet : QuietFor before.store source) :
    QuietFor after.store source := by
  -- Both identifiers were committed once, so they do not come back.
  have gone : ∀ id ∈ before.settled, (∀ job ∈ before.database.jobs.rows, job.id ≠ id) →
      ∀ job ∈ after.database.jobs.rows, job.id ≠ id := by
    intro id settled absent job member same
    obtain ⟨old, hold, sameID⟩ := undisturbed.jobs job member (same ▸ settled)
    exact absent old hold (sameID.trans same)
  intro job member
  constructor
  · obtain ⟨row, hrow, same⟩ := holding.described
    have original : source.originalJobID = row.jobID := congrArg Source.originalJobID same
    refine gone _ (original ▸ sound.failed row hrow) (fun old hold => (quiet old hold).1) job member
  · intro record hrecord same
    have old := undisturbed.recorded isOpen holding.locked hrecord same
    exact gone _ (sound.replayed record old) (fun job hjob => (quiet job hjob).2 record old same)
      job member

theorem ready {baseline : Option Record} (ready : Ready before transaction source baseline) :
    Ready after transaction source baseline where
  holding := undisturbed.holding isOpen ready.holding
  based := undisturbed.based isOpen ready.holding.locked ready.based
  retains := ready.retains
  quiet := undisturbed.quiet sound isOpen ready.holding ready.quiet

theorem admissible {record : Record} (admissible : Admissible before transaction record) :
    Admissible after transaction record where
  holding := undisturbed.holding isOpen admissible.holding
  quiet := undisturbed.quiet sound isOpen admissible.holding admissible.quiet
  agree other member same := admissible.agree other
    (undisturbed.recorded isOpen admissible.holding.locked member same) same
  valid := admissible.valid
  pending := admissible.pending
  absent := by
    refine Table.get?_eq_none_iff.mpr fun other member same => ?_
    rcases undisturbed.journal other member with old | free
    · exact Table.get?_eq_none_iff.mp admissible.absent other old same
    · exact (free transaction isOpen).2 (same ▸ admissible.pending)

theorem facts {requestID : RequestID}
    {stage : Stage} (facts : Facts before requestID transaction stage) :
    Facts after requestID transaction stage := by
  cases stage with
  | begun => exact facts
  | locked | unrecorded | prior => exact ⟨facts.1, undisturbed.holding isOpen facts.2⟩
  | based source baseline =>
    exact ⟨facts.1, undisturbed.holding isOpen facts.2.1,
      undisturbed.based isOpen facts.2.1.locked facts.2.2⟩
  | quiet source baseline => exact ⟨facts.1, undisturbed.ready sound isOpen facts.2⟩
  | staged source baseline jobID =>
    obtain ⟨ready, item, pending⟩ := facts
    exact ⟨undisturbed.ready sound isOpen ready, item, undisturbed.pending isOpen pending⟩
  | queued source baseline jobID =>
    obtain ⟨ready, item, name, pending⟩ := facts
    exact ⟨undisturbed.ready sound isOpen ready, item, name, undisturbed.pending isOpen pending⟩
  | recorded record =>
    obtain ⟨admissible, same, item, name, pending⟩ := facts
    exact ⟨undisturbed.admissible sound isOpen admissible, same, item, name,
      undisturbed.pending isOpen pending⟩
  | _ => trivial

end Sound

theorem known {stage : Stage} (known : Known before.store stage) : Known after.store stage := by
  unfold Known at known ⊢
  split <;> first | exact undisturbed.retained _ known | trivial

theorem callHolds (sound : Sound before)
    {request : Request} {stage : Stage} (holds : CallHolds before index request stage) :
    CallHolds after index request stage where
  facts transaction isOpen := undisturbed.facts sound
    (undisturbed.transactions transaction isOpen)
    (holds.facts transaction (undisturbed.transactions transaction isOpen))
  consistent := by
    rw [undisturbed.begun]
    exact holds.consistent
  known := undisturbed.known holds.known
  accounts commit member own :=
    holds.accounts commit (undisturbed.commits commit member own) own

end Undisturbed

end OutboxFormal.Replay
