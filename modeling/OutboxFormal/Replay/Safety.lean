import OutboxFormal.Replay.Steps

/-!
# The replay journal is safe

Along every interleaving a request has at most one record and one job, repeats
answer with it, the records of a failed row agree, and a record is created only
while neither the original job nor an earlier replay is in `jobs`.
-/

namespace OutboxFormal.Replay

open Library Storage

variable {stage : Stage} {world : World} {transaction : Transaction} {index : Nat}

variable {source : Source} {baseline : Option Record} {id jobID : JobID}

/-! ## The invariant -/

/-- The invariant over the calls' histories. -/
structure JournalHolds (world : World) (pasts : List (Invocation × History Reply)) : Prop where
  sound : Sound world
  exclusive : Exclusive world
  calls : ∀ index invocation history, pasts[index]? = some (invocation, history) →
    CallHolds world index invocation.request ((replaying invocation).state history)

section Own

variable {after : World} {request : Request}

def Stage.Silent (stage : Stage) : Prop := ∀ commit, ¬ Accounts stage commit

/-- A commit may have taken effect. -/
def Stage.ended : Stage → Bool
  | .done _ | .uncertain _ | .closed _ => true
  | _ => false

theorem Stage.silent {stage : Stage} (unended : stage.ended = false) : stage.Silent := by
  rintro commit ⟨before, rfl | rfl | rfl, _⟩ <;> cases unended

theorem Stage.Yields.silent {stage : Stage} {result : Result} (yields : stage.Yields result) :
    stage.Silent := by
  rcases yields with ⟨record, rfl, _⟩ | ⟨source, record, rfl, _⟩ <;> exact Stage.silent rfl

/-- A call after a statement that left the committed state alone. -/
theorem CallHolds.next (holds : CallHolds world index request stage) (silent : stage.Silent)
    (same : SameStore world after ∧ after.begun index = world.begun index) {next : Stage}
    (known : Known world.store next)
    (facts : ∀ transaction, after.transactions index = some transaction →
      Facts after request.requestID transaction next)
    (consistent : ∀ record ∈ (world.begun index).replays.rows,
      record.requestID = request.requestID → Consistent request record stage →
      Consistent request record next) :
    CallHolds after index request next where
  facts := facts
  consistent := by
    rw [same.2]
    exact fun record member own => consistent record member own (holds.consistent record member own)
  known := by
    rw [same.1.store]
    exact known
  accounts := by
    rw [same.1.commits]
    exact fun commit member own => absurd (holds.accounts commit member own) (silent commit)

/-- What a statement of one call leaves behind. -/
structure Kept (before after : World) (index : Nat) (request : Request) (next : Stage) : Prop where
  sound : Sound after
  exclusive : Exclusive after
  others : ∀ other, other ≠ index → Undisturbed before after other
  own : CallHolds after index request next

theorem undisturbed_ends (index other : Nat) : Undisturbed world (world.ends index) other :=
  @SameStore.undisturbed world (world.ends index) ⟨rfl, rfl, rfl⟩ other
    (fun _ found => ends_of_some found) rfl

/-- The transaction of a call came to hold more, of what nobody else holds. -/
structure Grows (world : World) (index : Nat) (ids : List JobID) (before after : Transaction) :
    Prop where
  isOpen : world.transactions index = some before
  fresh : ∀ id ∈ ids, id ∉ world.used
  staged : ∀ item ∈ after.staged, item ∈ before.staged ∨ item.jobID ∈ ids ∧
    (∃ id, item.put.deduplicationKey = replayKey id) ∧
    world.FreeOf index fun other => item.put.deduplicationKey ∈ other.keys
  locked : ∀ id ∈ after.locked, id ∈ before.locked ∨
    world.FreeOf index fun other => id ∈ other.locked
  requests : ∀ id ∈ after.requests, id ∈ before.requests ∨
    world.FreeOf index fun other => id ∈ other.requests

variable (sound : Sound world) (exclusive : Exclusive world)
include sound exclusive

theorem Kept.same {next : Stage}
    (own : CallHolds world index request next) : Kept world world index request next where
  sound := sound
  exclusive := exclusive
  others _ _ := SameStore.undisturbed ⟨rfl, rfl, rfl⟩ (fun _ found => found) rfl
  own := own

theorem Kept.stays (holds : CallHolds world index request stage) (silent : stage.Silent)
    {next : Stage} (known : Known world.store next)
    (facts : ∀ transaction, world.transactions index = some transaction →
      Facts world request.requestID transaction next)
    (consistent : ∀ record ∈ (world.begun index).replays.rows,
      record.requestID = request.requestID → Consistent request record stage →
      Consistent request record next) : Kept world world index request next :=
  .same sound exclusive (holds.next silent ⟨⟨rfl, rfl, rfl⟩, rfl⟩ known facts consistent)

theorem Kept.ends {next : Stage} (own : CallHolds (world.ends index) index request next) :
    Kept world (world.ends index) index request next where
  sound := sound.ends index
  exclusive := exclusive.ends index
  others other _ := undisturbed_ends index other
  own := own

theorem Kept.continued {ids : List JobID}
    {next : Transaction} (grows : Grows world index ids transaction next) {reached : Stage}
    (own : CallHolds ((world.generates ids).continues index next) index request reached) :
    Kept world ((world.generates ids).continues index next) index request reached := by
  have elsewhere : ∀ {other found}, other ≠ index →
      ((world.generates ids).continues index next).transactions other = some found →
        world.transactions other = some found := by
    intro other found differ isOpen
    simpa [World.continues, World.generates, differ] using isOpen
  refine ⟨?_, ⟨?_, ?_, ?_, ?_⟩, ?_, own⟩
  · refine @SameStore.sound world ((world.generates ids).continues index next) ⟨rfl, rfl, rfl⟩
      sound (fun _ member => List.mem_append_right _ member) (fun _ => Or.inl rfl) ?_
    intro other found isOpen item member
    have earlier : ∀ holder, world.transactions other = some holder → item ∈ holder.staged →
        item.jobID ∈ ids ++ world.used ∧ ∃ id, item.put.deduplicationKey = replayKey id := by
      intro holder isHolder staged
      exact (sound.pending other holder isHolder item staged).imp_left (List.mem_append_right _)
    by_cases same : other = index
    · subst same
      obtain rfl : next = found := by simpa [World.continues] using isOpen
      rcases grows.staged item member with old | ⟨new, key, _⟩
      · exact earlier transaction grows.isOpen old
      · exact ⟨List.mem_append_left _ new, key⟩
    · exact earlier found (elsewhere same isOpen) member
  · have locks : (world.generates ids).Apart Transaction.locked := exclusive.locks
    exact locks.continues grows.isOpen grows.locked
  · have keys : (world.generates ids).Apart Transaction.keys := exclusive.keys
    refine keys.continues grows.isOpen fun key member => ?_
    obtain ⟨item, hitem, rfl⟩ := List.mem_map.mp member
    rcases grows.staged item hitem with old | ⟨_, _, free⟩
    · exact Or.inl (List.mem_map_of_mem old)
    · exact Or.inr free
  · have pending : (world.generates ids).Apart Transaction.ids := exclusive.ids
    refine pending.continues grows.isOpen fun id member => ?_
    obtain ⟨item, hitem, rfl⟩ := List.mem_map.mp member
    rcases grows.staged item hitem with old | ⟨new, _, _⟩
    · exact Or.inl (List.mem_map_of_mem old)
    · -- The pending identifiers of the others were generated before.
      refine Or.inr fun other holder _ isHolder held => ?_
      obtain ⟨held, hheld, same⟩ := List.mem_map.mp held
      exact grows.fresh _ new (same ▸ (sound.pending other holder isHolder held hheld).1)
  · have requests : (world.generates ids).Apart Transaction.requests := exclusive.requests
    exact requests.continues grows.isOpen grows.requests
  · intro other differ
    exact @SameStore.undisturbed world ((world.generates ids).continues index next)
      ⟨rfl, rfl, rfl⟩ other (fun _ isOpen => elsewhere differ isOpen) rfl

theorem Kept.continues {ids : List JobID} {next : Transaction}
    (grows : Grows world index ids transaction next) (holds : CallHolds world index request stage)
    (silent : stage.Silent) {reached : Stage} (known : Known world.store reached)
    (facts : Facts ((world.generates ids).continues index next) request.requestID next reached)
    (consistent : ∀ record ∈ (world.begun index).replays.rows,
      record.requestID = request.requestID → Consistent request record stage →
      Consistent request record reached) :
    Kept world ((world.generates ids).continues index next) index request reached := by
  refine .continued sound exclusive grows (holds.next silent ?_ known ?_ consistent)
  · exact ⟨⟨rfl, rfl, rfl⟩, rfl⟩
  · intro found isFound
    obtain rfl : next = found := by simpa [World.continues] using isFound
    exact facts

end Own

/-! ## The statements of a call -/

theorem Transaction.view_nil (empty : transaction.writes = []) (store : Store) :
    transaction.view store = store := by
  rw [Transaction.view, empty]
  rfl

theorem withKeyOf_of_describes (sound : Sound world) {row : JobFailed}
    (member : row ∈ world.database.failed.rows) (described : Describes world.store source)
    (same : source.failedJobID = row.id) (key : Bytes) :
    (sourceOf row key).withKeyOf source = source := by
  obtain ⟨other, hother, read⟩ := described
  have ids : other.id = row.id := (congrArg Source.failedJobID read).symm.trans same
  obtain rfl := List.inj_on_of_nodup_map sound.failedIDs hother member ids
  rw [read]
  rfl

theorem quietFor_of_active {store : Store}
    (inactive : store.active source.originalJobID source.failedJobID = false) :
    QuietFor store source := by
  intro job member
  have clauses := List.any_eq_false.mp inactive job member
  simp only [Bool.or_eq_true, decide_eq_true_eq, List.any_eq_true, not_or, not_exists,
    not_and] at clauses
  exact ⟨clauses.1, fun record hrecord own same => clauses.2 record hrecord own same.symm⟩

/-- A put that created a job used its own identifier and a key that was free. -/
theorem created_spec {digest : Digest} {put : UniqueBatchPut} {createdAt : Int}
    (sound : Sound world) (fresh : id ∉ world.used)
    (created : (Pgsql.createJobVersionedUniqueResult digest put id createdAt
      world.database).1 = .ok ⟨jobID, true⟩) :
    jobID = id ∧ New world (prepared digest put id createdAt) := by
  have unsettled : id ∉ world.settled := fun settled => fresh (sound.used id settled)
  have freshIDs : FreshIDs [id] world.database := by
    refine ⟨List.nodup_singleton _, List.forall_mem_singleton.mpr fun row member same => ?_,
      List.forall_mem_singleton.mpr fun job member same => ?_⟩
    · exact unsettled (same ▸ sound.keys row member)
    · exact unsettled (same ▸ sound.jobs job member)
  have freshPut : Fresh [prepared digest put id createdAt] world.database :=
    @FreshIDs.prepared world.database digest [(put, id)] createdAt freshIDs
      (List.nodup_singleton _)
  unfold Pgsql.createJobVersionedUniqueResult checkedCall at created
  split at created
  · cases created
  have outcome := Pgsql.stageUnique_outcome freshPut sound.covered
  have answered : (single (Pgsql.stageUnique (prepared digest put id createdAt)
      world.database)).1 = .ok [⟨jobID, true⟩] :=
    congrArg (Except.map fun result => [result]) created
  generalize (single (Pgsql.stageUnique (prepared digest put id createdAt)
    world.database)).1 = answer at outcome answered
  generalize (single (Pgsql.stageUnique (prepared digest put id createdAt)
    world.database)).2 = after at outcome
  cases outcome with
  | conflict => cases answered
  | staged agree rows =>
    have result : resultFor world.database.keys (prepared digest put id createdAt) =
        ⟨jobID, true⟩ := List.head_eq_of_cons_eq (Except.ok.inj answered)
    unfold resultFor at result
    split at result
    · cases result
    · rename_i absent
      cases result
      exact ⟨rfl, absent, unsettled⟩

theorem committed_nil (empty : transaction.writes = []) :
    world.committed index transaction =
      { world.ends index with
        commits := world.commits ++ [⟨index, world.store, world.store⟩] } := by
  have nothing : insertedJobs (world.ends index).database.jobs world.store.database.jobs = [] :=
    insertedJobs_self _
  unfold World.committed World.becomes
  rw [Transaction.view_nil empty, nothing, List.append_nil]
  rfl

section Statements

variable {invocation : Invocation} (sound : Sound world) (exclusive : Exclusive world)
include sound exclusive

theorem kept_begins (closed : world.transactions index = none)
    (holds : CallHolds world index invocation.request .idle) :
    Kept world (world.begins index) index invocation.request .begun := by
  have elsewhere : ∀ {other found}, (world.begins index).transactions other = some found →
      other = index ∧ found = .new ∨ other ≠ index ∧ world.transactions other = some found := by
    intro other found isOpen
    by_cases same : other = index
    · subst same
      exact Or.inl ⟨rfl, by simpa [World.begins] using isOpen.symm⟩
    · exact Or.inr ⟨same, by simpa [World.begins, same] using isOpen⟩
  have apart : ∀ {α : Type} {held : Transaction → List α}, held .new = [] → world.Apart held →
      (world.begins index).Apart held := by
    intro α held empty apart first second firstHolder secondHolder differ hfirst hsecond value
    rcases elsewhere hfirst with ⟨_, rfl⟩ | ⟨_, isFirst⟩
    · rw [empty]
      exact fun member => absurd member List.not_mem_nil
    · rcases elsewhere hsecond with ⟨_, rfl⟩ | ⟨_, isSecond⟩
      · rw [empty]
        exact fun _ => List.not_mem_nil
      · exact apart first second _ _ differ isFirst isSecond value
  refine ⟨?_, ⟨apart rfl exclusive.locks, apart rfl exclusive.keys, apart rfl exclusive.ids,
    apart rfl exclusive.requests⟩, ?_, ?_⟩
  · refine @SameStore.sound world (world.begins index) ⟨rfl, rfl, rfl⟩ sound
      (fun _ member => member) ?_ ?_
    · intro other
      by_cases same : other = index
      · subst same
        exact Or.inr (Function.update_self ..)
      · exact Or.inl (Function.update_of_ne same ..)
    · intro other found isOpen item member
      rcases elsewhere isOpen with ⟨_, rfl⟩ | ⟨_, earlier⟩
      · cases member
      · exact sound.pending other found earlier item member
  · intro other differ
    refine @SameStore.undisturbed world (world.begins index) ⟨rfl, rfl, rfl⟩ other ?_ ?_
    · intro found isOpen
      exact (elsewhere isOpen).elim (fun own => absurd own.1 differ) fun earlier => earlier.2
    · exact Function.update_of_ne differ ..
  · refine ⟨fun found isOpen => ?_, fun _ _ _ => trivial, trivial, fun commit member own => ?_⟩
    · rcases elsewhere isOpen with ⟨_, rfl⟩ | ⟨differ, _⟩
      · rfl
      · exact absurd rfl differ
    · have silent : Stage.idle.Silent := Stage.silent rfl
      exact absurd (holds.accounts commit member own) (silent commit)

theorem kept_missing
    (unseen : ¬ world.sees index id) (requested : id = invocation.request.failedJobID)
    (holds : CallHolds world index invocation.request .begun) :
    Kept world world index invocation.request .missing := by
  refine .stays sound exclusive holds (Stage.silent rfl) trivial (fun _ _ => trivial) ?_
  intro record recorded own _ same
  obtain ⟨began, hbegan, readBegan⟩ := sound.begunDescribed index record recorded
  obtain ⟨row, hrow, read⟩ := sound.described record ((sound.begun index).subset recorded)
  have first : record.source.failedJobID = began.id := congrArg Source.failedJobID readBegan
  have second : record.source.failedJobID = row.id := congrArg Source.failedJobID read
  refine unseen ⟨List.mem_map.mpr ⟨began, hbegan, ?_⟩, List.mem_map.mpr ⟨row, hrow, ?_⟩⟩
  · rw [← first, same, requested]
  · rw [← second, same, requested]

theorem kept_nil (empty : transaction.writes = []) {next : Stage}
    (own : CallHolds (world.committed index transaction) index invocation.request next) :
    Kept world (world.committed index transaction) index invocation.request next := by
  have ended := sound.ends index
  have apart := exclusive.ends index
  refine ⟨?_, ?_, fun other differ => ?_, own⟩
  · rw [committed_nil empty]
    exact { ended with
      quiet := List.forall_mem_append.mpr ⟨ended.quiet, List.forall_mem_singleton.mpr
        fun record member absent => absurd member absent⟩
      kept := List.forall_mem_append.mpr ⟨ended.kept, List.forall_mem_singleton.mpr
        (List.prefix_refl _)⟩ }
  · exact { apart with }
  · rw [committed_nil empty]
    refine { undisturbed_ends index other with commits := fun commit member mine => ?_ }
    rcases List.mem_append.mp member with old | new
    · exact old
    · rw [List.mem_singleton.mp new] at mine
      exact absurd mine.symm differ

section Open

variable (isOpen : world.transactions index = some transaction)
include isOpen

theorem kept_source {row : JobFailed} (member : row ∈ world.database.failed.rows)
    (free : world.FreeOf index fun other => row.id ∈ other.locked) (key : Bytes)
    (requested : row.id = invocation.request.failedJobID)
    (holds : CallHolds world index invocation.request .begun) :
    Kept world (world.continues index { transaction with locked := row.id :: transaction.locked })
      index invocation.request (.locked (sourceOf row key)) := by
  have grows : Grows world index [] transaction
      { transaction with locked := row.id :: transaction.locked } := by
    refine ⟨isOpen, nofun, fun _ staged => Or.inl staged, fun id locked => ?_,
      fun _ pending => Or.inl pending⟩
    rcases List.mem_cons.mp locked with rfl | old
    · exact Or.inr free
    · exact Or.inl old
  refine Kept.continues sound exclusive grows holds (Stage.silent rfl) trivial ?_ ?_
  · exact ⟨holds.facts transaction isOpen, List.mem_cons_self, row, member, rfl⟩
  · intro record recorded own _ same
    have described := sound.described record ((sound.begun index).subset recorded)
    exact withKeyOf_of_describes sound member described (same.trans requested.symm) key

theorem kept_byRequestID (holds : CallHolds world index invocation.request (.locked source)) :
    Kept world world index invocation.request
      (Stage.next (.locked source) (.byRequestID invocation.request.requestID)
        (Except.ok ((transaction.view world.store).replays.get?
          invocation.request.requestID))) := by
  rw [Transaction.view_nil (holds.facts transaction isOpen).1]
  cases found : world.store.replays.get? invocation.request.requestID with
  | none =>
    refine .stays sound exclusive holds (Stage.silent rfl) trivial holds.facts ?_
    intro record recorded own _
    exact Table.get?_eq_none_iff.mp found record ((sound.begun index).subset recorded) own
  | some prior =>
    obtain ⟨member, same⟩ := Table.get?_eq_some_iff.mp found
    refine .stays sound exclusive holds (Stage.silent rfl) member holds.facts ?_
    intro record recorded own consistent
    exact ⟨world.store.replays.row_unique member ((sound.begun index).subset recorded)
      (same.trans own.symm), consistent⟩

theorem kept_byFailedJobID {record : Record}
    (member : record ∈ (transaction.view world.store).replays.rows)
    (same : record.source.failedJobID = source.failedJobID)
    (holds : CallHolds world index invocation.request (.unrecorded source)) :
    Kept world world index invocation.request (.based source (some record)) := by
  refine .stays sound exclusive holds (Stage.silent rfl) trivial ?_
    fun _ _ _ none => none
  intro found isFound
  obtain ⟨empty, holding⟩ := holds.facts found isFound
  rw [isOpen] at isFound
  cases isFound
  rw [Transaction.view_nil empty] at member
  refine ⟨empty, holding, ?_, ?_⟩
  · rintro _ ⟨⟩
    exact member
  · intro other hother own
    obtain ⟨sources, keys⟩ := sound.agree other hother record member (own.trans same.symm)
    exact ⟨record, rfl, sources, keys⟩

theorem kept_byFailedJobIDMissing (absent : ∀ record ∈ (transaction.view world.store).replays.rows,
      record.source.failedJobID ≠ source.failedJobID)
    (holds : CallHolds world index invocation.request (.unrecorded source)) :
    Kept world world index invocation.request (.based source none) := by
  refine .stays sound exclusive holds (Stage.silent rfl) trivial ?_
    fun _ _ _ none => none
  intro found isFound
  obtain ⟨empty, holding⟩ := holds.facts found isFound
  rw [isOpen] at isFound
  cases isFound
  rw [Transaction.view_nil empty] at absent
  exact ⟨empty, holding, nofun, fun other hother own => absurd own (absent other hother)⟩

theorem kept_active
    (retains : ∀ record, baseline = some record → source.withKeyOf record.source = record.source)
    (holds : CallHolds world index invocation.request (.based source baseline)) :
    Kept world world index invocation.request
      (Stage.next (.based source baseline) (.active source.originalJobID source.failedJobID)
        (Except.ok ((transaction.view world.store).active source.originalJobID
          source.failedJobID))) := by
  obtain ⟨empty, holding, based⟩ := holds.facts transaction isOpen
  rw [Transaction.view_nil empty]
  cases active : world.store.active source.originalJobID source.failedJobID with
  | true =>
    exact .stays sound exclusive holds (Stage.silent rfl) trivial
      (fun _ _ => trivial) fun _ _ _ none => none
  | false =>
    refine .stays sound exclusive holds (Stage.silent rfl) trivial ?_
      fun _ _ _ none => none
    intro found isFound
    rw [isOpen] at isFound
    cases isFound
    have quiet := quietFor_of_active active
    cases baseline with
    | none => exact ⟨empty, holding, based, nofun, quiet⟩
    | some first =>
      obtain ⟨row, member, read⟩ := holding.described
      refine ⟨empty, ⟨holding.locked, row, member, ?_⟩, ⟨based.recorded, based.first⟩, ?_, quiet⟩
      · rw [read]
        rfl
      · rintro _ ⟨⟩
        exact retains first rfl

theorem kept_create {digest : Digest} {put : UniqueBatchPut} {createdAt : Int}
    (fresh : id ∉ world.used) (free : world.FreeOf index fun other =>
      put.deduplicationKey ∈ other.staged.map fun item => item.put.deduplicationKey)
    (key : put.deduplicationKey = replayKey invocation.request.requestID)
    (holds : CallHolds world index invocation.request (.quiet source baseline)) :
    let answer := (Pgsql.createJobVersionedUniqueResult digest put id createdAt
      (transaction.view world.store).database).1
    Kept world
      (if answer.isOk then
        (world.generates [id]).continues index
          { transaction with
            writes := transaction.writes ++ [.unique (prepared digest put id createdAt)] }
      else world.generates [id])
      index invocation.request (Stage.next (.quiet source baseline) (.create put) answer) := by
  obtain ⟨empty, ready⟩ := holds.facts transaction isOpen
  rw [Transaction.view_nil empty, empty, List.nil_append]
  intro answer
  cases created : answer with
  | error error =>
    change Kept world (world.generates [id]) index invocation.request .failed
    constructor
    · refine @SameStore.sound world (world.generates [id]) ⟨rfl, rfl, rfl⟩ sound
        (fun _ member => List.mem_cons_of_mem _ member) (fun _ => Or.inl rfl) ?_
      intro other found isFound item member
      exact (sound.pending other found isFound item member).imp_left (List.mem_cons_of_mem _)
    · exact { exclusive with }
    · intro other _
      exact @SameStore.undisturbed world (world.generates [id]) ⟨rfl, rfl, rfl⟩ other
        (fun _ found => found) rfl
    · apply holds.next (Stage.silent rfl)
      · exact ⟨⟨rfl, rfl, rfl⟩, rfl⟩
      · trivial
      · exact fun _ _ => trivial
      · exact fun _ _ _ _ => trivial
  | ok result =>
    have grows : Grows world index [id] transaction
        { transaction with writes := [.unique (prepared digest put id createdAt)] } := by
      refine ⟨isOpen, List.forall_mem_singleton.mpr fresh, fun item staged => Or.inr ?_,
        fun _ locked => Or.inl locked, nofun⟩
      obtain rfl : item = prepared digest put id createdAt := by
        simpa [Transaction.staged] using staged
      exact ⟨List.mem_singleton_self _, ⟨_, key⟩, free⟩
    obtain ⟨jobID, isNew⟩ := result
    cases isNew with
    | false =>
      exact Kept.continues sound exclusive grows holds (Stage.silent rfl) trivial
        trivial fun _ _ _ none => none
    | true =>
      obtain ⟨rfl, new⟩ := created_spec sound fresh created
      refine Kept.continues sound exclusive grows holds (Stage.silent rfl)
        trivial ?_ fun _ _ _ none => none
      exact ⟨⟨⟨ready.holding.locked, ready.holding.described⟩,
        ⟨ready.based.recorded, ready.based.first⟩, ready.retains, ready.quiet⟩,
        prepared digest put jobID createdAt, rfl, rfl, key, new.unregistered, new.unsettled⟩

theorem kept_queue {name : Bytes}
    (holds : CallHolds world index invocation.request (.staged source baseline jobID))
    (affected : Nat) :
    Kept world
      (world.continues index
        { transaction with writes := transaction.writes ++ [.queue name jobID] })
      index invocation.request
      (Stage.next (.staged source baseline jobID) (.queue name jobID) (Except.ok affected)) := by
  obtain ⟨ready, item, pending⟩ := holds.facts transaction isOpen
  have grows : Grows world index [] transaction
      { transaction with writes := transaction.writes ++ [.queue name jobID] } := by
    refine ⟨isOpen, by simp, fun _ staged => Or.inl ?_, fun _ locked => Or.inl locked,
      fun _ requests => Or.inl ?_⟩
    · simpa [Transaction.staged] using staged
    · simpa [Transaction.requests] using requests
  by_cases one : affected = 1
  · subst one
    refine Kept.continues sound exclusive grows holds (Stage.silent rfl) trivial ?_
      fun _ _ _ none => none
    refine ⟨⟨⟨ready.holding.locked, ready.holding.described⟩,
      ⟨ready.based.recorded, ready.based.first⟩, ready.retains, ready.quiet⟩, item, name, ?_,
      pending.jobID, pending.key, pending.new.unregistered, pending.new.unsettled⟩
    rw [pending.writes]
    rfl
  · have refused : Stage.next (.staged source baseline jobID) (.queue name jobID)
        (Except.ok affected) = .refused := if_neg one
    rw [refused]
    exact Kept.continues sound exclusive grows holds (Stage.silent rfl) trivial
      trivial fun _ _ _ none => none

theorem kept_record {businessKey : Bytes} {createdAt : Int}
    (absent : (transaction.view world.store).replays.get? invocation.request.requestID = none)
    (free : world.FreeOf index fun other => invocation.request.requestID ∈ other.requests)
    (named : invocation.request.requestID ≠ .nil) (valid : validateSource source = .ok ())
    (same : ∀ record, baseline = some record → record.requestID ≠ .nil →
      businessKey = record.businessKey)
    (holds : CallHolds world index invocation.request (.queued source baseline jobID)) :
    Kept world
      (world.continues index
        { transaction with
          writes := transaction.writes ++
            [.record ⟨invocation.request.requestID, jobID, source, businessKey, createdAt⟩] })
      index invocation.request
      (.recorded ⟨invocation.request.requestID, jobID, source, businessKey, createdAt⟩) := by
  obtain ⟨ready, item, name, pending⟩ := holds.facts transaction isOpen
  have unrecorded : world.store.replays.get? invocation.request.requestID = none := by
    rwa [Transaction.view, pending.writes] at absent
  have grows : Grows world index [] transaction
      { transaction with
        writes := transaction.writes ++
          [.record ⟨invocation.request.requestID, jobID, source, businessKey, createdAt⟩] } := by
    refine ⟨isOpen, by simp, fun _ staged => Or.inl ?_, fun _ locked => Or.inl locked,
      fun id requests => ?_⟩
    · simpa [Transaction.staged] using staged
    · simp only [Transaction.requests, List.filterMap_append, List.mem_append] at requests
      rcases requests with old | new
      · exact Or.inl old
      · obtain rfl : id = invocation.request.requestID := by simpa using new
        exact Or.inr free
  refine Kept.continues sound exclusive grows holds (Stage.silent rfl) trivial ?_
    fun _ _ _ none => none
  refine ⟨⟨⟨ready.holding.locked, ready.holding.described⟩, ready.quiet, ?_, ⟨valid, named⟩, ?_,
    unrecorded⟩, rfl, item, name, ?_, pending.jobID, pending.key, pending.new.unregistered,
    pending.new.unsettled⟩
  · intro other member own
    obtain ⟨earliest, based, sources, keys⟩ := ready.based.first other member own
    have zero := (sound.valid earliest (ready.based.recorded earliest based)).2
    exact ⟨sources.trans (ready.retains earliest based).symm,
      keys.trans (same earliest based zero).symm⟩
  · simp [Transaction.requests]
  · rw [pending.writes]
    rfl

/-- The end of a commit that took effect, whatever was answered. -/
theorem kept_commit {next : Stage} {result : Result} (yields : stage.Yields result)
    (ended : next = .done stage ∨ next = .uncertain stage)
    (holds : CallHolds world index invocation.request stage) :
    Kept world (world.committed index transaction) index invocation.request next := by
  have consistent : ∀ record ∈ (world.begun index).replays.rows,
      record.requestID = invocation.request.requestID →
        Consistent invocation.request record next := by
    intro record member own
    rcases ended with rfl | rfl
    · exact holds.consistent record member own
    · exact holds.consistent record member own
  have closes : ∀ found, (world.committed index transaction).transactions index ≠ some found := by
    intro found isFound
    simp [World.committed, World.ends, World.becomes] at isFound
  have silent : stage.Silent := yields.silent
  have accounts : (∀ source record, stage = .prior source record →
      transaction.view world.store = world.store) →
      ∀ commit ∈ (world.committed index transaction).commits, commit.call = index →
        Accounts next commit := by
    intro unchanged commit member own
    rcases List.mem_append.mp member with old | new
    · exact absurd (holds.accounts commit old own) (silent commit)
    · rw [List.mem_singleton.mp new]
      refine ⟨stage, ended.imp_right Or.inl, ⟨result, yields⟩, fun source record same => ?_⟩
      exact unchanged source record same
  rcases yields with ⟨record, rfl, _⟩ | ⟨source, record, rfl, _⟩
  · obtain ⟨item, job, commits⟩ := commits_of_facts sound isOpen (holds.facts transaction isOpen)
    refine ⟨commits.sound sound, ?_, fun other differ => commits.undisturbed exclusive differ, ?_⟩
    · exact { exclusive.ends index with }
    · refine ⟨fun found isFound => absurd isFound (closes found), consistent, ?_,
        accounts (by simp)⟩
      rcases ended with rfl | rfl
      · exact commits.mem_replays.mpr (Or.inr rfl)
      · trivial
  · obtain ⟨empty, _⟩ := holds.facts transaction isOpen
    have unchanged := Transaction.view_nil empty world.store
    apply kept_nil sound exclusive empty
    refine ⟨fun found isFound => absurd isFound (closes found), consistent, ?_,
      accounts fun _ _ _ => unchanged⟩
    have known : record ∈ (world.committed index transaction).store.replays.rows := by
      rw [committed_nil empty]
      exact holds.known
    rcases ended with rfl | rfl
    · exact known
    · trivial

end Open

theorem kept_rollback (stops : stage.Stops invocation ∨ ∃ before, stage = .uncertain before)
    (holds : CallHolds world index invocation.request stage) :
    Kept world (world.ends index) index invocation.request (.closed stage) := by
  apply Kept.ends sound exclusive
  refine ⟨fun found isFound => ?_, holds.consistent, trivial, fun commit member own => ?_⟩
  · simp [World.ends] at isFound
  · obtain ⟨before, same | same | same, unchanged⟩ := holds.accounts commit member own
    · subst same
      rcases stops with ended | ⟨_, other⟩
      · exact ended.elim
      · cases other
    · exact ⟨before, Or.inr (Or.inr (congrArg Stage.closed same)), unchanged⟩
    · subst same
      rcases stops with ended | ⟨_, other⟩
      · exact ended.elim
      · cases other

theorem kept_failed
    (holds : CallHolds world index invocation.request stage) (silent : stage.Silent) :
    Kept world world index invocation.request .failed :=
  .stays sound exclusive holds silent trivial (fun _ _ => trivial) fun _ _ _ _ => trivial

end Statements

theorem failed_kept {invocation : Invocation} {statement : Statement} {answer : Reply statement}
    {error : OutboxError} (sound : Sound world) (exclusive : Exclusive world)
    (holds : CallHolds world index invocation.request stage)
    (allowed : stage.allows invocation statement) (foreign : ∀ own, error.is (.replay own) = false)
    (fails : Reply.failure statement error = some answer) :
    Expected statement answer ∧
      Kept world world index invocation.request (stage.next statement answer) := by
  cases statement with
  | contextErr =>
    cases fails
    obtain rfl : stage = .idle := allowed
    exact ⟨trivial, kept_failed sound exclusive holds (Stage.silent rfl)⟩
  | begin_ | source =>
    cases fails
    obtain ⟨rfl, _⟩ := allowed
    exact ⟨trivial, kept_failed sound exclusive holds (Stage.silent rfl)⟩
  | byRequestID | byFailedJobID =>
    cases fails
    obtain ⟨source, rfl, _⟩ := allowed
    exact ⟨foreign _, kept_failed sound exclusive holds (Stage.silent rfl)⟩
  | active | create =>
    cases fails
    obtain ⟨source, baseline, rfl, _⟩ := allowed
    exact ⟨trivial, kept_failed sound exclusive holds (Stage.silent rfl)⟩
  | queue name id =>
    cases fails
    obtain ⟨source, baseline, rfl⟩ := allowed
    exact ⟨trivial, kept_failed sound exclusive holds (Stage.silent rfl)⟩
  | record requestID source jobID businessKey =>
    cases fails
    obtain ⟨baseline, rfl, _⟩ := allowed
    exact ⟨trivial, kept_failed sound exclusive holds (Stage.silent rfl)⟩
  | commit =>
    cases fails
    obtain ⟨result, yields⟩ := allowed
    have silent : stage.Silent := yields.silent
    have uncertain : stage.next .commit (Except.error error) = .uncertain stage := by
      rcases yields with ⟨_, rfl, _⟩ | ⟨_, _, rfl, _⟩ <;> rfl
    rw [uncertain]
    exact ⟨trivial, .stays sound exclusive holds silent trivial (fun _ _ => trivial)
      fun _ _ _ consistent => consistent⟩
  | clock | rollback | returns exit => cases fails

/-- Every statement that a call may issue keeps the invariant. -/
theorem performs_kept {digest : Digest} {after : World} {invocation : Invocation}
    {statement : Statement} {answer : Reply statement} (sound : Sound world)
    (exclusive : Exclusive world) (holds : CallHolds world index invocation.request stage)
    (allowed : stage.allows invocation statement)
    (performs : Performs digest index world statement answer after) :
    Expected statement answer ∧
      Kept world after index invocation.request (stage.next statement answer) := by
  cases performs with
  | contextErr =>
    obtain rfl : stage = .idle := allowed
    exact ⟨trivial, .same sound exclusive holds⟩
  | begins closed =>
    obtain ⟨rfl, _⟩ := allowed
    exact ⟨trivial, kept_begins sound exclusive closed holds⟩
  | source keys isOpen member free =>
    obtain ⟨rfl, requested⟩ := allowed
    exact ⟨trivial, kept_source sound exclusive isOpen member free _ requested holds⟩
  | sourceMissing isOpen unseen =>
    obtain ⟨rfl, requested⟩ := allowed
    exact ⟨trivial, kept_missing sound exclusive unseen requested holds⟩
  | byRequestID id isOpen =>
    obtain ⟨source, rfl, rfl⟩ := allowed
    exact ⟨trivial, kept_byRequestID sound exclusive isOpen holds⟩
  | byFailedJobID isOpen member =>
    obtain ⟨source, rfl, same⟩ := allowed
    exact ⟨trivial, kept_byFailedJobID sound exclusive isOpen member same holds⟩
  | byFailedJobIDMissing isOpen absent =>
    obtain ⟨source, rfl, rfl⟩ := allowed
    exact ⟨trivial, kept_byFailedJobIDMissing sound exclusive isOpen absent holds⟩
  | active originalJobID failedJobID isOpen =>
    obtain ⟨source, baseline, rfl, retains, rfl, rfl⟩ := allowed
    exact ⟨trivial, kept_active sound exclusive isOpen retains holds⟩
  | clock now =>
    refine ⟨trivial, ?_⟩
    cases stage <;> exact .same sound exclusive holds
  | create put id createdAt isOpen fresh free =>
    obtain ⟨source, baseline, rfl, key⟩ := allowed
    exact ⟨trivial, kept_create sound exclusive isOpen fresh free key holds⟩
  | queue name id isOpen =>
    obtain ⟨source, baseline, rfl⟩ := allowed
    exact ⟨trivial, kept_queue sound exclusive isOpen holds _⟩
  | record requestID source jobID businessKey createdAt isOpen absent accepted free =>
    obtain ⟨baseline, rfl, rfl, named, valid, same⟩ := allowed
    exact ⟨trivial, kept_record sound exclusive isOpen absent free named valid same holds⟩
  | recordDuplicate requestID source jobID businessKey error isOpen present =>
    obtain ⟨baseline, rfl, _⟩ := allowed
    exact ⟨trivial, .stays sound exclusive holds (Stage.silent rfl) trivial
      (fun _ _ => trivial) fun _ _ _ none => none⟩
  | commits isOpen =>
    obtain ⟨result, yields⟩ := allowed
    refine ⟨trivial, kept_commit sound exclusive isOpen yields (Or.inl ?_) holds⟩
    rcases yields with ⟨_, rfl, _⟩ | ⟨_, _, rfl, _⟩ <;> rfl
  | commitLost error isOpen =>
    obtain ⟨result, yields⟩ := allowed
    refine ⟨trivial, kept_commit sound exclusive isOpen yields (Or.inr ?_) holds⟩
    rcases yields with ⟨_, rfl, _⟩ | ⟨_, _, rfl, _⟩ <;> rfl
  | rollback error =>
    refine ⟨trivial, ?_⟩
    have closed : stage.next .rollback error = .closed stage := by cases stage <;> rfl
    rw [closed]
    exact kept_rollback sound exclusive allowed holds
  | returns exit =>
    refine ⟨trivial, ?_⟩
    cases stage <;> exact .same sound exclusive holds
  | failed error foreign fails => exact failed_kept sound exclusive holds allowed foreign fails

theorem JournalHolds.moves {digest : Digest} {after : World}
    {pasts : List (Invocation × History Reply)} (holds : JournalHolds world pasts)
    (moves : Moves digest world after) : JournalHolds after pasts := by
  have active : ∀ {after}, Activity world after → JournalHolds after pasts := by
    intro after activity
    refine ⟨activity.sound holds.sound, activity.exclusive holds.exclusive, ?_⟩
    intro index invocation history found
    exact (activity.undisturbed holds.sound index).callHolds holds.sound
      (holds.calls index invocation history found)
  cases moves with
  | call call distinct fresh outermost foreign known =>
    exact active (activity_of_call holds.sound distinct fresh outermost foreign known)
  | insertFailed inserts known =>
    exact active (activity_of_failed holds.sound (.inserted holds.sound inserts known))
  | deleteFailed id unlocked unreferenced =>
    exact active (activity_of_failed holds.sound
      (.deleted holds.sound unlocked unreferenced))
  | disconnects index =>
    refine ⟨holds.sound.ends index, holds.exclusive.ends index, ?_⟩
    intro other invocation history found
    exact (undisturbed_ends index other).callHolds holds.sound
      (holds.calls other invocation history found)

theorem supervision (digest : Digest) :
    Supervision (replayers digest) replaying JournalHolds where
  spawns := fun _ _ _ child => nomatch child
  performs := by
    intro world pasts index invocation history statement answer after holds found allowed performs
    obtain ⟨expected, kept⟩ := performs_kept holds.sound holds.exclusive
      (holds.calls index invocation history found) allowed performs
    refine ⟨expected, kept.sound, kept.exclusive, ?_⟩
    intro other role past located
    rcases getElem?_stepped located with ⟨rfl, same⟩ | ⟨differ, same⟩ | ⟨_, child⟩
    · cases same
      exact kept.own
    · exact (kept.others other differ).callHolds holds.sound (holds.calls other role past same)
    · cases child
  moves := fun _ _ _ holds moves => holds.moves moves

/-- The migrated database before the first statement of any call. -/
theorem start_holds (invocations : List Invocation) :
    Supervision.Holds replaying JournalHolds (start invocations) := by
  refine ⟨⟨?_, ⟨nofun, nofun, nofun, nofun⟩, ?_⟩, ?_⟩
  · exact
      { covered := nofun, failedIDs := List.nodup_nil, used := nofun, jobs := nofun
        keys := nofun, failed := nofun, replayed := nofun, described := nofun, valid := nofun
        agree := nofun, counted := fun _ => rfl, quiet := nofun, kept := nofun
        begun := fun _ => List.prefix_refl _, begunDescribed := nofun, pending := nofun }
  · intro index invocation history found
    have fresh : history = [] := by
      simp only [start, List.map_map, List.getElem?_map, Option.map_eq_some_iff] at found
      obtain ⟨_, _, same⟩ := found
      exact (congrArg Prod.snd same).symm
    subst fresh
    exact ⟨nofun, nofun, trivial, nofun⟩
  · intro thread member
    obtain ⟨invocation, _, rfl⟩ := List.mem_map.mp member
    exact watched_program invocation

/-! ## Safety -/

structure SafeJournal (config : Config Invocation World Reply) : Prop where
  /-- A recorded request has one committed job under its key, any other none. -/
  once : ∀ id, (config.world.committedUnder (replayKey id)).length =
    if (config.world.store.replays.get? id).isSome then 1 else 0
  /-- Records are never removed. -/
  retained : ∀ commit ∈ config.world.commits,
    commit.before.replays.rows <+: config.world.store.replays.rows
  /-- A call whose request was recorded when it began commits nothing. -/
  repeats : ∀ index invocation history program,
    config.threads[index]? = some ⟨invocation, history, program⟩ →
    ∀ record ∈ (config.world.begun index).replays.rows,
      record.requestID = invocation.request.requestID →
      ∀ commit ∈ config.world.commits, commit.call = index → commit.after = commit.before
  /-- It returns the record, if the host returns its key and no statement fails. -/
  answers : ∀ index invocation history exit resume,
    config.threads[index]? = some ⟨invocation, history, .call (.returns exit) resume⟩ →
    invocation.WellFormed →
    ∀ record ∈ (config.world.begun index).replays.rows,
      record.requestID = invocation.request.requestID →
      record.source.failedJobID = invocation.request.failedJobID →
      (∀ admission, invocation.admission = some admission →
        admission record.source = .returned record.businessKey) →
      (∀ event ∈ history, ∀ error, Reply.failure event.effect error ≠ some event.answer) →
      exit = .returned ⟨record, false⟩
  /-- The records of a failed row have one source and one business key. -/
  agree : ∀ first ∈ config.world.store.replays.rows,
    ∀ second ∈ config.world.store.replays.rows,
      first.source.failedJobID = second.source.failedJobID →
      first.source = second.source ∧ first.businessKey = second.businessKey
  /-- A record is created while neither the original job nor a job of an earlier
  record of its failed row is in `jobs`. -/
  quiet : ∀ commit ∈ config.world.commits, ∀ record ∈ commit.after.replays.rows,
    record ∉ commit.before.replays.rows →
    ∀ job ∈ commit.before.database.jobs.rows, job.id ≠ record.source.originalJobID ∧
      ∀ earlier ∈ commit.before.replays.rows,
        earlier.source.failedJobID = record.source.failedJobID → job.id ≠ earlier.jobID
  /-- A call that returns an error other than that of its commit has committed
  nothing. -/
  unchanged : ∀ index invocation history error resume,
    config.threads[index]? = some ⟨invocation, history, .call (.returns (.failed error)) resume⟩ →
    ¬ CommitFailed error → ∀ commit ∈ config.world.commits, commit.call ≠ index
  /-- What a call returns is in the journal. -/
  confirmed : ∀ (index : Nat) invocation history result resume,
    config.threads[index]? =
      some ⟨invocation, history, .call (.returns (.returned result)) resume⟩ →
    result.record ∈ config.world.store.replays.rows

/-- A stage that only a failed statement leads to. -/
def Stage.AfterFailure : Stage → Prop
  | .failed => True
  | .uncertain _ => True
  | .closed before => before.AfterFailure
  | _ => False

theorem failure_of_next {statement : Statement} {answer : Reply statement}
    (before : ¬ stage.AfterFailure) (failed : (stage.next statement answer).AfterFailure) :
    ∃ error, Reply.failure statement error = some answer := by
  cases statement with
  | contextErr =>
    match answer with
    | some error => exact ⟨error, rfl⟩
    | none => cases stage <;> exact absurd failed before
  | begin_ | byFailedJobID | commit =>
    match answer with
    | .error error => exact ⟨error, rfl⟩
    | .ok _ => cases stage <;> exact failed.elim
  | source | byRequestID =>
    match answer with
    | .error error => exact ⟨error, rfl⟩
    | .ok none => cases stage <;> exact failed.elim
    | .ok (some _) => cases stage <;> exact failed.elim
  | active originalJobID failedJobID =>
    match answer with
    | .error error => exact ⟨error, rfl⟩
    | .ok true => cases stage <;> exact failed.elim
    | .ok false => cases stage <;> exact failed.elim
  | create put =>
    match answer with
    | .error error => exact ⟨error, rfl⟩
    | .ok ⟨jobID, true⟩ => cases stage <;> exact failed.elim
    | .ok ⟨jobID, false⟩ => cases stage <;> exact failed.elim
  | queue name id =>
    match answer with
    | .error error => exact ⟨error, rfl⟩
    | .ok affected =>
      cases stage with
      | staged source baseline jobID =>
        have next : Stage.next (.staged source baseline jobID) (.queue name id)
            (Except.ok affected) =
              if affected = 1 then .queued source baseline jobID else .refused := rfl
        rw [next] at failed
        split at failed <;> exact failed.elim
      | _ => exact failed.elim
  | record requestID source jobID businessKey =>
    match answer with
    | .error (.other error) => exact ⟨error, rfl⟩
    | .error (.requestID error) => cases stage <;> exact failed.elim
    | .ok createdAt => cases stage <;> exact failed.elim
  | clock | rollback | returns exit => cases stage <;> exact absurd failed before

theorem failure_of_stage {invocation : Invocation} {history : History Reply}
    (failed : ((replaying invocation).state history).AfterFailure) :
    ∃ event ∈ history, ∃ error, Reply.failure event.effect error = some event.answer := by
  induction history with
  | nil => cases failed
  | cons event earlier ih =>
    by_cases before : ((replaying invocation).state earlier).AfterFailure
    · obtain ⟨old, member, error, fails⟩ := ih before
      exact ⟨old, List.mem_cons_of_mem _ member, error, fails⟩
    · obtain ⟨statement, answer⟩ := event
      refine ⟨_, List.mem_cons_self, ?_⟩
      change (Stage.next ((replaying invocation).state earlier) statement answer).AfterFailure
        at failed
      generalize (replaying invocation).state earlier = stage at before failed
      exact failure_of_next before failed

/-- A repeated request has nothing left to return but its record. -/
theorem answers_of_allowed {invocation : Invocation} {record : Record} {exit : Exit Result}
    (well : invocation.WellFormed)
    (failedJob : record.source.failedJobID = invocation.request.failedJobID)
    (confirms : ∀ admission, invocation.admission = some admission →
      admission record.source = .returned record.businessKey)
    (valid : validateSource record.source = .ok ())
    (consistent : Consistent invocation.request record stage) (succeeds : ¬ stage.AfterFailure)
    (allowed : stage.allows invocation (.returns exit)) :
    exit = .returned ⟨record, false⟩ := by
  cases exit with
  | returned result =>
    obtain ⟨before, rfl, ⟨added, rfl, _⟩ | ⟨source, prior, rfl, rfl⟩⟩ := allowed
    · exact consistent.elim
    · rw [consistent.1]
  | failed error =>
    rcases allowed with ⟨before, rfl, stops | ⟨⟨last, rfl⟩, _⟩⟩ | rfl | ⟨_, ill⟩
    · cases before with
      | idle | begun | done | uncertain | closed => exact stops.elim
      | missing => exact absurd failedJob consistent
      | locked source =>
        have same : validateSource source = validateSource record.source := by
          rw [← consistent failedJob]
          rfl
        exact absurd (same.trans valid) stops
      | prior source other =>
        obtain ⟨rfl, same⟩ := consistent
        exact absurd ⟨same failedJob, confirms⟩ stops
      | unrecorded | based | quiet | staged | queued | recorded | refused =>
        exact consistent.elim
      | failed => exact absurd trivial succeeds
    · exact absurd trivial succeeds
    · exact absurd trivial succeeds
    · exact absurd well ill
  | panicked value => exact allowed.elim
  | goexit => exact allowed.elim

theorem replay_journal_safe (digest : Digest) (invocations : List Invocation)
    {config : Config Invocation World Reply}
    (reached : (replayers digest).Reaches (start invocations) config) : SafeJournal config := by
  have kept := (supervision digest).reaches (start_holds invocations) reached
  have sound := kept.invariant.sound
  have call : ∀ {index invocation history program},
      config.threads[index]? = some ⟨invocation, history, program⟩ →
        CallHolds config.world index invocation.request
          ((replaying invocation).state history) := by
    intro index invocation history program found
    refine kept.invariant.calls index invocation history ?_
    rw [List.getElem?_map, found]
    rfl
  constructor
  · exact sound.counted
  · exact sound.kept
  · intro index invocation history program found record recorded own commit member mine
    have holds := call found
    obtain ⟨before, ended, ⟨result, yields⟩, unchanged⟩ := holds.accounts commit member mine
    have consistent : Consistent invocation.request record before := by
      have current := holds.consistent record recorded own
      rcases ended with same | same | same
      · rwa [same] at current
      · rwa [same] at current
      · rwa [same] at current
    rcases yields with ⟨added, rfl, _⟩ | ⟨source, prior, rfl, _⟩
    · exact consistent.elim
    · exact unchanged source prior rfl
  · intro index invocation history exit resume found well record recorded own failedJob confirms
      succeeds
    have holds := call found
    have valid := (sound.valid record ((sound.begun index).subset recorded)).1
    refine answers_of_allowed well failedJob confirms valid (holds.consistent record recorded own)
      (fun failed => ?_) (kept.located found).2
    obtain ⟨event, member, error, fails⟩ := failure_of_stage failed
    exact succeeds event member error fails
  · exact sound.agree
  · intro commit member record hrecord absent
    exact sound.quiet commit member record hrecord absent
  · intro index invocation history error resume found uncommitted commit member mine
    have allowed := (kept.located found).2
    obtain ⟨before, ended, _⟩ := (call found).accounts commit member mine
    rcases allowed with ⟨last, closed, stops | ⟨_, failed⟩⟩ | failed | ⟨idle, _⟩
    · rw [closed] at ended
      rcases ended with same | same | same
      · cases same
      · cases same
      · cases same
        exact stops
    · exact uncommitted failed
    · rw [failed] at ended
      rcases ended with same | same | same <;> cases same
    · rw [idle] at ended
      rcases ended with same | same | same <;> cases same
  · intro index invocation history result resume found
    have holds := call found
    obtain ⟨before, ended, yields⟩ := (kept.located found).2
    have known := holds.known
    rw [ended] at known
    rcases yields with ⟨record, rfl, rfl⟩ | ⟨source, record, rfl, rfl⟩
    · exact known
    · exact known

/-! ## A repeated request -/

theorem World.freeOf_of_closed {holds : Transaction → Prop}
    (closed : ∀ other, other ≠ index → world.transactions other = none) :
    world.FreeOf index holds := by
  intro other transaction differs isOpen
  rw [closed other differs] at isOpen
  cases isOpen

namespace Sample

def digest : Digest := ⟨fun _ => [], fun _ => []⟩

def capability : JobCapability := ⟨bytes "mail", 1⟩

def failed : JobFailed :=
  ⟨⟨9⟩, ⟨1⟩, [], bytes "slow", bytes "mail", 1, bytes "payload", "gave up", [], 0, 0⟩

def invocation : Invocation :=
  ⟨true, false, ⟨⟨5⟩, ⟨9⟩⟩, some fun _ => .returned (bytes "order")⟩

def create : Call := .createJobVersioned ⟨1⟩ 0 ⟨bytes "mail", 1, bytes "payload", 0⟩

def claim (token : LeaseToken) : Call :=
  .findAndReserveJobsForCapabilities ⟨false, fun _ => false, fun _ => false, fun _ _ => true, []⟩
    second (2 * second) token [capability] 1

def acknowledge (id : JobID) (token : LeaseToken) : Call := .deleteJobWithLease id token second

end Sample

open Replay.Sample in
/-- A request is replayed, its job is worked off, and the request is repeated. -/
theorem repeated_replay_keeps_journal :
    ∃ config, (replayers digest).Reaches (start [invocation, invocation]) config ∧
      config.world.commits.length = 2 ∧ config.world.store.replays.rows.length = 1 ∧
      config.world.store.database.jobs.rows.length = 0 ∧ SafeJournal config := by
  have begun : (replayers digest).Reaches (start [invocation, invocation])
      (start [invocation, invocation]) := Relation.ReflTransGen.refl
  have deadLettered : (replayers digest).Reaches (start [invocation, invocation]) _ := begun
    |>.tail (.environment (.call create (by decide) (by decide) rfl nofun nofun))
    |>.tail (.environment (.call (claim ⟨3⟩) (by decide) nofun rfl nofun nofun))
    |>.tail (.environment (.call (acknowledge ⟨1⟩ ⟨3⟩) (by decide) nofun rfl nofun nofun))
    |>.tail (.environment (@Moves.insertFailed _ _ failed _ rfl (by decide +kernel)))
  have admitted := deadLettered
    |>.perform 0 rfl .contextErr
    |>.perform 0 rfl (.begins rfl)
    |>.perform 0 rfl (@Performs.source _ _ _ _ failed .empty rfl (by decide +kernel)
        (World.freeOf_of_closed fun _ differs => Function.update_of_ne differs _ _))
    |>.perform 0 rfl (.byRequestID _ rfl)
    |>.perform 0 rfl (.byFailedJobIDMissing rfl (by decide +kernel))
    |>.perform 0 rfl (.active _ _ rfl)
    |>.perform 0 rfl (.clock second)
  have replayed := admitted
    |>.perform 0 rfl (.create _ ⟨2⟩ second rfl (by decide +kernel)
        (World.freeOf_of_closed fun other differs => by
          cases other with
          | zero => exact absurd rfl differs
          | succ other => rfl))
    |>.perform 0 rfl (.queue _ _ rfl)
    |>.perform 0 rfl (.record _ _ _ _ second rfl (by decide +kernel) (by decide +kernel)
        (World.freeOf_of_closed fun other differs => by
          cases other with
          | zero => exact absurd rfl differs
          | succ other => rfl))
    |>.perform 0 rfl (.commits rfl)
    |>.perform 0 rfl (.returns _)
  have workedOff : (replayers digest).Reaches (start [invocation, invocation]) _ := replayed
    |>.tail (.environment (.call (claim ⟨4⟩) (by decide) nofun rfl nofun nofun))
    |>.tail (.environment (.call (acknowledge ⟨2⟩ ⟨4⟩) (by decide) nofun rfl nofun nofun))
  have repeats := workedOff
    |>.perform 1 rfl .contextErr
    |>.perform 1 rfl (.begins rfl)
    |>.perform 1 rfl (@Performs.source _ _ _ _ failed .empty rfl (by decide +kernel)
        (World.freeOf_of_closed fun other differs => by
          rcases other with _ | _ | other
          · decide +kernel
          · exact absurd rfl differs
          · rfl))
    |>.perform 1 rfl (.byRequestID _ rfl)
    |>.perform 1 rfl (.commits rfl)
    |>.perform 1 rfl (.returns _)
  exact ⟨_, repeats, by decide +kernel, by decide +kernel, by decide +kernel,
    replay_journal_safe digest [invocation, invocation] repeats⟩

end OutboxFormal.Replay
