import OutboxFormal.Storage.Picodata

/-!
# Picodata claims among other workers

The conditional update of a claim compares the attempt counter, not the
availability. A row that another worker requeues after the claim has read it can
come back with the counter the claim remembers and a later availability, and the
claim then takes it too early. A counter above the one read protects the row, and
so does an availability that has not changed. As long as no row that a claim under
way has read is requeued without either, every update takes an available row and
the claim returns it as it is stored.
-/

namespace OutboxFormal.Storage.Picodata

open Library

/-! ## What a claim does -/

/-- Where a claim stands: its remaining candidates, or the one it reserved. -/
inductive Stage where
  | idle
  | trying (candidates : List Job)
  | won (job : Job)

def Stage.next (stage : Stage) : (statement : Statement) → Reply statement → Stage
  | .select .., .ok candidates => .trying candidates
  | .reserve .., .ok affected =>
    match stage with
    | .trying (job :: rest) => if affected = (0 : Int) then .trying rest else .won job
    | _ => .idle
  | _, _ => .idle

def Stage.allows (request : Request) (stage : Stage) : Statement → Prop
  | .select now capabilities => now = request.now ∧ capabilities = request.capabilities
  | .reserve id attempts until_ token now =>
    ∃ job rest, stage = .trying (job :: rest) ∧ id = job.id ∧ attempts = job.attempts ∧
      until_ = request.until_ ∧ token = request.token ∧ now = request.now
  | .returns (.ok jobs) => ∃ job, stage = .won job ∧ jobs = [claimed request job]
  | .returns (.error _) => True

def claiming (request : Request) : Monitor Reply Stage where
  start := .idle
  next := Stage.next
  allowed := Stage.allows request
  expects := fun _ _ _ => True

section Claim

variable {request : Request}

/-- The loop tries its candidates in order and stops at the first it reserved. -/
theorem wp_reserveCandidates (candidates : List Job) :
    (claiming request).wp (reserveCandidates request candidates)
      (fun result stage => ∀ job, result = .ok job →
        ∃ candidate, stage = .won candidate ∧ job = claimed request candidate)
      (fun _ => True) (.trying candidates) := by
  induction candidates with
  | nil => exact nofun
  | cons candidate rest ih =>
    refine Monitor.wp_step ⟨candidate, rest, rfl, rfl, rfl, rfl, rfl, rfl⟩ fun answer _ => ?_
    cases answer with
    | error error =>
      dsimp only
      split <;> exact nofun
    | ok affected =>
      dsimp only [claiming, Stage.next]
      split
      · exact ih
      · intro job same
        cases same
        exact ⟨candidate, rfl, rfl⟩

/-- A claim that succeeds returns the one candidate it reserved. -/
theorem wp_findAndReserveJobsForCapabilities :
    (claiming request).wp (findAndReserveJobsForCapabilities request)
      (fun result stage => ∀ jobs, result = .ok jobs →
        ∃ job, stage = .won job ∧ jobs = [claimed request job])
      (fun _ => True) .idle := by
  have failed : ∀ (error : OutboxError) (stage : Stage) (jobs : List Job),
      (.error error : Except OutboxError (List Job)) = .ok jobs →
        ∃ job, stage = .won job ∧ jobs = [claimed request job] :=
    nofun
  unfold findAndReserveJobsForCapabilities
  split
  · exact failed _ _
  split
  · exact failed _ _
  split
  · exact failed _ _
  split
  · exact failed _ _
  · refine Monitor.wp_bind.mpr (Monitor.wp_step ⟨rfl, rfl⟩ fun answer _ => ?_)
    cases answer with
    | error error => exact failed _ _
    | ok candidates =>
      refine Monitor.wp_mono (wp_reserveCandidates candidates) (fun result stage won => ?_)
        (fun _ kept => kept)
      cases result with
      | error error => exact failed _ _
      | ok job =>
        intro jobs same
        cases same
        obtain ⟨candidate, rfl, rfl⟩ := won job rfl
        exact ⟨candidate, rfl, rfl⟩

theorem watched_claim (request : Request) :
    (Thread.start (request, claim request)).Watched claiming := by
  refine Monitor.wp_bind.mpr (Monitor.wp_mono wp_findAndReserveJobsForCapabilities
    (fun result stage won => ?_) (fun _ kept => kept))
  cases result with
  | error error => exact ⟨trivial, fun _ _ => trivial⟩
  | ok jobs =>
    obtain ⟨job, rfl, rfl⟩ := won jobs rfl
    exact ⟨⟨job, rfl, rfl⟩, fun _ _ => trivial⟩

end Claim

/-! ## What the other operations do -/

/-- A row that a claim under way has read is requeued only with a larger counter or
the availability that was read. -/
def Undisturbed (world : World) (operation : Operation) : Prop :=
  ∀ row ∈ world.table.rows, ∀ after ∈ operation.requeued? row, ∀ entry ∈ world.reading,
    entry.2.id = row.id → after.attempts ≤ entry.2.attempts →
      after.availableAt = entry.2.availableAt

/-- Where a row after an operation comes from: a row with its counter and
availability, or one that the operation requeued. -/
def Stems (operation : Operation) (table : JobsTable) (after : Job) : Prop :=
  ∃ row ∈ table.rows, row.id = after.id ∧
    (row.attempts = after.attempts ∧ row.availableAt = after.availableAt ∨
      operation.requeued? row = some after)

section Operations

variable {operation : Operation} {table : JobsTable} {after : Job}

theorem stems_of_mem (member : after ∈ table.rows) : Stems operation table after :=
  ⟨after, member, rfl, Or.inl ⟨rfl, rfl⟩⟩

theorem stems_of_checked {α : Type} {check : Except OutboxError Unit} {call : RepoCall α}
    (member : after ∈ (checked check call table).2.rows)
    (passed : after ∈ (call table).2.rows → Stems operation table after) :
    Stems operation table after := by
  rcases checked_table check call table with kept | ⟨_, same⟩
  · exact stems_of_mem (kept ▸ member)
  · exact passed (same ▸ member)

theorem stems_of_requeue {selected : Job → Bool} {change : Job → Job}
    (keeps : ∀ row, (change row).id = row.id)
    (requeues : ∀ row, operation.requeued? row = if selected row then some (change row) else none)
    (member : after ∈ (table.update selected change keeps).rows) :
    Stems operation table after := by
  obtain ⟨row, hrow, rfl⟩ := Table.mem_update.mp member
  by_cases chosen : selected row = true
  · rw [if_pos chosen]
    exact ⟨row, hrow, (keeps row).symm, Or.inr (by rw [requeues, if_pos chosen])⟩
  · rw [if_neg chosen]
    exact stems_of_mem hrow

theorem Operation.run_stems (member : after ∈ (operation.run table).rows) :
    operation.creates = some after.id ∨ Stems operation table after := by
  cases operation with
  | create id createdAt name schemaVersion payload availableAt =>
    by_cases own : after.id = id
    · exact Or.inl (own ▸ rfl)
    refine Or.inr (stems_of_checked member fun member => ?_)
    dsimp only at member
    split at member
    · exact stems_of_mem member
    · rename_i inserted
      rw [(Table.insert?_eq_some_iff.mp inserted).2] at member
      rcases List.mem_append.mp member with old | new
      · exact stems_of_mem old
      · exact absurd (congrArg Job.id (List.mem_singleton.mp new)) own
  | extend ids token now until_ =>
    refine Or.inr (stems_of_checked member fun member => ?_)
    have updated : after ∈ (table.update (leaseSelection stored ids token now)
        (extendRow (stored until_)) (extendRow_id _)).rows := member
    obtain ⟨row, hrow, rfl⟩ := Table.mem_update.mp updated
    exact ⟨row, hrow, by split <;> rfl, Or.inl (by split <;> exact ⟨rfl, rfl⟩)⟩
  | delete id token now =>
    exact Or.inr (stems_of_checked member fun member => stems_of_mem (Table.mem_delete.mp member).1)
  | release ids token now =>
    exact Or.inr (stems_of_checked member (stems_of_requeue releaseRow_id fun _ => rfl))
  | reschedule id token now availableAt =>
    exact Or.inr (stems_of_checked member (stems_of_requeue (rescheduleRow_id _) fun _ => rfl))
  | defer id token now availableAt =>
    exact Or.inr (stems_of_checked member (stems_of_requeue (deferRow_id _) fun _ => rfl))

end Operations

/-! ## What stays true of a candidate -/

/-- As long as its counter is not above the one read, the row is available as read. -/
def Current (table : JobsTable) (candidate : Job) : Prop :=
  ∀ row ∈ table.rows, row.id = candidate.id → row.attempts ≤ candidate.attempts →
    row.availableAt = candidate.availableAt

/-- A claim's update raises the counter of the row it takes and keeps its availability. -/
theorem Current.reserveStatement {table : JobsTable} {candidate : Job}
    (current : Current table candidate) (id : JobID) (attempts until_ : Int)
    (token : LeaseToken) (now : Int) :
    Current (reserveStatement id attempts until_ token now table) candidate := by
  intro after member same counted
  rw [Picodata.reserveStatement, reserveWhere, Table.mem_update] at member
  obtain ⟨row, hrow, rfl⟩ := member
  by_cases selected : reserveSelection id attempts now row = true
  · rw [if_pos selected] at same counted ⊢
    change row.attempts + 1 ≤ candidate.attempts at counted
    exact current row hrow same (by omega)
  · rw [if_neg selected] at same counted ⊢
    exact current row hrow same counted

/-- An undisturbing operation leaves a row that was read current. -/
theorem Current.operation {world : World} {operation : Operation} {index : Nat} {candidate : Job}
    (current : Current world.table candidate) (read : (index, candidate) ∈ world.reading)
    (guarded : Undisturbed world operation)
    (fresh : ∀ id, operation.creates = some id → ∀ entry ∈ world.reading, entry.2.id ≠ id) :
    Current (operation.run world.table) candidate := by
  intro after member same counted
  rcases operation.run_stems member with created | ⟨row, hrow, sameID, kept | requeued⟩
  · exact absurd same.symm (fresh after.id created _ read)
  · rw [← kept.2]
    exact current row hrow (sameID.trans same) (kept.1 ▸ counted)
  · exact guarded row hrow after requeued _ read (same.symm.trans sameID.symm) counted

/-- What a claim may rely on at its stage. -/
def StageHolds (request : Request) (index : Nat) (world : World) : Stage → Prop
  | .idle => True
  | .trying candidates => ∀ candidate ∈ candidates, (index, candidate) ∈ world.reading ∧
      candidate.availableAt ≤ stored request.now ∧ Current world.table candidate
  | .won job => ∃ row, world.won index = some row ∧ row.id = job.id ∧
      row.availableAt = job.availableAt ∧ row.attempts = job.attempts + 1

/-- Every claim may rely on its stage. -/
def ClaimsHold (world : World) (pasts : List (Request × History Reply)) : Prop :=
  ∀ index request history, pasts[index]? = some (request, history) →
    StageHolds request index world ((claiming request).state history)

section Steps

variable {request : Request} {index : Nat} {world after : World} {stage : Stage}

theorem StageHolds.of_table (holds : StageHolds request index world stage)
    (reading : ∀ row, (index, row) ∈ world.reading → (index, row) ∈ after.reading)
    (won : after.won index = world.won index)
    (current : ∀ candidate, (index, candidate) ∈ world.reading →
      Current world.table candidate → Current after.table candidate) :
    StageHolds request index after stage := by
  cases stage with
  | idle => trivial
  | trying candidates =>
    intro candidate member
    obtain ⟨read, available, hcurrent⟩ := holds candidate member
    exact ⟨reading candidate read, available, current candidate read hcurrent⟩
  | won job =>
    obtain ⟨row, hwon, rest⟩ := holds
    exact ⟨row, won.trans hwon, rest⟩

/-- A statement of another claim leaves a claim's stage as it is. -/
theorem StageHolds.other {acting : Nat} {statement : Statement} {answer : Reply statement}
    (holds : StageHolds request index world stage) (different : index ≠ acting)
    (performs : Performs acting world statement answer after) :
    StageHolds request index after stage := by
  cases performs with
  | select | returns =>
    refine holds.of_table (fun row read => ?_) rfl fun _ _ kept => kept
    exact World.mem_reading_read.mpr (Or.inr ⟨different, read⟩)
  | selectFailed | reserveFailed => exact holds
  | reserve id attempts until_ token now =>
    exact holds.of_table (fun _ read => read) (Function.update_of_ne different _ _)
      fun _ _ kept => kept.reserveStatement id attempts until_ token now
  | reserveLost id attempts until_ token now =>
    exact holds.of_table (fun _ read => read) rfl
      fun _ _ kept => kept.reserveStatement id attempts until_ token now

theorem stageHolds_select (request : Request) (index : Nat) (world : World) :
    StageHolds request index
      (world.read index (selectCandidates request.now request.capabilities world.table))
      (.trying (selectCandidates request.now request.capabilities world.table)) := by
  intro candidate member
  obtain ⟨hrow, hready⟩ := List.mem_filter.mp (mem_orderedLimit member)
  have available := (ready_iff.mp (Bool.and_eq_true_iff.mp hready).1).1
  refine ⟨World.mem_reading_read.mpr (Or.inl ⟨rfl, member⟩), available, ?_⟩
  intro row hmember same _
  rw [world.table.row_unique hmember hrow same]

theorem reserveSelection_iff {id : JobID} {attempts now : Int} {row : Job} :
    reserveSelection id attempts now row = true ↔ row.id = id ∧ row.attempts = attempts ∧
      ∀ reserved, row.reservedAt = some reserved → reserved ≤ stored now := by
  cases hreserved : row.reservedAt <;> simp [reserveSelection, hreserved, and_assoc]

theorem StageHolds.reserved {job : Job} {rest : List Job}
    (holds : StageHolds request index world (.trying (job :: rest))) (until_ now : Int)
    (token : LeaseToken) :
    StageHolds request index
      ((world.store (reserveStatement job.id job.attempts until_ token now world.table)).win index
        ((reserveStatement job.id job.attempts until_ token now world.table).get? job.id))
      (if ((world.table.matching (reserveSelection job.id job.attempts now)).length : Int) = 0
        then .trying rest else .won job) := by
  split
  · intro candidate member
    obtain ⟨read, available, current⟩ := holds candidate (List.mem_cons_of_mem _ member)
    exact ⟨read, available, current.reserveStatement job.id job.attempts until_ token now⟩
  · rename_i some_row
    have nonempty : world.table.matching (reserveSelection job.id job.attempts now) ≠ [] :=
      fun empty => some_row (by rw [empty]; rfl)
    obtain ⟨row, found⟩ := List.exists_mem_of_ne_nil _ nonempty
    obtain ⟨hrow, selected⟩ := Table.mem_matching.mp found
    obtain ⟨sameID, sameAttempts, _⟩ := reserveSelection_iff.mp selected
    obtain ⟨_, _, current⟩ := holds job List.mem_cons_self
    refine ⟨reserveRow (stored until_) token row, ?_, sameID,
      current row hrow sameID sameAttempts.le, ?_⟩
    · rw [World.won_win, Table.get?_eq_some_iff]
      refine ⟨?_, sameID⟩
      rw [reserveStatement, reserveWhere, Table.mem_update]
      exact ⟨row, hrow, (if_pos selected).symm⟩
    · exact congrArg (· + 1) sameAttempts

theorem StageHolds.own {statement : Statement} {answer : Reply statement}
    (holds : StageHolds request index world stage) (allowed : stage.allows request statement)
    (performs : Performs index world statement answer after) :
    StageHolds request index after (stage.next statement answer) := by
  cases performs with
  | select now capabilities =>
    obtain ⟨rfl, rfl⟩ := allowed
    exact stageHolds_select request index world
  | selectFailed | reserveLost | reserveFailed | returns => trivial
  | reserve id attempts until_ token now =>
    obtain ⟨job, rest, rfl, rfl, rfl, _⟩ := allowed
    exact holds.reserved until_ now token

theorem StageHolds.moved {stage : Stage} (holds : StageHolds request index world stage)
    (moves : Moves Undisturbed world after) : StageHolds request index after stage := by
  cases moves with
  | operation operation guarded fresh =>
    exact holds.of_table (fun _ read => read) rfl
      fun _ read current => current.operation read guarded fresh

end Steps

theorem supervision_claims : Supervision (workers Undisturbed) claiming ClaimsHold where
  spawns := fun _ _ _ child => nomatch child
  performs := by
    intro world pasts index request history statement answer after holds found allowed performs
    refine ⟨trivial, fun other otherRequest otherHistory located => ?_⟩
    rcases getElem?_stepped located with ⟨rfl, same⟩ | ⟨different, same⟩ | ⟨_, child⟩
    · cases same
      exact (holds _ _ _ found).own allowed performs
    · exact (holds _ _ _ same).other different performs
    · cases child
  moves := fun world pasts after holds moves index request history located =>
    (holds index request history located).moved moves

/-! ## The claims -/

/-- Every conditional update about to run takes only available rows that no live
lease covers, and every claim about to return has the row as its update stored
it. -/
structure TakesAvailable (config : Config Request World Reply) : Prop where
  updates : ∀ (index : Nat) (request : Request) (history : History Reply) (id : JobID)
    (attempts until_ : Int) (token : LeaseToken) (now : Int)
    (resume : Except OutboxError Int → Repo Unit),
    config.threads[index]? =
      some ⟨request, history, .call (.reserve id attempts until_ token now) resume⟩ →
    ∀ row ∈ config.world.table.rows, reserveSelection id attempts now row = true →
      row.availableAt ≤ now ∧ ∀ reserved, row.reservedAt = some reserved → reserved ≤ now
  returned : ∀ (index : Nat) (request : Request) (history : History Reply) (jobs : List Job)
    (resume : Unit → Repo Unit),
    config.threads[index]? = some ⟨request, history, .call (.returns (.ok jobs)) resume⟩ →
    ∃ job row, jobs = [job] ∧ config.world.won index = some row ∧ job.id = row.id ∧
      job.availableAt = row.availableAt ∧ job.attempts = row.attempts

theorem claimsHold_start (table : JobsTable) (requests : List Request) :
    Supervision.Holds claiming ClaimsHold (start table requests) where
  invariant := by
    intro index request history located
    simp only [start, List.map_map, List.getElem?_map, Option.map_eq_some_iff] at located
    obtain ⟨_, _, same⟩ := located
    cases same
    trivial
  watched := by
    intro thread member
    obtain ⟨request, _, rfl⟩ := List.mem_map.mp member
    exact watched_claim request

/-- In every interleaving in which a row that a claim under way has read is requeued
only with a larger counter or the availability read, claims take only available rows. -/
theorem undisturbed_claims_take_available (table : JobsTable) (requests : List Request)
    {config : Config Request World Reply}
    (reached : (workers Undisturbed).Reaches (start table requests) config) :
    TakesAvailable config := by
  have holds := supervision_claims.reaches (claimsHold_start table requests) reached
  constructor
  · intro index request history id attempts until_ token now resume located row member selected
    obtain ⟨past, job, rest, stage, rfl, rfl, _, _, rfl⟩ := holds.located located
    have trying := holds.invariant index request history past
    rw [stage] at trying
    obtain ⟨_, available, current⟩ := trying job List.mem_cons_self
    obtain ⟨sameID, sameAttempts, expired⟩ := reserveSelection_iff.mp selected
    have rounded : stored request.now ≤ request.now := truncate_le (by decide) request.now
    refine ⟨?_, fun reserved isReserved => ?_⟩
    · rw [current row member sameID sameAttempts.le]
      exact Int.le_trans available rounded
    · exact Int.le_trans (expired reserved isReserved) rounded
  · intro index request history jobs resume located
    obtain ⟨past, job, stage, rfl⟩ := holds.located located
    have won := holds.invariant index request history past
    rw [stage] at won
    obtain ⟨row, hwon, sameID, sameAvailable, sameAttempts⟩ := won
    exact ⟨claimed request job, row, rfl, hwon, sameID.symm, sameAvailable.symm,
      sameAttempts.symm⟩

/-! ## A row taken too early -/

abbrev anyOperation (_ : World) (_ : Operation) : Prop := True

instance (world : World) (operation : Operation) : Decidable (Undisturbed world operation) :=
  inferInstanceAs (Decidable (∀ row ∈ world.table.rows, ∀ after ∈ operation.requeued? row,
    ∀ entry ∈ world.reading, entry.2.id = row.id → after.attempts ≤ entry.2.attempts →
      after.availableAt = entry.2.availableAt))

/-- What a statement answers when it executes. -/
def World.reply (world : World) : (statement : Statement) → Option (Reply statement)
  | .select now capabilities => some (.ok (selectCandidates now capabilities world.table))
  | .reserve id attempts _ _ now =>
    some (.ok (world.table.matching (reserveSelection id attempts now)).length)
  | .returns _ => some ()

/-- Statements that execute, and operations that meet the guard and create nothing. -/
def executed (guard : World → Operation → Prop)
    [∀ world operation, Decidable (guard world operation)] :
    Interpreter (workers guard) Operation where
  react index world statement answer :=
    match statement, answer with
    | .select now capabilities, .ok jobs =>
      if jobs = selectCandidates now capabilities world.table then some (world.read index jobs)
      else none
    | .reserve id attempts until_ token now, .ok affected =>
      if affected = (world.table.matching (reserveSelection id attempts now)).length then
        some ((world.store (reserveStatement id attempts until_ token now world.table)).win index
          ((reserveStatement id attempts until_ token now world.table).get? id))
      else none
    | .returns _, _ => some (world.read index [])
    | _, _ => none
  command operation world :=
    if guard world operation ∧ operation.creates = none then
      some (world.store (operation.run world.table))
    else none
  performs := by
    intro index world statement answer after reacted
    split at reacted
    · split at reacted
      · rename_i same
        cases reacted
        subst same
        exact .select _ _
      · cases reacted
    · split at reacted
      · rename_i same
        cases reacted
        subst same
        exact .reserve _ _ _ _ _
      · cases reacted
    · cases reacted
      exact .returns _
    · cases reacted
  moves := by
    intro operation world after moved
    split at moved
    · rename_i allowed
      cases moved
      exact .operation operation allowed.1 fun id same => by
        rw [allowed.2] at same
        cases same
    · cases moved

namespace Sample

def table : JobsTable := ⟨[newJob ⟨1⟩ none (bytes "mail") 1 [] 0 0], by decide⟩

/-- A claim at ten seconds. -/
def request (token : LeaseToken) : Request :=
  ⟨10 * second, 20 * second, token, [⟨bytes "mail", 1⟩], 1⟩

def line (index : Nat) : ScriptLine World Operation Reply :=
  .thread index fun world statement => world.reply statement

/-- The first claim reads the row; the second reads it, reserves it and returns, and
its worker gives the job up. -/
def script (operation : Operation) : List (ScriptLine World Operation Reply) :=
  [line 0, line 1, line 1, line 1, .command operation]

def begun : Config Request World Reply := start table [request ⟨7⟩, request ⟨8⟩]

/-- The first claim is about to update the row, which is deferred to a hundred seconds. -/
def deferred : Config Request World Reply :=
  ((executed anyOperation).play begun
    (script (.defer ⟨1⟩ ⟨8⟩ (11 * second) (100 * second)))).get (by decide)

/-- The first claim has updated it. -/
def taken : Config Request World Reply :=
  ((executed anyOperation).advance deferred (line 0)).get (by decide)

/-- The first claim has updated the row that the worker released. -/
def released : Config Request World Reply :=
  ((executed Undisturbed).play begun
    (script (.release [⟨1⟩] ⟨8⟩ (11 * second)) ++ [line 0])).get (by decide)

/-- Its update has missed the row, which is rescheduled to a hundred seconds. -/
def rescheduled : Config Request World Reply :=
  ((executed Undisturbed).play begun
    (script (.reschedule ⟨1⟩ ⟨8⟩ (11 * second) (100 * second)) ++ [line 0])).get (by decide)

/-- Who holds each row, when it is available, and its counter. -/
def rows (config : Config Request World Reply) : List (LeaseToken × Int × Int) :=
  config.world.table.rows.map fun row => (row.leaseToken, row.availableAt, row.attempts)

end Sample

/-- A released row comes back with the counter and the availability that the first
claim has read, and is taken; a rescheduled one keeps the counter of the second claim,
so that the first one misses it. -/
theorem undisturbed_claims_among_others :
    ((workers Undisturbed).Reaches Sample.begun Sample.released ∧
      Sample.rows Sample.released = [(⟨7⟩, 0, 1)] ∧ TakesAvailable Sample.released) ∧
    (workers Undisturbed).Reaches Sample.begun Sample.rescheduled ∧
      Sample.rows Sample.rescheduled = [(.nil, 100 * second, 1)] ∧
      TakesAvailable Sample.rescheduled := by
  have released : (workers Undisturbed).Reaches Sample.begun Sample.released :=
    Interpreter.play_reaches (Option.some_get _).symm
  have rescheduled : (workers Undisturbed).Reaches Sample.begun Sample.rescheduled :=
    Interpreter.play_reaches (Option.some_get _).symm
  exact ⟨⟨released, by decide, undisturbed_claims_take_available _ _ released⟩, rescheduled,
    by decide, undisturbed_claims_take_available _ _ rescheduled⟩

/-- The deferred row carries the counter the first claim has read, so its update
takes the row at ten seconds although it is available at a hundred. -/
theorem deferred_row_taken_early :
    (workers anyOperation).Reaches Sample.begun Sample.deferred ∧
      ¬ TakesAvailable Sample.deferred ∧
      (workers anyOperation).Step Sample.deferred Sample.taken ∧
      Sample.rows Sample.taken = [(⟨7⟩, 100 * second, 1)] := by
  refine ⟨Interpreter.play_reaches (Option.some_get _).symm, ?_,
    Interpreter.advance_step (Option.some_get _).symm, by decide⟩
  intro takes
  have early := (takes.updates 0 (Sample.request ⟨7⟩) _ ⟨1⟩ 0 (20 * second) ⟨7⟩ (10 * second) _ rfl
    { newJob ⟨1⟩ none (bytes "mail") 1 [] 0 0 with availableAt := 100 * second }
    (by decide) (by decide)).1
  exact absurd early (by decide)

end OutboxFormal.Storage.Picodata
