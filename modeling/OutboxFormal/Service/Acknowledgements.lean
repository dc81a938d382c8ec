import OutboxFormal.Library.Observers
import OutboxFormal.Service.StartedWork

/-!
# Acknowledgements follow successes

In every run of the services a row is acknowledged only after its handler
reported success for it under the same lease token, and a worker works only on
rows that its own claims returned. The custody monitor demands both of the books;
here the books are traced back to the events that filled them.
-/

namespace OutboxFormal

open Library

/-! ## Effects and their evidence -/

def Effect.acknowledges (token : LeaseToken) (id : JobID) : Effect → Bool
  | .leased _ .delete jobID leaseToken _ => decide (leaseToken = token ∧ jobID = id)
  | .runInTx _ (.applyOutcomes leaseToken _ outcomes) => decide (leaseToken = token ∧
      ∃ outcome ∈ outcomes, outcome.jobID = id ∧ outcome.kind = .success)
  | _ => false

/-- The effect hands this row to a single handler or to a transaction. -/
def Effect.worksOn (job : Job) : Effect → Bool
  | .handle _ given => decide (given = job)
  | .runInTx _ (.dlqBatch failed _) => decide (failed = job)
  | .runInTx _ (.applyOutcomes _ jobs _) => decide (job ∈ jobs)
  | _ => false

/-- The rows whose handler the effect starts or that it finalizes. -/
def Effect.named : Effect → List JobID
  | .handle _ job => [job.id]
  | .handleBatch _ _ items => items.map BatchJobItem.jobID
  | .leased _ _ jobID _ _ => [jobID]
  | .runInTx _ callback => callback.ids
  | _ => []

section Evidence

variable (history : History Answer)

def Succeeded (token : LeaseToken) (id : JobID) : Prop :=
  (∃ job, ⟨.handled job, .returned none⟩ ∈ history ∧ job.leaseToken = token ∧ job.id = id) ∨
    ∃ items result, ⟨.handledBatch token items, .returned (result, none)⟩ ∈ history ∧
      ∃ item ∈ result, item.err = none ∧ item.jobID = id

def ClaimReturned (job : Job) : Prop :=
  ∃ ctx request rows, ⟨.claim ctx request, (rows, none)⟩ ∈ history ∧ job ∈ rows

def Custody.Evident (books : Custody) : Prop :=
  (∀ entry ∈ books.succeeded, Succeeded history entry.1 entry.2) ∧
    ∀ job ∈ books.claimed, ClaimReturned history job

end Evidence

theorem Custody.Evident.mono {books : Custody} {history more : History Answer}
    (evident : books.Evident history) (within : history ⊆ more) : books.Evident more := by
  refine ⟨fun entry member => ?_, fun job member => ?_⟩
  · rcases evident.1 entry member with ⟨job, found, own⟩ | ⟨items, result, found, own⟩
    · exact Or.inl ⟨job, within found, own⟩
    · exact Or.inr ⟨items, result, within found, own⟩
  · obtain ⟨ctx, request, rows, found, own⟩ := evident.2 job member
    exact ⟨ctx, request, rows, within found, own⟩

theorem Custody.Evident.next {books : Custody} {history : History Answer} {effect : Effect}
    (answer : Answer effect) (evident : books.Evident history) :
    (books.next effect answer).Evident (⟨effect, answer⟩ :: history) := by
  have kept := evident.mono (List.subset_cons_self ⟨effect, answer⟩ history)
  cases effect with
  | newLeaseToken => exact ⟨kept.1, by simp [Custody.next]⟩
  | cause ctx =>
    obtain ⟨_, _, _, -, same⟩ := @same_of_quiet books (.cause ctx) answer rfl
    rw [same]
    exact kept
  | claim ctx request =>
    obtain ⟨rows, failure⟩ := answer
    cases failure with
    | some error => exact kept
    | none =>
      refine ⟨kept.1, fun job member => ?_⟩
      rcases List.mem_append.mp member with new | old
      · exact ⟨ctx, request, rows, List.mem_cons_self, new⟩
      · exact kept.2 job old
  | handled job =>
    cases answer with
    | returned error =>
      cases error with
      | some error => exact kept
      | none =>
        refine ⟨fun entry member => ?_, kept.2⟩
        rcases List.mem_cons.mp member with rfl | old
        · exact Or.inl ⟨job, List.mem_cons_self, rfl, rfl⟩
        · exact kept.1 entry old
    | _ => exact kept
  | handledBatch token items =>
    cases answer with
    | returned outcome =>
      obtain ⟨result, error⟩ := outcome
      cases error with
      | some error => exact kept
      | none =>
        refine ⟨fun entry member => ?_, kept.2⟩
        rcases List.mem_append.mp member with new | old
        · obtain ⟨item, done, rfl⟩ := List.mem_map.mp new
          obtain ⟨member, clean⟩ := List.mem_filter.mp done
          exact Or.inr ⟨items, result, List.mem_cons_self, item, member,
            Option.isNone_iff_eq_none.mp clean, rfl⟩
        · exact kept.1 entry old
    | _ => exact kept
  | lockContext group ctx => cases answer <;> exact kept
  | extendJobLeases ctx jobIDs leaseToken now until_ =>
    obtain ⟨affected, failure⟩ := answer
    cases ctx <;> cases failure <;> try exact kept
    unfold Custody.next
    dsimp only
    split <;> exact kept
  | _ => exact kept

theorem evident_state (role : Role) (history : History Answer) :
    ((custody False role).state history).Evident history := by
  induction history with
  | nil => cases role <;> exact ⟨by simp [Monitor.state, custody], by simp [Monitor.state, custody]⟩
  | cons event earlier ih => exact ih.next event.answer

/-! ## Every interleaving -/

section Interleavings

variable {δ : Type} {outside : Outside δ} {config after : Config Role (World δ) Answer}

/-- Every event of a run was allowed by books that are evident from the events before it. -/
theorem allowed_started (started : Started config)
    (reaches : (services outside).Reaches config after) {thread : Thread Role Answer}
    (member : thread ∈ after.threads) {later earlier : History Answer} {event : Event Answer}
    (split : thread.history = later ++ event :: earlier) :
    ((custody False thread.role).state earlier).Allowed False thread.role event.effect ∧
      ((custody False thread.role).state earlier).Evident earlier := by
  have start : Supervision.Holds (custody False) (fun world pasts => Fulfilling world pasts ∧
      ∀ past ∈ pasts, (custody False past.1).Lawful past.2) config := by
    refine ⟨⟨⟨ledgersHold_started started, ?_⟩, ?_⟩, watched_started started⟩
    · intro past member
      obtain ⟨process, rfl⟩ := started.past member
      exact Custody.fulfilled_start _
    · intro past member
      obtain ⟨process, rfl⟩ := started.past member
      trivial
  have lawful := (supervision_fulfilling.lawful.reaches start reaches).invariant.2 _
    (List.mem_map_of_mem member)
  rw [Thread.past, split] at lawful
  exact ⟨lawful.allowed, evident_state thread.role earlier⟩

/-- In every run, whatever the surroundings answer, a worker acknowledges a row
only after its handler reported success for it under the same lease token. -/
theorem acknowledged_rows_succeeded (started : Started config)
    (reaches : (services outside).Reaches config after) :
    ∀ thread ∈ after.threads, ∀ later event earlier,
      thread.history = later ++ event :: earlier →
      ∀ token id, event.effect.acknowledges token id = true → Succeeded earlier token id := by
  intro thread member later event earlier split token id acknowledges
  obtain ⟨allowed, evident⟩ := allowed_started started reaches member split
  obtain ⟨effect, answer⟩ := event
  cases effect with
  | leased ctx method jobID leaseToken now =>
    cases method with
    | delete =>
      obtain ⟨rfl, rfl⟩ := of_decide_eq_true acknowledges
      exact evident.1 _ (allowed.2.1 rfl)
    | _ => cases acknowledges
  | runInTx ctx callback =>
    cases callback with
    | dlqBatch job reason => cases acknowledges
    | applyOutcomes leaseToken jobs outcomes =>
      obtain ⟨rfl, outcome, written, rfl, success⟩ := of_decide_eq_true acknowledges
      exact evident.1 _ ((allowed.2.2 outcome written).2 success)
  | _ => cases acknowledges

/-- Effects that a worker may make name only rows that its claims returned. -/
theorem Custody.Allowed.owned {strict : Prop} {role : Role} {books : Custody} {effect : Effect}
    (allowed : books.Allowed strict role effect) : ∀ id ∈ effect.named, books.Owns id := by
  intro id member
  cases effect with
  | handle ctx job =>
    obtain rfl := List.mem_singleton.mp member
    exact ⟨job, allowed.1, rfl⟩
  | handleBatch ctx leaseToken items =>
    obtain ⟨item, given, rfl⟩ := List.mem_map.mp member
    exact (allowed.2 item given).1
  | leased ctx method jobID leaseToken now =>
    obtain rfl := List.mem_singleton.mp member
    exact allowed.2.2
  | runInTx ctx callback =>
    cases callback with
    | dlqBatch failed reason =>
      obtain rfl := List.mem_singleton.mp member
      exact ⟨failed, allowed.2, rfl⟩
    | applyOutcomes leaseToken jobs outcomes =>
      obtain ⟨outcome, written, rfl⟩ := List.mem_map.mp member
      exact (allowed.2.2 outcome written).1
  | _ => cases member

/-- In every run a worker starts handlers for, dead-letters and settles only rows
that its own claims returned, and hands over the rows as they were returned. -/
theorem worked_rows_were_claimed (started : Started config)
    (reaches : (services outside).Reaches config after) :
    ∀ thread ∈ after.threads, ∀ later event earlier,
      thread.history = later ++ event :: earlier →
      (∀ job, event.effect.worksOn job = true → ClaimReturned earlier job) ∧
        ∀ id ∈ event.effect.named, ∃ job, ClaimReturned earlier job ∧ job.id = id := by
  intro thread member later event earlier split
  obtain ⟨allowed, evident⟩ := allowed_started started reaches member split
  refine ⟨fun job works => ?_, fun id named => ?_⟩
  · obtain ⟨effect, answer⟩ := event
    cases effect with
    | handle ctx handled =>
      obtain rfl := of_decide_eq_true works
      exact evident.2 _ allowed.1
    | runInTx ctx callback =>
      cases callback with
      | dlqBatch failed reason =>
        obtain rfl := of_decide_eq_true works
        exact evident.2 _ allowed.2
      | applyOutcomes leaseToken jobs outcomes =>
        exact evident.2 _ (allowed.2.1 job (of_decide_eq_true works))
    | _ => cases works
  · obtain ⟨job, claimed, same⟩ := allowed.owned id named
    exact ⟨job, evident.2 job claimed, same⟩

end Interleavings

namespace Sample

theorem started_start (s : Service) : Started (start s) :=
  ⟨⟨(), rfl⟩, fun _ member => ⟨s, 1, List.mem_singleton.mp member⟩⟩

theorem played_event {s : Service} {played : Option (Config Role (World Unit) Answer)}
    {script : List (ScriptLine (World Unit) Order Answer)} {wanted : Effect → Bool}
    (plays : scripted.play (start s) script = played)
    (found : (played.any fun after => after.threads.any fun thread =>
      thread.history.any fun event => wanted event.effect) = true) :
    ∃ after, (services anything).Reaches (start s) after ∧ ∃ thread ∈ after.threads,
      ∃ later event earlier, thread.history = later ++ event :: earlier ∧
        wanted event.effect = true := by
  obtain ⟨after, rfl, found⟩ := (Option.any_eq_true _ _).mp found
  obtain ⟨thread, member, found⟩ := List.any_eq_true.mp found
  obtain ⟨event, inside, wanted⟩ := List.any_eq_true.mp found
  obtain ⟨later, earlier, split⟩ := List.append_of_mem inside
  exact ⟨after, Interpreter.play_reaches plays, thread, member, later, event, earlier, split,
    wanted⟩

/-- Execution batches of up to two jobs. -/
def collective : Service :=
  { single with jobs := [], batchJobs := [(capability, ⟨second, 3, 2, 10, 0⟩)] }

/-- A worker claims two rows, handles them together and stores their outcomes. -/
def collected : Option (Config Role (World Unit) Answer) :=
  scripted.play (start collective) (List.replicate 34 (.thread 0 fun world => fun
    | .handleBatch .. => some ()
    | .handledBatch _ items => some (.returned (items.map fun item => ⟨item.jobID, none⟩, none))
    | effect => answers [row 1, row 2] world effect))

end Sample

theorem acknowledged_first_row :
    ∃ after, (services anything).Reaches (Sample.start Sample.single) after ∧
      ∃ thread ∈ after.threads, ∃ later event earlier,
        thread.history = later ++ event :: earlier ∧
        event.effect.acknowledges Sample.token ⟨1⟩ = true ∧ Succeeded earlier Sample.token ⟨1⟩ := by
  obtain ⟨after, reaches, thread, member, later, event, earlier, split, wanted⟩ :=
    @Sample.played_event _ Sample.drained _ (Effect.acknowledges Sample.token ⟨1⟩) rfl (by decide)
  exact ⟨after, reaches, thread, member, later, event, earlier, split, wanted,
    acknowledged_rows_succeeded (Sample.started_start _) reaches thread member later event earlier
      split Sample.token ⟨1⟩ wanted⟩

/-- A transaction settles both rows of a claimed batch. -/
theorem settled_rows_claimed :
    ∃ after, (services anything).Reaches (Sample.start Sample.collective) after ∧
      ∃ thread ∈ after.threads, ∃ later event earlier,
        thread.history = later ++ event :: earlier ∧ event.effect.named = [⟨1⟩, ⟨2⟩] ∧
        event.effect.worksOn (Sample.row 1) = true ∧ ClaimReturned earlier (Sample.row 1) ∧
        ∀ id ∈ event.effect.named, ∃ job, ClaimReturned earlier job ∧ job.id = id := by
  obtain ⟨after, reaches, thread, member, later, event, earlier, split, wanted⟩ :=
    @Sample.played_event _ Sample.collected _ (fun effect =>
      decide (effect.named = [⟨1⟩, ⟨2⟩]) && effect.worksOn (Sample.row 1)) rfl (by decide)
  obtain ⟨names, works⟩ := Bool.and_eq_true_iff.mp wanted
  obtain ⟨rows, ids⟩ := worked_rows_were_claimed (Sample.started_start _) reaches thread member
    later event earlier split
  exact ⟨after, reaches, thread, member, later, event, earlier, split, of_decide_eq_true names,
    works, rows _ works, ids⟩

end OutboxFormal
