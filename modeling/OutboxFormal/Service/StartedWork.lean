import OutboxFormal.Service.Ledgers
import OutboxFormal.Service.Scripts

/-!
# Started work is never handed back as unstarted

Along every interleaving of workers and heartbeats, over any clock, repository,
handlers and cancellations: a row whose handler began is never passed to
`ReleaseUnstartedJobsWithLease`, no row is passed to it twice for one claim, and
a group that returns no error ran the handler of every row it entered.
-/

namespace OutboxFormal

open Library

variable {strict : Prop} {effect : Effect} {role : Role} {answer : Answer effect}

namespace Custody

/-- The books of a worker that compensated no started work: for claims of
distinct rows that were not in the ledger, nothing was released twice and
nothing that began was released. -/
def Compensated (books : Custody) : Prop :=
  books.distinct = true → books.lapsed = [] →
    books.released.Nodup ∧ ∀ id ∈ books.begun, id ∉ books.released

theorem Compensated.next {books : Custody} (compensated : books.Compensated)
    (allowed : books.Allowed strict role effect) : (books.next effect answer).Compensated := by
  cases effect with
  | newLeaseToken => exact fun _ _ => ⟨List.nodup_nil, nofun⟩
  | claim ctx request =>
    obtain ⟨rows, failure⟩ := answer
    cases failure with
    | some error => exact compensated
    | none =>
      intro distinct lapsed
      obtain ⟨nodup, apart⟩ := compensated (Bool.and_eq_true_iff.mp distinct).1
        (List.append_eq_nil_iff.mp lapsed).2
      exact ⟨nodup.filter _, fun id begun released =>
        apart id begun (List.mem_filter.mp released).1⟩
  | releaseUnstartedJobsWithLease ctx jobIDs leaseToken now =>
    intro distinct lapsed
    obtain ⟨nodup, apart⟩ := compensated distinct lapsed
    obtain ⟨once, unstarted⟩ := allowed.2 distinct lapsed
    constructor
    · refine List.nodup_append.mpr ⟨once, nodup, ?_⟩
      rintro id member other released rfl
      exact (unstarted id member).1 released
    · intro id begun released
      rcases List.mem_append.mp released with member | released
      · exact (unstarted id member).2 begun
      · exact apart id begun released
  | handle ctx job =>
    intro distinct lapsed
    obtain ⟨nodup, apart⟩ := compensated distinct lapsed
    refine ⟨nodup, fun id begun => ?_⟩
    rcases List.mem_cons.mp begun with rfl | begun
    · exact allowed.2.1 distinct lapsed
    · exact apart id begun
  | handleBatch ctx leaseToken items =>
    intro distinct lapsed
    obtain ⟨nodup, apart⟩ := compensated distinct lapsed
    refine ⟨nodup, fun id begun => ?_⟩
    rcases List.mem_append.mp begun with member | begun
    · obtain ⟨item, hitem, rfl⟩ := List.mem_map.mp member
      exact (allowed.2 item hitem).2.1 distinct lapsed
    · exact apart id begun
  | cause ctx =>
    obtain ⟨_, _, _, -, same⟩ := @same_of_quiet books (.cause ctx) answer rfl
    rw [same]
    exact compensated
  | handled job =>
    cases answer with
    | returned error => cases error <;> exact compensated
    | panicked value => exact compensated
    | goexit => exact compensated
  | handledBatch leaseToken items =>
    cases answer with
    | returned outcome =>
      obtain ⟨result, error⟩ := outcome
      cases error <;> exact compensated
    | panicked value => exact compensated
    | goexit => exact compensated
  | lockContext group ctx => cases answer <;> exact compensated
  | extendJobLeases ctx jobIDs leaseToken now until_ =>
    obtain ⟨affected, failure⟩ := answer
    cases ctx <;> cases failure <;> try exact compensated
    unfold Custody.next
    dsimp only
    split <;> exact compensated
  | _ => exact compensated

/-- What the history of a thread says about its groups. -/
structure Fulfilled (past : Role × History Answer) : Prop where
  compensated : ((custody False past.1).state past.2).Compensated
  settled : ∀ later earlier, past.2 = later ++ ⟨.returned (.group none), ()⟩ :: earlier →
    ∀ id ∈ ((custody False past.1).state earlier).entered,
      id ∈ ((custody False past.1).state earlier).ran

theorem fulfilled_start (role : Role) : Fulfilled (role, []) := by
  constructor
  · cases role <;> exact fun _ _ => ⟨List.nodup_nil, nofun⟩
  · intro later earlier split
    cases later <;> cases split

theorem Fulfilled.next {history : History Answer} (fulfilled : Fulfilled (role, history))
    (allowed : ((custody False role).state history).Allowed False role effect) :
    Fulfilled (role, ⟨effect, answer⟩ :: history) := by
  refine ⟨fulfilled.compensated.next allowed, fun later earlier split => ?_⟩
  cases later with
  | nil =>
    cases split
    exact allowed
  | cons event later => exact fulfilled.settled later earlier (List.cons.inj split).2

end Custody

/-! ## Every interleaving -/

/-- Services that have not run yet: any number of workers of any services. -/
def Started {δ : Type} (config : Config Role (World δ) Answer) : Prop :=
  (∃ outside, config.world = World.initial outside) ∧
    ∀ thread ∈ config.threads, ∃ (s : Service) (index : Nat),
      thread = Thread.start (.worker s.process, s.worker index)

section Interleavings

variable {δ : Type} {outside : Outside δ}

theorem Started.past {config : Config Role (World δ) Answer} (started : Started config)
    {past : Role × History Answer} (member : past ∈ config.threads.map Thread.past) :
    ∃ process, past = (.worker process, []) := by
  obtain ⟨thread, hthread, rfl⟩ := List.mem_map.mp member
  obtain ⟨s, index, rfl⟩ := started.2 thread hthread
  exact ⟨s.process, rfl⟩

theorem ledgersHold_started {config : Config Role (World δ) Answer} (started : Started config) :
    LedgersHold strict config.world (config.threads.map Thread.past) := by
  obtain ⟨initial, hworld⟩ := started.1
  have empty : ∀ (thread : Nat) past, (config.threads.map Thread.past)[thread]? = some past →
      Custody.viewOf past = ⟨none, none, [], [], none⟩ := by
    intro thread past found
    obtain ⟨process, rfl⟩ := started.past (List.mem_of_getElem? found)
    rfl
  refine ⟨?_, ?_, ?_, ?_⟩
  · intro thread past found
    rw [empty thread past found]
    refine ⟨?_, ?_, ?_, ?_⟩
    · exact nofun
    · exact nofun
    · exact nofun
    · exact nofun
  · intro first second past past' _ found _
    rw [empty first past found]
    exact nofun
  · intro group _
    rw [hworld]
    rfl
  · intro _ group holder ledger present
    rw [hworld] at present
    cases present

theorem watched_started {config : Config Role (World δ) Answer} (started : Started config) :
    ∀ thread ∈ config.threads, thread.Watched (custody strict) := by
  intro thread member
  obtain ⟨s, index, rfl⟩ := started.2 thread member
  exact Custody.watched_worker strict s index

theorem watched_spawned {child : Role × Program Answer Unit} (member : child ∈ effect.spawned) :
    (Thread.start child).Watched (custody strict) := by
  cases effect with
  | newManager manager ledger rounds =>
    obtain rfl := List.mem_singleton.mp member
    exact Custody.watched_run strict manager rounds
  | _ => cases member

/-- Without a strict monitor, only the ledger of a taken mutex is relied on. -/
theorem expected_of_lockAnswer {books : Custody}
    (taken : LedgersHold.LockAnswer False role books effect answer) :
    books.Expected False role effect answer := by
  unfold Custody.Expected
  split
  · exact fun impossible => impossible.elim
  · exact taken
  · exact taken
  · exact fun impossible => impossible.elim
  · trivial

/-- The invariant of a run: books and ledgers agree, and every history is fulfilled. -/
def Fulfilling (world : World δ) (pasts : List (Role × History Answer)) : Prop :=
  LedgersHold False world pasts ∧ ∀ past ∈ pasts, Custody.Fulfilled past

theorem supervision_fulfilling :
    Supervision (services outside) (custody False) Fulfilling where
  spawns _ _ child member := watched_spawned member
  performs world pasts index role history effect answer after holds found allowed performs := by
    obtain ⟨taken, ledgers⟩ := holds.1.performs found allowed performs
    refine ⟨expected_of_lockAnswer taken, ledgers, fun past member => ?_⟩
    rcases List.mem_append.mp member with member | child
    · rcases List.mem_or_eq_of_mem_set member with member | rfl
      · exact holds.2 past member
      · exact (holds.2 _ (List.mem_of_getElem? found)).next allowed
    · obtain ⟨started, -, rfl⟩ := List.mem_map.mp child
      exact Custody.fulfilled_start _
  moves world pasts after holds moves := ⟨holds.1.moves moves, holds.2⟩

/-- In every run of any number of workers over any surroundings, the groups of
every worker keep their promises about started work. -/
theorem started_work_is_not_released (outside : Outside δ)
    (config after : Config Role (World δ) Answer) (started : Started config)
    (reaches : (services outside).Reaches config after) :
    ∀ thread ∈ after.threads,
      ((custody False thread.role).state thread.history).Compensated ∧
      ∀ later earlier, thread.history = later ++ ⟨.returned (.group none), ()⟩ :: earlier →
        ∀ id ∈ ((custody False thread.role).state earlier).entered,
          id ∈ ((custody False thread.role).state earlier).ran := by
  have start : Supervision.Holds (custody False) Fulfilling config := by
    refine ⟨⟨ledgersHold_started started, fun past member => ?_⟩, watched_started started⟩
    obtain ⟨process, rfl⟩ := started.past member
    exact Custody.fulfilled_start _
  have holds := supervision_fulfilling.reaches start reaches
  intro thread member
  have fulfilled := holds.invariant.2 _ (List.mem_map_of_mem member)
  exact ⟨fulfilled.compensated, fulfilled.settled⟩

end Interleavings

/-- A worker claims two rows, handles the first, and finds the service draining
before the second. -/
def Sample.drained : Option (Config Role (World Unit) Answer) :=
  let work := ScriptLine.thread 0 (answers [row 1, row 2])
  scripted.play (start single) (List.replicate 34 work ++ [.command (.beginDrain 0)] ++
    List.replicate 5 work ++ List.replicate 2 (.thread 1 stopped) ++ List.replicate 9 work)

theorem started_work_drained :
    ∃ after, (services anything).Reaches (Sample.start Sample.single) after ∧
      ∃ thread ∈ after.threads, ∃ books, (custody False thread.role).state thread.history = books ∧
        (books.begun, books.released, books.distinct, books.lapsed) = ([⟨1⟩], [⟨2⟩], true, []) ∧
        books.Compensated := by
  have ends : Sample.drained.bind (fun after => (Sample.books after).map fun books =>
      (books.begun, books.released, books.distinct, books.lapsed)) =
        some ([⟨1⟩], [⟨2⟩], true, []) := by decide
  obtain ⟨after, plays, ends⟩ := Option.bind_eq_some_iff.mp ends
  obtain ⟨books, found, ends⟩ := Option.map_eq_some_iff.mp ends
  obtain ⟨thread, first, rfl⟩ := Option.map_eq_some_iff.mp found
  have started : Started (Sample.start Sample.single) := by
    refine ⟨⟨(), rfl⟩, fun thread member => ⟨Sample.single, 1, List.mem_singleton.mp member⟩⟩
  have reaches := Interpreter.play_reaches plays
  have member := List.mem_of_head? first
  refine ⟨after, reaches, thread, member, _, rfl, ends, ?_⟩
  exact (started_work_is_not_released anything _ after started reaches thread member).1

end OutboxFormal
