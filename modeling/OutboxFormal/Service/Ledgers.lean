import OutboxFormal.Service.BatchSpecs

/-!
# Books and ledgers along every interleaving

The books of a worker and the ledger that its lease manager's mutex guards say
the same, whoever holds the mutex: a heartbeat changes deadlines only, and no
two workers share a group. This is what a worker may rely on when it takes the
mutex, and it holds in every reachable state.
-/

namespace OutboxFormal

open Library

variable {role : Role} {index : Nat} {history : History Answer}

variable {event : Event Answer} {group thread allocated : Nat} {ledger : Ledger} {effect : Effect}

/-! ## What effects do to mutexes and ledgers -/

/-- The effects that move a mutex, a ledger or the group of a worker. -/
def Effect.onLedger : Effect → Bool
  | .newLeaseToken | .withCancelCause _ | .newManager .. | .lock _ | .lockContext _ _
  | .store _ _ | .unlock _ => true
  | _ => false

def Role.isWorker : Role → Bool
  | .worker _ => true
  | .heartbeat _ => false

namespace World

variable {δ : Type} {world after : World δ}

/-- The holder of a manager's mutex and the ledger it guards. -/
def ledgers (world : World δ) (group : Nat) : Option (Option Nat × Ledger) :=
  (world.groups group).manager.map fun state => (state.holder, state.ledger)

theorem ensure_eq_some {possible : Prop} [Decidable possible] :
    world.ensure possible = some after ↔ possible ∧ after = world := by
  unfold ensure
  split
  · simp_all [eq_comm]
  · simp_all

theorem onManager_eq_some {id : Nat} {ready : ManagerState → Prop} [DecidablePred ready]
    {change : ManagerState → ManagerState} :
    world.onManager id ready change = some after ↔
      ∃ state, (world.groups id).manager = some state ∧ ready state ∧
        after = world.setManager id (change state) := by
  unfold onManager
  cases (world.groups id).manager with
  | none => simp
  | some state =>
    by_cases isReady : ready state <;> simp [isReady, eq_comm]

theorem ledgers_setManager (world : World δ) (id : Nat) (state : ManagerState) :
    (world.setManager id state).ledgers =
      Function.update world.ledgers id (some (state.holder, state.ledger)) := by
  funext group
  by_cases same : group = id
  · subst same
    simp [ledgers, setManager]
  · simp [ledgers, setManager, same]

theorem ledgers_keep {id : Nat} {state changed : ManagerState}
    (found : (world.groups id).manager = some state)
    (kept : (changed.holder, changed.ledger) = (state.holder, state.ledger)) :
    (world.setManager id changed).ledgers = world.ledgers := by
  rw [ledgers_setManager, kept]
  refine Function.update_eq_self_iff.mpr ?_
  simp [ledgers, found]

theorem ledgers_cancelGroup (world : World δ) (id : Nat) (cause : OutboxError) :
    (world.cancelGroup id cause).ledgers = world.ledgers := by
  funext group
  by_cases same : group = id
  · subst same
    simp [ledgers, cancelGroup]
  · simp [ledgers, cancelGroup, same]

theorem ledgers_cancelProcess (world : World δ) (process : Nat) (cause : OutboxError) :
    (world.cancelProcess process cause).ledgers = world.ledgers ∧
      (world.cancelProcess process cause).allocated = world.allocated := by
  unfold cancelProcess
  split
  · exact ⟨rfl, rfl⟩
  · refine ⟨funext fun group => ?_, rfl⟩
    unfold ledgers
    dsimp only
    split <;> rfl

theorem react_ledgers {answer : Answer effect} (other : effect.onLedger = false)
    (reacts : world.react thread effect answer = some after) :
    after.ledgers = world.ledgers ∧ after.allocated = world.allocated := by
  cases effect with
  | cancelCause group cause =>
    cases reacts
    exact ⟨ledgers_cancelGroup _ _ _, rfl⟩
  | notifyWorkerExit process =>
    cases reacts
    exact ledgers_cancelProcess _ _ _
  | cause ctx | err ctx | isDraining process | fillWait ctx process duration
  | waitForWorker ctx process duration =>
    obtain ⟨-, rfl⟩ := ensure_eq_some.mp reacts
    exact ⟨rfl, rfl⟩
  | claimRLock process | claimRUnlock process | pauseBatchCapability process capability until_
  | resetBatchRetryStreak process capability | returned result =>
    cases reacts
    exact ⟨rfl, rfl⟩
  | setError group error | getError group | stop group | waitDone group | closeDone group
  | tick group =>
    obtain ⟨state, found, -, rfl⟩ := onManager_eq_some.mp reacts
    exact ⟨ledgers_keep found rfl, rfl⟩
  | batchCapabilityPaused process capability now | nextBatchRetry process capability now =>
    simp only [react] at reacts
    split at reacts
    · cases reacts
      exact ⟨rfl, rfl⟩
    · cases reacts
  | newLeaseToken | withCancelCause parent | newManager manager ledger rounds | lock group
  | lockContext group ctx | store group ledger | unlock group => cases other
  | _ => cases reacts

end World

/-! ## Books that agree with the ledgers -/

namespace Custody

variable {strict : Prop}

/-- What the books say about the group in hand and its ledger. -/
structure View where
  group : Option Nat
  manager : Option BatchLeaseManager
  keys : List JobID
  ordered : List JobID
  locked : Option (Nat × Ledger)

def view (custody : Custody) : View :=
  ⟨custody.group, custody.manager, custody.keys, custody.ordered, custody.locked⟩

theorem view_next {custody : Custody} (answer : Answer effect) (other : effect.onLedger = false) :
    (custody.next effect answer).view = custody.view := by
  unfold next
  split <;> first | rfl | cases other
  · split
    · split <;> rfl
    · rfl
  · split <;> rfl

structure Agrees (ledgers : Nat → Option (Option Nat × Ledger)) (allocated thread : Nat)
    (role : Role) (view : View) : Prop where
  locked : ∀ group ledger, view.locked = some (group, ledger) →
    ledgers group = some (some thread, ledger) ∧
      ∃ m, view.manager = some m ∧ m.group = group
  below : role.isWorker = true → ∀ group, view.group = some group → group < allocated
  unmanaged : role.isWorker = true → ∀ group, view.group = some group → view.manager = none →
    ledgers group = none
  managed : role.isWorker = true → ∀ m, view.manager = some m → view.group = some m.group ∧
    ∃ holder ledger, ledgers m.group = some (holder, ledger) ∧ ledger.ids = view.keys ∧
      ledger.orderedIDs = view.ordered

/-- A change of one group that the thread does not hold, and that keeps the ids
if the thread works on it. -/
theorem Agrees.update {ledgers : Nat → Option (Option Nat × Ledger)} {view : View}
    {holder : Option Nat} (agrees : Agrees ledgers allocated thread role view)
    (unheld : ∀ before, ledgers group ≠ some (some thread, before))
    (kept : role.isWorker = true → view.group = some group →
      ∃ holder before, ledgers group = some (holder, before) ∧ ledger.ids = before.ids ∧
        ledger.orderedIDs = before.orderedIDs) :
    Agrees (Function.update ledgers group (some (holder, ledger))) allocated thread role view := by
  refine ⟨?_, agrees.below, ?_, ?_⟩
  · intro other before locked
    obtain ⟨held, owner⟩ := agrees.locked other before locked
    refine ⟨?_, owner⟩
    rw [Function.update_of_ne]
    · exact held
    · rintro rfl
      exact unheld before held
  · intro worker other onOther none
    have absent := agrees.unmanaged worker other onOther none
    rw [Function.update_of_ne]
    · exact absent
    · rintro rfl
      obtain ⟨_, _, present, -, -⟩ := kept worker onOther
      rw [absent] at present
      cases present
  · intro worker m hm
    obtain ⟨onGroup, holder', before, present, ids, ordered⟩ := agrees.managed worker m hm
    refine ⟨onGroup, ?_⟩
    by_cases same : m.group = group
    · obtain ⟨_, old, found, sameIDs, sameOrder⟩ := kept worker (same ▸ onGroup)
      rw [← same, present] at found
      cases found
      refine ⟨holder, ledger, ?_, sameIDs.trans ids, sameOrder.trans ordered⟩
      rw [same, Function.update_self]
    · exact ⟨holder', before, by rwa [Function.update_of_ne same], ids, ordered⟩

/-- No two workers are on one group. -/
def Apart (role role' : Role) (view view' : View) : Prop :=
  role.isWorker = true → role'.isWorker = true → ∀ group, view.group = some group →
    view'.group ≠ some group

/-- The view of a thread's books. -/
def viewOf (past : Role × History Answer) : View := ((custody True past.1).state past.2).view

end Custody

open Custody (viewOf Agrees Apart View)

structure LedgersHold {δ : Type} (strict : Prop) (world : World δ)
    (pasts : List (Role × History Answer)) : Prop where
  agrees : ∀ (thread : Nat) past, pasts[thread]? = some past →
    Agrees world.ledgers world.allocated thread past.1 (viewOf past)
  apart : ∀ (first second : Nat) past past', first ≠ second → pasts[first]? = some past →
    pasts[second]? = some past' →
    Apart past.1 past'.1 (viewOf past) (viewOf past')
  fresh : ∀ group, world.allocated ≤ group → world.ledgers group = none
  bounded : strict → ∀ group holder ledger, world.ledgers group = some (holder, ledger) →
    ledger.Bounded

namespace LedgersHold

variable {δ : Type} {strict : Prop} {world after : World δ}
variable {pasts : List (Role × History Answer)}

theorem state_custody (strict : Prop) (role : Role) (history : History Answer) :
    (custody strict role).state history = (custody True role).state history := by
  induction history with
  | nil => rfl
  | cons event earlier ih =>
    change Custody.next ((custody strict role).state earlier) event.effect event.answer = _
    rw [ih]
    rfl

theorem isWorker_child {past : Role × History Answer}
    (child : past ∈ effect.spawned.map fun child => (child.1, [])) : past.1.isWorker = false := by
  cases effect with
  | newManager manager ledger rounds =>
    obtain rfl := List.mem_singleton.mp child
    rfl
  | _ => cases child

theorem agrees_child {ledgers : Nat → Option (Option Nat × Ledger)} {past : Role × History Answer}
    (child : past ∈ effect.spawned.map fun child => (child.1, [])) :
    Agrees ledgers allocated thread past.1 (viewOf past) := by
  have heartbeat : past.1.isWorker ≠ true := by
    rw [isWorker_child child]
    exact Bool.false_ne_true
  refine ⟨?_, fun worker => absurd worker heartbeat, fun worker => absurd worker heartbeat,
    fun worker => absurd worker heartbeat⟩
  intro group ledger locked
  cases effect with
  | newManager manager before rounds =>
    obtain rfl := List.mem_singleton.mp child
    cases locked
  | _ => cases child

theorem allocated_of_ledger (hold : LedgersHold strict world pasts) {entry : Option Nat × Ledger}
    (present : world.ledgers group = some entry) :
    group < world.allocated := by
  by_contra above
  rw [hold.fresh group (not_lt.mp above)] at present
  cases present

/-- The view of books with a mutex in hand. -/
def heldView (view : View) (group : Nat) (ledger : Ledger) : View :=
  { view with keys := ledger.ids, ordered := ledger.orderedIDs, locked := some (group, ledger) }

/-- A thread that holds the mutex of its own group agrees with the ledger in hand. -/
theorem agrees_heldView {ledgers ledgers' : Nat → Option (Option Nat × Ledger)}
    {view : View} (agrees : Agrees ledgers allocated index role view)
    (owner : ∃ m, view.manager = some m ∧ m.group = group) :
    Agrees (Function.update ledgers' group (some (some index, ledger))) allocated index role
      (heldView view group ledger) := by
  obtain ⟨m, hm, rfl⟩ := owner
  refine ⟨?_, agrees.below, ?_, ?_⟩
  · rintro _ _ ⟨⟩
    exact ⟨Function.update_self _ _ _, m, hm, rfl⟩
  · intro _ _ _ absent
    change view.manager = none at absent
    rw [hm] at absent
    cases absent
  · intro worker m' hm'
    change view.manager = some m' at hm'
    rw [hm] at hm'
    cases hm'
    exact ⟨(agrees.managed worker m hm).1, _, _, Function.update_self _ _ _, rfl, rfl⟩

/-- The pasts of all threads after an event of one of them. -/
abbrev stepped (pasts : List (Role × History Answer)) (index : Nat) (role : Role)
    (event : Event Answer) (history : History Answer) : List (Role × History Answer) :=
  pasts.set index (role, event :: history) ++ event.effect.spawned.map fun child => (child.1, [])

/-! ## One step -/

section Steps

variable (hold : LedgersHold strict world pasts) (found : pasts[index]? = some (role, history))
include hold found

theorem step (own : Agrees after.ledgers after.allocated index role
      (viewOf (role, event :: history)))
    (others : ∀ (thread : Nat) past, thread ≠ index → pasts[thread]? = some past →
      Agrees after.ledgers after.allocated thread past.1 (viewOf past) ∧
        Apart role past.1 (viewOf (role, event :: history)) (viewOf past))
    (fresh : ∀ group, after.allocated ≤ group → after.ledgers group = none)
    (bounded : strict → ∀ group holder ledger, after.ledgers group = some (holder, ledger) →
      ledger.Bounded) :
    LedgersHold strict after (stepped pasts index role event history) := by
  refine ⟨?_, ?_, fresh, bounded⟩
  · intro thread past stepped
    rcases getElem?_stepped stepped with ⟨rfl, rfl⟩ | ⟨other, kept⟩ | ⟨-, child⟩
    · exact own
    · exact (others thread past other kept).1
    · exact agrees_child child
  · intro first second past past' different stepped stepped'
    rcases getElem?_stepped stepped with ⟨rfl, rfl⟩ | ⟨other, kept⟩ | ⟨-, child⟩
    · rcases getElem?_stepped stepped' with ⟨rfl, -⟩ | ⟨other', kept'⟩ | ⟨-, child'⟩
      · exact absurd rfl different
      · exact (others second past' other' kept').2
      · intro _ worker
        rw [isWorker_child child'] at worker
        cases worker
    · rcases getElem?_stepped stepped' with ⟨rfl, rfl⟩ | ⟨other', kept'⟩ | ⟨-, child'⟩
      · intro worker worker' group mine theirs
        exact (others first past other kept).2 worker' worker group theirs mine
      · exact hold.apart first second past past' different kept kept'
      · intro _ worker
        rw [isWorker_child child'] at worker
        cases worker
    · intro worker
      rw [isWorker_child child] at worker
      cases worker

/-- A step that changes neither ledgers nor this part of the books. -/
theorem step_same (sameView : viewOf (role, event :: history) = viewOf (role, history))
    (sameLedgers : after.ledgers = world.ledgers)
    (sameAllocated : after.allocated = world.allocated) :
    LedgersHold strict after (stepped pasts index role event history) := by
  refine hold.step found ?_ ?_ ?_ ?_
  · rw [sameView, sameLedgers, sameAllocated]
    exact hold.agrees index _ found
  · intro thread past other kept
    rw [sameView, sameLedgers, sameAllocated]
    exact ⟨hold.agrees thread past kept, hold.apart index thread _ past (Ne.symm other) found kept⟩
  · rw [sameLedgers, sameAllocated]
    exact hold.fresh
  · rw [sameLedgers]
    exact hold.bounded

theorem step_update {holder : Option Nat} (sameGroup : (viewOf (role, event :: history)).group =
      (viewOf (role, history)).group)
    (changed : after.ledgers = Function.update world.ledgers group (some (holder, ledger)))
    (allocated : after.allocated = world.allocated) (below : group < world.allocated)
    (bounded : strict → ledger.Bounded)
    (own : Agrees (Function.update world.ledgers group (some (holder, ledger)))
      world.allocated index role (viewOf (role, event :: history)))
    (others : ∀ (thread : Nat) past, thread ≠ index → pasts[thread]? = some past →
      (∀ before, world.ledgers group ≠ some (some thread, before)) ∧
      (past.1.isWorker = true → (viewOf past).group = some group →
        ∃ holder before, world.ledgers group = some (holder, before) ∧ ledger.ids = before.ids ∧
          ledger.orderedIDs = before.orderedIDs)) :
    LedgersHold strict after (stepped pasts index role event history) := by
  refine hold.step found ?_ ?_ ?_ ?_
  · rw [changed, allocated]
    exact own
  · intro thread past other kept
    rw [changed, allocated]
    obtain ⟨unheld, sameIDs⟩ := others thread past other kept
    refine ⟨(hold.agrees thread past kept).update unheld sameIDs, ?_⟩
    intro worker worker' shared mine
    rw [sameGroup] at mine
    exact hold.apart index thread _ past (Ne.symm other) found kept worker worker' shared mine
  · intro other above
    rw [allocated] at above
    rw [changed, Function.update_of_ne (Nat.ne_of_gt (below.trans_le above))]
    exact hold.fresh other above
  · intro hstrict other holder' before present
    rw [changed] at present
    by_cases same : other = group
    · subst same
      rw [Function.update_self] at present
      cases present
      exact bounded hstrict
    · rw [Function.update_of_ne same] at present
      exact hold.bounded hstrict other holder' before present

/-- Taking a free mutex: the worker finds the ids its books have. -/
theorem step_lock (owner : ∃ m, (viewOf (role, history)).manager = some m ∧ m.group = group)
    (view : viewOf (role, event :: history) = heldView (viewOf (role, history)) group ledger)
    (free : world.ledgers group = some (none, ledger))
    (taken : after.ledgers = Function.update world.ledgers group (some (some index, ledger)))
    (allocated : after.allocated = world.allocated) :
    (role.isWorker = true → ledger.ids = (viewOf (role, history)).keys ∧
      ledger.orderedIDs = (viewOf (role, history)).ordered) ∧
    LedgersHold strict after (stepped pasts index role event history) := by
  have agrees := hold.agrees index _ found
  constructor
  · intro worker
    obtain ⟨m, hm, rfl⟩ := owner
    obtain ⟨-, holder, before, present, ids, ordered⟩ := agrees.managed worker m hm
    rw [free] at present
    cases present
    exact ⟨ids, ordered⟩
  · refine hold.step_update found (by rw [view]; rfl) taken allocated
      (hold.allocated_of_ledger free) (fun hstrict => hold.bounded hstrict group none ledger free)
      ?_ ?_
    · rw [view]
      exact agrees_heldView agrees owner
    · intro thread past other kept
      refine ⟨?_, fun _ _ => ⟨none, ledger, free, rfl, rfl⟩⟩
      rw [free]
      exact nofun

/-- Writing back a ledger: a heartbeat keeps its ids, and no other worker is on
the group of a worker. -/
theorem step_store {before : Ledger}
    (locked : (viewOf (role, history)).locked = some (group, before))
    (view : viewOf (role, event :: history) = heldView (viewOf (role, history)) group ledger)
    (stored : after.ledgers = Function.update world.ledgers group (some (some index, ledger)))
    (allocated : after.allocated = world.allocated) (bounded : strict → ledger.Bounded)
    (heartbeat : role.isWorker = false →
      ledger.ids = before.ids ∧ ledger.orderedIDs = before.orderedIDs) :
    LedgersHold strict after (stepped pasts index role event history) := by
  have agrees := hold.agrees index _ found
  obtain ⟨held, owner⟩ := agrees.locked group before locked
  refine hold.step_update found (by rw [view]; rfl) stored allocated
    (hold.allocated_of_ledger held) bounded ?_ ?_
  · rw [view]
    exact agrees_heldView agrees owner
  · intro thread past other kept
    constructor
    · intro _ mine
      rw [held] at mine
      cases mine
      exact other rfl
    · intro worker onGroup
      cases isWorker : role.isWorker with
      | false => exact ⟨some index, before, held, heartbeat isWorker⟩
      | true =>
        obtain ⟨m, hm, rfl⟩ := owner
        have mine := (agrees.managed isWorker m hm).1
        exact absurd onGroup
          (hold.apart index thread _ past (Ne.symm other) found kept isWorker worker _ mine)

theorem step_unlock (locked : (viewOf (role, history)).locked = some (group, ledger))
    (view : viewOf (role, event :: history) = { viewOf (role, history) with locked := none })
    (freed : after.ledgers = Function.update world.ledgers group (some (none, ledger)))
    (allocated : after.allocated = world.allocated) :
    LedgersHold strict after (stepped pasts index role event history) := by
  have agrees := hold.agrees index _ found
  obtain ⟨held, -⟩ := agrees.locked group ledger locked
  refine hold.step_update found (by rw [view]) freed allocated (hold.allocated_of_ledger held)
    (fun hstrict => hold.bounded hstrict group (some index) ledger held) ?_ ?_
  · rw [view]
    refine ⟨?_, agrees.below, ?_, ?_⟩
    · exact nofun
    · intro worker other onOther none
      have absent := agrees.unmanaged worker other onOther none
      rw [Function.update_of_ne]
      · exact absent
      · rintro rfl
        rw [held] at absent
        cases absent
    · intro worker m hm
      obtain ⟨onGroup, holder, before, present, ids, ordered⟩ := agrees.managed worker m hm
      refine ⟨onGroup, ?_⟩
      by_cases same : m.group = group
      · rw [same, held] at present
        cases present
        exact ⟨none, ledger, by rw [same, Function.update_self], ids, ordered⟩
      · exact ⟨holder, before, by rwa [Function.update_of_ne same], ids, ordered⟩
  · intro thread past other kept
    constructor
    · intro _ mine
      rw [held] at mine
      cases mine
      exact other rfl
    · exact fun _ _ => ⟨some index, ledger, held, rfl, rfl⟩

theorem step_newManager {m : BatchLeaseManager} (worker : role.isWorker = true)
    (onGroup : (viewOf (role, history)).group = some m.group)
    (unmanaged : (viewOf (role, history)).manager = none)
    (unlocked : (viewOf (role, history)).locked = none) (view : viewOf (role, event :: history) =
      { viewOf (role, history) with
        manager := some m, keys := ledger.ids, ordered := ledger.orderedIDs })
    (created : after.ledgers = Function.update world.ledgers m.group (some (none, ledger)))
    (allocated : after.allocated = world.allocated) (bounded : strict → ledger.Bounded) :
    LedgersHold strict after (stepped pasts index role event history) := by
  have agrees := hold.agrees index _ found
  have absent := agrees.unmanaged worker m.group onGroup unmanaged
  refine hold.step_update found (by rw [view]) created allocated
    (agrees.below worker m.group onGroup) bounded ?_ ?_
  · rw [view]
    refine ⟨?_, agrees.below, ?_, ?_⟩
    · intro group before locked
      change (viewOf (role, history)).locked = some (group, before) at locked
      rw [unlocked] at locked
      cases locked
    · exact nofun
    · rintro _ _ ⟨⟩
      exact ⟨onGroup, none, ledger, Function.update_self _ _ _, rfl, rfl⟩
  · intro thread past other kept
    constructor
    · rw [absent]
      exact nofun
    · intro worker' theirs
      exact absurd theirs
        (hold.apart index thread _ past (Ne.symm other) found kept worker worker' _ onGroup)

theorem step_withCancelCause (unmanaged : (viewOf (role, history)).manager = none)
    (view : viewOf (role, event :: history) =
      { viewOf (role, history) with group := some world.allocated })
    (same : after.ledgers = world.ledgers) (allocated : after.allocated = world.allocated + 1) :
    LedgersHold strict after (stepped pasts index role event history) := by
  have agrees := hold.agrees index _ found
  refine hold.step found ?_ ?_ ?_ ?_
  · rw [view, same, allocated]
    refine ⟨agrees.locked, ?_, ?_, ?_⟩
    · rintro _ _ ⟨⟩
      exact Nat.lt_succ_self _
    · rintro _ _ ⟨⟩ _
      exact hold.fresh _ le_rfl
    · intro _ m hm
      change (viewOf (role, history)).manager = some m at hm
      rw [unmanaged] at hm
      cases hm
  · intro thread past other kept
    have theirs := hold.agrees thread past kept
    rw [view, same, allocated]
    refine ⟨⟨theirs.locked, ?_, theirs.unmanaged, theirs.managed⟩, ?_⟩
    · exact fun worker group onGroup => Nat.lt_succ_of_lt (theirs.below worker group onGroup)
    · rintro _ worker _ ⟨⟩ onGroup
      exact absurd (theirs.below worker _ onGroup) (lt_irrefl _)
  · intro group above
    rw [same]
    exact hold.fresh group (by omega)
  · rw [same]
    exact hold.bounded

theorem step_newLeaseToken (view : viewOf (role, event :: history) = ⟨none, none, [], [], none⟩)
    (same : after.ledgers = world.ledgers) (allocated : after.allocated = world.allocated) :
    LedgersHold strict after (stepped pasts index role event history) := by
  refine hold.step found ?_ ?_ ?_ ?_
  · rw [view]
    refine ⟨?_, ?_, ?_, ?_⟩
    · exact nofun
    · exact nofun
    · exact nofun
    · exact nofun
  · intro thread past other kept
    rw [view, same, allocated]
    exact ⟨hold.agrees thread past kept, nofun⟩
  · rw [same, allocated]
    exact hold.fresh
  · rw [same]
    exact hold.bounded

end Steps

/-! ## Every interleaving -/

/-- What a thread relies on when it takes a mutex. -/
def LockAnswer (strict : Prop) (role : Role) (books : Custody) :
    (effect : Effect) → Answer effect → Prop
  | .lock _, ledger | .lockContext _ _, .ok ledger =>
    (strict → ledger.Bounded) ∧ ∀ process, role = .worker process →
      ledger.ids = books.keys ∧ ledger.orderedIDs = books.ordered
  | _, _ => True

theorem worker_of_exists (worker : ∃ process, role = .worker process) :
    role.isWorker = true := by
  obtain ⟨process, rfl⟩ := worker
  rfl

theorem lock_performs (hold : LedgersHold strict world pasts)
    (found : pasts[index]? = some (role, history))
    (owner : ∃ m, (viewOf (role, history)).manager = some m ∧ m.group = group)
    (view : viewOf (role, event :: history) = heldView (viewOf (role, history)) group ledger)
    (reacts : world.onManager group (fun state => state.holder = none ∧ ledger = state.ledger)
      (fun state => { state with holder := some index }) = some after) :
    ((strict → ledger.Bounded) ∧ ∀ process, role = .worker process →
      ledger.ids = (viewOf (role, history)).keys ∧
        ledger.orderedIDs = (viewOf (role, history)).ordered) ∧
    LedgersHold strict after (stepped pasts index role event history) := by
  obtain ⟨state, present, ⟨free, rfl⟩, rfl⟩ := World.onManager_eq_some.mp reacts
  have unheld : world.ledgers group = some (none, state.ledger) := by
    simp [World.ledgers, present, free]
  have taken := World.ledgers_setManager world group { state with holder := some index }
  obtain ⟨ids, next⟩ := hold.step_lock found owner view unheld taken rfl
  refine ⟨⟨fun hstrict => hold.bounded hstrict group none state.ledger unheld, ?_⟩, next⟩
  rintro process rfl
  exact ids rfl

/-- Every effect the custody monitor allows keeps books and ledgers in agreement. -/
theorem performs {outside : Outside δ} {answer : Answer effect}
    (hold : LedgersHold strict world pasts) (found : pasts[index]? = some (role, history))
    (allowed : ((custody strict role).state history).Allowed strict role effect)
    (performs : (services outside).perform index world effect answer after) :
    LockAnswer strict role ((custody strict role).state history) effect answer ∧
      LedgersHold strict after (pasts.set index (role, ⟨effect, answer⟩ :: history) ++
        effect.spawned.map fun child => (child.1, [])) := by
  rw [state_custody] at allowed ⊢
  by_cases other : effect.onLedger = false
  · have view : viewOf (role, ⟨effect, answer⟩ :: history) =
        viewOf (role, history) := Custody.view_next answer other
    have kept : after.ledgers = world.ledgers ∧ after.allocated = world.allocated := by
      simp only [services] at performs
      split at performs
      · exact World.react_ledgers other performs
      · obtain ⟨next, -, rfl⟩ := performs
        exact ⟨rfl, rfl⟩
    refine ⟨?_, hold.step_same found view kept.1 kept.2⟩
    unfold LockAnswer
    split
    · cases other
    · cases other
    · trivial
  · cases effect with
    | newLeaseToken =>
      obtain ⟨next, -, rfl⟩ := performs
      exact ⟨trivial, hold.step_newLeaseToken found rfl rfl rfl⟩
    | withCancelCause parent =>
      cases parent with
      | run process =>
        change (if answer = world.allocated then some (world.openGroup process) else none) =
          some after at performs
        split at performs
        · rename_i same
          subst same
          cases performs
          refine ⟨trivial, hold.step_withCancelCause found allowed.2 rfl ?_ rfl⟩
          funext group
          by_cases same : group = world.allocated
          · have absent := hold.fresh group (le_of_eq same.symm)
            rw [absent, same]
            simp [World.ledgers, World.openGroup]
          · simp [World.ledgers, World.openGroup, same]
        · cases performs
      | _ => cases performs
    | newManager manager ledger rounds =>
      obtain ⟨worker, onGroup, unmanaged, unlocked, -, -, -, bounded⟩ := allowed
      cases performs
      exact ⟨trivial, hold.step_newManager found (worker_of_exists worker) onGroup unmanaged
        unlocked rfl (World.ledgers_setManager _ _ _) rfl bounded⟩
    | lock group => exact hold.lock_performs found allowed.1 rfl performs
    | lockContext group ctx =>
      cases answer with
      | ok ledger => exact hold.lock_performs found allowed.1 rfl performs
      | error cause =>
        obtain ⟨-, rfl⟩ := World.ensure_eq_some.mp performs
        exact ⟨trivial, hold.step_same found rfl rfl rfl⟩
    | store group ledger =>
      obtain ⟨before, locked, -, bounded, heartbeat⟩ := allowed
      obtain ⟨state, present, held, rfl⟩ := World.onManager_eq_some.mp performs
      refine ⟨trivial, hold.step_store found locked rfl ?_ rfl bounded ?_⟩
      · rw [World.ledgers_setManager, ← held]
      · intro isHeartbeat
        cases role with
        | worker process => cases isHeartbeat
        | heartbeat manager => exact heartbeat manager rfl
    | unlock group =>
      obtain ⟨ledger, locked⟩ := allowed
      obtain ⟨state, present, held, rfl⟩ := World.onManager_eq_some.mp performs
      refine ⟨trivial, hold.step_unlock found locked rfl ?_ rfl⟩
      have mine := ((hold.agrees index _ found).locked group ledger locked).1
      rw [World.ledgers_setManager]
      simp only [World.ledgers, present, Option.map_some, Option.some.injEq,
        Prod.mk.injEq] at mine
      rw [mine.2]
    | _ => exact absurd rfl other

theorem moves {outside : Outside δ} (hold : LedgersHold strict world pasts)
    (moves : World.Moves outside world after) : LedgersHold strict after pasts := by
  have kept : after.ledgers = world.ledgers ∧ after.allocated = world.allocated := by
    cases moves with
    | cancel process cause => exact World.ledgers_cancelProcess _ _ _
    | beginDrain process free => exact ⟨rfl, rfl⟩
    | outside moved => exact ⟨rfl, rfl⟩
  refine ⟨?_, hold.apart, ?_, ?_⟩
  · rw [kept.1, kept.2]
    exact hold.agrees
  · rw [kept.1, kept.2]
    exact hold.fresh
  · rw [kept.1]
    exact hold.bounded

end LedgersHold

end OutboxFormal
