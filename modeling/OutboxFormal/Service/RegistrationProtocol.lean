import OutboxFormal.Service.Registration

/-!
# The registration protocol

What a goroutine has done so far in its current call is its session. The
discipline says what a session may do next: it installs a capability only under
the lock, with the running flag loaded as false, and after it found no handler;
and it gives the lock up with all of its capabilities installed or none. Every
call keeps the discipline.
-/

namespace OutboxFormal.Registration

open Library
open Library.Monitor (wp_bind wp_mono wp_onExit wp_step)

/-! ## Sessions -/

/-- The current call of a goroutine: how it holds the lock, the flag it loaded under
the lock, the capabilities it found without a handler, those it installed, whether it
is a `Run` that set the flag, the capabilities that `Run` has read, and the response. -/
structure Session where
  request : Option Request
  hold : Hold
  loaded : Option Bool
  noJob : List JobCapability
  noBatchJob : List JobCapability
  installed : List JobCapability
  running : Bool
  single : Option (List JobCapability)
  batch : Option (List JobCapability)
  response : Option (Option OutboxError)

/-- A goroutine without a call. -/
def Session.idle : Session := ⟨none, .free, none, [], [], [], false, none, none, none⟩

/-- The capabilities a call registers if it succeeds. -/
def Request.capabilities (repositoryMax : Option Int) : Request → List JobCapability
  | .registerJobs jobs =>
    match collectJobs [] 0 jobs with
    | .error _ => []
    | .ok capabilities => capabilities.map Prod.fst
  | .registerBatchJob job config =>
    match prepareBatchJob repositoryMax job config with
    | .error _ => []
    | .ok (capability, _) => [capability]
  | .run => []

def Session.next (session : Session) (effect : Effect) (answer : Answer effect) : Session :=
  match effect, answer with
  | .invoke request, _ => { Session.idle with request := some request }
  | .respond result, _ => { session with response := some result }
  | .lock, _ => { session with hold := .write, loaded := none, noJob := [], noBatchJob := [] }
  | .unlock, _ => { session with hold := .free }
  | .rLock, _ => { session with hold := .read }
  | .rUnlock, _ => { session with hold := .free }
  | .loadRunning, running => { session with loaded := some running }
  | .compareAndSwapRunning, swapped => { session with running := swapped }
  | .storeRunning _, _ => { session with running := false, single := none, batch := none }
  | .getJob capability, found =>
    { session with noJob := if found.isNone then capability :: session.noJob else session.noJob }
  | .getBatchJob capability, found =>
    { session with
      noBatchJob := if found.isNone then capability :: session.noBatchJob
        else session.noBatchJob }
  | .setJob capability _, _ => { session with installed := session.installed ++ [capability] }
  | .setBatchJob capability _, _ => { session with installed := session.installed ++ [capability] }
  | .rangeJobs, capabilities => { session with single := some capabilities }
  | .rangeBatchJobs, capabilities => { session with batch := some capabilities }
  | .rangeLocal _, _ => session
  | .serve _ _, _ => session

section Protocol

variable (repositoryMax : Option Int)

/-- The call has installed all of its capabilities. -/
def Session.All (session : Session) : Prop :=
  ∃ request, session.request = some request ∧
    session.installed.Perm (request.capabilities repositoryMax)

/-- The call has installed nothing or everything. -/
def Session.Whole (session : Session) : Prop :=
  session.installed = [] ∨ session.All repositoryMax

/-- A capability may be installed: the call holds the lock, has loaded the flag as false
and has found no handler. -/
def Session.MayInstall (session : Session) (capability : JobCapability) : Prop :=
  session.hold = .write ∧ session.loaded = some false ∧ capability ∈ session.noJob ∧
    capability ∈ session.noBatchJob ∧ capability ∉ session.installed

def discipline : Monitor Answer Session where
  start := .idle
  next := .next
  allowed session effect :=
    match effect with
    | .invoke _ => session.hold = .free ∧ session.running = false
    | .respond result => session.hold = .free ∧ session.running = false ∧
        (result = none → session.All repositoryMax) ∧ (result ≠ none → session.installed = [])
    | .lock => session.hold = .free ∧ session.running = false ∧ session.response = none
    | .unlock => session.hold = .write ∧ session.Whole repositoryMax
    | .rLock => session.hold = .free ∧ session.running = true
    | .rUnlock => session.hold = .read
    | .loadRunning => session.hold = .write
    | .compareAndSwapRunning => session.hold = .free ∧ session.running = false
    | .storeRunning value => session.hold = .free ∧ session.running = true ∧ value = false
    | .getJob _ => session.hold = .write
    | .getBatchJob _ => session.hold = .write
    | .setJob capability _ => session.MayInstall capability
    | .setBatchJob capability _ => session.MayInstall capability
    | .rangeJobs => session.hold = .read ∧ session.running = true
    | .rangeBatchJobs => session.hold = .read ∧ session.running = true
    | .rangeLocal _ => True
    | .serve singleCapabilities batchCapabilities => session.running = true ∧
        session.single.map Service.sortCapabilities = some singleCapabilities ∧
        session.batch.map Service.sortCapabilities = some batchCapabilities
  expects _ effect answer :=
    match effect, answer with
    | .rangeLocal entries, visited => visited.Perm entries
    | _, _ => True

/-! ## The programs keep the discipline -/

/-- Lookups extend what the session knows and change nothing else. -/
def Session.Knows (session last : Session) (entries : List (JobCapability × JobHandler)) : Prop :=
  ∃ noJob noBatchJob, last = { session with noJob := noJob, noBatchJob := noBatchJob } ∧
    session.noJob ⊆ noJob ∧ session.noBatchJob ⊆ noBatchJob ∧
    ∀ entry ∈ entries, entry.1 ∈ noJob ∧ entry.1 ∈ noBatchJob

variable {session : Session}

/-- The conflict check ends with every capability known to be free, or with an error. -/
theorem findConflict_meets {entries : List (JobCapability × JobHandler)}
    (holds : session.hold = .write) :
    (discipline repositoryMax).wp (findConflict entries)
      (fun result last => (result = none → session.Knows last entries) ∧ session.Knows last [])
      (fun _ => False) session := by
  induction entries generalizing session with
  | nil =>
    have same : session.Knows session [] :=
      ⟨session.noJob, session.noBatchJob, rfl, List.Subset.refl _, List.Subset.refl _, nofun⟩
    exact ⟨fun _ => same, same⟩
  | cons entry rest ih =>
    obtain ⟨capability, handler⟩ := entry
    refine wp_step holds fun single _ => ?_
    cases single with
    | some handler =>
      refine ⟨nofun, ?_⟩
      exact ⟨_, _, rfl, List.Subset.refl _, List.Subset.refl _, nofun⟩
    | none =>
      refine wp_step holds fun batch _ => ?_
      cases batch with
      | some registration =>
        refine ⟨nofun, ?_⟩
        exact ⟨_, _, rfl, List.subset_cons_self _ _, List.Subset.refl _, nofun⟩
      | none =>
        refine wp_mono (ih holds) ?_ fun _ unwound => unwound
        intro result last known
        obtain ⟨free, noJob, noBatchJob, rfl, jobs, batchJobs, _⟩ := known
        refine ⟨fun passed => ?_, noJob, noBatchJob, rfl,
          List.Subset.trans (List.subset_cons_self _ _) jobs,
          List.Subset.trans (List.subset_cons_self _ _) batchJobs, nofun⟩
        obtain ⟨_, _, same, _, _, all⟩ := free passed
        cases same
        refine ⟨noJob, noBatchJob, rfl, List.Subset.trans (List.subset_cons_self _ _) jobs,
          List.Subset.trans (List.subset_cons_self _ _) batchJobs, ?_⟩
        intro entry member
        rcases List.mem_cons.mp member with rfl | later
        · exact ⟨jobs List.mem_cons_self, batchJobs List.mem_cons_self⟩
        · exact all entry later

theorem installJobs_meets {entries : List (JobCapability × JobHandler)}
    (holds : session.hold = .write) (loaded : session.loaded = some false)
    (free : ∀ entry ∈ entries, entry.1 ∈ session.noJob ∧ entry.1 ∈ session.noBatchJob)
    (fresh : (session.installed ++ entries.map Prod.fst).Nodup) :
    (discipline repositoryMax).wp (installJobs entries)
      (fun _ last =>
        last = { session with installed := session.installed ++ entries.map Prod.fst })
      (fun _ => False) session := by
  induction entries generalizing session with
  | nil =>
    change session = { session with installed := session.installed ++ [] }
    rw [List.append_nil]
  | cons entry rest ih =>
    obtain ⟨capability, handler⟩ := entry
    obtain ⟨noJob, noBatchJob⟩ := free _ List.mem_cons_self
    have absent : capability ∉ session.installed := by
      intro member
      exact (List.nodup_append.mp fresh).2.2 capability member capability List.mem_cons_self rfl
    refine wp_step ⟨holds, loaded, noJob, noBatchJob, absent⟩ fun _ _ => ?_
    have rest_fresh : (session.installed ++ [capability] ++ rest.map Prod.fst).Nodup := by
      rwa [List.append_assoc]
    refine wp_mono (@ih (session.next (.setJob capability handler) ()) holds loaded
      (fun other member => free other (List.mem_cons_of_mem _ member)) rest_fresh) ?_
      fun _ unwound => unwound
    rintro _ last rfl
    change ({ session with installed := session.installed ++ [capability] ++ rest.map Prod.fst } :
      Session) = _
    rw [List.append_assoc]
    rfl

def Session.begun (request : Request) : Session := { Session.idle with request := some request }

/-- How a call ends: without the lock, out of `Run`, and whole. -/
def Ends (result : Option OutboxError) (last : Session) : Prop :=
  last.hold = .free ∧ last.running = false ∧ (result = none → last.All repositoryMax) ∧
    (result ≠ none → last.installed = [])

theorem locked_meets {body : Go (Option OutboxError)} {request : Request}
    (meets : (discipline repositoryMax).wp body
      (fun result last => last.hold = .write ∧ last.running = false ∧
        (result = none → last.All repositoryMax) ∧ (result ≠ none → last.installed = []))
      (fun _ => False) { Session.begun request with hold := .write }) :
    (discipline repositoryMax).wp (locked body) (Ends repositoryMax) (fun _ => False)
      (Session.begun request) := by
  refine wp_step ⟨rfl, rfl, rfl⟩ fun _ _ => ?_
  rw [wp_onExit]
  refine wp_mono meets ?_ fun _ => False.elim
  rintro result last ⟨holds, stopped, all, none_⟩
  have whole : last.Whole repositoryMax := by
    cases result with
    | none => exact .inr (all rfl)
    | some error => exact .inl (none_ nofun)
  exact ⟨⟨holds, whole⟩, fun _ _ => ⟨rfl, stopped, all, none_⟩⟩

theorem nodup_collectJobs {jobs : List (Option JobValue)} {index : Nat}
    {before capabilities : List (JobCapability × JobHandler)}
    (distinct : (before.map Prod.fst).Nodup)
    (collected : collectJobs before index jobs = .ok capabilities) :
    (capabilities.map Prod.fst).Nodup := by
  induction jobs generalizing before index with
  | nil =>
    cases collected
    exact distinct
  | cons job rest ih =>
    cases job with
    | none => cases collected
    | some job =>
      unfold collectJobs at collected
      cases valid : capabilityForJob job with
      | error error =>
        rw [valid] at collected
        cases collected
      | ok capability =>
        rw [valid] at collected
        dsimp only at collected
        split at collected
        · cases collected
        · rename_i absent
          refine ih ?_ collected
          rw [List.map_append]
          exact List.nodup_append.mpr ⟨distinct, List.nodup_singleton _,
            fun first member second same => by
              rw [List.mem_singleton.mp same]
              rintro rfl
              exact absent member⟩

theorem registerJobs_meets (jobs : List (Option JobValue)) :
    (discipline repositoryMax).wp (registerJobs jobs) (Ends repositoryMax) (fun _ => False)
      (Session.begun (.registerJobs jobs)) := by
  unfold registerJobs
  cases collected : collectJobs [] 0 jobs with
  | error error => exact ⟨rfl, rfl, nofun, fun _ => rfl⟩
  | ok capabilities =>
    have distinct : (capabilities.map Prod.fst).Nodup :=
      @nodup_collectJobs jobs 0 [] capabilities List.nodup_nil collected
    have requested : (Request.registerJobs jobs).capabilities repositoryMax =
        capabilities.map Prod.fst := by
      rw [Request.capabilities, collected]
    refine locked_meets repositoryMax (wp_step rfl fun running _ => ?_)
    cases running with
    | true => exact ⟨rfl, rfl, nofun, fun _ => rfl⟩
    | false =>
      refine wp_step trivial fun checks checked => ?_
      rw [wp_bind]
      refine wp_mono (findConflict_meets repositoryMax rfl) ?_ fun _ => id
      rintro result last ⟨free, noJob, noBatchJob, rfl, _⟩
      cases result with
      | some error => exact ⟨rfl, rfl, nofun, fun _ => rfl⟩
      | none =>
        obtain ⟨_, _, same, _, _, all⟩ := free rfl
        cases same
        refine wp_step trivial fun installs visited => ?_
        rw [wp_bind]
        have keys : (installs.map Prod.fst).Perm (capabilities.map Prod.fst) :=
          visited.map Prod.fst
        refine wp_mono (installJobs_meets repositoryMax rfl rfl ?_ ?_) ?_ fun _ => id
        · exact fun entry member => all entry (checked.mem_iff.mpr (visited.mem_iff.mp member))
        · exact keys.nodup_iff.mpr distinct
        · rintro _ last rfl
          refine ⟨rfl, rfl, fun _ => ⟨_, rfl, ?_⟩, fun failed => absurd rfl failed⟩
          rw [requested]
          exact keys

theorem registerBatchJob_meets (job : Option BatchJobValue) (config : BatchConfig) :
    (discipline repositoryMax).wp (registerBatchJob repositoryMax job config)
      (Ends repositoryMax) (fun _ => False) (Session.begun (.registerBatchJob job config)) := by
  unfold registerBatchJob
  cases prepared : prepareBatchJob repositoryMax job config with
  | error error => exact ⟨rfl, rfl, nofun, fun _ => rfl⟩
  | ok entry =>
    obtain ⟨capability, registration⟩ := entry
    have requested : (Request.registerBatchJob job config).capabilities repositoryMax =
        [capability] := by
      rw [Request.capabilities, prepared]
    refine locked_meets repositoryMax (wp_step rfl fun running _ => ?_)
    cases running with
    | true => exact ⟨rfl, rfl, nofun, fun _ => rfl⟩
    | false =>
      refine wp_step rfl fun single _ => ?_
      cases single with
      | some handler => exact ⟨rfl, rfl, nofun, fun _ => rfl⟩
      | none =>
        refine wp_step rfl fun batch _ => ?_
        cases batch with
        | some registration => exact ⟨rfl, rfl, nofun, fun _ => rfl⟩
        | none =>
          refine wp_step ⟨rfl, rfl, List.mem_cons_self, List.mem_cons_self, nofun⟩
            fun _ _ => ?_
          refine ⟨rfl, rfl, fun _ => ⟨_, rfl, ?_⟩, fun failed => absurd rfl failed⟩
          rw [requested]
          exact List.Perm.refl _

theorem run_meets :
    (discipline repositoryMax).wp run (Ends repositoryMax) (fun _ => False)
      (Session.begun .run) := by
  refine wp_step ⟨rfl, rfl⟩ fun swapped _ => ?_
  cases swapped with
  | false => exact ⟨rfl, rfl, nofun, fun _ => rfl⟩
  | true =>
    rw [if_pos rfl, wp_onExit]
    refine wp_step ⟨rfl, rfl⟩ fun _ _ => ?_
    refine wp_step ⟨rfl, rfl⟩ fun single _ => ?_
    refine wp_step rfl fun _ _ => ?_
    refine wp_step ⟨rfl, rfl⟩ fun _ _ => ?_
    refine wp_step ⟨rfl, rfl⟩ fun batch _ => ?_
    refine wp_step rfl fun _ _ => ?_
    refine ⟨⟨rfl, rfl, rfl⟩, fun result _ => ⟨⟨rfl, rfl, rfl⟩, fun _ _ => ?_⟩⟩
    exact ⟨rfl, rfl, fun _ => ⟨_, rfl, List.Perm.refl _⟩, fun _ => rfl⟩

/-- Every goroutine keeps the discipline through all of its calls. -/
theorem client_meets {requests : List Request} (free : session.hold = .free)
    (stopped : session.running = false) :
    (discipline repositoryMax).wp (client repositoryMax requests) (fun _ _ => True)
      (fun _ => False) session := by
  induction requests generalizing session with
  | nil => trivial
  | cons request rest ih =>
    refine wp_step ⟨free, stopped⟩ fun _ _ => ?_
    rw [wp_bind]
    have meets : (discipline repositoryMax).wp (request.program repositoryMax)
        (Ends repositoryMax) (fun _ => False) (Session.begun request) := by
      cases request with
      | registerJobs jobs => exact registerJobs_meets repositoryMax jobs
      | registerBatchJob job config => exact registerBatchJob_meets repositoryMax job config
      | run => exact run_meets repositoryMax
    refine wp_mono meets ?_ fun _ => id
    intro result last ended
    exact wp_step ended fun _ _ => ih ended.1 ended.2.1

end Protocol

end OutboxFormal.Registration
