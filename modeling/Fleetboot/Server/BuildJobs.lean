import Fleetboot.Library.Transition
import Fleetboot.Profiles.Cascade
import Fleetboot.Registry.Schema

/-!
# The build manager

`BuildJobManager` of `build_jobs.py`: a request takes the lock and starts a thread, the thread runs
the jobs of a cascade and gives the lock back. Clients and threads interleave as they like, and a
build succeeds, fails or raises.

* `BuildStep`: what the requests and the threads do, one step at a time.
* `Worker.Sound`, `Orderly.step`: how far a thread is, and that one thing at a time is under way.
* `buildManager_safe`: one job at a time, in cascade order, and what becomes of every job.
* `wellFormedCascade_iff`: on which graphs the requested profile is built first.
-/

set_option autoImplicit false

namespace Fleetboot

open Transition

/-! ## Jobs -/

inductive JobState
  | queued | running | succeeded | failed | rejected | skipped
  deriving DecidableEq

structure BuildJob where
  jobId : String
  profile : String
  architecture : String
  state : JobState := .queued
  startedAt : Timestamp := 0
  finishedAt : Option Timestamp := none
  exitCode : Option Int := none
  autoReboot : Bool
  autoRebootArmed : Option Nat := none
  cascadeRoot : Option String
  recentLines : List String := []

namespace BuildJob

/-- `recent_lines.append`: the ring keeps the last lines. -/
def appendLine (line : String) (job : BuildJob) : BuildJob :=
  let lines := job.recentLines ++ [line]
  { job with recentLines := lines.drop (lines.length - 2000) }

def begin (now : Timestamp) (job : BuildJob) : BuildJob :=
  { job with state := .running, startedAt := now }

/-- `make` has returned. -/
def exited (code : Int) (job : BuildJob) : BuildJob :=
  { job with exitCode := some code }

/-- Something else of the build has raised. -/
def crashed (exc : String) (job : BuildJob) : BuildJob :=
  { job.appendLine ("build job crashed: " ++ exc) with exitCode := some (-1) }

/-- What the callback leaves on the job. -/
def swept (armed : Option Nat) (line : Option String) (job : BuildJob) : BuildJob :=
  let job := { job with autoRebootArmed := armed.or job.autoRebootArmed }
  line.elim job job.appendLine

def callbackFailed (exc : String) (job : BuildJob) : BuildJob :=
  job.appendLine ("on_success callback failed: " ++ exc)

def publish (now : Timestamp) (outcome : JobState) (job : BuildJob) : BuildJob :=
  { job with finishedAt := some now, state := outcome }

def skip (now : Timestamp) (root : String) (job : BuildJob) : BuildJob :=
  appendLine ("skipped: cascade root build '" ++ root ++ "' did not succeed")
    { job with state := .skipped, finishedAt := some now }

section Lines

variable (line : String) (job : BuildJob)

@[simp] theorem appendLine_state : (job.appendLine line).state = job.state := by
  simp only [appendLine]

@[simp] theorem appendLine_profile : (job.appendLine line).profile = job.profile := by
  simp only [appendLine]

@[simp] theorem crashed_state : (job.crashed line).state = job.state := by
  simp only [crashed, appendLine]

@[simp] theorem crashed_profile : (job.crashed line).profile = job.profile := by
  simp only [crashed, appendLine]

@[simp] theorem callbackFailed_state : (job.callbackFailed line).state = job.state := by
  simp only [callbackFailed, appendLine]

@[simp] theorem callbackFailed_profile : (job.callbackFailed line).profile = job.profile := by
  simp only [callbackFailed, appendLine]

@[simp] theorem skip_state (now : Timestamp) : (job.skip now line).state = .skipped := by
  simp only [skip, appendLine_state]

@[simp] theorem skip_profile (now : Timestamp) : (job.skip now line).profile = job.profile := by
  simp only [skip, appendLine_profile]

@[simp] theorem swept_state (armed : Option Nat) (line : Option String) :
    (job.swept armed line).state = job.state := by
  cases line <;> simp [swept]

@[simp] theorem swept_profile (armed : Option Nat) (line : Option String) :
    (job.swept armed line).profile = job.profile := by
  cases line <;> simp [swept]

end Lines

end BuildJob

/-! ## Requests and threads -/

/-- A call of `start`, or of `start_with_downstream`. -/
structure BuildCall where
  profile : String
  architecture : String
  autoReboot : Bool
  downstream : Bool

/-- A call that holds the lock: the profiles to build, once they are known, and the jobs made. -/
structure BuildRequest where
  call : BuildCall
  cascade : Option (List String)
  created : List Nat

/-- Where a thread is in `_execute` of a job, if it is in one. -/
inductive Phase
  | between
  | building (job : Nat)
  | aboutToCall (job : Nat)
  | calling (job : Nat)
  | publishing (job : Nat) (outcome : JobState)

/-- `_run_cascade`; `_run_single` is the same of a single job. -/
structure Worker where
  /-- The argument of the thread: the root and what is downstream of it. -/
  jobs : List Nat
  /-- Those that the loop has not come to. -/
  left : List Nat
  rootOk : Option Bool
  phase : Phase

/-- Jobs are known by their position in the order of their creation. -/
structure BuildManager where
  jobs : List BuildJob
  /-- `_running_lock`. -/
  locked : Bool
  requests : List BuildRequest
  workers : List Worker
  /-- The arguments of the threads that have ended. -/
  ended : List (List Nat)
  /-- The jobs that `on_success` was called with. -/
  called : List Nat

def newManager : BuildManager :=
  { jobs := [], locked := false, requests := [], workers := [], ended := [], called := [] }

/-- `_new_job` with the profiles of the cascade. -/
def newJob (jobId profile : String) (call : BuildCall) (names : List String) : BuildJob :=
  { jobId, profile
    architecture := call.architecture
    autoReboot := call.autoReboot
    cascadeRoot := if 1 < names.length then some call.profile else none }

/-- `_execute` after a build: the callback is called for a success, where there is one. -/
def afterBuild (onSuccess : Bool) (job : Nat) (outcome : JobState) : Phase :=
  if outcome = .succeeded ∧ onSuccess = true then .aboutToCall job else .publishing job outcome

def buildOutcome (code : Int) : JobState := if code = 0 then .succeeded else .failed

namespace BuildManager

def update (s : BuildManager) (job : Nat) (f : BuildJob → BuildJob) : BuildManager :=
  { s with jobs := s.jobs.modify job f }

def stateOf (s : BuildManager) (job : Nat) : Option JobState := s.jobs[job]?.map BuildJob.state

def profileOf (s : BuildManager) (job : Nat) : Option String := s.jobs[job]?.map BuildJob.profile

/-- The arguments of all threads. -/
def threads (s : BuildManager) : List (List Nat) := s.workers.map Worker.jobs ++ s.ended

end BuildManager

inductive BuildEvent
  | acquire (call : BuildCall)
  | refuse (call : BuildCall)
  | compute (call : BuildCall) (profilesRoot : Option (List ProfileDir))
  | create (jobId profile : String)
  | spawn (jobs : List Nat)
  | abandon (call : BuildCall)
  | begin (now : Timestamp) (job : Nat)
  | output (job : Nat) (line : String)
  | exit (job : Nat) (code : Int)
  | crash (job : Nat) (exc : String)
  | call (job : Nat)
  | callReturned (job : Nat) (armed : Option Nat) (line : Option String)
  | callFailed (job : Nat) (exc : String)
  | publish (now : Timestamp) (job : Nat) (outcome : JobState)
  | skip (now : Timestamp) (job : Nat)
  | release (jobs : List Nat)

/-- One step of a request or of a thread; `onSuccess` says whether the manager has a callback. -/
inductive BuildStep (onSuccess : Bool) (s : BuildManager) : BuildEvent → BuildManager → Prop
  | acquire {call : BuildCall} : s.locked = false →
      BuildStep onSuccess s (.acquire call)
        { s with
          locked := true
          requests := ⟨call, if call.downstream then none else some [call.profile], []⟩
            :: s.requests }
  | refuse {call : BuildCall} : s.locked = true → BuildStep onSuccess s (.refuse call) s
  | compute {call : BuildCall} {created : List Nat} {before after : List BuildRequest}
      (profilesRoot : Option (List ProfileDir)) :
      s.requests = before ++ ⟨call, none, created⟩ :: after →
      BuildStep onSuccess s (.compute call profilesRoot)
        { s with
          requests := before ++
            ⟨call, some (computeBuildCascade profilesRoot call.profile), created⟩ :: after }
  | create {call : BuildCall} {names : List String} {name : String} {created : List Nat}
      {before after : List BuildRequest} (jobId : String) :
      s.requests = before ++ ⟨call, some names, created⟩ :: after →
      names[created.length]? = some name →
      BuildStep onSuccess s (.create jobId name)
        { s with
          jobs := s.jobs ++ [newJob jobId name call names]
          requests := before ++ ⟨call, some names, created ++ [s.jobs.length]⟩ :: after }
  | spawn {call : BuildCall} {names : List String} {created : List Nat}
      {before after : List BuildRequest} :
      s.requests = before ++ ⟨call, some names, created⟩ :: after →
      created.length = names.length → created ≠ [] →
      BuildStep onSuccess s (.spawn created)
        { s with
          requests := before ++ after
          workers := ⟨created, created, none, .between⟩ :: s.workers }
  -- Whatever raises before the thread runs leaves the lock taken.
  | abandon {req : BuildRequest} {before after : List BuildRequest} :
      s.requests = before ++ req :: after →
      BuildStep onSuccess s (.abandon req.call) { s with requests := before ++ after }
  | begin {jobs left : List Nat} {rootOk : Option Bool} {job : Nat} {before after : List Worker}
      (now : Timestamp) :
      s.workers = before ++ ⟨jobs, job :: left, rootOk, .between⟩ :: after → rootOk ≠ some false →
      BuildStep onSuccess s (.begin now job)
        { s.update job (.begin now) with
          workers := before ++ ⟨jobs, left, rootOk, .building job⟩ :: after }
  | output {jobs left : List Nat} {rootOk : Option Bool} {job : Nat} {before after : List Worker}
      (line : String) :
      s.workers = before ++ ⟨jobs, left, rootOk, .building job⟩ :: after →
      BuildStep onSuccess s (.output job line) (s.update job (.appendLine line))
  | exit {jobs left : List Nat} {rootOk : Option Bool} {job : Nat} {before after : List Worker}
      (code : Int) :
      s.workers = before ++ ⟨jobs, left, rootOk, .building job⟩ :: after →
      BuildStep onSuccess s (.exit job code)
        { s.update job (.exited code) with
          workers := before ++
            ⟨jobs, left, rootOk, afterBuild onSuccess job (buildOutcome code)⟩ :: after }
  | crash {jobs left : List Nat} {rootOk : Option Bool} {job : Nat} {before after : List Worker}
      (exc : String) :
      s.workers = before ++ ⟨jobs, left, rootOk, .building job⟩ :: after →
      BuildStep onSuccess s (.crash job exc)
        { s.update job (.crashed exc) with
          workers := before ++ ⟨jobs, left, rootOk, .publishing job .failed⟩ :: after }
  | call {jobs left : List Nat} {rootOk : Option Bool} {job : Nat} {before after : List Worker} :
      s.workers = before ++ ⟨jobs, left, rootOk, .aboutToCall job⟩ :: after →
      BuildStep onSuccess s (.call job)
        { s with
          called := job :: s.called
          workers := before ++ ⟨jobs, left, rootOk, .calling job⟩ :: after }
  | callReturned {jobs left : List Nat} {rootOk : Option Bool} {job : Nat}
      {before after : List Worker} (armed : Option Nat) (line : Option String) :
      s.workers = before ++ ⟨jobs, left, rootOk, .calling job⟩ :: after →
      BuildStep onSuccess s (.callReturned job armed line)
        { s.update job (.swept armed line) with
          workers := before ++ ⟨jobs, left, rootOk, .publishing job .succeeded⟩ :: after }
  | callFailed {jobs left : List Nat} {rootOk : Option Bool} {job : Nat}
      {before after : List Worker} (exc : String) :
      s.workers = before ++ ⟨jobs, left, rootOk, .calling job⟩ :: after →
      BuildStep onSuccess s (.callFailed job exc)
        { s.update job (.callbackFailed exc) with
          workers := before ++ ⟨jobs, left, rootOk, .publishing job .succeeded⟩ :: after }
  -- `root_ok` is read from the root's state right after this was published.
  | publish {jobs left : List Nat} {rootOk : Option Bool} {job : Nat} {outcome : JobState}
      {before after : List Worker} (now : Timestamp) :
      s.workers = before ++ ⟨jobs, left, rootOk, .publishing job outcome⟩ :: after →
      BuildStep onSuccess s (.publish now job outcome)
        { s.update job (.publish now outcome) with
          workers := before ++
            ⟨jobs, left, some (rootOk.getD (outcome == .succeeded)), .between⟩ :: after }
  | skip {jobs left : List Nat} {job root : Nat} {rootProfile : String}
      {before after : List Worker} (now : Timestamp) :
      s.workers = before ++ ⟨jobs, job :: left, some false, .between⟩ :: after →
      jobs.head? = some root → s.profileOf root = some rootProfile →
      BuildStep onSuccess s (.skip now job)
        { s.update job (.skip now rootProfile) with
          workers := before ++ ⟨jobs, left, some false, .between⟩ :: after }
  | release {jobs : List Nat} {rootOk : Option Bool} {before after : List Worker} :
      s.workers = before ++ ⟨jobs, [], rootOk, .between⟩ :: after →
      BuildStep onSuccess s (.release jobs)
        { s with locked := false, workers := before ++ after, ended := jobs :: s.ended }

/-! ## States and profiles -/

namespace BuildManager

variable {s : BuildManager} {job : Nat} {f : BuildJob → BuildJob}

theorem stateOf_update (s : BuildManager) (job : Nat) (f : BuildJob → BuildJob) (k : Nat) :
    (s.update job f).stateOf k =
      if job = k then s.jobs[k]?.map fun b => (f b).state else s.stateOf k := by
  unfold stateOf update
  rw [List.getElem?_modify]
  split <;> cases s.jobs[k]? <;> rfl

/-- An update that is not about the state. -/
theorem stateOf_update_same (hf : ∀ b, (f b).state = b.state) :
    (s.update job f).stateOf = s.stateOf := by
  funext k
  rw [stateOf_update]
  split
  · simp only [hf]
    rfl
  · rfl

/-- An update that sets the state. -/
theorem stateOf_update_set {before after : JobState} (hf : ∀ b, (f b).state = after)
    (hjob : s.stateOf job = some before) :
    (s.update job f).stateOf = Function.update s.stateOf job (some after) := by
  funext k
  rw [stateOf_update]
  split
  · rename_i heq
    subst heq
    obtain ⟨b, hb, -⟩ := Option.map_eq_some_iff.mp hjob
    rw [Function.update_self, hb]
    simp [hf]
  · rename_i hne
    rw [Function.update_of_ne (Ne.symm hne)]

theorem profileOf_update (hf : ∀ b, (f b).profile = b.profile) :
    (s.update job f).profileOf = s.profileOf := by
  funext k
  unfold profileOf update
  rw [List.getElem?_modify]
  cases s.jobs[k]? with
  | none => rfl
  | some b =>
    simp only [Option.map_eq_map, Option.map_some]
    split <;> simp [hf]

/-- A new job is queued. -/
theorem stateOf_create (b : BuildJob) (hb : b.state = .queued) (requests : List BuildRequest) :
    BuildManager.stateOf { s with jobs := s.jobs ++ [b], requests } =
      Function.update s.stateOf s.jobs.length (some .queued) := by
  funext k
  unfold stateOf
  rcases Nat.lt_trichotomy k s.jobs.length with hlt | rfl | hgt
  · rw [Function.update_of_ne (Nat.ne_of_lt hlt)]
    simp [List.getElem?_append_left hlt]
  · simp [hb]
  · rw [Function.update_of_ne (Nat.ne_of_gt hgt)]
    have hnone : s.jobs[k]? = none := List.getElem?_eq_none (Nat.le_of_lt hgt)
    rw [hnone, List.getElem?_eq_none (by simp; omega)]

theorem stateOf_length : s.stateOf s.jobs.length = none := by
  simp [stateOf]

theorem profileOf_create {k : Nat} (hk : s.profileOf k ≠ none) (b : BuildJob)
    (requests : List BuildRequest) :
    BuildManager.profileOf { s with jobs := s.jobs ++ [b], requests } k = s.profileOf k := by
  have hlt : k < s.jobs.length := by
    by_contra hge
    exact hk (by simp [profileOf, List.getElem?_eq_none (Nat.le_of_not_lt hge)])
  simp [profileOf, List.getElem?_append_left hlt]

end BuildManager

/-! ## Cascades -/

def JobState.isEnded (state : JobState) : Bool :=
  state == .succeeded || state == .failed || state == .skipped

/-- The jobs of a cascade that a thread is done with: the root has been built, and downstream of it
every job has been built if that succeeded, and was skipped if not. -/
def CascadeEnded (st : Nat → Option JobState) : List Nat → Prop
  | [] => True
  | root :: downstream =>
    (st root = some .succeeded ∧
        ∀ j ∈ downstream, st j = some .succeeded ∨ st j = some .failed) ∨
      (st root = some .failed ∧ ∀ j ∈ downstream, st j = some .skipped)

section Cascades

variable {st st' : Nat → Option JobState} {jobs : List Nat} {job : Nat} {outcome : JobState}

theorem CascadeEnded.isEnded (h : CascadeEnded st jobs) (hjob : job ∈ jobs) :
    ∃ state, st job = some state ∧ state.isEnded = true := by
  cases jobs with
  | nil => cases hjob
  | cons root downstream =>
    rcases h with ⟨hroot, hrest⟩ | ⟨hroot, hrest⟩
    · rcases List.mem_cons.mp hjob with rfl | hmem
      · exact ⟨_, hroot, rfl⟩
      · rcases hrest job hmem with hstate | hstate <;> exact ⟨_, hstate, rfl⟩
    · rcases List.mem_cons.mp hjob with rfl | hmem
      · exact ⟨_, hroot, rfl⟩
      · exact ⟨_, hrest job hmem, rfl⟩

/-- Only the states of its jobs matter. -/
theorem CascadeEnded.congr (h : CascadeEnded st jobs) (hst : ∀ j ∈ jobs, st' j = st j) :
    CascadeEnded st' jobs := by
  cases jobs with
  | nil => trivial
  | cons root downstream =>
    have hroot := hst root (List.mem_cons_self ..)
    have hrest : ∀ j ∈ downstream, st' j = st j := fun j hj => hst j (List.mem_cons_of_mem _ hj)
    rcases h with ⟨hroot', hrest'⟩ | ⟨hroot', hrest'⟩
    · exact .inl ⟨hroot.trans hroot', fun j hj => by rw [hrest j hj]; exact hrest' j hj⟩
    · exact .inr ⟨hroot.trans hroot', fun j hj => (hrest j hj).trans (hrest' j hj)⟩

/-- Whether the root has succeeded. -/
def rootSucceeded (st : Nat → Option JobState) (jobs : List Nat) : Option Bool :=
  jobs.head?.map fun root => decide (st root = some .succeeded)

/-- A job is built unless the root has failed. -/
theorem CascadeEnded.built (h : CascadeEnded st jobs) (hroot : rootSucceeded st jobs ≠ some false)
    (hjob : st job = some .succeeded ∨ st job = some .failed) :
    CascadeEnded st (jobs ++ [job]) := by
  cases jobs with
  | nil =>
    rcases hjob with hjob | hjob
    · exact .inl ⟨hjob, by simp⟩
    · exact .inr ⟨hjob, by simp⟩
  | cons root downstream =>
    rcases h with ⟨hsucceeded, hrest⟩ | ⟨hfailed, -⟩
    · refine .inl ⟨hsucceeded, fun j hj => ?_⟩
      rcases List.mem_append.mp hj with hold | hnew
      · exact hrest j hold
      · rwa [List.mem_singleton.mp hnew]
    · simp [rootSucceeded, hfailed] at hroot

theorem CascadeEnded.skipped (h : CascadeEnded st jobs) (hroot : rootSucceeded st jobs = some false)
    (hjob : st job = some .skipped) : CascadeEnded st (jobs ++ [job]) := by
  cases jobs with
  | nil => cases hroot
  | cons root downstream =>
    rcases h with ⟨hsucceeded, -⟩ | ⟨hfailed, hrest⟩
    · simp [rootSucceeded, hsucceeded] at hroot
    · refine .inr ⟨hfailed, fun j hj => ?_⟩
      rcases List.mem_append.mp hj with hold | hnew
      · exact hrest j hold
      · rwa [List.mem_singleton.mp hnew]

theorem CascadeEnded.skipped_iff {root : Nat} {downstream : List Nat}
    (h : CascadeEnded st (root :: downstream)) (hjob : job ∈ downstream) :
    st job = some .skipped ↔ st root ≠ some .succeeded := by
  rcases h with ⟨hroot, hrest⟩ | ⟨hroot, hrest⟩
  · rcases hrest job hjob with hstate | hstate <;> simp [hroot, hstate]
  · simp [hroot, hrest job hjob]

theorem rootSucceeded_concat (st : Nat → Option JobState) (jobs : List Nat) (job : Nat) :
    rootSucceeded st (jobs ++ [job]) =
      some ((rootSucceeded st jobs).getD (decide (st job = some .succeeded))) := by
  cases jobs <;> rfl

end Cascades

/-! ## How far a thread is -/

def Phase.jobs : Phase → List Nat
  | .between => []
  | .building job | .aboutToCall job | .calling job | .publishing job _ => [job]

/-- Whether the job of the phase has been the callback's. -/
def Phase.calls (onSuccess : Bool) : Phase → Nat
  | .calling _ => 1
  | .publishing _ .succeeded => if onSuccess then 1 else 0
  | _ => 0

/-- The callback is called only where there is one, and a build ends well or not. -/
def Phase.Fits (onSuccess : Bool) : Phase → Prop
  | .aboutToCall _ | .calling _ => onSuccess = true
  | .publishing _ outcome => outcome = .succeeded ∨ outcome = .failed
  | _ => True

section AfterBuild

variable (onSuccess : Bool) (job : Nat)

theorem afterBuild_jobs (outcome : JobState) : (afterBuild onSuccess job outcome).jobs = [job] := by
  unfold afterBuild
  split <;> rfl

theorem afterBuild_calls (outcome : JobState) :
    (afterBuild onSuccess job outcome).calls onSuccess = 0 := by
  unfold afterBuild
  split
  · rfl
  · rename_i hnot
    cases outcome <;> simp_all [Phase.calls]

theorem afterBuild_fits (code : Int) :
    (afterBuild onSuccess job (buildOutcome code)).Fits onSuccess := by
  unfold afterBuild
  split
  · rename_i hcall
    exact hcall.2
  · unfold buildOutcome
    split
    · exact .inl rfl
    · exact .inr rfl

end AfterBuild

/-- The thread is done with the jobs `done`, has the job of its phase running, and the others wait
in the order of the cascade. -/
structure Worker.Sound (onSuccess : Bool) (st : Nat → Option JobState) (called : List Nat)
    (w : Worker) (done : List Nat) : Prop where
  split : w.jobs = done ++ (w.phase.jobs ++ w.left)
  nodup : w.jobs.Nodup
  ran : CascadeEnded st done
  current : ∀ j ∈ w.phase.jobs, st j = some .running ∧ called.count j = w.phase.calls onSuccess
  left : ∀ j ∈ w.left, st j = some .queued
  rootOk : w.rootOk = rootSucceeded st done
  runs : w.phase.jobs ≠ [] → w.rootOk ≠ some false
  fits : w.phase.Fits onSuccess

namespace Worker.Sound

variable {onSuccess : Bool} {st : Nat → Option JobState} {called : List Nat}
  {jobs left done : List Nat} {rootOk : Option Bool} {phase : Phase} {job : Nat}

/-- A step within `_execute`. -/
theorem setPhase (h : Worker.Sound onSuccess st called ⟨jobs, left, rootOk, phase⟩ done)
    {phase' : Phase} {called' : List Nat} (hjobs : phase'.jobs = phase.jobs)
    (hcalled : ∀ j ∈ phase.jobs, called'.count j = phase'.calls onSuccess)
    (hfits : phase'.Fits onSuccess) :
    Worker.Sound onSuccess st called' ⟨jobs, left, rootOk, phase'⟩ done :=
  { h with
    split := by
      change jobs = done ++ (phase'.jobs ++ left)
      rw [hjobs]
      exact h.split
    current := fun j hj => by
      change j ∈ phase'.jobs at hj
      rw [hjobs] at hj
      exact ⟨(h.current j hj).1, hcalled j hj⟩
    runs := fun hne => h.runs (by
      change phase'.jobs ≠ [] at hne
      rwa [hjobs] at hne)
    fits := hfits }

/-- The states of the jobs that the thread is done with stay. -/
theorem update_done (h : CascadeEnded st done) {before after : JobState}
    (hbefore : st job = some before) (hnot : before.isEnded = false) :
    ∀ j ∈ done, Function.update st job (some after) j = st j := by
  intro j hj
  obtain ⟨state, hstate, hended⟩ := h.isEnded hj
  refine Function.update_of_ne ?_ _ _
  rintro rfl
  obtain rfl := Option.some.inj (hstate.symm.trans hbefore)
  exact Bool.false_ne_true (hnot.symm.trans hended)

theorem rootSucceeded_congr {st' : Nat → Option JobState} (hst : ∀ j ∈ done, st' j = st j) :
    rootSucceeded st' done = rootSucceeded st done := by
  cases done with
  | nil => rfl
  | cons root downstream => simp [rootSucceeded, hst root (List.mem_cons_self ..)]

theorem begin (h : Worker.Sound onSuccess st called ⟨jobs, job :: left, rootOk, .between⟩ done)
    (hroot : rootOk ≠ some false) (hcalled : called.count job = 0) :
    Worker.Sound onSuccess (Function.update st job (some .running)) called
      ⟨jobs, left, rootOk, .building job⟩ done := by
  have hqueued := h.left job (List.mem_cons_self ..)
  have hdone := @update_done _ _ _ h.ran _ .running hqueued rfl
  have hnotleft : job ∉ left := by
    have hnodup := h.nodup
    rw [h.split] at hnodup
    exact (List.nodup_cons.mp (List.nodup_append.mp hnodup).2.1).1
  refine
    { split := h.split
      nodup := h.nodup
      ran := h.ran.congr hdone
      current := fun j hj => ?_
      left := fun j hj => ?_
      rootOk := h.rootOk.trans (rootSucceeded_congr hdone).symm
      runs := fun _ => hroot
      fits := trivial }
  · rw [List.mem_singleton.mp hj]
    exact ⟨Function.update_self .., hcalled⟩
  · refine (Function.update_of_ne ?_ _ _).trans (h.left j (List.mem_cons_of_mem _ hj))
    rintro rfl
    exact hnotleft hj

theorem publish {outcome : JobState}
    (h : Worker.Sound onSuccess st called ⟨jobs, left, rootOk, .publishing job outcome⟩ done) :
    Worker.Sound onSuccess (Function.update st job (some outcome)) called
      ⟨jobs, left, some (rootOk.getD (outcome == .succeeded)), .between⟩ (done ++ [job]) := by
  have hrunning := (h.current job (List.mem_cons_self ..)).1
  have hdone := @update_done _ _ _ h.ran _ outcome hrunning rfl
  have hroot : rootOk = rootSucceeded st done := h.rootOk
  have hbuilt : CascadeEnded (Function.update st job (some outcome)) (done ++ [job]) := by
    refine (h.ran.congr hdone).built ?_ ?_
    · rw [rootSucceeded_congr hdone, ← hroot]
      exact h.runs (by simp [Phase.jobs])
    · rw [Function.update_self]
      exact h.fits.imp (congrArg some) (congrArg some)
  refine
    { split := h.split.trans (by simp [Phase.jobs])
      nodup := h.nodup
      ran := hbuilt
      current := by simp [Phase.jobs]
      left := fun j hj => ?_
      rootOk := ?_
      runs := fun hne => absurd rfl hne
      fits := trivial }
  · refine (Function.update_of_ne ?_ _ _).trans (h.left j hj)
    rintro rfl
    cases hrunning.symm.trans (h.left j hj)
  · change some (rootOk.getD _) = rootSucceeded _ _
    rw [rootSucceeded_concat, rootSucceeded_congr hdone, hroot, Function.update_self]
    congr 2
    cases outcome <;> rfl

theorem skip
    (h : Worker.Sound onSuccess st called ⟨jobs, job :: left, some false, .between⟩ done) :
    Worker.Sound onSuccess (Function.update st job (some .skipped)) called
      ⟨jobs, left, some false, .between⟩ (done ++ [job]) := by
  have hqueued := h.left job (List.mem_cons_self ..)
  have hdone := @update_done _ _ _ h.ran _ .skipped hqueued rfl
  have hroot : some false = rootSucceeded st done := h.rootOk
  have hnotleft : job ∉ left := by
    have hnodup := h.nodup
    rw [h.split] at hnodup
    exact (List.nodup_cons.mp (List.nodup_append.mp hnodup).2.1).1
  refine
    { split := h.split.trans (by simp [Phase.jobs])
      nodup := h.nodup
      ran := (h.ran.congr hdone).skipped ?_ (Function.update_self ..)
      current := by simp [Phase.jobs]
      left := fun j hj => ?_
      rootOk := ?_
      runs := fun hne => absurd rfl hne
      fits := trivial }
  · rw [rootSucceeded_congr hdone, ← hroot]
  · refine (Function.update_of_ne ?_ _ _).trans (h.left j (List.mem_cons_of_mem _ hj))
    rintro rfl
    exact hnotleft hj
  · change some false = rootSucceeded _ _
    rw [rootSucceeded_concat, rootSucceeded_congr hdone, ← hroot]
    rfl

end Worker.Sound

/-! ## One thing at a time -/

/-- The lock is taken by whatever is under way, everything is where it should be, and every call of
the callback was for a success. -/
structure Orderly (onSuccess : Bool) (s : BuildManager) : Prop where
  holders : s.requests.length + s.workers.length ≤ if s.locked then 1 else 0
  requests : ∀ r ∈ s.requests, r.created.Nodup ∧ ∀ j ∈ r.created, s.stateOf j = some .queued
  workers : ∀ w ∈ s.workers, w.jobs ≠ [] ∧ ∃ done, w.Sound onSuccess s.stateOf s.called done
  ended : ∀ jobs ∈ s.ended, jobs ≠ [] ∧ CascadeEnded s.stateOf jobs
  running : ∀ j, s.stateOf j = some .running → ∃ w ∈ s.workers, j ∈ w.phase.jobs
  called : ∀ j, s.stateOf j ≠ some .running → s.called.count j =
    if s.stateOf j = some .succeeded ∧ onSuccess = true then 1 else 0

namespace Orderly

variable {onSuccess : Bool} {s : BuildManager}

theorem initial : Orderly onSuccess newManager :=
  { holders := Nat.le_refl _
    requests := by simp [newManager]
    workers := by simp [newManager]
    ended := by simp [newManager]
    running := fun j hj => by simp [newManager, BuildManager.stateOf] at hj
    called := fun j _ => by simp [newManager, BuildManager.stateOf] }

/-- Whatever has the lock is alone. -/
theorem alone_request (h : Orderly onSuccess s) {r : BuildRequest}
    {before after : List BuildRequest}
    (hr : s.requests = before ++ r :: after) :
    before = [] ∧ after = [] ∧ s.requests = [r] ∧ s.workers = [] ∧ s.locked = true := by
  have hle := h.holders
  rw [hr] at hle
  simp only [List.length_append, List.length_cons] at hle
  split at hle
  · rename_i hlocked
    have hbefore : before = [] := List.length_eq_zero_iff.mp (by omega)
    have hafter : after = [] := List.length_eq_zero_iff.mp (by omega)
    have hworkers : s.workers = [] := List.length_eq_zero_iff.mp (by omega)
    subst hbefore hafter
    exact ⟨rfl, rfl, hr, hworkers, hlocked⟩
  · omega

theorem alone_worker (h : Orderly onSuccess s) {w : Worker} {before after : List Worker}
    (hw : s.workers = before ++ w :: after) :
    before = [] ∧ after = [] ∧ s.workers = [w] ∧ s.requests = [] ∧ s.locked = true := by
  have hle := h.holders
  rw [hw] at hle
  simp only [List.length_append, List.length_cons] at hle
  split at hle
  · rename_i hlocked
    have hbefore : before = [] := List.length_eq_zero_iff.mp (by omega)
    have hafter : after = [] := List.length_eq_zero_iff.mp (by omega)
    have hrequests : s.requests = [] := List.length_eq_zero_iff.mp (by omega)
    subst hbefore hafter
    exact ⟨rfl, rfl, hw, hrequests, hlocked⟩
  · omega

/-- A step of the only thread, which changes at most the state of a job that has not ended. -/
theorem rework (h : Orderly onSuccess s) {w w' : Worker} (hw : s.workers = [w])
    (hrequests : s.requests = []) (hlocked : s.locked = true) (hjobs : w'.jobs = w.jobs)
    {s' : BuildManager} {j : Nat} (hs' : s'.locked = s.locked ∧ s'.requests = s.requests ∧
      s'.workers = [w'] ∧ s'.ended = s.ended)
    (hst : ∀ k, k ≠ j → s'.stateOf k = s.stateOf k ∧ s'.called.count k = s.called.count k)
    (hopen : ∀ state, s.stateOf j = some state → state.isEnded = false)
    (hsound : ∃ done, w'.Sound onSuccess s'.stateOf s'.called done)
    (hrunning : ∀ k, s'.stateOf k = some .running → k ∈ w'.phase.jobs)
    (hcalled : s'.stateOf j ≠ some .running → s'.called.count j =
      if s'.stateOf j = some .succeeded ∧ onSuccess = true then 1 else 0) :
    Orderly onSuccess s' := by
  obtain ⟨hlocked', hrequests', hworkers', hended'⟩ := hs'
  refine
    { holders := by simp [hlocked', hlocked, hrequests', hrequests, hworkers']
      requests := by simp [hrequests', hrequests]
      workers := fun w'' hmem => ?_
      ended := fun jobs hmem => ?_
      running := fun k hk => ⟨w', by simp [hworkers'], hrunning k hk⟩
      called := fun k hk => ?_ }
  · rw [hworkers', List.mem_singleton] at hmem
    subst hmem
    exact ⟨hjobs ▸ (h.workers w (by simp [hw])).1, hsound⟩
  · rw [hended'] at hmem
    obtain ⟨hne, hcascade⟩ := h.ended jobs hmem
    refine ⟨hne, hcascade.congr fun k hk => (hst k ?_).1⟩
    rintro rfl
    obtain ⟨state, hstate, hend⟩ := hcascade.isEnded hk
    exact Bool.false_ne_true ((hopen state hstate).symm.trans hend)
  · by_cases hkj : k = j
    · subst hkj
      exact hcalled hk
    · obtain ⟨hstate, hcount⟩ := hst k hkj
      rw [hstate] at hk ⊢
      rw [hcount]
      exact h.called k hk

/-- A step within `_execute`: no state changes. -/
theorem reworkPhase (h : Orderly onSuccess s) {jobs left : List Nat} {rootOk : Option Bool}
    {phase phase' : Phase} {j : Nat} {before after : List Worker}
    (hw : s.workers = before ++ ⟨jobs, left, rootOk, phase⟩ :: after) (hphase : phase.jobs = [j])
    (hphase' : phase'.jobs = [j]) {s' : BuildManager}
    (hs' : s'.locked = s.locked ∧ s'.requests = s.requests ∧
      s'.workers = before ++ ⟨jobs, left, rootOk, phase'⟩ :: after ∧ s'.ended = s.ended)
    (hst : s'.stateOf = s.stateOf)
    (hcount : ∀ k, k ≠ j → s'.called.count k = s.called.count k)
    (hcalls : s.called.count j = phase.calls onSuccess →
      s'.called.count j = phase'.calls onSuccess)
    (hfits : phase.Fits onSuccess → phase'.Fits onSuccess) : Orderly onSuccess s' := by
  obtain ⟨rfl, rfl, hworkers, hrequests, hlocked⟩ := h.alone_worker hw
  obtain ⟨-, done, hsound⟩ := h.workers ⟨jobs, left, rootOk, phase⟩ (by simp [hworkers])
  have hj := hsound.current j (by simp [hphase])
  have hjobs : (⟨jobs, left, rootOk, phase'⟩ : Worker).jobs = jobs := rfl
  refine h.rework hworkers hrequests hlocked hjobs hs'
    (fun k hk => ⟨by rw [hst], hcount k hk⟩) ?_ ⟨done, ?_⟩ ?_ ?_
  · intro state hstate
    rw [← Option.some.inj (hj.1.symm.trans hstate)]
    rfl
  · rw [hst]
    refine hsound.setPhase (hphase'.trans hphase.symm) (fun k hk => ?_) (hfits hsound.fits)
    rw [hphase, List.mem_singleton] at hk
    rw [hk]
    exact hcalls hj.2
  · intro k hk
    rw [hst] at hk
    obtain ⟨w, hmem, hin⟩ := h.running k hk
    rw [hworkers, List.mem_singleton] at hmem
    subst hmem
    change k ∈ phase'.jobs
    rwa [hphase', ← hphase]
  · intro hnot
    rw [hst] at hnot
    exact absurd hj.1 hnot

/-- A step of the only request. -/
theorem rerequest (h : Orderly onSuccess s) {requests : List BuildRequest}
    (hrequests : requests.length ≤ s.requests.length)
    (hjobs : ∀ r ∈ requests, r.created.Nodup ∧ ∀ j ∈ r.created, s.stateOf j = some .queued) :
    Orderly onSuccess { s with requests } :=
  { h with
    holders := (Nat.add_le_add_right hrequests _).trans h.holders
    requests := hjobs }

theorem acquire (h : Orderly onSuccess s) (hfree : s.locked = false) (r : BuildRequest)
    (hr : r.created = []) :
    Orderly onSuccess { s with locked := true, requests := r :: s.requests } := by
  have hle := h.holders
  rw [hfree] at hle
  refine { h with holders := ?_, requests := fun r' hmem => ?_ }
  · simp at hle
    simp [hle.1, hle.2]
  · rcases List.mem_cons.mp hmem with rfl | hold
    · simp [hr]
    · exact h.requests r' hold

theorem create (h : Orderly onSuccess s) {call : BuildCall} {names created : List _}
    {before after : List BuildRequest} (b : BuildJob) (hb : b.state = .queued)
    (hr : s.requests = before ++ ⟨call, some names, created⟩ :: after) :
    Orderly onSuccess
      { s with
        jobs := s.jobs ++ [b]
        requests := before ++ ⟨call, some names, created ++ [s.jobs.length]⟩ :: after } := by
  obtain ⟨rfl, rfl, hrequests, hworkers, hlocked⟩ := h.alone_request hr
  obtain ⟨hnodup, hqueued⟩ := h.requests _ (List.mem_of_mem_head? (by rw [hrequests]; rfl))
  have hnew : s.stateOf s.jobs.length = none := BuildManager.stateOf_length
  have hkept : ∀ {j state}, s.stateOf j = some state →
      Function.update s.stateOf s.jobs.length (some .queued) j = some state := by
    intro j state hj
    refine (Function.update_of_ne ?_ _ _).trans hj
    rintro rfl
    cases hnew.symm.trans hj
  refine
    { holders := by simp [hworkers, hlocked]
      requests := fun r hmem => ?_
      workers := by simp [hworkers]
      ended := fun jobs hmem => ?_
      running := fun j hj => ?_
      called := fun j hj => ?_ }
  all_goals
    rw [BuildManager.stateOf_create b hb] at *
  · obtain rfl := List.mem_singleton.mp hmem
    refine ⟨?_, fun j hj => ?_⟩
    · refine List.nodup_append.mpr ⟨hnodup, List.nodup_singleton _, fun j hj k hk heq => ?_⟩
      rw [List.mem_singleton.mp hk] at heq
      subst heq
      cases hnew.symm.trans (hqueued _ hj)
    · rcases List.mem_append.mp hj with hold | hlast
      · exact hkept (hqueued j hold)
      · rw [List.mem_singleton.mp hlast]
        exact Function.update_self ..
  · obtain ⟨hne, hcascade⟩ := h.ended jobs hmem
    refine ⟨hne, hcascade.congr fun j hj => ?_⟩
    obtain ⟨state, hstate, -⟩ := hcascade.isEnded hj
    rw [hstate]
    exact hkept hstate
  · by_cases hlast : j = s.jobs.length
    · rw [hlast, Function.update_self] at hj
      cases hj
    · rw [Function.update_of_ne hlast] at hj
      exact h.running j hj
  · by_cases hlast : j = s.jobs.length
    · have hcount := h.called j (by rw [hlast, hnew]; simp)
      rw [hlast, hnew] at hcount
      rw [hlast, Function.update_self]
      simpa using hcount
    · rw [Function.update_of_ne hlast] at hj ⊢
      exact h.called j hj

/-- The thread takes the lock over. -/
theorem spawn (h : Orderly onSuccess s) {call : BuildCall} {names created : List _}
    {before after : List BuildRequest}
    (hr : s.requests = before ++ ⟨call, some names, created⟩ :: after)
    (hne : created ≠ []) :
    Orderly onSuccess
      { s with
        requests := before ++ after
        workers := ⟨created, created, none, .between⟩ :: s.workers } := by
  obtain ⟨rfl, rfl, hrequests, hworkers, hlocked⟩ := h.alone_request hr
  obtain ⟨hnodup, hqueued⟩ := h.requests _ (List.mem_of_mem_head? (by rw [hrequests]; rfl))
  refine
    { h with
      holders := by simp [hworkers, hlocked]
      requests := by simp
      workers := fun w hmem => ?_
      running := fun j hj => ?_ }
  · rw [hworkers] at hmem
    obtain rfl := List.mem_singleton.mp hmem
    refine ⟨hne, [], ?_⟩
    exact
      { split := rfl
        nodup := hnodup
        ran := trivial
        current := by simp [Phase.jobs]
        left := hqueued
        rootOk := rfl
        runs := fun hnone => absurd rfl hnone
        fits := trivial }
  · obtain ⟨w, hmem, hin⟩ := h.running j hj
    exact ⟨w, List.mem_cons_of_mem _ hmem, hin⟩

section Loop

variable {jobs left : List Nat} {rootOk : Option Bool} {job : Nat} {before after : List Worker}

/-- Nothing runs while a thread is between two jobs. -/
theorem not_running (h : Orderly onSuccess s) {w : Worker} (hworkers : s.workers = [w])
    (hbetween : w.phase = .between) (j : Nat) : s.stateOf j ≠ some .running := by
  intro hj
  obtain ⟨w', hmem, hin⟩ := h.running j hj
  rw [hworkers, List.mem_singleton] at hmem
  subst hmem
  rw [hbetween] at hin
  cases hin

theorem begin (h : Orderly onSuccess s) (now : Timestamp)
    (hw : s.workers = before ++ ⟨jobs, job :: left, rootOk, .between⟩ :: after)
    (hroot : rootOk ≠ some false) :
    Orderly onSuccess
      { s.update job (.begin now) with
        workers := before ++ ⟨jobs, left, rootOk, .building job⟩ :: after } := by
  obtain ⟨rfl, rfl, hworkers, hrequests, hlocked⟩ := h.alone_worker hw
  obtain ⟨-, done, hsound⟩ := h.workers _ (List.mem_of_mem_head? (by rw [hworkers]; rfl))
  have hqueued := hsound.left job (List.mem_cons_self ..)
  have hst := @BuildManager.stateOf_update_set s job (.begin now) _ _ (fun _ => rfl) hqueued
  have hcount : s.called.count job = 0 := by
    rw [h.called job (by rw [hqueued]; simp), hqueued]
    simp
  have hjobs : (⟨jobs, left, rootOk, .building job⟩ : Worker).jobs = jobs := rfl
  refine h.rework (j := job) hworkers hrequests hlocked hjobs ⟨rfl, rfl, rfl, rfl⟩
    (fun k hk => ⟨?_, rfl⟩) ?_ ⟨done, ?_⟩ ?_ ?_
  · exact (congrFun hst k).trans (Function.update_of_ne hk _ _)
  · intro state hstate
    rw [← Option.some.inj (hqueued.symm.trans hstate)]
    rfl
  · have hbegun := hsound.begin hroot hcount
    rwa [← hst] at hbegun
  · intro k hk
    by_cases hkj : k = job
    · simp [hkj, Phase.jobs]
    · have hk' := (congrFun hst k).symm.trans hk
      rw [Function.update_of_ne hkj] at hk'
      exact absurd hk' (h.not_running hworkers rfl k)
  · intro hnot
    exact absurd ((congrFun hst job).trans (Function.update_self ..)) hnot

/-- A thread is done with a job. -/
theorem finish (h : Orderly onSuccess s) {w w' : Worker} {state outcome : JobState}
    {f : BuildJob → BuildJob} (hw : s.workers = before ++ w :: after)
    (hf : ∀ b, (f b).state = outcome) (hjob : s.stateOf job = some state)
    (hopen : state.isEnded = false) (houtcome : outcome ≠ .running) (hjobs : w'.jobs = w.jobs)
    (hphase : ∀ j ∈ w.phase.jobs, j = job)
    (hsound : ∀ done, w.Sound onSuccess s.stateOf s.called done →
      w'.Sound onSuccess (Function.update s.stateOf job (some outcome)) s.called (done ++ [job]))
    (hcalled : ∀ done, w.Sound onSuccess s.stateOf s.called done → s.called.count job =
      if outcome = .succeeded ∧ onSuccess = true then 1 else 0) :
    Orderly onSuccess { s.update job f with workers := before ++ w' :: after } := by
  obtain ⟨rfl, rfl, hworkers, hrequests, hlocked⟩ := h.alone_worker hw
  obtain ⟨-, done, hdone⟩ := h.workers w (by simp [hworkers])
  have hst := BuildManager.stateOf_update_set hf hjob
  refine h.rework (j := job) hworkers hrequests hlocked hjobs ⟨rfl, rfl, rfl, rfl⟩
    (fun k hk => ⟨?_, rfl⟩) ?_ ⟨done ++ [job], ?_⟩ ?_ ?_
  · exact (congrFun hst k).trans (Function.update_of_ne hk _ _)
  · intro state' hstate
    rwa [← Option.some.inj (hjob.symm.trans hstate)]
  · have hfinished := hsound done hdone
    rwa [← hst] at hfinished
  · intro k hk
    have hk' := (congrFun hst k).symm.trans hk
    by_cases hkj : k = job
    · rw [hkj, Function.update_self] at hk'
      exact absurd (Option.some.inj hk') houtcome
    · rw [Function.update_of_ne hkj] at hk'
      obtain ⟨w'', hmem, hin⟩ := h.running k hk'
      rw [hworkers, List.mem_singleton] at hmem
      subst hmem
      exact absurd (hphase k hin) hkj
  · intro _
    have hself : BuildManager.stateOf { s.update job f with workers := [] ++ [w'] } job =
        some outcome := (congrFun hst job).trans (Function.update_self ..)
    simp only [hself, Option.some.injEq]
    exact hcalled done hdone

theorem publish (h : Orderly onSuccess s) {outcome : JobState} (now : Timestamp)
    (hw : s.workers = before ++ ⟨jobs, left, rootOk, .publishing job outcome⟩ :: after) :
    Orderly onSuccess
      { s.update job (.publish now outcome) with
        workers := before ++
          ⟨jobs, left, some (rootOk.getD (outcome == .succeeded)), .between⟩ :: after } := by
  obtain ⟨-, done, hsound⟩ := h.workers _ (mem_taken hw)
  obtain ⟨hrunning, -⟩ := hsound.current job (List.mem_cons_self ..)
  refine h.finish hw (fun _ => rfl) hrunning rfl ?_ rfl (fun j hj => List.mem_singleton.mp hj)
    (fun done hdone => hdone.publish) fun done hdone => ?_
  · rintro rfl
    rcases hsound.fits with hfits | hfits <;> cases hfits
  · rw [(hdone.current job (List.mem_cons_self ..)).2]
    rcases hdone.fits with hfits | hfits
    all_goals
      change outcome = _ at hfits
      simp [hfits, Phase.calls]

theorem skip (h : Orderly onSuccess s) (now : Timestamp) (root : String)
    (hw : s.workers = before ++ ⟨jobs, job :: left, some false, .between⟩ :: after) :
    Orderly onSuccess
      { s.update job (.skip now root) with
        workers := before ++ ⟨jobs, left, some false, .between⟩ :: after } := by
  obtain ⟨-, done, hsound⟩ := h.workers _ (mem_taken hw)
  have hqueued := hsound.left job (List.mem_cons_self ..)
  refine h.finish hw (fun b => b.skip_state root now) hqueued rfl (by simp) rfl
    (by simp [Phase.jobs])
    (fun done hdone => hdone.skip) fun done _ => ?_
  rw [h.called job (by rw [hqueued]; simp), hqueued]
  simp

theorem release (h : Orderly onSuccess s)
    (hw : s.workers = before ++ ⟨jobs, [], rootOk, .between⟩ :: after) :
    Orderly onSuccess
      { s with locked := false, workers := before ++ after, ended := jobs :: s.ended } := by
  obtain ⟨rfl, rfl, hworkers, hrequests, hlocked⟩ := h.alone_worker hw
  obtain ⟨hne, done, hsound⟩ := h.workers _ (List.mem_of_mem_head? (by rw [hworkers]; rfl))
  refine
    { h with
      holders := by simp [hrequests]
      workers := by simp
      ended := fun jobs' hmem => ?_
      running := fun j hj => absurd hj (h.not_running hworkers rfl j) }
  rcases List.mem_cons.mp hmem with rfl | hold
  · have hsplit : jobs' = done := hsound.split.trans (by simp [Phase.jobs])
    exact ⟨hne, hsplit ▸ hsound.ran⟩
  · exact h.ended jobs' hold

end Loop

/-- **Every step keeps order.** -/
theorem step (h : Orderly onSuccess s) {event : BuildEvent} {s' : BuildManager}
    (hstep : BuildStep onSuccess s event s') : Orderly onSuccess s' := by
  cases hstep with
  | acquire hfree => exact h.acquire hfree _ rfl
  | refuse _ => exact h
  | compute profilesRoot hr =>
    refine h.rerequest (by simp [hr]) fun r hmem => ?_
    have hold := h.requests
    rw [hr] at hold
    simp only [List.mem_append, List.mem_cons] at hmem hold
    rcases hmem with hbefore | rfl | hafter
    · exact hold r (.inl hbefore)
    · exact hold ⟨_, none, _⟩ (.inr (.inl rfl))
    · exact hold r (.inr (.inr hafter))
  | create jobId hr _ => exact h.create _ rfl hr
  | spawn hr _ hne => exact h.spawn hr hne
  | abandon hr =>
    exact h.rerequest (by simp [hr]) fun r hmem => h.requests r (mem_of_mem_rest hr hmem)
  | begin now hw hroot => exact h.begin now hw hroot
  | output line hw =>
    exact h.reworkPhase hw rfl rfl ⟨rfl, rfl, hw, rfl⟩
      (BuildManager.stateOf_update_same (BuildJob.appendLine_state line)) (fun _ _ => rfl) id id
  | exit code hw =>
    refine h.reworkPhase hw rfl ?_ ⟨rfl, rfl, rfl, rfl⟩
      (BuildManager.stateOf_update_same fun _ => rfl) (fun _ _ => rfl) ?_ ?_
    · exact afterBuild_jobs _ _ _
    · exact fun hcount => hcount.trans (afterBuild_calls _ _ _).symm
    · exact fun _ => afterBuild_fits onSuccess _ code
  | crash exc hw =>
    exact h.reworkPhase hw rfl rfl ⟨rfl, rfl, rfl, rfl⟩
      (BuildManager.stateOf_update_same (BuildJob.crashed_state exc)) (fun _ _ => rfl) id
      fun _ => .inr rfl
  | call hw =>
    refine h.reworkPhase hw rfl rfl ⟨rfl, rfl, rfl, rfl⟩ rfl (fun k hk => ?_) (fun hcount => ?_) id
    · exact List.count_cons_of_ne (Ne.symm hk)
    · rw [List.count_cons_self, hcount]
      rfl
  | callReturned armed line hw =>
    have hon : onSuccess = true := by
      obtain ⟨-, done, hsound⟩ := h.workers _ (mem_taken hw)
      exact hsound.fits
    refine h.reworkPhase hw rfl rfl ⟨rfl, rfl, rfl, rfl⟩
      (BuildManager.stateOf_update_same fun b => b.swept_state armed line) (fun _ _ => rfl)
      (fun hcount => hcount.trans ?_) fun _ => .inl rfl
    rw [hon]
    rfl
  | callFailed exc hw =>
    have hon : onSuccess = true := by
      obtain ⟨-, done, hsound⟩ := h.workers _ (mem_taken hw)
      exact hsound.fits
    refine h.reworkPhase hw rfl rfl ⟨rfl, rfl, rfl, rfl⟩
      (BuildManager.stateOf_update_same (BuildJob.callbackFailed_state exc)) (fun _ _ => rfl)
      (fun hcount => hcount.trans ?_) fun _ => .inl rfl
    rw [hon]
    rfl
  | publish now hw => exact h.publish now hw
  | skip now hw _ _ => exact h.skip now _ hw
  | release hw => exact h.release hw

end Orderly

/-! ## What a step does to a job -/

/-- The moves of a job, from before it is made. -/
inductive Moves : Option JobState → Option JobState → Prop
  | create : Moves none (some .queued)
  | begin : Moves (some .queued) (some .running)
  | succeed : Moves (some .running) (some .succeeded)
  | fail : Moves (some .running) (some .failed)
  | skip : Moves (some .queued) (some .skipped)

theorem moves_update {st : Nat → Option JobState} {job : Nat} {state : Option JobState}
    (hmoves : Moves (st job) state) (j : Nat) :
    Function.update st job state j = st j ∨ Moves (st j) (Function.update st job state j) := by
  by_cases hj : j = job
  · subst hj
    exact .inr (by rwa [Function.update_self])
  · exact .inl (Function.update_of_ne hj _ _)

theorem Orderly.moves {onSuccess : Bool} {s s' : BuildManager} {event : BuildEvent}
    (h : Orderly onSuccess s) (hstep : BuildStep onSuccess s event s') (j : Nat) :
    s'.stateOf j = s.stateOf j ∨ Moves (s.stateOf j) (s'.stateOf j) := by
  have hset : ∀ {job : Nat} {before after : JobState} {f : BuildJob → BuildJob},
      (∀ b, (f b).state = after) → s.stateOf job = some before → Moves (some before) (some after) →
      (s.update job f).stateOf j = s.stateOf j ∨
        Moves (s.stateOf j) ((s.update job f).stateOf j) := by
    intro job before after f hf hjob hmoves
    rw [BuildManager.stateOf_update_set hf hjob]
    exact moves_update (by rwa [hjob]) j
  have hsame : ∀ {job : Nat} {f : BuildJob → BuildJob}, (∀ b, (f b).state = b.state) →
      (s.update job f).stateOf j = s.stateOf j :=
    fun hf => congrFun (BuildManager.stateOf_update_same hf) j
  cases hstep with
  | create jobId _ _ =>
    rw [BuildManager.stateOf_create _ rfl]
    refine moves_update ?_ j
    rw [BuildManager.stateOf_length]
    exact .create
  | begin now hw _ =>
    obtain ⟨-, done, hsound⟩ := h.workers _ (mem_taken hw)
    exact hset (fun _ => rfl) (hsound.left _ (List.mem_cons_self ..)) .begin
  | publish now hw =>
    obtain ⟨-, done, hsound⟩ := h.workers _ (mem_taken hw)
    have hrunning := (hsound.current _ (List.mem_cons_self ..)).1
    rcases hsound.fits with hfits | hfits
    all_goals change _ = _ at hfits
    · exact hset (fun _ => hfits) hrunning .succeed
    · exact hset (fun _ => hfits) hrunning .fail
  | skip now hw _ _ =>
    obtain ⟨-, done, hsound⟩ := h.workers _ (mem_taken hw)
    exact hset (fun b => b.skip_state _ now) (hsound.left _ (List.mem_cons_self ..)) .skip
  | output line _ => exact .inl (hsame (BuildJob.appendLine_state line))
  | exit _ _ => exact .inl (hsame fun _ => rfl)
  | crash exc _ => exact .inl (hsame (BuildJob.crashed_state exc))
  | callReturned armed line _ => exact .inl (hsame fun b => b.swept_state armed line)
  | callFailed exc _ => exact .inl (hsame (BuildJob.callbackFailed_state exc))
  | acquire | refuse | compute | spawn | abandon | call | release => exact .inl rfl

/-! ## Which profiles are built -/

/-- A call took the lock and asked for these profiles. -/
def Asked (events : List BuildEvent) (call : BuildCall) (names : List String) : Prop :=
  .acquire call ∈ events ∧
    ((call.downstream = false ∧ names = [call.profile]) ∨
      (call.downstream = true ∧ ∃ profilesRoot, .compute call profilesRoot ∈ events ∧
        names = computeBuildCascade profilesRoot call.profile))

/-- The jobs of a request and of a thread are for the profiles of the call, in their order. -/
structure Listed (s : BuildManager) (events : List BuildEvent) : Prop where
  requests : ∀ r ∈ s.requests, .acquire r.call ∈ events ∧
    (r.cascade = none → r.call.downstream = true ∧ r.created = []) ∧
    ∀ names, r.cascade = some names → Asked events r.call names ∧
      r.created.map s.profileOf = (names.take r.created.length).map some
  threads : ∀ jobs ∈ s.threads, ∃ call names, Asked events call names ∧
    jobs.map s.profileOf = names.map some

section Listed

variable {s s' : BuildManager} {events : List BuildEvent} {event : BuildEvent}

theorem Asked.snoc {call : BuildCall} {names : List String} (h : Asked events call names)
    (event : BuildEvent) : Asked (events ++ [event]) call names := by
  obtain ⟨hacquire, hnames⟩ := h
  refine ⟨List.mem_append_left _ hacquire, hnames.imp id ?_⟩
  rintro ⟨hdownstream, profilesRoot, hcompute, heq⟩
  exact ⟨hdownstream, profilesRoot, List.mem_append_left _ hcompute, heq⟩

theorem profiles_kept {jobs : List Nat} {names : List String}
    (h : jobs.map s.profileOf = names.map some)
    (hprofiles : ∀ k, s.profileOf k ≠ none → s'.profileOf k = s.profileOf k) :
    jobs.map s'.profileOf = names.map some := by
  rw [← h]
  refine List.map_congr_left fun k hk => hprofiles k fun hnone => ?_
  have hmem := List.mem_map_of_mem (f := s.profileOf) hk
  rw [h, hnone] at hmem
  simp at hmem

/-- What happened, and more profiles, change nothing. -/
theorem Listed.of_kept (h : Listed s events) (hrequests : ∀ r ∈ s'.requests, r ∈ s.requests)
    (hthreads : ∀ jobs ∈ s'.threads, jobs ∈ s.threads)
    (hprofiles : ∀ k, s.profileOf k ≠ none → s'.profileOf k = s.profileOf k) :
    Listed s' (events ++ [event]) := by
  refine ⟨fun r hr => ?_, fun jobs hjobs => ?_⟩
  · obtain ⟨hacquire, hnone, hsome⟩ := h.requests r (hrequests r hr)
    refine ⟨List.mem_append_left _ hacquire, hnone, fun names hnames => ?_⟩
    obtain ⟨hasked, hcreated⟩ := hsome names hnames
    exact ⟨hasked.snoc event, profiles_kept hcreated hprofiles⟩
  · obtain ⟨call, names, hasked, hjobs⟩ := h.threads jobs (hthreads jobs hjobs)
    exact ⟨call, names, hasked.snoc event, profiles_kept hjobs hprofiles⟩

/-- A thread changes a job, but not its profile. -/
theorem Listed.work (h : Listed s events) {jobs left left' : List Nat}
    {rootOk rootOk' : Option Bool}
    {phase phase' : Phase} {before after : List Worker}
    (hw : s.workers = before ++ ⟨jobs, left, rootOk, phase⟩ :: after)
    (hw' : s'.workers = before ++ ⟨jobs, left', rootOk', phase'⟩ :: after)
    (hrequests : s'.requests = s.requests) (hended : s'.ended = s.ended)
    (hprofiles : s'.profileOf = s.profileOf) : Listed s' (events ++ [event]) := by
  refine h.of_kept (fun r hr => hrequests ▸ hr) (fun jobs hmem => ?_)
    fun k _ => congrFun hprofiles k
  unfold BuildManager.threads at hmem ⊢
  rw [hw', hended] at hmem
  rw [hw]
  simpa using hmem

theorem Listed.step {onSuccess : Bool} (h : Listed s events)
    (hstep : BuildStep onSuccess s event s') : Listed s' (events ++ [event]) := by
  have hsame : ∀ {job : Nat} {f : BuildJob → BuildJob}, (∀ b, (f b).profile = b.profile) →
      (s.update job f).profileOf = s.profileOf := fun hf => BuildManager.profileOf_update hf
  cases hstep with
  | @acquire call _ =>
    have hkept : Listed s (events ++ [.acquire call]) :=
      h.of_kept (fun _ hr => hr) (fun _ hjobs => hjobs) fun _ _ => rfl
    refine { hkept with requests := fun r hr => ?_ }
    rcases List.mem_cons.mp hr with rfl | hold
    · cases hdownstream : call.downstream with
      | true => simp
      | false =>
        refine ⟨by simp, by simp, fun names hnames => ⟨⟨by simp, .inl ⟨hdownstream, ?_⟩⟩, by simp⟩⟩
        exact (Option.some.inj hnames).symm
    · exact hkept.requests r hold
  | refuse _ => exact h.of_kept (fun _ hr => hr) (fun _ hjobs => hjobs) fun _ _ => rfl
  | @compute call created before after profilesRoot hr =>
    have hkept : Listed s (events ++ [.compute call profilesRoot]) :=
      h.of_kept (fun _ hr => hr) (fun _ hjobs => hjobs) fun _ _ => rfl
    obtain ⟨hacquire, hnone, -⟩ := hkept.requests _ (mem_taken hr)
    obtain ⟨hdownstream, hcreated⟩ := hnone rfl
    change created = [] at hcreated
    subst hcreated
    refine { hkept with requests := fun r hmem => ?_ }
    rcases List.mem_append.mp hmem with hbefore | hafter
    · exact hkept.requests r (by rw [hr]; exact List.mem_append_left _ hbefore)
    · rcases List.mem_cons.mp hafter with rfl | hafter
      · refine ⟨hacquire, by simp, fun names hnames =>
          ⟨⟨hacquire, .inr ⟨hdownstream, ?_⟩⟩, by simp⟩⟩
        exact ⟨profilesRoot, by simp, (Option.some.inj hnames).symm⟩
      · exact hkept.requests r (by rw [hr]; simp [hafter])
  | @create call names name created before after jobId hr hname =>
    have hkept : Listed
        { s with jobs := s.jobs ++ [newJob jobId name call names], requests := s.requests }
        (events ++ [.create jobId name]) :=
      h.of_kept (fun _ hr => hr) (fun _ hjobs => hjobs)
        fun k hk => BuildManager.profileOf_create hk _ _
    obtain ⟨hacquire, -, hsome⟩ := hkept.requests _ (mem_taken hr)
    obtain ⟨hasked, hcreated⟩ := hsome names rfl
    refine { hkept with requests := fun r hmem => ?_ }
    rcases List.mem_append.mp hmem with hbefore | hafter
    · exact hkept.requests r (by simp [hr, hbefore])
    · rcases List.mem_cons.mp hafter with rfl | hafter
      · refine ⟨hacquire, by simp, fun names' hnames => ?_⟩
        obtain rfl := Option.some.inj hnames
        refine ⟨hasked, ?_⟩
        have htake : names.take (created.length + 1) = names.take created.length ++ [name] := by
          rw [List.take_add_one, hname]
          rfl
        change (created ++ [s.jobs.length]).map _ = _
        rw [List.length_append, List.length_singleton, htake, List.map_append, List.map_append]
        refine congr (congrArg _ hcreated) ?_
        simp [BuildManager.profileOf, newJob]
      · exact hkept.requests r (by simp [hr, hafter])
  | @spawn call names created before after hr hlength _ =>
    have hkept : Listed s (events ++ [.spawn created]) :=
      h.of_kept (fun _ hr => hr) (fun _ hjobs => hjobs) fun _ _ => rfl
    obtain ⟨-, -, hsome⟩ := hkept.requests _ (mem_taken hr)
    obtain ⟨hasked, hcreated⟩ := hsome names rfl
    change created.map s.profileOf = (names.take created.length).map some at hcreated
    rw [hlength, List.take_length] at hcreated
    refine ⟨fun r hmem => hkept.requests r (mem_of_mem_rest hr hmem), fun jobs hmem => ?_⟩
    rcases List.mem_cons.mp hmem with rfl | hold
    · exact ⟨call, names, hasked, hcreated⟩
    · exact hkept.threads jobs hold
  | abandon hr =>
    exact h.of_kept (fun _ hmem => mem_of_mem_rest hr hmem) (fun _ hjobs => hjobs) fun _ _ => rfl
  | begin now hw _ => exact h.work hw rfl rfl rfl (hsame fun _ => rfl)
  | output line hw => exact h.work hw hw rfl rfl (hsame (BuildJob.appendLine_profile line))
  | exit code hw => exact h.work hw rfl rfl rfl (hsame fun _ => rfl)
  | crash exc hw => exact h.work hw rfl rfl rfl (hsame (BuildJob.crashed_profile exc))
  | call hw => exact h.work hw rfl rfl rfl rfl
  | callReturned armed line hw =>
    exact h.work hw rfl rfl rfl (hsame fun b => b.swept_profile armed line)
  | callFailed exc hw =>
    exact h.work hw rfl rfl rfl (hsame (BuildJob.callbackFailed_profile exc))
  | publish now hw => exact h.work hw rfl rfl rfl (hsame fun _ => rfl)
  | skip now hw _ _ => exact h.work hw rfl rfl rfl (hsame fun b => b.skip_profile _ now)
  | release hw =>
    refine h.of_kept (fun _ hr => hr) (fun jobs hmem => ?_) fun _ _ => rfl
    unfold BuildManager.threads at hmem ⊢
    rw [hw]
    simp only [List.map_append, List.map_cons, List.append_assoc, List.mem_append, List.mem_cons,
      List.cons_append] at hmem ⊢
    tauto

end Listed

/-! ## Runs -/

section Runs

variable {onSuccess : Bool} {s : BuildManager} {events : List BuildEvent} {jobs : List Nat}
  {j : Nat}

theorem Orderly.of_run (h : Run (BuildStep onSuccess) newManager events s) :
    Orderly onSuccess s :=
  h.invariant (fun _ _ _ horderly hstep => horderly.step hstep) Orderly.initial

theorem Listed.of_run (h : Run (BuildStep onSuccess) newManager events s) : Listed s events :=
  h.history (fun _ _ _ _ hlisted hstep => hlisted.step hstep)
    ⟨by simp [newManager], by simp [newManager, BuildManager.threads]⟩

/-- A thread is done with the first of its jobs; of the others only the first may be running. -/
theorem Orderly.thread (h : Orderly onSuccess s) (hjobs : jobs ∈ s.threads) :
    ∃ done waiting, jobs = done ++ waiting ∧ CascadeEnded s.stateOf done ∧
      (∀ j ∈ waiting, s.stateOf j = some .running ∨ s.stateOf j = some .queued) ∧
      ∀ j ∈ waiting.tail, s.stateOf j = some .queued := by
  rcases List.mem_append.mp hjobs with hworker | hended
  · obtain ⟨w, hmem, rfl⟩ := List.mem_map.mp hworker
    obtain ⟨-, done, hsound⟩ := h.workers w hmem
    refine ⟨done, _, hsound.split, hsound.ran, fun j hj => ?_, fun j hj => hsound.left j ?_⟩
    · rcases List.mem_append.mp hj with hcurrent | hleft
      · exact .inl (hsound.current j hcurrent).1
      · exact .inr (hsound.left j hleft)
    · cases hphase : w.phase with
      | between =>
        rw [hphase] at hj
        exact List.mem_of_mem_tail hj
      | building | aboutToCall | calling | publishing =>
        rw [hphase] at hj
        exact hj
  · exact ⟨jobs, [], by simp, (h.ended jobs hended).2, by simp, by simp⟩

theorem Orderly.runs_alone (h : Orderly onSuccess s) {i j : Nat}
    (hi : s.stateOf i = some .running) (hj : s.stateOf j = some .running) : i = j := by
  obtain ⟨w, hw, hin⟩ := h.running i hi
  obtain ⟨w', hw', hin'⟩ := h.running j hj
  obtain ⟨before, after, hsplit⟩ := List.append_of_mem hw
  obtain ⟨-, -, hworkers, -, -⟩ := h.alone_worker hsplit
  rw [hworkers, List.mem_singleton] at hw'
  subst hw'
  cases hphase : w'.phase <;> rw [hphase] at hin hin' <;> simp_all [Phase.jobs]

theorem Orderly.in_order (h : Orderly onSuccess s) (hjobs : jobs ∈ s.threads) :
    jobs.Pairwise fun k j => s.stateOf j ≠ some .queued →
      ∃ state, s.stateOf k = some state ∧ state.isEnded = true := by
  obtain ⟨done, waiting, rfl, hdone, -, htail⟩ := h.thread hjobs
  refine List.pairwise_append.mpr ⟨?_, ?_, fun k hk j _ _ => hdone.isEnded hk⟩
  · exact List.pairwise_of_forall_mem_list fun k hk j _ _ => hdone.isEnded hk
  · cases waiting with
    | nil => exact .nil
    | cons first rest =>
      refine List.pairwise_cons.mpr ⟨fun j hj hnot => absurd (htail j hj) hnot, ?_⟩
      exact List.pairwise_of_forall_mem_list fun k _ j hj hnot => absurd (htail j hj) hnot

theorem Orderly.root_of_skipped (h : Orderly onSuccess s) {root : Nat} {downstream : List Nat}
    (hjobs : root :: downstream ∈ s.threads) (hj : j ∈ downstream)
    (hskipped : s.stateOf j = some .skipped) : s.stateOf root = some .failed := by
  obtain ⟨done, waiting, hsplit, hdone, hwaiting, -⟩ := h.thread hjobs
  have hnot : j ∉ waiting := by
    intro hmem
    rcases hwaiting j hmem with hstate | hstate <;> cases hskipped.symm.trans hstate
  cases done with
  | nil =>
    rw [List.nil_append] at hsplit
    exact absurd (hsplit ▸ List.mem_cons_of_mem _ hj) hnot
  | cons root' done' =>
    obtain ⟨rfl, rfl⟩ := List.cons.inj hsplit
    have hin : j ∈ done' := (List.mem_append.mp hj).resolve_right hnot
    rcases hdone with ⟨-, hrest⟩ | ⟨hroot, -⟩
    · rcases hrest j hin with hstate | hstate <;> cases hskipped.symm.trans hstate
    · exact hroot

end Runs

/-- **The build manager.** At every moment of every run at most one job is running; the jobs of a
thread are for the profiles that were asked for, and none is begun or skipped before those ahead of
it have ended; a job only moves forward; what is downstream of a root is skipped if and only if the
root did not succeed; and the callback was called once for each job that succeeded, where there is
one, and never for a job that waits, failed or was skipped. -/
theorem buildManager_safe {onSuccess : Bool} {s : BuildManager} {events : List BuildEvent}
    (hrun : Run (BuildStep onSuccess) newManager events s) :
    (∀ i j, s.stateOf i = some .running → s.stateOf j = some .running → i = j) ∧
    (∀ jobs ∈ s.threads,
      (∃ call names, Asked events call names ∧ jobs.map s.profileOf = names.map some) ∧
      jobs.Pairwise fun k j => s.stateOf j ≠ some .queued →
        ∃ state, s.stateOf k = some state ∧ state.isEnded = true) ∧
    (∀ event s', BuildStep onSuccess s event s' → ∀ j,
      s'.stateOf j = s.stateOf j ∨ Moves (s.stateOf j) (s'.stateOf j)) ∧
    (∀ root downstream, root :: downstream ∈ s.threads → ∀ j ∈ downstream,
      (s.stateOf j = some .skipped → s.stateOf root = some .failed) ∧
      (root :: downstream ∈ s.ended →
        (s.stateOf j = some .skipped ↔ s.stateOf root ≠ some .succeeded))) ∧
    ∀ j, s.stateOf j ≠ some .running → s.called.count j =
      if s.stateOf j = some .succeeded ∧ onSuccess = true then 1 else 0 := by
  have horderly := Orderly.of_run hrun
  refine ⟨fun i j => horderly.runs_alone, fun jobs hjobs => ?_,
    fun event s' hstep => horderly.moves hstep, fun root downstream hjobs j hj => ?_,
    horderly.called⟩
  · exact ⟨(Listed.of_run hrun).threads jobs hjobs, horderly.in_order hjobs⟩
  · exact ⟨horderly.root_of_skipped hjobs hj,
      fun hended => (horderly.ended _ hended).2.skipped_iff hj⟩

/-! ## Cascades of any graph -/

/-- The cascade of a profile is well formed: the loops end with it, no profile is in it twice, it
consists of what reaches the profile through parents, the profile comes first, and no run has
begun anything else of it before that one has ended. -/
structure WellFormedCascade (profilesRoot : Option (List ProfileDir)) (root : String) : Prop where
  ends : CascadeEnds (profilesRoot.getD []) root (computeBuildCascade profilesRoot root)
  nodup : (computeBuildCascade profilesRoot root).Nodup
  mem_iff : ∀ name, name ∈ computeBuildCascade profilesRoot root ↔
    InheritsFrom (profilesRoot.getD []) name root
  head : (computeBuildCascade profilesRoot root).head? = some root
  built_first : ∀ {onSuccess : Bool} {events : List BuildEvent} {s : BuildManager},
    Run (BuildStep onSuccess) newManager events s → ∀ jobs ∈ s.threads,
      jobs.map s.profileOf = (computeBuildCascade profilesRoot root).map some →
      ∃ first rest, jobs = first :: rest ∧ s.profileOf first = some root ∧
        ∀ j ∈ rest, s.stateOf j ≠ some .queued →
          ∃ state, s.stateOf first = some state ∧ state.isEnded = true

/-- No parent of the profile reaches it through parents, or its name is the least of those that
do. -/
def RootLeads (profilesRoot : Option (List ProfileDir)) (root : String) : Prop :=
  (∀ parent ∈ readProfileParents (.ofDirs (profilesRoot.getD [])) root,
    ¬ InheritsFrom (profilesRoot.getD []) parent root) ∨
  ∀ name, InheritsFrom (profilesRoot.getD []) name root → root ≤ name

theorem Orderly.built_first {onSuccess : Bool} {s : BuildManager} (h : Orderly onSuccess s)
    {jobs : List Nat} (hjobs : jobs ∈ s.threads) {names : List String} {root : String}
    (hhead : names.head? = some root) (hnames : jobs.map s.profileOf = names.map some) :
    ∃ first rest, jobs = first :: rest ∧ s.profileOf first = some root ∧
      ∀ j ∈ rest, s.stateOf j ≠ some .queued →
        ∃ state, s.stateOf first = some state ∧ state.isEnded = true := by
  obtain ⟨others, rfl⟩ := List.head?_eq_some_iff.mp hhead
  cases jobs with
  | nil => cases hnames
  | cons first rest =>
    have hordered := h.in_order hjobs
    exact ⟨first, rest, rfl, (List.cons.inj hnames).1,
      fun j hj => (List.pairwise_cons.mp hordered).1 j hj⟩

/-- **When the cascade is well formed.** Loops, membership and the absence of repetitions hold on
every graph; that the profile comes first does not, once it is on a cycle. -/
theorem wellFormedCascade_iff (profilesRoot : Option (List ProfileDir)) (root : String) :
    WellFormedCascade profilesRoot root ↔ RootLeads profilesRoot root := by
  obtain ⟨dirs, hdirs, hcascade⟩ : ∃ dirs, profilesRoot.getD [] = dirs ∧
      computeBuildCascade profilesRoot root = computeBuildCascade (some dirs) root := by
    cases profilesRoot with
    | none => exact ⟨[], rfl, computeBuildCascade_none root⟩
    | some dirs => exact ⟨dirs, rfl, rfl⟩
  have hleads : RootLeads profilesRoot root ↔
      (computeBuildCascade profilesRoot root).head? = some root := by
    rw [RootLeads, hdirs, hcascade]
    exact head?_computeBuildCascade_iff.symm
  rw [hleads]
  refine ⟨fun h => h.head, fun hhead => ?_⟩
  exact
    { ends := by
        rw [hdirs, hcascade]
        exact cascadeEnds root
      nodup := by
        rw [hcascade]
        exact nodup_computeBuildCascade root
      mem_iff := fun name => by
        rw [hdirs, hcascade]
        exact mem_computeBuildCascade_iff
      head := hhead
      built_first := fun hrun jobs hjobs hnames =>
        (Orderly.of_run hrun).built_first hjobs hhead hnames }

/-- Two profiles that list each other: the other one is built first. -/
theorem not_wellFormedCascade : ¬ WellFormedCascade
    (some [⟨"kiosk", [("parent", "lab\n")]⟩, ⟨"lab", [("parent", "kiosk\n")]⟩]) "lab" := by
  intro h
  have hcascade : computeBuildCascade (some [⟨"kiosk", [("parent", "lab\n")]⟩,
      ⟨"lab", [("parent", "kiosk\n")]⟩]) "lab" = ["kiosk", "lab"] := by
    decide +kernel
  have hhead := h.head
  rw [hcascade] at hhead
  revert hhead
  decide

section Examples

/-- A fragment and a profile that lists it. -/
def kioskDirs : List ProfileDir := [⟨"gpu", []⟩, ⟨"kiosk", [("parent", "gpu\n")]⟩]

def rebuildGpu : BuildCall :=
  { profile := "gpu", architecture := "amd64", autoReboot := false, downstream := true }

/-- The fragment's build crashes, and the profile is skipped. -/
theorem buildManager_safe_gpu : ∃ events s, Run (BuildStep true) newManager events s ∧
    [0, 1] ∈ s.ended ∧ s.stateOf 1 = some .skipped ∧ s.stateOf 0 ≠ some .succeeded := by
  have hcascade : computeBuildCascade (some kioskDirs) "gpu" = ["gpu", "kiosk"] := by
    decide +kernel
  have hlocked := Run.single (@BuildStep.acquire true newManager rebuildGpu rfl)
  have hcomputed := hlocked.snoc (@BuildStep.compute _ _ rebuildGpu [] [] [] (some kioskDirs) rfl)
  rw [show rebuildGpu.profile = "gpu" from rfl, hcascade] at hcomputed
  have hroot := hcomputed.snoc (@BuildStep.create _ _ _ _ "gpu" _ [] [] "0a" rfl rfl)
  have hboth := hroot.snoc (@BuildStep.create _ _ _ _ "kiosk" _ [] [] "0b" rfl rfl)
  have hspawned := hboth.snoc (@BuildStep.spawn _ _ _ _ [0, 1] [] [] rfl rfl (by simp))
  have hbegun := hspawned.snoc
    (@BuildStep.begin _ _ [0, 1] [1] none 0 [] [] 7 rfl (by simp))
  have hcrashed := hbegun.snoc (@BuildStep.crash _ _ [0, 1] [1] none 0 [] [] "OSError()" rfl)
  have hfailed := hcrashed.snoc (@BuildStep.publish _ _ [0, 1] [1] none 0 .failed [] [] 8 rfl)
  have hskipped := hfailed.snoc (@BuildStep.skip _ _ [0, 1] [] 1 0 "gpu" [] [] 9 rfl rfl rfl)
  have hreleased := hskipped.snoc (@BuildStep.release _ _ [0, 1] (some false) [] [] rfl)
  have hended : [0, 1] ∈ [[0, 1]] := List.mem_singleton_self _
  have hiff := ((buildManager_safe hreleased).2.2.2.1 0 [1] (List.mem_append_right _ hended) 1
    (List.mem_singleton_self _)).2 hended
  exact ⟨_, _, hreleased, hended, rfl, hiff.mp rfl⟩

end Examples

end Fleetboot
