import Fleetboot.Profiles.Resolve
import Fleetboot.Server.BuildJobs

/-!
# From profiles to images

The profiles on disk, the build manager, and what each image was built of. Profiles are written at
any time, also while builds run; a build reads the `suite` of its profile, and later resolves it.

* `InTurn.step`: jobs are built in the order in which they were made.
* `exited_step`: only an exit of `make` makes a build one that has gone well.
* `Current.step`: what the jobs that were made after a moment put into an image.
* `images_upToDate`: when all images are up to date.
-/

set_option autoImplicit false

namespace Fleetboot

open Transition Digraph

/-! ## Jobs in turn -/

namespace BuildManager

variable (s : BuildManager)

/-- The jobs that are yet to end, in the order in which they will. -/
def pending : List Nat :=
  s.requests.flatMap BuildRequest.created ++ s.workers.flatMap fun w => w.phase.jobs ++ w.left

/-- A thread has come to the job. -/
def Begun (job : Nat) : Prop := s.stateOf job ≠ none ∧ s.stateOf job ≠ some .queued

end BuildManager

/-- The thread is past a build that has gone well. -/
def Phase.Exited (job : Nat) (phase : Phase) : Prop :=
  phase = .aboutToCall job ∨ phase = .calling job ∨ phase = .publishing job .succeeded

/-- The build of the job has gone well. -/
def BuildManager.Exited (s : BuildManager) (job : Nat) : Prop :=
  s.stateOf job = some .succeeded ∨ ∃ w ∈ s.workers, w.phase.Exited job

/-- Jobs are built in the order in which they were made. -/
structure InTurn (s : BuildManager) : Prop where
  sorted : s.pending.Pairwise (· < ·)
  made : ∀ k ∈ s.pending, k < s.jobs.length
  behind : ∀ j, s.Begun j → ∀ k ∈ s.pending, j ≤ k

section Turns

variable {onSuccess : Bool} {s s' : BuildManager} {event : BuildEvent} {job : Nat}

theorem InTurn.of_sublist (h : InTurn s) (hpending : s'.pending.Sublist s.pending)
    (hlength : s.jobs.length ≤ s'.jobs.length)
    (hbegun : ∀ j, s'.Begun j → s.Begun j ∨ ∀ k ∈ s'.pending, j ≤ k) : InTurn s' :=
  { sorted := h.sorted.sublist hpending
    made := fun k hk => Nat.lt_of_lt_of_le (h.made k (hpending.subset hk)) hlength
    behind := fun j hj k hk => (hbegun j hj).elim
      (fun hold => h.behind j hold k (hpending.subset hk)) fun hnew => hnew k hk }

theorem pending_of_requests {r : BuildRequest} (hrequests : s.requests = [r])
    (hworkers : s.workers = []) : s.pending = r.created := by
  simp [BuildManager.pending, hrequests, hworkers]

theorem pending_of_workers {w : Worker} (hrequests : s.requests = []) (hworkers : s.workers = [w]) :
    s.pending = w.phase.jobs ++ w.left := by
  simp [BuildManager.pending, hrequests, hworkers]

/-- The job of a thread's phase is running. -/
theorem Orderly.running_of_phase (h : Orderly onSuccess s) {w : Worker} (hw : w ∈ s.workers)
    (hjob : job ∈ w.phase.jobs) : s.stateOf job = some .running := by
  obtain ⟨-, done, hsound⟩ := h.workers w hw
  exact (hsound.current job hjob).1

theorem begun_of_running (h : s.stateOf job = some .running) : s.Begun job := by
  unfold BuildManager.Begun
  rw [h]
  exact ⟨by simp, by simp⟩

theorem stateOf_of_modify {f : BuildJob → BuildJob} (hjobs : s'.jobs = s.jobs.modify job f) :
    s'.stateOf = (s.update job f).stateOf := by
  funext k
  unfold BuildManager.stateOf BuildManager.update
  rw [hjobs]

/-- A write to a job that has begun. -/
theorem begun_of_modify {f : BuildJob → BuildJob} (hjobs : s'.jobs = s.jobs.modify job f)
    {j : Nat} (h : s'.Begun j) : s.Begun j ∨ j = job := by
  by_cases heq : job = j
  · exact .inr heq.symm
  · left
    unfold BuildManager.Begun at h ⊢
    rw [stateOf_of_modify hjobs, BuildManager.stateOf_update, if_neg heq] at h
    exact h

/-- A step of the only thread. -/
theorem InTurn.work (h : InTurn s) (horderly : Orderly onSuccess s) {w w' : Worker}
    {before after : List Worker} (hw : s.workers = before ++ w :: after)
    {f : BuildJob → BuildJob} (hjobs : s'.jobs = s.jobs.modify job f)
    (hs' : s'.requests = s.requests ∧ s'.workers = before ++ w' :: after)
    (hsublist : (w'.phase.jobs ++ w'.left).Sublist (w.phase.jobs ++ w.left))
    (hjob : s.Begun job ∨ ∀ k ∈ w'.phase.jobs ++ w'.left, job ≤ k) : InTurn s' := by
  obtain ⟨rfl, rfl, hworkers, hrequests, -⟩ := horderly.alone_worker hw
  have hpending' : s'.pending = w'.phase.jobs ++ w'.left :=
    pending_of_workers (hs'.1.trans hrequests) hs'.2
  refine h.of_sublist ?_ ?_ fun j hj => ?_
  · rw [hpending', pending_of_workers hrequests hworkers]
    exact hsublist
  · rw [hjobs]
    exact Nat.le_of_eq (List.length_modify ..).symm
  · rw [hpending']
    rcases begun_of_modify hjobs hj with hold | rfl
    · exact .inl hold
    · exact hjob

/-- A step of the only thread that leaves it in its job. -/
theorem InTurn.workPhase (h : InTurn s) (horderly : Orderly onSuccess s) {jobs left : List Nat}
    {rootOk : Option Bool} {phase phase' : Phase} {before after : List Worker}
    (hw : s.workers = before ++ ⟨jobs, left, rootOk, phase⟩ :: after) (hjob : phase.jobs = [job])
    {f : BuildJob → BuildJob} (hjobs : s'.jobs = s.jobs.modify job f)
    (hs' : s'.requests = s.requests ∧ s'.workers = before ++ ⟨jobs, left, rootOk, phase'⟩ :: after)
    (hphase : phase'.jobs = [job]) : InTurn s' := by
  refine h.work horderly hw hjobs hs' ?_ (.inl ?_)
  · rw [hphase, hjob]
  · exact begun_of_running (horderly.running_of_phase (mem_taken hw)
      (by rw [hjob]; exact List.mem_singleton_self job))

theorem InTurn.step (h : InTurn s) (horderly : Orderly onSuccess s)
    (hstep : BuildStep onSuccess s event s') : InTurn s' := by
  cases hstep with
  | acquire hfree =>
    refine h.of_sublist ?_ (Nat.le_refl _) fun j hj => .inl hj
    simp [BuildManager.pending]
  | refuse _ => exact h
  | @compute call created before after profilesRoot hr =>
    refine h.of_sublist ?_ (Nat.le_refl _) fun j hj => .inl hj
    simp [BuildManager.pending, hr]
  | @create call names name created before after jobId hr hname =>
    obtain ⟨rfl, rfl, hrequests, hworkers, -⟩ := horderly.alone_request hr
    have hpending : s.pending = created := pending_of_requests hrequests hworkers
    have hmade := h.made
    have hsorted := h.sorted
    rw [hpending] at hmade hsorted
    have hstate := BuildManager.stateOf_create (s := s) (newJob jobId name call names) rfl
      ([] ++ ⟨call, some names, created ++ [s.jobs.length]⟩ :: [])
    have hpending' : BuildManager.pending { s with
        jobs := s.jobs ++ [newJob jobId name call names]
        requests := [] ++ ⟨call, some names, created ++ [s.jobs.length]⟩ :: [] } =
        created ++ [s.jobs.length] := by
      simp [BuildManager.pending, hworkers]
    refine ⟨?_, ?_, ?_⟩
    · rw [hpending', List.pairwise_append]
      exact ⟨hsorted, List.pairwise_singleton _ _, fun k hk j hj =>
        List.mem_singleton.mp hj ▸ hmade k hk⟩
    · rw [hpending']
      intro k hk
      change k < (s.jobs ++ [_]).length
      rw [List.length_append, List.length_singleton]
      rcases List.mem_append.mp hk with hk | hk
      · exact Nat.lt_succ_of_lt (hmade k hk)
      · exact List.mem_singleton.mp hk ▸ Nat.lt_succ_self _
    · intro j hj k hk
      unfold BuildManager.Begun at hj
      rw [hstate] at hj
      by_cases heq : j = s.jobs.length
      · subst heq
        rw [Function.update_self] at hj
        exact absurd rfl hj.2
      · rw [Function.update_of_ne heq] at hj
        rw [hpending'] at hk
        rcases List.mem_append.mp hk with hk | hk
        · exact h.behind j hj k (hpending ▸ hk)
        · rw [List.mem_singleton.mp hk]
          by_contra hlt
          have hnone : s.jobs[j]? = none := List.getElem?_eq_none (by omega)
          exact hj.1 (by simp [BuildManager.stateOf, hnone])
  | @spawn call names created before after hr _ _ =>
    refine h.of_sublist ?_ (Nat.le_refl _) fun j hj => .inl hj
    obtain ⟨rfl, rfl, hrequests, hworkers, -⟩ := horderly.alone_request hr
    rw [pending_of_requests hrequests hworkers, pending_of_workers rfl (by rw [hworkers])]
    exact List.Sublist.refl _
  | @abandon req before after hr =>
    refine h.of_sublist ?_ (Nat.le_refl _) fun j hj => .inl hj
    obtain ⟨rfl, rfl, hrequests, hworkers, -⟩ := horderly.alone_request hr
    simp [BuildManager.pending, hworkers]
  | @begin jobs left rootOk job before after now hw _ =>
    obtain ⟨-, -, hworkers, hrequests, -⟩ := horderly.alone_worker hw
    have hsorted := h.sorted
    rw [pending_of_workers hrequests hworkers] at hsorted
    refine h.work horderly hw rfl ⟨rfl, rfl⟩ (List.Sublist.refl _) (.inr fun k hk => ?_)
    rcases List.mem_cons.mp hk with rfl | hk
    · exact Nat.le_refl _
    · exact Nat.le_of_lt ((List.pairwise_cons.mp hsorted).1 k hk)
  | output line hw => exact h.workPhase horderly hw rfl rfl ⟨rfl, hw⟩ rfl
  | @exit jobs left rootOk job before after code hw =>
    exact h.workPhase horderly hw rfl rfl ⟨rfl, rfl⟩ (afterBuild_jobs onSuccess job _)
  | crash exc hw => exact h.workPhase horderly hw rfl rfl ⟨rfl, rfl⟩ rfl
  | @call jobs left rootOk job before after hw =>
    refine @InTurn.workPhase _ s _ job h horderly _ _ _ _ _ _ _ hw rfl id ?_ ⟨rfl, rfl⟩ rfl
    exact (List.modify_id ..).symm
  | callReturned armed line hw => exact h.workPhase horderly hw rfl rfl ⟨rfl, rfl⟩ rfl
  | callFailed exc hw => exact h.workPhase horderly hw rfl rfl ⟨rfl, rfl⟩ rfl
  | @publish jobs left rootOk job outcome before after now hw =>
    refine h.work horderly hw rfl ⟨rfl, rfl⟩ (List.sublist_cons_self ..) (.inl ?_)
    exact begun_of_running (horderly.running_of_phase (mem_taken hw) (List.mem_singleton_self job))
  | @skip jobs left job root rootProfile before after now hw _ _ =>
    obtain ⟨-, -, hworkers, hrequests, -⟩ := horderly.alone_worker hw
    have hsorted := h.sorted
    rw [pending_of_workers hrequests hworkers] at hsorted
    refine h.work horderly hw rfl ⟨rfl, rfl⟩ (List.sublist_cons_self ..) (.inr fun k hk => ?_)
    exact Nat.le_of_lt ((List.pairwise_cons.mp hsorted).1 k hk)
  | @release jobs rootOk before after hw =>
    obtain ⟨rfl, rfl, hworkers, hrequests, -⟩ := horderly.alone_worker hw
    refine h.of_sublist ?_ (Nat.le_refl _) fun j hj => .inl hj
    simp [BuildManager.pending, hrequests]

/-- A step of one thread. -/
theorem exited_of_work {w w' : Worker} {before after : List Worker}
    (hw : s.workers = before ++ w :: after) (hw' : s'.workers = before ++ w' :: after)
    (hphase : w'.phase.Exited job → s.Exited job ∨ event = .exit job 0)
    (hstate : s'.stateOf job = some .succeeded → s.Exited job) (h : s'.Exited job) :
    s.Exited job ∨ event = .exit job 0 := by
  rcases h with hsucceeded | ⟨v, hv, hexited⟩
  · exact .inl (hstate hsucceeded)
  · rw [hw'] at hv
    have hother : v ∈ before ++ after → s.Exited job := fun hv =>
      .inr ⟨v, mem_of_mem_rest hw hv, hexited⟩
    rcases List.mem_append.mp hv with hv | hv
    · exact .inl (hother (List.mem_append_left _ hv))
    · rcases List.mem_cons.mp hv with rfl | hv
      · exact hphase hexited
      · exact .inl (hother (List.mem_append_right _ hv))

theorem not_exited_between : ¬ Phase.between.Exited job := by
  rintro (h | h | h) <;> cases h

theorem code_of_exited {k : Nat} {code : Int}
    (h : (afterBuild onSuccess k (buildOutcome code)).Exited job) : k = job ∧ code = 0 := by
  have houtcome : buildOutcome code = .succeeded → code = 0 := fun h => by
    by_contra hne
    rw [buildOutcome, if_neg hne] at h
    cases h
  unfold afterBuild at h
  split at h
  · rename_i hcall
    rcases h with h | h | h <;> cases h
    exact ⟨rfl, houtcome hcall.1⟩
  · rcases h with h | h | h
    · cases h
    · cases h
    · obtain ⟨rfl, hsucceeded⟩ := Phase.publishing.inj h
      exact ⟨rfl, houtcome hsucceeded⟩

/-- Only the exit of `make` makes a build one that has gone well. -/
theorem exited_step (hstep : BuildStep onSuccess s event s') (hexited : s'.Exited job) :
    s.Exited job ∨ event = .exit job 0 := by
  have hsame : ∀ {f : BuildJob → BuildJob} {k : Nat}, (∀ b, (f b).state = b.state) →
      (s.update k f).stateOf job = some .succeeded → s.Exited job := fun hf h =>
    .inl (BuildManager.stateOf_update_same hf ▸ h)
  have hset : ∀ {f : BuildJob → BuildJob} {k : Nat} {after : JobState},
      (∀ b, (f b).state = after) → (s.update k f).stateOf job = some .succeeded →
      s.Exited job ∨ (k = job ∧ after = .succeeded) := by
    intro f k after hf h
    rw [BuildManager.stateOf_update] at h
    split at h
    · rename_i heq
      obtain ⟨b, -, hb⟩ := Option.map_eq_some_iff.mp h
      exact .inr ⟨heq, (hf b).symm.trans hb⟩
    · exact .inl (.inl h)
  cases hstep with
  | acquire _ => exact .inl hexited
  | refuse _ => exact .inl hexited
  | compute _ _ => exact .inl hexited
  | @create call names name created before after jobId hr _ =>
    rcases hexited with hsucceeded | hphase
    · left
      rw [BuildManager.stateOf_create _ rfl] at hsucceeded
      by_cases heq : job = s.jobs.length
      · subst heq
        rw [Function.update_self] at hsucceeded
        cases hsucceeded
      · rw [Function.update_of_ne heq] at hsucceeded
        exact .inl hsucceeded
    · exact .inl (.inr hphase)
  | spawn _ _ _ =>
    rcases hexited with hsucceeded | ⟨w, hw, hphase⟩
    · exact .inl (.inl hsucceeded)
    · rcases List.mem_cons.mp hw with rfl | hw
      · exact absurd hphase not_exited_between
      · exact .inl (.inr ⟨w, hw, hphase⟩)
  | abandon _ => exact .inl hexited
  | @begin jobs left rootOk k before after now hw _ =>
    refine exited_of_work hw rfl ?_ (fun h => ?_) hexited
    · rintro (h | h | h) <;> cases h
    · exact (@hset (.begin now) k .running (fun _ => rfl) h).elim id fun h => by cases h.2
  | output line _ =>
    rcases hexited with hsucceeded | hphase
    · exact .inl (hsame (BuildJob.appendLine_state line) hsucceeded)
    · exact .inl (.inr hphase)
  | @exit jobs left rootOk k before after code hw =>
    refine exited_of_work hw rfl (fun h => .inr ?_) ?_ hexited
    · obtain ⟨rfl, rfl⟩ := code_of_exited h
      rfl
    · exact hsame fun _ => rfl
  | crash exc hw =>
    refine exited_of_work hw rfl ?_ ?_ hexited
    · rintro (h | h | h) <;> cases h
    · exact hsame (BuildJob.crashed_state exc)
  | @call jobs left rootOk k before after hw =>
    refine exited_of_work hw rfl ?_ ?_ hexited
    · rintro (h | h | h) <;> cases h
      exact .inl (.inr ⟨_, mem_taken hw, .inl rfl⟩)
    · exact Or.inl
  | @callReturned jobs left rootOk k before after armed line hw =>
    refine exited_of_work hw rfl ?_ ?_ hexited
    · rintro (h | h | h) <;> cases h
      exact .inl (.inr ⟨_, mem_taken hw, .inr (.inl rfl)⟩)
    · exact hsame fun b => b.swept_state armed line
  | @callFailed jobs left rootOk k before after exc hw =>
    refine exited_of_work hw rfl ?_ ?_ hexited
    · rintro (h | h | h) <;> cases h
      exact .inl (.inr ⟨_, mem_taken hw, .inr (.inl rfl)⟩)
    · exact hsame (BuildJob.callbackFailed_state exc)
  | @publish jobs left rootOk k outcome before after now hw =>
    refine exited_of_work hw rfl (fun h => absurd h not_exited_between) (fun h => ?_) hexited
    rcases @hset (.publish now outcome) k outcome (fun _ => rfl) h with hold | ⟨rfl, rfl⟩
    · exact hold
    · exact .inr ⟨_, mem_taken hw, .inr (.inr rfl)⟩
  | @skip jobs left k root rootProfile before after now hw _ _ =>
    refine exited_of_work hw rfl (fun h => absurd h not_exited_between) (fun h => ?_) hexited
    exact (hset (fun b => b.skip_state rootProfile now) h).elim id fun h => by cases h.2
  | release hw =>
    rcases hexited with hsucceeded | ⟨w, hmem, hphase⟩
    · exact .inl (.inl hsucceeded)
    · exact .inl (.inr ⟨w, mem_of_mem_rest hw hmem, hphase⟩)

end Turns

/-! ## What a step leaves as it is -/

/-- What the job builds. -/
def BuildManager.targetOf (s : BuildManager) (job : Nat) : Option (String × String) :=
  s.jobs[job]?.map fun b => (b.profile, b.architecture)

/-- The event makes a job. -/
def BuildEvent.makes : BuildEvent → Bool
  | create .. => true
  | _ => false

section Targets

variable {onSuccess : Bool} {s s' : BuildManager} {event : BuildEvent} {job : Nat}

theorem appendLine_architecture (line : String) (b : BuildJob) :
    (b.appendLine line).architecture = b.architecture := by
  simp only [BuildJob.appendLine]

/-- A step makes a job, or writes to one, but never what is to be built. -/
theorem jobs_step (hstep : BuildStep onSuccess s event s') :
    (event.makes = true ∧ ∃ b, s'.jobs = s.jobs ++ [b]) ∨
      event.makes = false ∧ ∃ k f, (∀ b : BuildJob, ((f b).profile, (f b).architecture) =
        (b.profile, b.architecture)) ∧ s'.jobs = s.jobs.modify k f := by
  have hsame : s.jobs = s.jobs.modify 0 id := (List.modify_id ..).symm
  cases hstep with
  | create jobId hr hname => exact .inl ⟨rfl, _, rfl⟩
  | acquire | refuse | compute | spawn | abandon | call | release =>
    exact .inr ⟨rfl, 0, id, fun _ => rfl, hsame⟩
  | begin | exit | publish =>
    refine .inr ⟨rfl, _, _, fun b => ?_, rfl⟩
    rfl
  | output | crash | callFailed | skip =>
    refine .inr ⟨rfl, _, _, fun b => ?_, rfl⟩
    simp [BuildJob.crashed, BuildJob.callbackFailed, BuildJob.skip, appendLine_architecture]
  | callReturned armed line hw =>
    refine .inr ⟨rfl, _, _, fun b => ?_, rfl⟩
    cases line <;> simp [BuildJob.swept, appendLine_architecture]

theorem length_step (hstep : BuildStep onSuccess s event s') :
    s'.jobs.length = s.jobs.length + event.makes.toNat := by
  rcases jobs_step hstep with ⟨hmakes, b, hjobs⟩ | ⟨hmakes, k, f, -, hjobs⟩
  · rw [hjobs, hmakes, List.length_append]
    rfl
  · rw [hjobs, hmakes, List.length_modify]
    rfl

theorem lt_of_targetOf {target : String × String} (h : s.targetOf job = some target) :
    job < s.jobs.length := by
  obtain ⟨b, hb, -⟩ := Option.map_eq_some_iff.mp h
  exact (List.getElem?_eq_some_iff.mp hb).1

theorem targetOf_step (hstep : BuildStep onSuccess s event s') (h : job < s.jobs.length) :
    s'.targetOf job = s.targetOf job := by
  unfold BuildManager.targetOf
  rcases jobs_step hstep with ⟨-, b, hjobs⟩ | ⟨-, k, f, hf, hjobs⟩
  · rw [hjobs, List.getElem?_append_left h]
  · rw [hjobs, List.getElem?_modify]
    cases s.jobs[job]? with
    | none => rfl
    | some b =>
      simp only [Option.map_eq_map, Option.map_some]
      split
      · rw [hf]
      · rfl

theorem begun_of_exited (h : Orderly onSuccess s) (hexited : s.Exited job) : s.Begun job := by
  rcases hexited with hsucceeded | ⟨w, hw, hphase⟩
  · unfold BuildManager.Begun
    rw [hsucceeded]
    exact ⟨by simp, by simp⟩
  · refine begun_of_running (h.running_of_phase hw ?_)
    rcases hphase with heq | heq | heq <;> rw [heq] <;> exact List.mem_singleton_self job

theorem lt_of_begun (h : s.Begun job) : job < s.jobs.length := by
  by_contra hge
  exact h.1 (by simp [BuildManager.stateOf, List.getElem?_eq_none (Nat.le_of_not_lt hge)])

end Targets

/-! ## Images -/

variable {γ : Type}

/-- What an image was built of. -/
structure Image (γ : Type) where
  resolved : Resolved γ
  suite : Option String

structure Workshop (γ : Type) where
  sources : ProfileSources γ
  manager : BuildManager
  /-- What the build of a job has read of the `suite` of its profile. -/
  suites : Nat → Option (Option String)
  /-- What its profile was resolved to. -/
  resolved : Nat → Option (Resolved γ)
  /-- What the last build that went well was made of, by profile and architecture. -/
  images : String × String → Option (Image γ)

inductive WorkshopEvent (γ : Type)
  | edit (profile : ProfileDir) (overlay : Option (Overlay γ))
  | suite (job : Nat)
  | resolve (job : Nat)
  | build (event : BuildEvent)

/-- The build of a job runs. -/
def BuildManager.Builds (s : BuildManager) (job : Nat) : Prop :=
  ∃ w ∈ s.workers, w.phase = .building job

/-- A step that reads no profile but for a cascade, and makes no image. -/
def BuildEvent.Plain (sources : ProfileSources γ) : BuildEvent → Prop
  | compute _ profilesRoot => profilesRoot = some sources.dirs
  | exit _ code => code ≠ 0
  | _ => True

inductive WorkshopStep (onSuccess : Bool) (s : Workshop γ) : WorkshopEvent γ → Workshop γ → Prop
  | edit (profile : ProfileDir) (overlay : Option (Overlay γ)) :
      WorkshopStep onSuccess s (.edit profile overlay)
        { s with sources := s.sources.store profile overlay }
  | suite {job : Nat} {b : BuildJob} : s.manager.Builds job → s.manager.jobs[job]? = some b →
      WorkshopStep onSuccess s (.suite job)
        { s with suites := Function.update s.suites job (some (s.sources.suite b.profile)) }
  -- The first thing that `make image` does.
  | resolve {job : Nat} {b : BuildJob} {out : Resolved γ} : s.manager.Builds job →
      s.manager.jobs[job]? = some b → s.sources.resolve b.profile = .ok out →
      WorkshopStep onSuccess s (.resolve job)
        { s with resolved := Function.update s.resolved job (some out) }
  | image {job : Nat} {b : BuildJob} {manager : BuildManager} {out : Resolved γ}
      {suite : Option String} : BuildStep onSuccess s.manager (.exit job 0) manager →
      s.manager.jobs[job]? = some b → s.resolved job = some out → s.suites job = some suite →
      WorkshopStep onSuccess s (.build (.exit job 0))
        { s with
          manager
          images := Function.update s.images (b.profile, b.architecture) (some ⟨out, suite⟩) }
  | build {event : BuildEvent} {manager : BuildManager} :
      BuildStep onSuccess s.manager event manager → event.Plain s.sources →
      WorkshopStep onSuccess s (.build event) { s with manager }

/-! ## What was read of the profiles -/

namespace WorkshopEvent

/-- The profiles after an event. -/
def after (sources : ProfileSources γ) : WorkshopEvent γ → ProfileSources γ
  | edit profile overlay => sources.store profile overlay
  | _ => sources

/-- The profile is in the build cascade of the one that is written. -/
def Affects (sources : ProfileSources γ) (name : String) : WorkshopEvent γ → Prop
  | edit profile overlay =>
    name ∈ computeBuildCascade (some (sources.store profile overlay).dirs) profile.name
  | _ => False

def makes : WorkshopEvent γ → Bool
  | build event => event.makes
  | _ => false

end WorkshopEvent

/-- The job is for this, and is not one of the first `n`. -/
def Workshop.For (s : Workshop γ) (n : Nat) (name architecture : String) (job : Nat) : Prop :=
  n ≤ job ∧ s.manager.targetOf job = some (name, architecture)

/-- Jobs are built one at a time, in their order, and of those that are not there nothing was
read. -/
structure Regular (onSuccess : Bool) (s : Workshop γ) : Prop where
  orderly : Orderly onSuccess s.manager
  inTurn : InTurn s.manager
  unread : ∀ job, s.manager.jobs.length ≤ job → s.suites job = none ∧ s.resolved job = none

/-- The profile can be built, and what was read of it for jobs other than the first `n` is what it
is; an image that was built by one of them is of that. -/
structure Current (n : Nat) (name architecture : String) (out : Resolved γ) (s : Workshop γ) :
    Prop where
  resolves : s.sources.resolve name = .ok out
  read : ∀ job, s.For n name architecture job →
    (∀ r, s.resolved job = some r → r = out) ∧
      ∀ suite, s.suites job = some suite → suite = s.sources.suite name
  image : ∀ job, s.For n name architecture job → s.manager.Exited job →
    s.images (name, architecture) = some ⟨out, s.sources.suite name⟩

section Workshops

variable {onSuccess : Bool} {s s' : Workshop γ} {event : WorkshopEvent γ} {n : Nat}
  {name architecture : String} {out : Resolved γ}

/-- A step of the workshop is one of the manager, or leaves it as it is. -/
theorem WorkshopStep.manager (h : WorkshopStep onSuccess s event s') :
    (s'.manager = s.manager ∧ event.makes = false) ∨
      ∃ e, event = .build e ∧ BuildStep onSuccess s.manager e s'.manager := by
  cases h with
  | edit | suite | resolve => exact .inl ⟨rfl, rfl⟩
  | image hstep => exact .inr ⟨_, rfl, hstep⟩
  | build hstep => exact .inr ⟨_, rfl, hstep⟩

theorem WorkshopStep.sources (h : WorkshopStep onSuccess s event s') :
    s'.sources = event.after s.sources := by
  cases h <;> rfl

theorem WorkshopStep.length (h : WorkshopStep onSuccess s event s') :
    s'.manager.jobs.length = s.manager.jobs.length + event.makes.toNat := by
  rcases h.manager with ⟨heq, hmakes⟩ | ⟨e, rfl, hstep⟩
  · rw [heq, hmakes]
    rfl
  · exact length_step hstep

theorem WorkshopStep.targetOf (h : WorkshopStep onSuccess s event s') {job : Nat}
    (hjob : job < s.manager.jobs.length) : s'.manager.targetOf job = s.manager.targetOf job := by
  rcases h.manager with ⟨heq, -⟩ | ⟨e, -, hstep⟩
  · rw [heq]
  · exact targetOf_step hstep hjob

/-- What was read of a job is of one that is there. -/
theorem WorkshopStep.unread (h : WorkshopStep onSuccess s event s') {job : Nat}
    (hjob : s.manager.jobs.length ≤ job) :
    s'.suites job = s.suites job ∧ s'.resolved job = s.resolved job := by
  have hne : ∀ {k : Nat} {b : BuildJob}, s.manager.jobs[k]? = some b → job ≠ k := fun hk =>
    Nat.ne_of_gt (Nat.lt_of_lt_of_le (List.getElem?_eq_some_iff.mp hk).1 hjob)
  cases h with
  | edit | image | build => exact ⟨rfl, rfl⟩
  | suite _ hb => exact ⟨Function.update_of_ne (hne hb) _ _, rfl⟩
  | resolve _ hb => exact ⟨rfl, Function.update_of_ne (hne hb) _ _⟩

theorem Regular.step (h : Regular onSuccess s) (hstep : WorkshopStep onSuccess s event s') :
    Regular onSuccess s' := by
  refine ⟨?_, ?_, fun job hjob => ?_⟩
  · rcases hstep.manager with ⟨heq, -⟩ | ⟨e, -, hmanager⟩
    · exact heq ▸ h.orderly
    · exact h.orderly.step hmanager
  · rcases hstep.manager with ⟨heq, -⟩ | ⟨e, -, hmanager⟩
    · exact heq ▸ h.inTurn
    · exact h.inTurn.step h.orderly hmanager
  · have hold : s.manager.jobs.length ≤ job :=
      Nat.le_trans (hstep.length ▸ Nat.le_add_right _ _) hjob
    obtain ⟨hsuites, hresolved⟩ := hstep.unread hold
    exact ⟨hsuites.trans (h.unread job hold).1, hresolved.trans (h.unread job hold).2⟩

/-- A step that does not affect a profile leaves it as it is. -/
theorem WorkshopStep.unaffected (h : WorkshopStep onSuccess s event s')
    (hnot : ¬ event.Affects s.sources name) :
    s'.sources.resolve name = s.sources.resolve name ∧
      s'.sources.suite name = s.sources.suite name := by
  rw [h.sources]
  cases event with
  | edit profile overlay => exact store_unaffected hnot
  | suite | resolve | build => exact ⟨rfl, rfl⟩

/-- A job that `make` returns for was yet to end. -/
theorem mem_pending_of_exit {s s' : BuildManager} {job : Nat} {code : Int}
    (hstep : BuildStep onSuccess s (.exit job code) s') : job ∈ s.pending := by
  cases hstep with
  | exit _ hw =>
    refine List.mem_append_right _ (List.mem_flatMap.mpr ⟨_, mem_taken hw, ?_⟩)
    exact List.mem_append_left _ (List.mem_singleton_self job)

theorem Workshop.For.of_step (hstep : WorkshopStep onSuccess s event s') {job : Nat}
    (hjob : job < s.manager.jobs.length) (h : s'.For n name architecture job) :
    s.For n name architecture job :=
  ⟨h.1, (hstep.targetOf hjob).symm.trans h.2⟩

/-- What is built of a job other than the first `n`. -/
theorem Current.made (h : Current n name architecture out s) {job : Nat} {b : BuildJob}
    {r : Resolved γ} {suite : Option String} (hb : s.manager.jobs[job]? = some b)
    (hjob : n ≤ job) (hresolved : s.resolved job = some r) (hsuite : s.suites job = some suite)
    (htarget : (b.profile, b.architecture) = (name, architecture)) :
    r = out ∧ suite = s.sources.suite name := by
  have hfor : s.For n name architecture job := ⟨hjob, by
    unfold BuildManager.targetOf
    rw [hb, Option.map_some, htarget]⟩
  exact ⟨(h.read job hfor).1 r hresolved, (h.read job hfor).2 suite hsuite⟩

theorem Current.read_step (h : Current n name architecture out s)
    (hregular : Regular onSuccess s) (hstep : WorkshopStep onSuccess s event s')
    (hnot : ¬ event.Affects s.sources name) {job : Nat}
    (hjob : s'.For n name architecture job) :
    (∀ r, s'.resolved job = some r → r = out) ∧
      ∀ suite, s'.suites job = some suite → suite = s'.sources.suite name := by
  rw [(hstep.unaffected hnot).2]
  by_cases hnew : s.manager.jobs.length ≤ job
  · rw [(hstep.unread hnew).1, (hstep.unread hnew).2, (hregular.unread job hnew).1,
      (hregular.unread job hnew).2]
    exact ⟨by simp, by simp⟩
  · have hfor := hjob.of_step hstep (Nat.lt_of_not_le hnew)
    have hold := h.read job hfor
    have hname : ∀ {b : BuildJob}, s.manager.jobs[job]? = some b → b.profile = name := by
      intro b hb
      have htarget := hfor.2
      unfold BuildManager.targetOf at htarget
      rw [hb] at htarget
      exact congrArg Prod.fst (Option.some.inj htarget)
    cases hstep with
    | edit | image | build => exact hold
    | @suite k b _ hb =>
      refine ⟨hold.1, fun suite hsuite => ?_⟩
      change Function.update s.suites k _ job = some suite at hsuite
      by_cases heq : job = k
      · subst heq
        rw [Function.update_self] at hsuite
        rw [← Option.some.inj hsuite, hname hb]
      · exact hold.2 suite ((Function.update_of_ne heq ..).symm.trans hsuite)
    | @resolve k b r _ hb hr =>
      refine ⟨fun r' hr' => ?_, hold.2⟩
      change Function.update s.resolved k _ job = some r' at hr'
      by_cases heq : job = k
      · subst heq
        rw [Function.update_self] at hr'
        rw [hname hb] at hr
        rw [← Option.some.inj hr']
        exact Except.ok.inj (hr.symm.trans h.resolves)
      · exact hold.1 r' ((Function.update_of_ne heq ..).symm.trans hr')

theorem Current.image_step (h : Current n name architecture out s)
    (hregular : Regular onSuccess s) (hstep : WorkshopStep onSuccess s event s')
    (hnot : ¬ event.Affects s.sources name) {job : Nat}
    (hjob : s'.For n name architecture job) (hexited : s'.manager.Exited job) :
    s'.images (name, architecture) = some ⟨out, s'.sources.suite name⟩ := by
  rw [(hstep.unaffected hnot).2]
  have hkept : s.manager.Exited job → s.images (name, architecture) =
      some ⟨out, s.sources.suite name⟩ := fun hexited =>
    h.image job (hjob.of_step hstep (lt_of_begun (begun_of_exited hregular.orderly hexited)))
      hexited
  cases hstep with
  | edit | suite | resolve => exact hkept hexited
  | @build e manager hbuild hplain =>
    refine hkept ((exited_step hbuild hexited).resolve_right ?_)
    rintro rfl
    exact hplain rfl
  | @image k b manager r suite hbuild hb hresolved hsuite =>
    change Function.update s.images (b.profile, b.architecture) (some ⟨r, suite⟩)
      (name, architecture) = _
    by_cases htarget : (b.profile, b.architecture) = (name, architecture)
    · rw [htarget, Function.update_self]
      by_cases hle : n ≤ k
      · obtain ⟨rfl, rfl⟩ := h.made hb hle hresolved hsuite htarget
        rfl
      · -- An older job is not built once a newer one has been.
        have hnewer : k < job := Nat.lt_of_lt_of_le (Nat.lt_of_not_le hle) hjob.1
        rcases exited_step hbuild hexited with hold | heq
        · have hbehind := hregular.inTurn.behind job (begun_of_exited hregular.orderly hold) k
            (mem_pending_of_exit hbuild)
          omega
        · cases heq
          exact absurd hnewer (Nat.lt_irrefl _)
    · rw [Function.update_of_ne (Ne.symm htarget)]
      refine hkept ((exited_step hbuild hexited).resolve_right ?_)
      intro heq
      cases heq
      have hold := (hjob.of_step (.image hbuild hb hresolved hsuite)
        (List.getElem?_eq_some_iff.mp hb).1).2
      unfold BuildManager.targetOf at hold
      rw [hb] at hold
      exact htarget (Option.some.inj hold)

/-- **A step that does not affect the profile** keeps what later jobs put into its image. -/
theorem Current.step (h : Current n name architecture out s) (hregular : Regular onSuccess s)
    (hstep : WorkshopStep onSuccess s event s') (hnot : ¬ event.Affects s.sources name) :
    Current n name architecture out s' :=
  { resolves := (hstep.unaffected hnot).1.trans h.resolves
    read := fun _ => h.read_step hregular hstep hnot
    image := fun _ => h.image_step hregular hstep hnot }

/-- An image that is up to date stays so when no job was made before the profile was changed. -/
theorem Current.image_kept (h : Current 0 name architecture out s)
    (hstep : WorkshopStep onSuccess s event s') (hnot : ¬ event.Affects s.sources name)
    (himage : s.images (name, architecture) = some ⟨out, s.sources.suite name⟩) :
    s'.images (name, architecture) = some ⟨out, s'.sources.suite name⟩ := by
  rw [(hstep.unaffected hnot).2]
  cases hstep with
  | edit | suite | resolve | build => exact himage
  | @image k b manager r suite hbuild hb hresolved hsuite =>
    change Function.update s.images (b.profile, b.architecture) (some ⟨r, suite⟩)
      (name, architecture) = _
    by_cases htarget : (b.profile, b.architecture) = (name, architecture)
    · rw [htarget, Function.update_self]
      obtain ⟨rfl, rfl⟩ := h.made hb (Nat.zero_le k) hresolved hsuite htarget
      rfl
    · rw [Function.update_of_ne (Ne.symm htarget)]
      exact himage

/-- No job other than those there has been read for, or built. -/
theorem Current.start (hout : s.sources.resolve name = .ok out) :
    Current s.manager.jobs.length name architecture out s := by
  refine ⟨hout, fun job hjob => absurd (lt_of_targetOf hjob.2) (Nat.not_lt.mpr hjob.1),
    fun job hjob _ => absurd (lt_of_targetOf hjob.2) (Nat.not_lt.mpr hjob.1)⟩

end Workshops

/-! ## Runs of the workshop -/

/-- The server has started. -/
def openWorkshop (sources : ProfileSources γ) (images : String × String → Option (Image γ)) :
    Workshop γ :=
  { sources, manager := newManager, suites := fun _ => none, resolved := fun _ => none, images }

/-- If the profile can be built, its image is of what it is. -/
def Workshop.UpToDate (s : Workshop γ) (name architecture : String) : Prop :=
  ∀ out, s.sources.resolve name = .ok out →
    s.images (name, architecture) = some ⟨out, s.sources.suite name⟩

/-- How many jobs were made. -/
def jobsMade (events : List (WorkshopEvent γ)) : Nat := events.countP WorkshopEvent.makes

/-- After a profile was written, its build cascade was computed; for each profile in it, a job that
was made later has succeeded. -/
def Rebuilt (events : List (WorkshopEvent γ)) (architecture : String) (s : BuildManager) : Prop :=
  ∀ before profile overlay after, events = before ++ .edit profile overlay :: after →
    ∃ mid call profilesRoot rest,
      after = mid ++ .build (.compute call profilesRoot) :: rest ∧ call.profile = profile.name ∧
        ∀ name ∈ computeBuildCascade profilesRoot call.profile,
          ∃ job, jobsMade (before ++ .edit profile overlay :: mid) ≤ job ∧
            s.targetOf job = some (name, architecture) ∧ s.stateOf job = some .succeeded

section Runs

variable {onSuccess : Bool} {s s' : Workshop γ} {events : List (WorkshopEvent γ)} {n : Nat}
  {name architecture : String} {out : Resolved γ}

theorem length_of_run (h : Run (WorkshopStep onSuccess) s events s') :
    s'.manager.jobs.length = s.manager.jobs.length + jobsMade events := by
  induction h with
  | nil => rfl
  | @snoc es e middle s' _ hstep ih =>
    have hone : jobsMade [e] = e.makes.toNat := by
      unfold jobsMade
      cases hmakes : e.makes <;> simp [hmakes]
    rw [hstep.length, ih, ← hone, Nat.add_assoc]
    unfold jobsMade
    rw [← List.countP_append]

theorem Regular.start (sources : ProfileSources γ)
    (images : String × String → Option (Image γ)) :
    Regular onSuccess (openWorkshop sources images) :=
  { orderly := Orderly.initial
    inTurn := ⟨List.Pairwise.nil, fun _ hk => absurd hk List.not_mem_nil,
      fun _ _ _ hk => absurd hk List.not_mem_nil⟩
    unread := fun _ _ => ⟨rfl, rfl⟩ }

theorem Regular.of_run (h : Run (WorkshopStep onSuccess) s events s')
    (hregular : Regular onSuccess s) : Regular onSuccess s' :=
  h.invariant (fun _ _ _ hregular hstep => hregular.step hstep) hregular

variable (onSuccess name) in
/-- A step that does not affect a profile. -/
def Unaffecting (s : Workshop γ) (event : WorkshopEvent γ) (s' : Workshop γ) : Prop :=
  WorkshopStep onSuccess s event s' ∧ ¬ event.Affects s.sources name

theorem Current.of_run (h : Run (Unaffecting onSuccess name) s events s')
    (hregular : Regular onSuccess s) (hcurrent : Current n name architecture out s) :
    Current n name architecture out s' :=
  (h.invariant (I := fun s => Regular onSuccess s ∧ Current n name architecture out s)
    (fun _ _ _ hinv hstep => ⟨hinv.1.step hstep.1, hinv.2.step hinv.1 hstep.1 hstep.2⟩)
    ⟨hregular, hcurrent⟩).2

/-- What such steps do not change. -/
theorem unaffected_of_run {root : String} (h : Run (Unaffecting onSuccess name) s events s') :
    s'.sources.resolve name = s.sources.resolve name ∧
      (name ∈ computeBuildCascade (some s'.sources.dirs) root ↔
        name ∈ computeBuildCascade (some s.sources.dirs) root) := by
  induction h with
  | nil => exact ⟨rfl, Iff.rfl⟩
  | @snoc es e middle s' _ hstep ih =>
    refine ⟨(hstep.1.unaffected hstep.2).1.trans ih.1, Iff.trans ?_ ih.2⟩
    have hnot := hstep.2
    rw [hstep.1.sources]
    cases e with
    | edit profile overlay => exact mem_cascade_store hnot
    | suite | resolve | build => exact Iff.rfl

theorem UpToDate.of_run {sources : ProfileSources γ}
    {images : String × String → Option (Image γ)}
    (h : Run (Unaffecting onSuccess name) (openWorkshop sources images) events s')
    (hstart : (openWorkshop sources images).UpToDate name architecture) :
    s'.UpToDate name architecture := by
  intro out hout
  rw [(@unaffected_of_run _ _ _ _ _ _ name h).1] at hout
  have hregular : Regular onSuccess (openWorkshop sources images) := Regular.start sources images
  exact (h.invariant (I := fun s => Regular onSuccess s ∧ Current 0 name architecture out s ∧
      s.images (name, architecture) = some ⟨out, s.sources.suite name⟩)
    (fun _ _ _ hinv hstep => ⟨hinv.1.step hstep.1, hinv.2.1.step hinv.1 hstep.1 hstep.2,
      hinv.2.1.image_kept hstep.1 hstep.2 hinv.2.2⟩)
    ⟨hregular, Current.start hout, hstart out hout⟩).2.2

/-- **All images are up to date** at the end of a run that starts so, however its builds and writes
are interleaved, if each profile that was written was rebuilt with what is downstream of it. -/
theorem images_upToDate {sources : ProfileSources γ}
    {images : String × String → Option (Image γ)}
    (hrun : Run (WorkshopStep onSuccess) (openWorkshop sources images) events s')
    (hstart : ∀ name, (openWorkshop sources images).UpToDate name architecture)
    (hrebuilt : Rebuilt events architecture s'.manager) (name : String) :
    s'.UpToDate name architecture := by
  -- What counts is the last write that affects the profile.
  rcases hrun.never_or_last fun s event _ => event.Affects s.sources name with
    hnever | ⟨before, event, after, x, y, rfl, hbefore, hstep, haffects, hafter⟩
  · exact UpToDate.of_run hnever (hstart name)
  · cases event with
    | suite | resolve | build => exact absurd haffects id
    | edit profile overlay =>
      intro out hout
      obtain ⟨mid, call, profilesRoot, rest, rfl, hcall, hjobs⟩ :=
        hrebuilt before profile overlay after rfl
      have hregular := (Regular.start sources images).of_run (hbefore.snoc hstep)
      have hcurrent : Current y.manager.jobs.length name architecture out s' := by
        refine Current.of_run hafter hregular (Current.start ?_)
        rw [← (@unaffected_of_run _ _ _ _ _ _ name hafter).1]
        exact hout
      -- The cascade was computed with the profile in it.
      obtain ⟨z, hmid, hrest⟩ := hafter.of_append
      have hname : name ∈ computeBuildCascade profilesRoot call.profile := by
        obtain ⟨z', ⟨hcompute, -⟩, -⟩ := hrest.of_cons
        cases hcompute with
        | build hbuild hplain =>
          rw [show profilesRoot = some z.sources.dirs from hplain, hcall,
            (unaffected_of_run hmid).2, hstep.sources]
          exact haffects
      obtain ⟨job, hjob, htarget, hsucceeded⟩ := hjobs name hname
      have hlength := length_of_run (hbefore.snoc hstep)
      have hlater : y.manager.jobs.length ≤ job := by
        refine Nat.le_trans (Nat.le_of_eq (hlength.trans (Nat.zero_add _))) (Nat.le_trans ?_ hjob)
        unfold jobsMade
        exact List.Sublist.countP_le (List.Sublist.append_left
          (List.Sublist.cons_cons _ (List.nil_sublist _)) _)
      exact hcurrent.image job ⟨hlater, htarget⟩ (.inl hsucceeded)

/-- Of one written profile. -/
theorem Rebuilt.of_one {profile : ProfileDir} {overlay : Option (Overlay γ)} {s : BuildManager}
    (hnone : ∀ profile' overlay', .edit profile' overlay' ∉ events)
    (h : ∃ mid call profilesRoot rest,
      events = mid ++ .build (.compute call profilesRoot) :: rest ∧ call.profile = profile.name ∧
        ∀ name ∈ computeBuildCascade profilesRoot call.profile,
          ∃ job, jobsMade (.edit profile overlay :: mid) ≤ job ∧
            s.targetOf job = some (name, architecture) ∧ s.stateOf job = some .succeeded) :
    Rebuilt (.edit profile overlay :: events) architecture s := by
  intro before profile' overlay' after hsplit
  cases before with
  | nil =>
    cases hsplit
    exact h
  | cons first before =>
    obtain ⟨-, rfl⟩ := List.cons.inj hsplit
    exact absurd (List.mem_append_right before List.mem_cons_self) (hnone profile' overlay')

end Runs

section Examples

/-- The fragment is given a package. -/
def gpuWithMesa : ProfileDir := ⟨"gpu", [("extra-packages.list", "mesa-utils\n")]⟩

def kioskSources : ProfileSources Unit := ⟨kioskDirs, fun _ => none⟩

/-- The images of profiles that stay as they are. -/
def imagesOf (sources : ProfileSources Unit) (target : String × String) : Option (Image Unit) :=
  match sources.resolve target.1 with
  | .ok out => some ⟨out, sources.suite target.1⟩
  | .error _ => none

/-- The fragment is written, and built with the kiosk. -/
theorem images_upToDate_kiosk : ∃ events s, Run (WorkshopStep false)
      (openWorkshop kioskSources (imagesOf kioskSources)) events s ∧
    .edit gpuWithMesa none ∈ events ∧ s.UpToDate "kiosk" "amd64" := by
  have hcascade : computeBuildCascade (some (kioskSources.store gpuWithMesa none).dirs) "gpu" =
      ["gpu", "kiosk"] := by
    decide +kernel
  have hresolves : ∀ name ∈ ["gpu", "kiosk"],
      ((kioskSources.store gpuWithMesa none).resolve name).toOption.isSome = true := by
    decide +kernel
  have hok : ∀ name ∈ ["gpu", "kiosk"], ∃ out,
      (kioskSources.store gpuWithMesa none).resolve name = .ok out := by
    intro name hname
    have hsome := hresolves name hname
    cases hout : (kioskSources.store gpuWithMesa none).resolve name with
    | ok out => exact ⟨out, rfl⟩
    | error _ =>
      rw [hout] at hsome
      cases hsome
  obtain ⟨gpu, hgpu⟩ := hok "gpu" (by simp)
  obtain ⟨kiosk, hkiosk⟩ := hok "kiosk" (by simp)
  have hedited := Run.single (@WorkshopStep.edit _ false
    (openWorkshop kioskSources (imagesOf kioskSources)) gpuWithMesa none)
  have hlocked := hedited.snoc (.build (@BuildStep.acquire _ _ rebuildGpu rfl) trivial)
  have hcomputed := hlocked.snoc (.build (@BuildStep.compute _ _ rebuildGpu [] [] []
    (some (kioskSources.store gpuWithMesa none).dirs) rfl) rfl)
  rw [show rebuildGpu.profile = "gpu" from rfl, hcascade] at hcomputed
  have hroot := hcomputed.snoc (.build (@BuildStep.create _ _ _ _ "gpu" _ [] [] "0a" rfl rfl)
    trivial)
  have hboth := hroot.snoc (.build (@BuildStep.create _ _ _ _ "kiosk" _ [] [] "0b" rfl rfl)
    trivial)
  have hspawned := hboth.snoc (.build (@BuildStep.spawn _ _ _ _ [0, 1] [] [] rfl rfl (by simp))
    trivial)
  have hbegun := hspawned.snoc (.build
    (@BuildStep.begin _ _ [0, 1] [1] none 0 [] [] 7 rfl (by simp)) trivial)
  have hsuite := hbegun.snoc (@WorkshopStep.suite _ _ _ 0 _ ⟨_, List.mem_singleton_self _, rfl⟩ rfl)
  have hread := hsuite.snoc (@WorkshopStep.resolve _ _ _ 0 _ gpu ⟨_, List.mem_singleton_self _, rfl⟩
    rfl hgpu)
  have hmade := hread.snoc (@WorkshopStep.image _ _ _ 0 _ _ gpu _
    (@BuildStep.exit _ _ [0, 1] [1] none 0 [] [] 0 rfl) rfl rfl rfl)
  have hpublished := hmade.snoc (.build
    (@BuildStep.publish _ _ [0, 1] [1] none 0 .succeeded [] [] 8 rfl) trivial)
  have hbegun' := hpublished.snoc (.build
    (@BuildStep.begin _ _ [0, 1] [] (some true) 1 [] [] 9 rfl (by simp)) trivial)
  have hsuite' := hbegun'.snoc (@WorkshopStep.suite _ _ _ 1 _
    ⟨_, List.mem_singleton_self _, rfl⟩ rfl)
  have hread' := hsuite'.snoc (@WorkshopStep.resolve _ _ _ 1 _ kiosk
    ⟨_, List.mem_singleton_self _, rfl⟩ rfl hkiosk)
  have hmade' := hread'.snoc (@WorkshopStep.image _ _ _ 1 _ _ kiosk _
    (@BuildStep.exit _ _ [0, 1] [] (some true) 1 [] [] 0 rfl) rfl rfl rfl)
  have hpublished' := hmade'.snoc (.build
    (@BuildStep.publish _ _ [0, 1] [] (some true) 1 .succeeded [] [] 8 rfl) trivial)
  refine ⟨_, _, hpublished', by simp, images_upToDate hpublished' (fun name out hout => ?_) ?_ _⟩
  · change imagesOf kioskSources (name, "amd64") = _
    unfold imagesOf
    rw [show kioskSources.resolve name = .ok out from hout]
    rfl
  · simp only [List.cons_append, List.nil_append]
    refine Rebuilt.of_one (by simp) ⟨[.build (.acquire rebuildGpu)], rebuildGpu, _, _, rfl, rfl,
      fun name hname => ?_⟩
    rw [show rebuildGpu.profile = "gpu" from rfl, hcascade] at hname
    rcases List.mem_cons.mp hname with rfl | hname
    · exact ⟨0, Nat.le_of_eq rfl, rfl, rfl⟩
    · rw [List.mem_singleton.mp hname]
      exact ⟨1, Nat.zero_le 1, rfl, rfl⟩

end Examples

end Fleetboot
