import Fleetboot.Library.Slices
import Fleetboot.Server.BuildThreads

/-!
# The tail of a build's log

`recent_lines` of a job and `tail_log` of `build_jobs.py`, which `get_build` of `mcp.py` and the
dashboard poll while a thread appends to it.

* `tailed_step`: the ring holds the end of the lines that were written to the job.
* `tailLog_exact_iff`: when a poller gets just the lines that it asked for.
-/

set_option autoImplicit false

namespace Fleetboot

open Python Transition

/-- `deque(maxlen=2000)`. -/
def recentCap : Nat := 2000

/-- Where `_jobs` has an id: a new job takes the id from an old one. -/
def BuildThreads.get (s : BuildThreads) (jobId : String) : Option Nat :=
  (List.range s.jobs.length).reverse.find? fun job => s.jobs[job]?.map BuildJob.jobId == some jobId

/-- `tail_log`. -/
def BuildThreads.tailLog (s : BuildThreads) (jobId : String) (n : Int) : List String :=
  match (s.get jobId).bind fun job => s.jobs[job]? with
  | none => []
  | some b => sliceFrom (-n) b.recentLines

/-- The lines that an event writes to a job. -/
def ThreadEvent.lines (job : Nat) : ThreadEvent → List String
  | write job' (.line text) => if job' = job then [text] else []
  | _ => []

/-- The lines that were written to a job. -/
def linesOf (job : Nat) (events : List ThreadEvent) : List String :=
  events.flatMap (ThreadEvent.lines job)

/-- The lines so far of the job that has an id. -/
def BuildThreads.linesById (s : BuildThreads) (jobId : String) (events : List ThreadEvent) :
    List String :=
  match s.get jobId with
  | none => []
  | some job => linesOf job events

/-- The rings after these events; only jobs that there are can be written to. -/
structure Tailed (events : List ThreadEvent) (s : BuildThreads) : Prop where
  pending : ∀ job ∈ s.pending, job < s.jobs.length
  held : ∀ job b, s.jobs[job]? = some b → b.recentLines = (linesOf job events).rtake recentCap
  fresh : ∀ job, s.jobs.length ≤ job → linesOf job events = []

section Steps

variable {onSuccess : Bool} {s s' : BuildThreads} {event : ThreadEvent} {events : List ThreadEvent}

theorem linesOf_concat (job : Nat) (events : List ThreadEvent) (event : ThreadEvent) :
    linesOf job (events ++ [event]) = linesOf job events ++ event.lines job := by
  rw [linesOf, List.flatMap_append, List.flatMap_singleton, linesOf]

/-- A write changes the ring by the line that it is. -/
theorem recentLines_apply (write : JobWrite) (job : Nat) (b : BuildJob) {lines : List String}
    (h : b.recentLines = lines.rtake recentCap) : (write.apply b).recentLines =
      (lines ++ ThreadEvent.lines job (.write job write)).rtake recentCap := by
  cases write with
  | line text =>
    have hpush : (JobWrite.apply (.line text) b).recentLines =
        pushBounded recentCap b.recentLines text := by
      simp only [JobWrite.apply, BuildJob.appendLine, pushBounded, recentCap]
    rw [hpush, h, rtake_pushBounded, ThreadEvent.lines, if_pos rfl]
  | state _ | startedAt _ | finishedAt _ | exitCode _ | autoRebootArmed _ =>
    exact h.trans (congrArg (List.rtake · recentCap) (List.append_nil lines).symm)

/-- A step that writes to no job and makes no new one. -/
theorem Tailed.unwritten (h : Tailed events s) (hjobs : s'.jobs = s.jobs)
    (hpending : s'.pending ⊆ s.pending) (hlines : ∀ job, event.lines job = []) :
    Tailed (events ++ [event]) s' := by
  have hsame : ∀ job, linesOf job (events ++ [event]) = linesOf job events := fun job => by
    rw [linesOf_concat, hlines, List.append_nil]
  refine ⟨fun job hjob => ?_, fun job b hb => ?_, fun job hlength => ?_⟩
  · rw [hjobs]
    exact h.pending job (hpending hjob)
  · rw [hsame]
    exact h.held job b (hjobs ▸ hb)
  · rw [hsame]
    exact h.fresh job (hjobs ▸ hlength)

theorem created_subset {active : ActiveCall} (h : active ∈ s.calls) :
    active.point.created ⊆ s.pending :=
  fun _ hjob => List.mem_append_left _ (List.mem_flatMap.mpr ⟨active, h, hjob⟩)

theorem ahead_subset {thread : BuildThread} (h : thread ∈ s.threads) : thread.ahead ⊆ s.pending :=
  fun _ hjob => List.mem_append_right _ (List.mem_flatMap.mpr ⟨thread, h, hjob⟩)

theorem pending_subset {jobs : List Nat}
    (hcalls : ∀ active ∈ s.calls, active.point.created ⊆ jobs)
    (hthreads : ∀ thread ∈ s.threads, thread.ahead ⊆ jobs) : s.pending ⊆ jobs := by
  intro job hjob
  rcases List.mem_append.mp hjob with hjob | hjob
  · obtain ⟨active, hactive, hcreated⟩ := List.mem_flatMap.mp hjob
    exact hcalls active hactive hcreated
  · obtain ⟨thread, hthread, hahead⟩ := List.mem_flatMap.mp hjob
    exact hthreads thread hthread hahead

/-- A thread goes on, and writes to no other jobs than before. -/
theorem pending_rethread {thread thread' : BuildThread} {before after : List BuildThread}
    (hthreads : s.threads = before ++ thread :: after) (hahead : thread'.ahead ⊆ thread.ahead) :
    BuildThreads.pending { s with threads := before ++ thread' :: after } ⊆ s.pending := by
  refine pending_subset (fun _ hactive => created_subset hactive) fun other hother => ?_
  rcases eq_or_mem_of_replaced hthreads hother with rfl | hmem
  · exact fun _ hjob => ahead_subset (mem_taken hthreads) (hahead hjob)
  · exact ahead_subset hmem

/-- So does a call. -/
theorem pending_recall {active active' : ActiveCall} {before after : List ActiveCall}
    (hcalls : s.calls = before ++ active :: after) (hcreated : active'.point.created = []) :
    BuildThreads.pending { s with calls := before ++ active' :: after } ⊆ s.pending := by
  refine pending_subset (fun other hother => ?_) fun _ hthread => ahead_subset hthread
  rcases eq_or_mem_of_replaced hcalls hother with rfl | hmem
  · exact hcreated ▸ List.nil_subset _
  · exact created_subset hmem

theorem Writes.ahead_subset {root : Option String} {thread thread' : BuildThread} {job : Nat}
    {write : JobWrite} (h : Writes onSuccess root thread job write thread') :
    thread'.ahead ⊆ thread.ahead := by
  have hahead := h.mem_ahead
  cases h with
  | crash exc htry =>
    intro other hother
    rcases List.mem_cons.mp hother with rfl | hleft
    · exact hahead
    · exact left_subset_ahead hleft
  | publish | explain => exact List.subset_cons_self ..
  | _ => exact List.Subset.refl _

theorem Proceeds.ahead_subset {thread thread' : BuildThread}
    (h : Proceeds onSuccess thread thread') :
    thread'.ahead ⊆ thread.ahead := by
  cases h with
  | judge =>
    unfold pointAfter
    split <;> exact List.Subset.refl _
  | returned | done => exact List.Subset.refl _
  | unwind => exact left_subset_ahead

/-- A new job, which nothing was written to. -/
theorem Tailed.create (h : Tailed events s) {call : BuildCall} {names : List String} {name : String}
    {created : List Nat} {before after : List ActiveCall} (jobId : String)
    (hcalls : s.calls = before ++ ⟨call, .creating names created⟩ :: after) :
    Tailed (events ++ [.create jobId name])
      { s with
        jobs := s.jobs ++ [newJob jobId name call names]
        calls := before ++ ⟨call, .creating names (created ++ [s.jobs.length])⟩ :: after } := by
  have hsame : ∀ job, linesOf job (events ++ [.create jobId name]) = linesOf job events :=
    fun job => (linesOf_concat job events _).trans (List.append_nil _)
  have hlength : (s.jobs ++ [newJob jobId name call names]).length = s.jobs.length + 1 :=
    List.length_append
  have hold : ∀ job ∈ s.pending, job < s.jobs.length + 1 := fun job hjob =>
    Nat.lt_succ_of_lt (h.pending job hjob)
  refine ⟨fun job hjob => ?_, fun job b hb => ?_, fun job hjob => ?_⟩
  · rw [hlength]
    have hsub : job ∈ s.pending ++ [s.jobs.length] := by
      refine pending_subset (fun active hactive => ?_) (fun thread hthread => ?_) hjob
      · rcases eq_or_mem_of_replaced hcalls hactive with rfl | hmem
        · exact List.append_subset.mpr ⟨fun _ hin => List.mem_append_left _
            (created_subset (mem_taken hcalls) hin), List.subset_append_right _ _⟩
        · exact fun _ hin => List.mem_append_left _ (created_subset hmem hin)
      · exact fun _ hin => List.mem_append_left _ (@ahead_subset s thread hthread _ hin)
    rcases List.mem_append.mp hsub with hin | hin
    · exact hold job hin
    · exact List.mem_singleton.mp hin ▸ Nat.lt_succ_self _
  · rw [hsame]
    rcases Nat.lt_or_ge job s.jobs.length with hlt | hge
    · rw [List.getElem?_append_left hlt] at hb
      exact h.held job b hb
    · rw [List.getElem?_append_right hge] at hb
      obtain rfl := List.mem_singleton.mp (List.mem_of_getElem? hb)
      rw [h.fresh job hge]
      rfl
  · rw [hsame]
    exact h.fresh job ((Nat.le_succ _).trans (hlength.ge.trans hjob))

/-- The thread has the jobs that the call has created. -/
theorem pending_spawn {call : BuildCall} {names : List String} {created : List Nat}
    {before after : List ActiveCall}
    (hcalls : s.calls = before ++ ⟨call, .creating names created⟩ :: after) :
    BuildThreads.pending { s with
      calls := before ++ ⟨call, .returning⟩ :: after
      threads := ⟨created, created, none, .between⟩ :: s.threads } ⊆ s.pending := by
  refine pending_subset (fun active hactive => ?_) fun thread hthread => ?_
  · rcases eq_or_mem_of_replaced hcalls hactive with rfl | hmem
    · exact List.nil_subset _
    · exact created_subset hmem
  · rcases List.mem_cons.mp hthread with rfl | hmem
    · exact created_subset (mem_taken hcalls)
    · exact ahead_subset hmem

/-- A write to a job that there is. -/
theorem Tailed.write (h : Tailed events s) {job : Nat} {write : JobWrite}
    {threads : List BuildThread} (hlt : job < s.jobs.length)
    (hpending : BuildThreads.pending { s with threads } ⊆ s.pending) :
    Tailed (events ++ [.write job write])
      { s with jobs := s.jobs.modify job write.apply, threads } := by
  have hlength : (s.jobs.modify job write.apply).length = s.jobs.length := List.length_modify ..
  have hother : ∀ other, job ≠ other →
      linesOf other (events ++ [.write job write]) = linesOf other events := fun other hne => by
    rw [linesOf_concat]
    cases write <;> simp [ThreadEvent.lines, hne]
  refine ⟨fun other hin => ?_, fun other b hb => ?_, fun other hge => ?_⟩
  · rw [hlength]
    exact h.pending other (hpending hin)
  · rw [List.getElem?_modify] at hb
    obtain ⟨old, hold, rfl⟩ := Option.map_eq_some_iff.mp hb
    by_cases hjob : job = other
    · subst hjob
      rw [if_pos rfl, linesOf_concat]
      exact recentLines_apply write job old (h.held job old hold)
    · rw [if_neg hjob, hother other hjob]
      exact h.held other old hold
  · rw [hlength] at hge
    rw [hother other (Nat.ne_of_lt (Nat.lt_of_lt_of_le hlt hge))]
    exact h.fresh other hge

/-- **One step** keeps the rings at the end of the lines. -/
theorem tailed_step (h : Tailed events s) (hstep : ThreadStep onSuccess s event s') :
    Tailed (events ++ [event]) s' := by
  cases hstep with
  | edit entries => exact h.unwritten rfl (List.Subset.refl _) fun _ => rfl
  | @acquire call hlocked =>
    refine h.unwritten rfl (pending_subset (fun active hactive => ?_) fun thread hthread =>
      ahead_subset hthread) fun _ => rfl
    rcases List.mem_cons.mp hactive with rfl | hmem
    · unfold BuildCall.firstPoint
      split <;> exact List.nil_subset _
    · exact created_subset hmem
  | refuse hlocked => exact h.unwritten rfl (List.Subset.refl _) fun _ => rfl
  | read hcalls hreads =>
    exact h.unwritten rfl (pending_recall hcalls hreads.created.2) fun _ => rfl
  | create jobId hcalls hname => exact h.create jobId hcalls
  | spawn hcalls hlength hne => exact h.unwritten rfl (pending_spawn hcalls) fun _ => rfl
  | answer hcalls | raise exc hcalls =>
    refine h.unwritten rfl (pending_subset (fun active hactive => ?_) fun thread hthread =>
      ahead_subset hthread) fun _ => rfl
    exact created_subset (mem_of_mem_rest hcalls hactive)
  | write hthreads hwrites =>
    refine h.write (h.pending _ ?_) (pending_rethread hthreads hwrites.ahead_subset)
    exact ahead_subset (mem_taken hthreads) hwrites.mem_ahead
  | proceed hthreads hproceeds =>
    exact h.unwritten rfl (pending_rethread hthreads hproceeds.ahead_subset) fun _ => rfl
  | release hthreads hleaving =>
    refine h.unwritten rfl (pending_subset (fun active hactive => created_subset hactive)
      fun thread hthread => ?_) fun _ => rfl
    exact ahead_subset (mem_of_mem_rest hthreads hthread)

/-- **After any run**, the ring of a job holds the end of the lines that were written to it. -/
theorem tailed {entries : Option (List ParentEntry)}
    (hrun : Run (ThreadStep onSuccess) (idleThreads entries) events s) : Tailed events s := by
  have hkeep : ∀ s events event s', Tailed events s → ThreadStep onSuccess s event s' →
      Tailed (events ++ [event]) s' := fun _ _ _ _ h hstep => tailed_step h hstep
  refine Run.history (I := fun s events => Tailed events s) hkeep hrun ⟨fun job hjob => ?_,
    fun job b hb => ?_, fun _ _ => rfl⟩
  · cases hjob
  · cases hb

/-- The ring of the job that has an id. -/
theorem Tailed.tailLog (h : Tailed events s) (jobId : String) (n : Int) :
    s.tailLog jobId n = sliceFrom (-n) ((s.linesById jobId events).rtake recentCap) := by
  unfold BuildThreads.tailLog BuildThreads.linesById
  cases s.get jobId with
  | none => simp [sliceFrom, List.rtake]
  | some job =>
    rw [Option.bind_some]
    cases hjob : s.jobs[job]? with
    | none =>
      have hnone := h.fresh job (List.getElem?_eq_none_iff.mp hjob)
      simp [hnone, sliceFrom, List.rtake]
    | some b => exact congrArg (sliceFrom (-n)) (h.held job b hjob)

end Steps

/-- **When a poller gets just the lines that it asked for.** After any run, `tail_log` of a job
with a count that is not negative gives the last lines, as many as were asked for and the ring
holds, if and only if some were asked for or there is none: `[-0:]` is the whole ring. -/
theorem tailLog_exact_iff {onSuccess : Bool} {entries : Option (List ParentEntry)}
    {events : List ThreadEvent} {s : BuildThreads}
    (hrun : Run (ThreadStep onSuccess) (idleThreads entries) events s) (jobId : String) (n : Nat) :
    s.tailLog jobId n = (s.linesById jobId events).rtake
        (min n (min recentCap (s.linesById jobId events).length)) ↔
      0 < n ∨ s.linesById jobId events = [] := by
  have hlast : (s.linesById jobId events).rtake
      (min n (min recentCap (s.linesById jobId events).length)) =
        ((s.linesById jobId events).rtake recentCap).rtake n := by
    rw [rtake_rtake, rtake_min_length]
  have hempty : (s.linesById jobId events).rtake recentCap = [] ↔
      s.linesById jobId events = [] := by
    rw [← List.length_eq_zero_iff, length_rtake, ← List.length_eq_zero_iff, recentCap]
    omega
  rw [(tailed hrun).tailLog jobId n, hlast, sliceFrom_neg_eq_rtake_iff, hempty]

section Examples

/-- A build that has written two lines. -/
theorem kioskLines : ∃ events s, Run (ThreadStep false) (idleThreads none) events s ∧
    s.linesById "0a" events = ["building", "done"] ∧ s.tailLog "0a" 1 = ["done"] ∧
    s.tailLog "0a" 0 = ["building", "done"] := by
  have hlocked := Run.single (@ThreadStep.acquire false (idleThreads none) buildKiosk rfl)
  have hcreated := hlocked.snoc (@ThreadStep.create _ _ buildKiosk ["kiosk"] "kiosk" [] [] [] "0a"
    rfl rfl)
  have hspawned := hcreated.snoc (@ThreadStep.spawn _ _ buildKiosk ["kiosk"] [0] [] [] rfl rfl
    (by simp))
  have hbegun := hspawned.snoc (@ThreadStep.write _ _ _ _ _ _ [] [] rfl (.begin (by simp)))
  have hstarted := hbegun.snoc (@ThreadStep.write _ _ _ _ _ _ [] [] rfl (.start 7))
  have hone := hstarted.snoc (@ThreadStep.write _ _ _ _ _ _ [] [] rfl (.output "building"))
  have htwo := hone.snoc (@ThreadStep.write _ _ _ _ _ _ [] [] rfl (.output "done"))
  refine ⟨_, _, htwo, ?_, ?_, ?_⟩
  all_goals decide +kernel

/-- The last line, when one is asked for. -/
theorem tailLog_exact_kiosk : ∃ events s, Run (ThreadStep false) (idleThreads none) events s ∧
    s.linesById "0a" events = ["building", "done"] ∧
    s.tailLog "0a" (1 : Nat) = (s.linesById "0a" events).rtake
      (min 1 (min recentCap (s.linesById "0a" events).length)) := by
  obtain ⟨events, s, hrun, hlines, -, -⟩ := kioskLines
  exact ⟨events, s, hrun, hlines, (tailLog_exact_iff hrun "0a" 1).mpr (.inl Nat.one_pos)⟩

/-- Both lines, when none is asked for. -/
theorem not_tailLog_exact : ∃ events s, Run (ThreadStep false) (idleThreads none) events s ∧
    s.tailLog "0a" (0 : Nat) ≠ (s.linesById "0a" events).rtake
      (min 0 (min recentCap (s.linesById "0a" events).length)) := by
  obtain ⟨events, s, hrun, hlines, -, htail⟩ := kioskLines
  refine ⟨events, s, hrun, fun hexact => ?_⟩
  rw [Nat.zero_min, List.rtake_zero] at hexact
  exact List.cons_ne_nil _ _ (htail.symm.trans hexact)

end Examples

end Fleetboot
