import Fleetboot.Registry.Columns
import Fleetboot.Registry.HardwareReports
import Fleetboot.Server.AutoEnrol
import Fleetboot.Server.ImageBuilds
import Fleetboot.Server.SoftReboot

/-!
# The reboots that a build arms

`_fleet_wide_reboot_on_success` of `app.py`: after a build that asked for it, the thread of the
build reads the machines once and arms the soft reboot of each that runs the image, one call of
the registry after the other. Meanwhile everybody else goes on.

* `pendingReboot_kept`: the calls that may take the flag of a machine down.
* `RolloutStep`: the registry, the build manager and the loops of its callback, interleaved.
* `Recorded.step`: the invariant, what the loops have done so far.
* `ListsOnce.step`: no job has its machines read twice.
* `fleet_armed`: what has happened when a build reads as succeeded.
* `raised_cases`: who has raised a flag.
-/

set_option autoImplicit false

namespace Fleetboot

open Python Relational Transition

/-! ## The flag and the calls -/

section Flag

variable {db db' : Database}

theorem SamePending.of_machine (hmachine : ∀ k, db'.machine k = db.machine k) :
    SamePending db db' := fun k => by rw [hmachine]

/-- The rows of some machines change, but not in the flag. -/
theorem SamePending.of_rows {changes : String → Prop} [DecidablePred changes]
    {f : Machine → Machine}
    (hmachine : ∀ k, db'.machine k = if changes k then (db.machine k).map f else db.machine k)
    (hpending : ∀ m, (f m).pendingReboot = m.pendingReboot) : SamePending db db' := by
  intro k
  rw [hmachine]
  split
  · rw [Option.map_map]
    exact congrArg (fun g => (db.machine k).map g) (funext hpending)
  · rfl

/-- The calls that write the flag of no machine, and no row whole. -/
def Operation.leavesPending : Operation → Bool
  | enroll _ | remove _ | setPendingReboot _ _ => false
  | _ => true

variable [Unicode] {now : Timestamp}

theorem enrolled_of_pendingReboot {mac : String} (h : pendingReboot db mac = true) :
    (db.lookup mac).isSome = true := by
  unfold pendingReboot at h
  cases hlookup : db.lookup mac with
  | none =>
    rw [hlookup] at h
    cases h
  | some m => rfl

theorem pendingReboot_of_lookup {mac : String} (h : db'.lookup mac = db.lookup mac) :
    pendingReboot db' mac = pendingReboot db mac := by
  unfold pendingReboot
  rw [h]

/-- A machine is enrolled with the flag down. -/
theorem pendingReboot_enroll {args : Enrolment} {mac : String}
    (hmac : normaliseMac mac = normaliseMac args.mac) (h : pendingReboot db mac = false) :
    pendingReboot (enroll now args db).db mac = false := by
  have hrow : ∀ scratch, pendingReboot (db.replaceMachine (args.row scratch now)) mac = false := by
    intro scratch
    rw [pendingReboot, Database.lookup, hmac, Database.machine_replaceMachine]
    rw [if_pos (show normaliseMac args.mac = (args.row scratch now).mac from rfl)]
    rfl
  have henrol := enroll_cases now args db
  generalize enroll now args db = out at henrol
  cases henrol with
  | refused => exact h
  | @again scratch previous _ _ =>
    exact ((samePending_updateMachine _ _ (CarriedColumns.select previous).assign
      (CarriedColumns.mac_assign _) fun _ => rfl).pendingReboot_eq mac).trans (hrow scratch)
  | @new scratch db' _ _ hinserted =>
    exact (pendingReboot_of_lookup (hinserted.machine _)).trans (hrow scratch)
  | @orphan scratch _ _ _ _ => exact hrow scratch

variable [IpAddress]

theorem samePending_rename (id : Nat) (req : RuleRequest) :
    SamePending db (updateAutoEnrolRule id req db).db := by
  cases hchecked : req.check with
  | error err =>
    rw [updateAutoEnrolRule, hchecked]
    exact .refl db
  | ok checked =>
    cases hrule : getAutoEnrolRule db id with
    | none =>
      rw [updateAutoEnrolRule, hchecked]
      dsimp only
      rw [hrule]
      exact .refl db
    | some rule =>
      refine @SamePending.of_rows _ _ (fun _ => True) _ (carryName rule.name req.name)
        (fun k => ?_) fun m => ?_
      · rw [if_pos trivial, (updateAutoEnrolRule_of_checked hchecked hrule).1]
      · unfold carryName
        split
        · rfl
        · split <;> rfl

/-- **The other calls** leave every flag alone. -/
theorem samePending_run {op : Operation} (hrun : HasRun db) (hop : op.leavesPending = true) :
    SamePending db (op.run now db).db := by
  cases op with
  | reopen =>
    rw [Operation.run, openRegistry_of_hasRun now hrun]
    exact .of_machine fun _ => rfl
  | reserve req =>
    rw [Operation.run, Outcome.db_map]
    have h := reserve_cases now req db
    generalize reserve now req db = out at h
    cases h with
    | refused => exact .refl db
    | overlong => exact .of_machine fun _ => rfl
    | leased _ _ hleased => exact .of_rows hleased.machine fun _ => rfl
  | renew mac ttlSeconds =>
    rw [Operation.run, Outcome.db_map]
    rcases renew_cases now mac ttlSeconds db with ⟨err, hrenew, -⟩ | ⟨-, hrenew⟩
    · rw [hrenew]
      exact .refl db
    · rw [hrenew]
      exact .of_machine fun _ => rfl
  | release macs holder => exact .of_machine (machine_releaseTargets _ db)
  | pin req =>
    rw [Operation.run, Outcome.db_map]
    rcases pin_cases now req db with
      ⟨-, message, hpin⟩ | ⟨-, hpin⟩ | ⟨m, db', -, -, hpinned, hpin⟩
    · rw [hpin]
      exact .refl db
    · rw [hpin]
      exact .refl db
    · rw [hpin]
      exact .of_rows hpinned.machine fun _ => rfl
  | releaseToPool mac => exact .of_machine fun _ => rfl
  | reapExpired =>
    obtain ⟨db', hreap, hreleased⟩ := reapExpired_effect now db
    rw [Operation.run, Outcome.db_map, hreap]
    exact .of_machine hreleased.machine
  | setProfile mac profileName =>
    simp only [Operation.run, Outcome.db_map, setProfile]
    split
    · exact .refl db
    · dsimp only
      exact samePending_updateMachine _ _ _ _ fun _ => rfl
  | updateHostname mac hostname =>
    simp only [Operation.run, Outcome.done, updateHostname]
    split
    · exact .refl db
    · exact samePending_updateMachine _ _ _ _ fun _ => rfl
  | updateLastIp mac ip =>
    simp only [Operation.run, Outcome.done]
    exact samePending_updateLastIp now mac ip db
  | updateBootVersion mac version =>
    simp only [Operation.run, Outcome.done]
    exact samePending_updateBootVersion now mac version db
  | updateDiagnostics mac text =>
    simp only [Operation.run, Outcome.done]
    exact samePending_updateDiagnostics now mac text db
  | updateHardware mac hardware =>
    simp only [Operation.run, Outcome.done, updateHardware]
    exact samePending_updateMachine _ _ _ _ fun _ => rfl
  | setPowerCommand mac action command =>
    simp only [Operation.run, Outcome.done, setPowerCommand]
    refine samePending_updateMachine _ _ _ _ fun m => ?_
    cases action <;> rfl
  | setPduAlias mac pduAlias =>
    simp only [Operation.run, Outcome.done, setPduAlias]
    exact samePending_updateMachine _ _ _ _ fun _ => rfl
  | setPdudaemonHost host =>
    simp only [Operation.run, Outcome.done, setSetting]
    split <;> exact .of_machine fun _ => rfl
  | logBootEvent mac state detail => exact samePending_logBootEvent now mac state detail db
  | addAutoEnrolRule req =>
    show SamePending db (addAutoEnrolRule now req db).db
    rw [addAutoEnrolRule]
    split
    · exact .refl db
    · dsimp only
      split <;> exact .of_machine fun _ => rfl
  | updateAutoEnrolRule id req => exact samePending_rename id req
  | removeAutoEnrolRule id => exact .of_machine fun _ => rfl
  | mint token mac =>
    simp only [Operation.run, Outcome.db_map, mint]
    split <;> exact .of_machine fun _ => rfl
  | recordState token state =>
    simp only [Operation.run]
    cases hrecord : recordState now token state db with
    | none => exact .refl db
    | some result =>
      obtain ⟨row, -, hrow⟩ := Option.map_eq_some_iff.mp hrecord
      obtain rfl := hrow
      exact .of_machine fun _ => rfl
  | endSession token => exact .of_machine fun _ => rfl
  | enroll | remove | setPendingReboot => cases hop

/-- The call may take the flag of a MAC down. -/
def Operation.lowers (mac : String) : Operation → Bool
  | enroll args => normaliseMac args.mac == normaliseMac mac
  | remove mac' => normaliseMac mac' == normaliseMac mac
  | setPendingReboot mac' pending => !pending && normaliseMac mac' == normaliseMac mac
  | _ => false

/-- The call puts it up, where the machine is enrolled. -/
def Operation.raises (mac : String) : Operation → Bool
  | setPendingReboot mac' pending => pending && normaliseMac mac' == normaliseMac mac
  | _ => false

/-- **A flag stays up** until a call takes it down. -/
theorem pendingReboot_kept {op : Operation} {mac : String} (hrun : HasRun db)
    (h : pendingReboot db mac = true) (hop : op.lowers mac = false) :
    pendingReboot (op.run now db).db mac = true := by
  cases op with
  | enroll args =>
    have hne : normaliseMac mac ≠ normaliseMac args.mac := (beq_eq_false_iff_ne.mp hop).symm
    exact (pendingReboot_of_lookup (machine_enroll_of_ne hne)).trans h
  | remove mac' =>
    have hne : normaliseMac mac ≠ normaliseMac mac' := (beq_eq_false_iff_ne.mp hop).symm
    refine (pendingReboot_of_lookup ?_).trans h
    rw [Operation.run, Outcome.db_map, remove_eq]
    exact (Database.machine_withoutMachine db _ _).trans (if_neg hne)
  | setPendingReboot mac' pending =>
    refine (pendingReboot_setPendingReboot mac mac' pending db).trans ?_
    split
    · rename_i heq
      simp only [Operation.lowers, heq, beq_self_eq_true, Bool.and_true, Bool.not_eq_false'] at hop
      rw [hop, enrolled_of_pendingReboot h]
      rfl
    · exact h
  | _ => exact ((samePending_run hrun rfl).pendingReboot_eq mac).trans h

/-- **A flag stays down** until a call puts it up. -/
theorem raises_of_pendingReboot {op : Operation} {mac : String} (hrun : HasRun db)
    (h : pendingReboot db mac = false) (hafter : pendingReboot (op.run now db).db mac = true) :
    op.raises mac = true := by
  cases op with
  | enroll args =>
    change pendingReboot (enroll now args db).db mac = true at hafter
    by_cases heq : normaliseMac mac = normaliseMac args.mac
    · rw [pendingReboot_enroll heq h] at hafter
      cases hafter
    · rw [pendingReboot_of_lookup (machine_enroll_of_ne heq), h] at hafter
      cases hafter
  | remove mac' =>
    rw [Operation.run, Outcome.db_map, remove_eq, pendingReboot, Database.lookup,
      Database.machine_withoutMachine] at hafter
    split at hafter
    · cases hafter
    · rw [← Database.lookup, ← pendingReboot, h] at hafter
      cases hafter
  | setPendingReboot mac' pending =>
    have hset := (pendingReboot_setPendingReboot mac mac' pending db).symm.trans hafter
    split at hset
    · rename_i heq
      rw [Operation.raises, (Bool.and_eq_true_iff.mp hset).1, heq, beq_self_eq_true]
      rfl
    · rw [h] at hset
      cases hset
  | _ =>
    rw [(samePending_run hrun rfl).pendingReboot_eq, h] at hafter
    cases hafter

end Flag

/-! ## The loop of the callback -/

/-- The test in the loop: the machine runs the image that was built. -/
def BuildJob.runsOn (b : BuildJob) (m : Machine) : Bool :=
  m.profileName == b.profile && decide (m.architecture ∈ architectureAliases b.architecture)

/-- The line that the callback leaves in the log of the job. -/
def BuildJob.sweptLine (b : BuildJob) (armed : Nat) : String :=
  "auto-reboot: armed pending_reboot on " ++ toString armed ++ " machine(s) running " ++
    b.profile ++ "/" ++ b.architecture

/-- The callback runs for the job. -/
def BuildManager.Calls (s : BuildManager) (job : Nat) : Prop :=
  ∃ w ∈ s.workers, w.phase = .calling job

/-- A loop of the callback: the job, the machines left, and how many were armed. -/
structure Sweep where
  job : Nat
  left : List Machine
  armed : Nat

structure Rollout where
  registry : Registry
  builds : BuildManager
  sweeps : List Sweep

inductive RolloutEvent
  /-- A call of the registry that is not the callback's. -/
  | call (call : Call)
  | build (event : BuildEvent)
  | list (job : Nat) (machines : List Machine)
  | pass (job : Nat) (m : Machine)
  | arm (job : Nat) (m : Machine) (call : Call)

/-- The callback returns, or raises. -/
def BuildEvent.endsCallback : BuildEvent → Bool
  | callReturned .. | callFailed .. => true
  | _ => false

section Steps

variable [Unicode] [IpAddress]

/-- One step of the callback, of the rest of a build, or of somebody else. -/
inductive RolloutStep (s : Rollout) : RolloutEvent → Rollout → Prop
  | call {call : Call} {registry : Registry} : Step s.registry call registry →
      RolloutStep s (.call call) { s with registry }
  | build {event : BuildEvent} {builds : BuildManager} : event.endsCallback = false →
      BuildStep true s.builds event builds → RolloutStep s (.build event) { s with builds }
  -- `if not job.auto_reboot: return`
  | unasked {job : Nat} {b : BuildJob} {builds : BuildManager} :
      s.builds.jobs[job]? = some b → b.autoReboot = false →
      BuildStep true s.builds (.callReturned job none none) builds →
      RolloutStep s (.build (.callReturned job none none)) { s with builds }
  | list {job : Nat} {b : BuildJob} : s.builds.Calls job → s.builds.jobs[job]? = some b →
      b.autoReboot = true → (∀ sweep ∈ s.sweeps, sweep.job ≠ job) →
      RolloutStep s (.list job s.registry.db.listAll)
        { s with sweeps := ⟨job, s.registry.db.listAll, 0⟩ :: s.sweeps }
  | pass {job armed : Nat} {b : BuildJob} {m : Machine} {left : List Machine}
      {before after : List Sweep} : s.sweeps = before ++ ⟨job, m :: left, armed⟩ :: after →
      s.builds.jobs[job]? = some b → b.runsOn m = false →
      RolloutStep s (.pass job m) { s with sweeps := before ++ ⟨job, left, armed⟩ :: after }
  | arm {job armed : Nat} {b : BuildJob} {m : Machine} {left : List Machine} {call : Call}
      {registry : Registry} {before after : List Sweep} :
      s.sweeps = before ++ ⟨job, m :: left, armed⟩ :: after →
      s.builds.jobs[job]? = some b → b.runsOn m = true →
      call.op = .setPendingReboot m.mac true → Step s.registry call registry →
      RolloutStep s (.arm job m call)
        { s with registry, sweeps := before ++ ⟨job, left, armed + 1⟩ :: after }
  | finish {job armed : Nat} {b : BuildJob} {builds : BuildManager} {before after : List Sweep} :
      s.sweeps = before ++ ⟨job, [], armed⟩ :: after → s.builds.jobs[job]? = some b →
      BuildStep true s.builds (.callReturned job (some armed) (some (b.sweptLine armed))) builds →
      RolloutStep s (.build (.callReturned job (some armed) (some (b.sweptLine armed))))
        { s with builds, sweeps := before ++ after }
  -- Any statement of the callback may raise.
  | fail {job : Nat} {exc : String} {builds : BuildManager} :
      BuildStep true s.builds (.callFailed job exc) builds →
      RolloutStep s (.build (.callFailed job exc))
        { s with builds, sweeps := s.sweeps.filter fun sweep => sweep.job != job }

end Steps

/-! ## What a step of the manager leaves on the jobs -/

/-- What the request was. -/
def BuildJob.asked (b : BuildJob) : String × String × Bool :=
  (b.profile, b.architecture, b.autoReboot)

theorem runsOn_of_asked {b b' : BuildJob} (h : b'.asked = b.asked) (m : Machine) :
    b'.runsOn m = b.runsOn m := by
  obtain ⟨hprofile, hrest⟩ := Prod.mk.inj h
  unfold BuildJob.runsOn
  rw [hprofile, (Prod.mk.inj hrest).1]

theorem autoReboot_of_asked {b b' : BuildJob} (h : b'.asked = b.asked) :
    b'.autoReboot = b.autoReboot :=
  (Prod.mk.inj (Prod.mk.inj h).2).2

theorem asked_appendLine (line : String) (b : BuildJob) : (b.appendLine line).asked = b.asked := by
  simp only [BuildJob.appendLine, BuildJob.asked]

theorem autoRebootArmed_appendLine (line : String) (b : BuildJob) :
    (b.appendLine line).autoRebootArmed = b.autoRebootArmed := by
  simp only [BuildJob.appendLine]

section Jobs

variable {onSuccess : Bool} {s s' : BuildManager} {event : BuildEvent} {job : Nat}

/-- What the jobs are after a step: there is a new one, or one was written to. Only the return of
the callback writes what it has armed. -/
theorem jobs_written (hstep : BuildStep onSuccess s event s') :
    (∃ b : BuildJob, b.autoRebootArmed = none ∧ s'.jobs = s.jobs ++ [b]) ∨
      ∃ k f, s'.jobs = s.jobs.modify k f ∧ (∀ b, (f b).asked = b.asked) ∧
        ((∀ b, (f b).autoRebootArmed = b.autoRebootArmed) ∨
          ∃ armed line, event = .callReturned k armed line ∧ f = .swept armed line) := by
  have hsame : s.jobs = s.jobs.modify 0 id := (List.modify_id ..).symm
  cases hstep with
  | create jobId hr hname => exact .inl ⟨_, rfl, rfl⟩
  | acquire | refuse | compute | spawn | abandon | call | release =>
    exact .inr ⟨0, id, hsame, fun _ => rfl, .inl fun _ => rfl⟩
  | begin | exit | publish =>
    exact .inr ⟨_, _, rfl, fun b => rfl, .inl fun b => rfl⟩
  | output | crash | callFailed | skip =>
    refine .inr ⟨_, _, rfl, fun b => ?_, .inl fun b => ?_⟩
    · simp [BuildJob.crashed, BuildJob.callbackFailed, BuildJob.skip, BuildJob.appendLine,
        BuildJob.asked]
    · simp [BuildJob.crashed, BuildJob.callbackFailed, BuildJob.skip, BuildJob.appendLine]
  | callReturned armed line hw =>
    refine .inr ⟨_, _, rfl, fun b => ?_, .inr ⟨armed, line, rfl, rfl⟩⟩
    cases line with
    | none => rfl
    | some line => exact asked_appendLine _ _

theorem autoRebootArmed_swept (armed : Option Nat) (line : Option String) (b : BuildJob) :
    (b.swept armed line).autoRebootArmed = armed.or b.autoRebootArmed := by
  cases line with
  | none => rfl
  | some line => exact autoRebootArmed_appendLine _ _

/-- A job stays what it was asked to be. -/
theorem job_kept (hstep : BuildStep onSuccess s event s') {b : BuildJob}
    (hb : s.jobs[job]? = some b) : ∃ b', s'.jobs[job]? = some b' ∧ b'.asked = b.asked ∧
      (b.autoRebootArmed.isSome = true → b'.autoRebootArmed.isSome = true) := by
  rcases jobs_written hstep with ⟨new, -, hjobs⟩ | ⟨k, f, hjobs, hasked, harmed⟩
  · refine ⟨b, ?_, rfl, id⟩
    rw [hjobs, List.getElem?_append_left (List.getElem?_eq_some_iff.mp hb).1, hb]
  · rw [hjobs, List.getElem?_modify, hb]
    refine ⟨_, rfl, ?_, fun hsome => ?_⟩
    · split
      · exact hasked b
      · rfl
    · split
      · rcases harmed with hsame | ⟨armed, line, -, rfl⟩
        · rw [hsame, hsome]
        · rw [autoRebootArmed_swept, Option.isSome_or, hsome, Bool.or_true]
      · exact hsome

/-- What a job says was armed it has from before, or the callback has just returned it. -/
theorem armed_step (hstep : BuildStep onSuccess s event s') {b' : BuildJob} {n : Nat}
    (hb' : s'.jobs[job]? = some b') (hn : b'.autoRebootArmed = some n) :
    (∃ b, s.jobs[job]? = some b ∧ b.autoRebootArmed = some n) ∨
      ∃ line, event = .callReturned job (some n) line := by
  rcases jobs_written hstep with ⟨new, hnone, hjobs⟩ | ⟨k, f, hjobs, -, harmed⟩
  · left
    rw [hjobs, List.getElem?_append] at hb'
    split at hb'
    · exact ⟨b', hb', hn⟩
    · obtain rfl := List.mem_singleton.mp (List.mem_of_getElem? hb')
      rw [hnone] at hn
      cases hn
  · rw [hjobs, List.getElem?_modify] at hb'
    obtain ⟨b, hb, rfl⟩ := Option.map_eq_some_iff.mp hb'
    by_cases hk : k = job
    · subst hk
      rw [if_pos rfl] at hn
      rcases harmed with hsame | ⟨armed, line, hevent, rfl⟩
      · exact .inl ⟨b, hb, (hsame b).symm.trans hn⟩
      · rw [autoRebootArmed_swept] at hn
        cases armed with
        | none => exact .inl ⟨b, hb, hn⟩
        | some armed =>
          obtain rfl := Option.some.inj hn
          exact .inr ⟨line, hevent⟩
    · rw [if_neg hk] at hn
      exact .inl ⟨b, hb, hn⟩

theorem calls_of_work {w w' : Worker} {before after : List Worker}
    (hw : s.workers = before ++ w :: after) (hw' : s'.workers = before ++ w' :: after)
    (hne : w.phase ≠ .calling job) (h : s.Calls job) : s'.Calls job := by
  obtain ⟨v, hv, hphase⟩ := h
  refine ⟨v, ?_, hphase⟩
  rw [hw] at hv
  rw [hw']
  rcases List.mem_append.mp hv with hv | hv
  · exact List.mem_append_left _ hv
  · rcases List.mem_cons.mp hv with rfl | hv
    · exact absurd hphase hne
    · exact List.mem_append_right _ (List.mem_cons_of_mem _ hv)

/-- A call of the callback ends by its return or by what it raises. -/
theorem calls_step (hstep : BuildStep onSuccess s event s') (h : s.Calls job) :
    s'.Calls job ∨ (∃ armed line, event = .callReturned job armed line) ∨
      ∃ exc, event = .callFailed job exc := by
  cases hstep with
  | acquire | refuse | compute | create | abandon | output => exact .inl h
  | spawn _ _ _ =>
    obtain ⟨w, hw, hphase⟩ := h
    exact .inl ⟨w, List.mem_cons_of_mem _ hw, hphase⟩
  | begin _ hw _ => exact .inl (calls_of_work hw rfl (by simp) h)
  | exit code hw => exact .inl (calls_of_work hw rfl (by simp) h)
  | crash exc hw => exact .inl (calls_of_work hw rfl (by simp) h)
  | call hw => exact .inl (calls_of_work hw rfl (by simp) h)
  | publish now hw => exact .inl (calls_of_work hw rfl (by simp) h)
  | skip now hw _ _ => exact .inl (calls_of_work hw rfl (by simp) h)
  | @callReturned _ _ _ k _ _ armed line hw =>
    by_cases hk : k = job
    · exact .inr (.inl ⟨armed, line, by rw [hk]⟩)
    · exact .inl (calls_of_work hw rfl (by simpa using hk) h)
  | @callFailed _ _ _ k _ _ exc hw =>
    by_cases hk : k = job
    · exact .inr (.inr ⟨exc, by rw [hk]⟩)
    · exact .inl (calls_of_work hw rfl (by simpa using hk) h)
  | release hw =>
    obtain ⟨v, hv, hphase⟩ := h
    refine .inl ⟨v, ?_, hphase⟩
    rcases List.mem_append.mp (hw ▸ hv) with hv | hv
    · exact List.mem_append_left _ hv
    · rcases List.mem_cons.mp hv with rfl | hv
      · cases hphase
      · exact List.mem_append_right _ hv

theorem called_step (hstep : BuildStep onSuccess s event s') (h : job ∈ s'.called) :
    job ∈ s.called ∨ s'.Calls job := by
  cases hstep with
  | call hw =>
    rcases List.mem_cons.mp h with rfl | hold
    · exact .inr ⟨_, List.mem_append_right _ (List.mem_cons_self ..), rfl⟩
    · exact .inl hold
  | _ => exact .inl h

theorem exited_of_calls (h : s.Calls job) : s.Exited job := by
  obtain ⟨w, hw, hphase⟩ := h
  exact .inr ⟨w, hw, .inr (.inl hphase)⟩

theorem called_kept (hstep : BuildStep onSuccess s event s') (h : job ∈ s.called) :
    job ∈ s'.called := by
  cases hstep with
  | call _ => exact List.mem_cons_of_mem _ h
  | _ => exact h

theorem called_of_calls (horderly : Orderly true s) (h : s.Calls job) : job ∈ s.called := by
  obtain ⟨w, hw, hphase⟩ := h
  obtain ⟨-, done, hsound⟩ := horderly.workers w hw
  have hcount := (hsound.current job (by rw [hphase]; exact .head _)).2
  rw [hphase] at hcount
  exact List.count_pos_iff.mp (by rw [hcount]; exact Nat.one_pos)

/-- After a step of the only thread, the callback runs where that thread is. -/
theorem phase_of_calls (horderly : Orderly true s) {w w' : Worker} {before after : List Worker}
    (hw : s.workers = before ++ w :: after) (hw' : s'.workers = before ++ w' :: after)
    (h : s'.Calls job) : w'.phase = .calling job := by
  obtain ⟨rfl, rfl, -⟩ := horderly.alone_worker hw
  obtain ⟨v, hv, hphase⟩ := h
  rw [hw'] at hv
  obtain rfl := List.mem_singleton.mp hv
  exact hphase

/-- A callback is called once: one that has been called and runs was running before, and the step
does not end it. -/
theorem calls_before (horderly : Orderly true s) (hstep : BuildStep true s event s')
    (hcalled : job ∈ s.called) (h : s'.Calls job) :
    s.Calls job ∧ (∀ armed line, event ≠ .callReturned job armed line) ∧
      ∀ exc, event ≠ .callFailed job exc := by
  cases hstep with
  | acquire | refuse | compute | create | abandon | output =>
    exact ⟨h, by simp, by simp⟩
  | spawn _ _ _ =>
    obtain ⟨w, hw, hphase⟩ := h
    rcases List.mem_cons.mp hw with rfl | hw
    · cases hphase
    · exact ⟨⟨w, hw, hphase⟩, by simp, by simp⟩
  | begin _ hw _ => cases phase_of_calls horderly hw rfl h
  | @exit _ _ _ k _ _ code hw =>
    have hphase := phase_of_calls horderly hw rfl h
    simp only [afterBuild] at hphase
    split at hphase <;> cases hphase
  | crash exc hw => cases phase_of_calls horderly hw rfl h
  | @call _ _ _ k _ _ hw =>
    obtain rfl := Phase.calling.inj (phase_of_calls horderly hw rfl h)
    -- The job has not been the callback's before.
    obtain ⟨-, done, hsound⟩ := horderly.workers _ (mem_taken hw)
    have hcount : s.called.count k = 0 := (hsound.current k (.head _)).2
    exact absurd hcalled (List.count_eq_zero.mp hcount)
  | callReturned armed line hw => cases phase_of_calls horderly hw rfl h
  | callFailed exc hw => cases phase_of_calls horderly hw rfl h
  | publish now hw => cases phase_of_calls horderly hw rfl h
  | skip now hw _ _ => cases phase_of_calls horderly hw rfl h
  | release hw =>
    obtain ⟨w, hmem, hphase⟩ := h
    exact ⟨⟨w, mem_of_mem_rest hw hmem, hphase⟩, by simp, by simp⟩

end Jobs

/-! ## What the loops have done -/

/-- The callback of a job has read the machines, after the job was built, and has been through the
first of them: `armed` of these were to be armed, and were. -/
def Swept (builds : BuildManager) (events : List RolloutEvent) (job : Nat)
    (seen left : List Machine) (armed : Nat) : Prop :=
  ∃ b before after, builds.jobs[job]? = some b ∧ b.autoReboot = true ∧
    events = before ++ .list job (seen ++ left) :: after ∧
    .build (.exit job 0) ∈ before ∧ armed = seen.countP b.runsOn ∧
    ∀ m ∈ seen, b.runsOn m = true → ∃ call, .arm job m call ∈ after

/-- The callback of a job has read a machine that runs the image, and has armed it then. -/
def HasArmed (builds : BuildManager) (events : List RolloutEvent) (job : Nat) (m : Machine) :
    Prop :=
  ∃ b before machines after, builds.jobs[job]? = some b ∧ b.autoReboot = true ∧
    events = before ++ .list job machines :: after ∧ .build (.exit job 0) ∈ before ∧
    m ∈ machines ∧ b.runsOn m = true ∧ ∃ call, .arm job m call ∈ after

/-- The callback of a job has ended, and what it has armed is on the job. -/
def Reported (builds : BuildManager) (events : List RolloutEvent) (job : Nat) : Prop :=
  (∃ b, builds.jobs[job]? = some b ∧ (b.autoReboot = true → b.autoRebootArmed.isSome = true)) ∨
    ∃ exc, .build (.callFailed job exc) ∈ events

section Swept

variable {builds builds' : BuildManager} {events : List RolloutEvent} {job armed : Nat}
  {seen left : List Machine} {m : Machine} {e : BuildEvent}

theorem Swept.grow (h : Swept builds events job seen left armed) (event : RolloutEvent) :
    Swept builds (events ++ [event]) job seen left armed := by
  obtain ⟨b, before, after, hb, hauto, rfl, hexit, hcount, harms⟩ := h
  refine ⟨b, before, after ++ [event], hb, hauto, by simp, hexit, hcount, fun m hm hruns => ?_⟩
  obtain ⟨call, hcall⟩ := harms m hm hruns
  exact ⟨call, List.mem_append_left _ hcall⟩

theorem Swept.step (h : Swept builds events job seen left armed)
    (hstep : BuildStep true builds e builds') : Swept builds' events job seen left armed := by
  obtain ⟨b, before, after, hb, hauto, rfl, hexit, hcount, harms⟩ := h
  obtain ⟨b', hb', hasked, -⟩ := job_kept hstep hb
  have hruns : b'.runsOn = b.runsOn := funext (runsOn_of_asked hasked)
  refine ⟨b', before, after, hb', ?_, rfl, hexit, ?_, ?_⟩
  · exact (autoReboot_of_asked hasked).trans hauto
  · rw [hruns]
    exact hcount
  · rw [hruns]
    exact harms

theorem Swept.pass (h : Swept builds events job seen (m :: left) armed) {b : BuildJob}
    (hb : builds.jobs[job]? = some b) (hruns : b.runsOn m = false) (event : RolloutEvent) :
    Swept builds (events ++ [event]) job (seen ++ [m]) left armed := by
  obtain ⟨b', before, after, hb', hauto, rfl, hexit, hcount, harms⟩ := h
  obtain rfl := Option.some.inj (hb.symm.trans hb')
  refine ⟨b, before, after ++ [event], hb, hauto, by simp, hexit, ?_, fun m' hm' hruns' => ?_⟩
  · rw [List.countP_append, ← hcount, List.countP_singleton, hruns]
    rfl
  · rcases List.mem_append.mp hm' with hm' | hm'
    · obtain ⟨call, hcall⟩ := harms m' hm' hruns'
      exact ⟨call, List.mem_append_left _ hcall⟩
    · rw [List.mem_singleton.mp hm', hruns] at hruns'
      cases hruns'

theorem Swept.arm (h : Swept builds events job seen (m :: left) armed) {b : BuildJob}
    (hb : builds.jobs[job]? = some b) (hruns : b.runsOn m = true) (call : Call) :
    Swept builds (events ++ [.arm job m call]) job (seen ++ [m]) left (armed + 1) ∧
      HasArmed builds (events ++ [.arm job m call]) job m := by
  obtain ⟨b', before, after, hb', hauto, rfl, hexit, hcount, harms⟩ := h
  obtain rfl := Option.some.inj (hb.symm.trans hb')
  refine ⟨⟨b, before, after ++ [.arm job m call], hb, hauto, by simp, hexit, ?_,
    fun m' hm' hruns' => ?_⟩, b, before, seen ++ m :: left, after ++ [.arm job m call], hb, hauto,
    by simp, hexit, by simp, hruns, call, by simp⟩
  · rw [List.countP_append, ← hcount, List.countP_singleton, hruns]
    rfl
  · rcases List.mem_append.mp hm' with hm' | hm'
    · obtain ⟨call', hcall'⟩ := harms m' hm' hruns'
      exact ⟨call', List.mem_append_left _ hcall'⟩
    · obtain rfl := List.mem_singleton.mp hm'
      exact ⟨call, List.mem_append_right _ (List.mem_singleton_self _)⟩

theorem HasArmed.grow (h : HasArmed builds events job m) (event : RolloutEvent) :
    HasArmed builds (events ++ [event]) job m := by
  obtain ⟨b, before, machines, after, hb, hauto, rfl, hexit, hm, hruns, call, hcall⟩ := h
  exact ⟨b, before, machines, after ++ [event], hb, hauto, by simp, hexit, hm, hruns, call,
    List.mem_append_left _ hcall⟩

theorem HasArmed.step (h : HasArmed builds events job m) (hstep : BuildStep true builds e builds') :
    HasArmed builds' events job m := by
  obtain ⟨b, before, machines, after, hb, hauto, rfl, hexit, hm, hruns, harm⟩ := h
  obtain ⟨b', hb', hasked, -⟩ := job_kept hstep hb
  exact ⟨b', before, machines, after, hb', (autoReboot_of_asked hasked).trans hauto, rfl, hexit,
    hm, (runsOn_of_asked hasked m).trans hruns, harm⟩

theorem Reported.grow (h : Reported builds events job) (event : RolloutEvent) :
    Reported builds (events ++ [event]) job :=
  h.imp id fun ⟨exc, hexc⟩ => ⟨exc, List.mem_append_left _ hexc⟩

theorem Reported.step (h : Reported builds events job) (hstep : BuildStep true builds e builds') :
    Reported builds' events job := by
  rcases h with ⟨b, hb, harmed⟩ | hfailed
  · obtain ⟨b', hb', hasked, hsome⟩ := job_kept hstep hb
    refine .inl ⟨b', hb', fun hauto => hsome (harmed ?_)⟩
    exact (autoReboot_of_asked hasked).symm.trans hauto
  · exact .inr hfailed

/-- A callback that returns has left on the job what it has armed. -/
theorem reported_of_returned {count : Option Nat} {line : Option String}
    (hstep : BuildStep true builds (.callReturned job count line) builds') {b : BuildJob}
    (hb : builds.jobs[job]? = some b) (hcount : b.autoReboot = true → count.isSome = true)
    (events : List RolloutEvent) : Reported builds' events job := by
  obtain ⟨b', hb', hasked, -⟩ := job_kept hstep hb
  refine .inl ⟨b', hb', fun hauto => ?_⟩
  have hsome := hcount ((autoReboot_of_asked hasked).symm.trans hauto)
  cases hstep with
  | callReturned _ _ hw =>
    have hjob : (builds.jobs.modify job (.swept count line))[job]? = some b' := hb'
    rw [List.getElem?_modify_eq, hb] at hjob
    obtain rfl := Option.some.inj hjob
    rw [autoRebootArmed_swept, Option.isSome_or, hsome]
    rfl

end Swept

/-- What the events so far say of the loops, of the jobs and of the machines that were armed. -/
structure Recorded (s : Rollout) (events : List RolloutEvent) : Prop where
  orderly : Orderly true s.builds
  exits : ∀ job, s.builds.Exited job → .build (.exit job 0) ∈ events
  called : ∀ job ∈ s.builds.called, s.builds.Calls job ∨ Reported s.builds events job
  sweeps : ∀ sweep ∈ s.sweeps,
    ∃ seen, Swept s.builds events sweep.job seen sweep.left sweep.armed
  armed : ∀ job b n, s.builds.jobs[job]? = some b → b.autoRebootArmed = some n →
    ∃ machines, Swept s.builds events job machines [] n
  arms : ∀ job m call, .arm job m call ∈ events → HasArmed s.builds events job m

namespace Recorded

variable {s : Rollout} {events : List RolloutEvent}

/-- A step that is not the manager's. -/
theorem loop (h : Recorded s events) {registry : Registry} {sweeps : List Sweep}
    {event : RolloutEvent}
    (hsweeps : ∀ sweep ∈ sweeps, (∃ seen, Swept s.builds (events ++ [event]) sweep.job seen
      sweep.left sweep.armed) ∨ sweep ∈ s.sweeps)
    (harms : ∀ job m call, event = .arm job m call → HasArmed s.builds (events ++ [event]) job m) :
    Recorded ⟨registry, s.builds, sweeps⟩ (events ++ [event]) :=
  { orderly := h.orderly
    exits := fun job hjob => List.mem_append_left _ (h.exits job hjob)
    called := fun job hjob => (h.called job hjob).imp id fun hreported => hreported.grow event
    sweeps := fun sweep hsweep => (hsweeps sweep hsweep).elim id fun hold =>
      (h.sweeps sweep hold).imp fun _ hswept => hswept.grow event
    armed := fun job b n hb hn => (h.armed job b n hb hn).imp fun _ hswept => hswept.grow event
    arms := fun job m call hcall => (List.mem_append.mp hcall).elim
      (fun hold => (h.arms job m call hold).grow event)
      fun hnew => harms job m call (List.mem_singleton.mp hnew).symm }

/-- A step of the manager. -/
theorem work (h : Recorded s events) {e : BuildEvent} {builds : BuildManager}
    (hstep : BuildStep true s.builds e builds) {sweeps : List Sweep} (hsweeps : sweeps ⊆ s.sweeps)
    (hreturned : ∀ job n line, e = .callReturned job (some n) line →
      ∃ machines, Swept s.builds events job machines [] n)
    (hended : ∀ job, (∃ armed line, e = .callReturned job armed line) ∨
      (∃ exc, e = .callFailed job exc) → Reported builds (events ++ [.build e]) job) :
    Recorded ⟨s.registry, builds, sweeps⟩ (events ++ [.build e]) := by
  have hlast : RolloutEvent.build e ∈ events ++ [.build e] := by simp
  refine
    { orderly := h.orderly.step hstep
      exits := fun job hjob => ?_
      called := fun job hjob => ?_
      sweeps := fun sweep hsweep => ?_
      armed := fun job b n hb hn => ?_
      arms := fun job m call hcall => ?_ }
  · rcases exited_step hstep hjob with hold | rfl
    · exact List.mem_append_left _ (h.exits job hold)
    · exact hlast
  · by_cases hcalls : builds.Calls job
    · exact .inl hcalls
    · right
      rcases called_step hstep hjob with hold | hnew
      · rcases h.called job hold with hbefore | hreported
        · exact hended job ((calls_step hstep hbefore).resolve_left hcalls)
        · exact (hreported.step hstep).grow _
      · exact absurd hnew hcalls
  · obtain ⟨seen, hswept⟩ := h.sweeps sweep (hsweeps hsweep)
    exact ⟨seen, (hswept.step hstep).grow _⟩
  · have hswept : ∃ machines, Swept s.builds events job machines [] n := by
      rcases armed_step hstep hb hn with ⟨b', hb', hn'⟩ | ⟨line, hevent⟩
      · exact h.armed job b' n hb' hn'
      · exact hreturned job n line hevent
    obtain ⟨machines, hswept⟩ := hswept
    exact ⟨machines, (hswept.step hstep).grow _⟩
  · rcases List.mem_append.mp hcall with hold | hnew
    · exact ((h.arms job m call hold).step hstep).grow _
    · cases List.mem_singleton.mp hnew

/-- **Every step** keeps the record. -/
theorem step [Unicode] [IpAddress] (h : Recorded s events) {event : RolloutEvent} {s' : Rollout}
    (hstep : RolloutStep s event s') : Recorded s' (events ++ [event]) := by
  cases hstep with
  | call hcall => exact h.loop (fun _ hsweep => .inr hsweep) fun _ _ _ hevent => by cases hevent
  | @build e _ hnot hbuild =>
    refine h.work hbuild (List.Subset.refl _) (fun job n line he => ?_) fun job he => ?_
    · rw [he] at hnot
      cases hnot
    · rcases he with ⟨armed, line, rfl⟩ | ⟨exc, rfl⟩ <;> cases hnot
  | unasked hb hauto hbuild =>
    refine h.work hbuild (List.Subset.refl _) (fun job n line he => by cases he) fun job he => ?_
    rcases he with ⟨armed, line, he⟩ | ⟨exc, he⟩
    · cases he
      exact reported_of_returned hbuild hb (fun hauto' => absurd (hauto.symm.trans hauto')
        Bool.false_ne_true) _
    · cases he
  | @list job b hcalls hb hauto _ =>
    refine h.loop (fun sweep hsweep => ?_) fun _ _ _ hevent => by cases hevent
    rcases List.mem_cons.mp hsweep with rfl | hold
    · exact .inl ⟨[], b, events, [], hb, hauto, rfl, h.exits job (exited_of_calls hcalls), rfl,
        by simp⟩
    · exact .inr hold
  | pass hsweeps hb hruns =>
    refine h.loop (fun sweep hsweep => ?_) fun _ _ _ hevent => by cases hevent
    rcases eq_or_mem_of_replaced hsweeps hsweep with rfl | hold
    · obtain ⟨seen, hswept⟩ := h.sweeps _ (mem_taken hsweeps)
      exact .inl ⟨_, hswept.pass hb hruns _⟩
    · exact .inr hold
  | @arm job armed b m left call registry before after hsweeps hb hruns _ _ =>
    obtain ⟨seen, hswept⟩ := h.sweeps _ (mem_taken hsweeps)
    obtain ⟨hnext, harmed⟩ := hswept.arm hb hruns call
    refine h.loop (fun sweep hsweep => ?_) fun _ _ _ hevent => ?_
    · rcases eq_or_mem_of_replaced hsweeps hsweep with rfl | hold
      · exact .inl ⟨_, hnext⟩
      · exact .inr hold
    · cases hevent
      exact harmed
  | @finish job armed b builds before after hsweeps hb hbuild =>
    obtain ⟨seen, hswept⟩ := h.sweeps _ (mem_taken hsweeps)
    refine h.work hbuild (fun sweep hsweep => mem_of_mem_rest hsweeps hsweep)
      (fun job n line he => ?_) fun job he => ?_
    · cases he
      exact ⟨seen, hswept⟩
    · rcases he with ⟨armed, line, he⟩ | ⟨exc, he⟩
      · cases he
        exact reported_of_returned hbuild hb (fun _ => rfl) _
      · cases he
  | @fail job exc builds hbuild =>
    refine h.work hbuild (fun sweep hsweep => (List.mem_filter.mp hsweep).1)
      (fun job n line he => by cases he) fun job he => ?_
    rcases he with ⟨armed, line, he⟩ | ⟨exc', he⟩
    · cases he
    · cases he
      exact .inr ⟨exc, by simp⟩

end Recorded

/-! ## One listing each -/

/-- The callback of the job reads the machines. -/
def RolloutEvent.lists (job : Nat) : RolloutEvent → Bool
  | list job' _ => job' == job
  | _ => false

/-- A callback has read the machines once at most, and once it has its loop is there for as long
as it runs. -/
structure ListsOnce (s : Rollout) (events : List RolloutEvent) : Prop where
  orderly : Orderly true s.builds
  once : ∀ job, events.countP (RolloutEvent.lists job) ≤ 1
  called : ∀ job, 0 < events.countP (RolloutEvent.lists job) → job ∈ s.builds.called
  looping : ∀ job, 0 < events.countP (RolloutEvent.lists job) → s.builds.Calls job →
    ∃ sweep ∈ s.sweeps, sweep.job = job

/-- The loop goes on with its next machine. -/
theorem exists_replaced {sweeps before after : List Sweep} {a b sweep : Sweep}
    (hsweeps : sweeps = before ++ a :: after) (hjob : b.job = a.job) (h : sweep ∈ sweeps) :
    ∃ sweep' ∈ before ++ b :: after, sweep'.job = sweep.job := by
  rw [hsweeps] at h
  rcases List.mem_append.mp h with h | h
  · exact ⟨sweep, List.mem_append_left _ h, rfl⟩
  · rcases List.mem_cons.mp h with rfl | h
    · exact ⟨b, List.mem_append_right _ (List.mem_cons_self ..), hjob⟩
    · exact ⟨sweep, List.mem_append_right _ (List.mem_cons_of_mem _ h), rfl⟩

namespace ListsOnce

variable {s : Rollout} {events : List RolloutEvent}

theorem countP_snoc {event : RolloutEvent} {job : Nat}
    (hevent : event.lists job = false) :
    (events ++ [event]).countP (RolloutEvent.lists job) =
      events.countP (RolloutEvent.lists job) := by
  rw [List.countP_append, List.countP_singleton, hevent]
  rfl

/-- A step that is not the manager's, and reads no machines. -/
theorem loop (h : ListsOnce s events) {registry : Registry} {sweeps : List Sweep}
    {event : RolloutEvent} (hevent : ∀ job, event.lists job = false)
    (hsweeps : ∀ sweep ∈ s.sweeps, ∃ sweep' ∈ sweeps, sweep'.job = sweep.job) :
    ListsOnce ⟨registry, s.builds, sweeps⟩ (events ++ [event]) := by
  refine
    { orderly := h.orderly
      once := fun job => ?_
      called := fun job hlisted => ?_
      looping := fun job hlisted hcalls => ?_ }
  · rw [countP_snoc (hevent job)]
    exact h.once job
  · rw [countP_snoc (hevent job)] at hlisted
    exact h.called job hlisted
  · rw [countP_snoc (hevent job)] at hlisted
    obtain ⟨sweep, hsweep, rfl⟩ := h.looping job hlisted hcalls
    exact hsweeps sweep hsweep

/-- A step of the manager, which may end a callback and then takes its loop away. -/
theorem work (h : ListsOnce s events) {e : BuildEvent} {builds : BuildManager}
    (hstep : BuildStep true s.builds e builds) {sweeps : List Sweep}
    (hsweeps : ∀ sweep ∈ s.sweeps, (∀ armed line, e ≠ .callReturned sweep.job armed line) →
      (∀ exc, e ≠ .callFailed sweep.job exc) → sweep ∈ sweeps) :
    ListsOnce ⟨s.registry, builds, sweeps⟩ (events ++ [.build e]) := by
  refine
    { orderly := h.orderly.step hstep
      once := fun job => ?_
      called := fun job hlisted => ?_
      looping := fun job hlisted hcalls => ?_ }
  · rw [countP_snoc rfl]
    exact h.once job
  · rw [countP_snoc rfl] at hlisted
    exact called_kept hstep (h.called job hlisted)
  · rw [countP_snoc rfl] at hlisted
    obtain ⟨hbefore, hreturned, hfailed⟩ :=
      calls_before h.orderly hstep (h.called job hlisted) hcalls
    obtain ⟨sweep, hsweep, rfl⟩ := h.looping job hlisted hbefore
    exact ⟨sweep, hsweeps sweep hsweep hreturned hfailed, rfl⟩

/-- **Every step** keeps it. -/
theorem step [Unicode] [IpAddress] (h : ListsOnce s events) {event : RolloutEvent} {s' : Rollout}
    (hstep : RolloutStep s event s') : ListsOnce s' (events ++ [event]) := by
  cases hstep with
  | call _ => exact h.loop (fun _ => rfl) fun sweep hsweep => ⟨sweep, hsweep, rfl⟩
  | build _ hbuild => exact h.work hbuild fun sweep hsweep _ _ => hsweep
  | unasked _ _ hbuild => exact h.work hbuild fun sweep hsweep _ _ => hsweep
  | @list job b hcalls _ _ hnone =>
    -- The callback runs and has no loop, so it has read nothing yet.
    have hunread : events.countP (RolloutEvent.lists job) = 0 := by
      by_contra hread
      obtain ⟨sweep, hsweep, hjob⟩ := h.looping job (Nat.pos_of_ne_zero hread) hcalls
      exact hnone sweep hsweep hjob
    have hother : ∀ job', job ≠ job' →
        (RolloutEvent.list job s.registry.db.listAll).lists job' = false :=
      fun _ hne => beq_eq_false_iff_ne.mpr hne
    refine
      { orderly := h.orderly
        once := fun job' => ?_
        called := fun job' hlisted => ?_
        looping := fun job' hlisted hcalls' => ?_ }
    · by_cases heq : job = job'
      · subst heq
        rw [List.countP_append, hunread, List.countP_singleton]
        split <;> omega
      · rw [countP_snoc (hother job' heq)]
        exact h.once job'
    · by_cases heq : job = job'
      · exact heq ▸ called_of_calls h.orderly hcalls
      · rw [countP_snoc (hother job' heq)] at hlisted
        exact h.called job' hlisted
    · by_cases heq : job = job'
      · exact ⟨_, List.mem_cons_self .., heq⟩
      · rw [countP_snoc (hother job' heq)] at hlisted
        obtain ⟨sweep, hsweep, hjob⟩ := h.looping job' hlisted hcalls'
        exact ⟨sweep, List.mem_cons_of_mem _ hsweep, hjob⟩
  | pass hsweeps _ _ =>
    exact h.loop (fun _ => rfl) fun sweep hsweep => exists_replaced hsweeps rfl hsweep
  | arm hsweeps _ _ _ _ =>
    exact h.loop (fun _ => rfl) fun sweep hsweep => exists_replaced hsweeps rfl hsweep
  | finish hsweeps _ hbuild =>
    refine h.work hbuild fun sweep hsweep hreturned _ => ?_
    rw [hsweeps] at hsweep
    rcases List.mem_append.mp hsweep with hbefore | hrest
    · exact List.mem_append_left _ hbefore
    · rcases List.mem_cons.mp hrest with rfl | hafter
      · exact absurd rfl (hreturned _ _)
      · exact List.mem_append_right _ hafter
  | @fail job exc builds hbuild =>
    refine h.work hbuild fun sweep hsweep _ hfailed => List.mem_filter.mpr ⟨hsweep, ?_⟩
    refine bne_iff_ne.mpr fun hjob => hfailed exc ?_
    rw [hjob]

/-- The listing of a job is the only one. -/
theorem alone {job : Nat} {machines : List Machine} {before after : List RolloutEvent}
    (h : ListsOnce s (before ++ .list job machines :: after)) (others : List Machine) :
    .list job others ∉ before ∧ .list job others ∉ after := by
  have hself : ∀ others, (RolloutEvent.list job others).lists job = true :=
    fun _ => beq_self_eq_true job
  have honce := h.once job
  rw [List.countP_append, List.countP_cons, if_pos (hself machines)] at honce
  refine ⟨fun hmem => ?_, fun hmem => ?_⟩
  · have hpos := List.countP_pos_iff.mpr ⟨_, hmem, hself others⟩
    omega
  · have hpos := List.countP_pos_iff.mpr ⟨_, hmem, hself others⟩
    omega

end ListsOnce

/-! ## Whole runs -/

/-- The state that a server starts in. -/
structure Rollout.Fresh (s : Rollout) : Prop where
  hasRun : HasRun s.registry.db
  builds : s.builds = newManager
  sweeps : s.sweeps = []

/-- The call of the registry that a step makes. -/
def RolloutEvent.op : RolloutEvent → Option Operation
  | call c | arm _ _ c => some c.op
  | _ => none

section Runs

theorem mem_listAll {db : Database} {m : Machine} (h : m ∈ db.listAll) :
    db.machine m.mac = some m := by
  rw [Database.listAll, List.mem_insertionSort] at h
  exact Table.lookup_of_mem h rfl

variable [Unicode] [IpAddress] {s s' : Rollout} {events : List RolloutEvent} {mac : String}

/-- The step may take the flag of a MAC down. -/
def RolloutEvent.Lowers (mac : String) (event : RolloutEvent) : Prop :=
  ∃ op, event.op = some op ∧ op.lowers mac = true

/-- The step removes the machine. -/
def RolloutEvent.Unenrols (mac : String) (event : RolloutEvent) : Prop :=
  ∃ op, event.op = some op ∧ op.Unenrols mac

theorem registry_step {event : RolloutEvent} (hstep : RolloutStep s event s') :
    s'.registry = s.registry ∨
      ∃ call, event.op = some call.op ∧ Step s.registry call s'.registry := by
  cases hstep with
  | call hcall => exact .inr ⟨_, rfl, hcall⟩
  | arm _ _ _ _ hcall => exact .inr ⟨_, rfl, hcall⟩
  | _ => exact .inl rfl

theorem db_of_step {r r' : Registry} {call : Call} (h : Step r call r') :
    r'.db = (call.op.run call.time r.db).db := by
  rw [h.run]

theorem hasRun_rollout {event : RolloutEvent} (h : HasRun s.registry.db)
    (hstep : RolloutStep s event s') : HasRun s'.registry.db := by
  rcases registry_step hstep with hsame | ⟨call, -, hcall⟩
  · rwa [hsame]
  · rw [db_of_step hcall]
    exact hasRun_run h call.op

/-- The flag of a machine stays up in a run in which nothing takes it down. -/
theorem pendingReboot_rollout (h : HasRun s.registry.db)
    (hup : pendingReboot s.registry.db mac = true) (hrun : Run RolloutStep s events s')
    (hkept : ∀ event ∈ events, ¬ event.Lowers mac) : pendingReboot s'.registry.db mac = true := by
  suffices hkeep : ∀ (s : Rollout) event (s' : Rollout),
      HasRun s.registry.db ∧ pendingReboot s.registry.db mac = true → RolloutStep s event s' →
      ¬ event.Lowers mac →
      HasRun s'.registry.db ∧ pendingReboot s'.registry.db mac = true from
    (hrun.invariant_of_good hkeep ⟨h, hup⟩ hkept).2
  intro s event s' hs hstep hgood
  refine ⟨hasRun_rollout hs.1 hstep, ?_⟩
  rcases registry_step hstep with hsame | ⟨call, hop, hcall⟩
  · rw [hsame]
    exact hs.2
  · rw [db_of_step hcall]
    refine pendingReboot_kept hs.1 hs.2 ?_
    by_contra hlowers
    exact hgood ⟨call.op, hop, by simpa using hlowers⟩

/-- A machine stays enrolled in a run in which nothing removes it. -/
theorem enrolled_rollout (h : HasRun s.registry.db)
    (henrolled : (s.registry.db.machine mac).isSome = true) (hrun : Run RolloutStep s events s')
    (hkept : ∀ event ∈ events, ¬ event.Unenrols mac) :
    (s'.registry.db.machine mac).isSome = true := by
  suffices hkeep : ∀ (s : Rollout) event (s' : Rollout),
      HasRun s.registry.db ∧ (s.registry.db.machine mac).isSome = true → RolloutStep s event s' →
      ¬ event.Unenrols mac →
      HasRun s'.registry.db ∧ (s'.registry.db.machine mac).isSome = true from
    (hrun.invariant_of_good hkeep ⟨h, henrolled⟩ hkept).2
  intro s event s' hs hstep hgood
  refine ⟨hasRun_rollout hs.1 hstep, ?_⟩
  rcases registry_step hstep with hsame | ⟨call, hop, hcall⟩
  · rw [hsame]
    exact hs.2
  · rw [db_of_step hcall]
    obtain ⟨m, hm⟩ := Option.isSome_iff_exists.mp hs.2
    have hspec : s.registry.db.hardwareSpecOf mac = some m.hardwareSpec := by
      rw [Database.hardwareSpecOf, hm]
      rfl
    have hafter : (call.op.run call.time s.registry.db).db.hardwareSpecOf mac = _ :=
      hardwareSpec_run hs.1 hspec fun hunenrols => hgood ⟨call.op, hop, hunenrols⟩
    obtain ⟨m', hm', -⟩ := Option.map_eq_some_iff.mp hafter
    rw [hm']
    rfl

theorem recorded_of_run (hfresh : s.Fresh) (hrun : Run RolloutStep s events s') :
    Recorded s' events := by
  refine hrun.history (fun _ _ _ _ h hstep => h.step hstep) ?_
  refine
    { orderly := hfresh.builds ▸ Orderly.initial
      exits := ?_
      called := ?_
      sweeps := ?_
      armed := ?_
      arms := ?_ }
  · rw [hfresh.builds]
    rintro job (hsucceeded | ⟨w, hw, -⟩)
    · cases hsucceeded
    · cases hw
  · rw [hfresh.builds]
    intro job hjob
    cases hjob
  · rw [hfresh.sweeps]
    intro sweep hsweep
    cases hsweep
  · rw [hfresh.builds]
    intro job b n hb
    cases hb
  · intro job m call hcall
    cases hcall

theorem listsOnce_of_run (hfresh : s.Fresh) (hrun : Run RolloutStep s events s') :
    ListsOnce s' events := by
  refine hrun.history (fun _ _ _ _ h hstep => h.step hstep) ?_
  exact
    { orderly := hfresh.builds ▸ Orderly.initial
      once := fun _ => Nat.zero_le 1
      called := fun _ hlisted => absurd hlisted (Nat.lt_irrefl 0)
      looping := fun _ hlisted => absurd hlisted (Nat.lt_irrefl 0) }

/-- An `arm` sets the flag of the machine. -/
theorem arm_step {job : Nat} {m : Machine} {call : Call} {event : RolloutEvent}
    (hstep : RolloutStep s event s') (hevent : event = .arm job m call) :
    call.op = .setPendingReboot m.mac true ∧ Step s.registry call s'.registry := by
  cases hstep with
  | arm _ _ _ hop hcall =>
    cases hevent
    exact ⟨hop, hcall⟩
  | _ => cases hevent

/-- The flag of a machine that was armed is up, or something has taken it down since. -/
theorem armed_or_lowered (h : HasRun s.registry.db) {job : Nat} {m : Machine} {call : Call}
    {meanwhile later : List RolloutEvent} (hnormal : normaliseMac m.mac = m.mac)
    (henrolled : (s.registry.db.machine m.mac).isSome = true)
    (hrun : Run RolloutStep s (meanwhile ++ .arm job m call :: later) s') :
    pendingReboot s'.registry.db m.mac = true ∨ (∃ e ∈ meanwhile, e.Unenrols m.mac) ∨
      ∃ e ∈ later, e.Lowers m.mac := by
  by_cases hremoved : ∃ e ∈ meanwhile, e.Unenrols m.mac
  · exact .inr (.inl hremoved)
  by_cases hlowered : ∃ e ∈ later, e.Lowers m.mac
  · exact .inr (.inr hlowered)
  left
  push Not at hremoved hlowered
  obtain ⟨middle, hmeanwhile, hrest⟩ := hrun.of_append
  obtain ⟨after, harm, hlater⟩ := hrest.of_cons
  obtain ⟨hop, hcall⟩ := arm_step harm rfl
  have hmiddle : HasRun middle.registry.db :=
    hmeanwhile.invariant (fun _ _ _ hs hstep => hasRun_rollout hs hstep) h
  have hstill := enrolled_rollout h henrolled hmeanwhile hremoved
  have hup : pendingReboot after.registry.db m.mac = true := by
    rw [db_of_step hcall, hop]
    refine (pendingReboot_setPendingReboot m.mac m.mac true _).trans ?_
    rw [if_pos rfl, Database.lookup, hnormal, hstill]
    rfl
  exact pendingReboot_rollout (hasRun_rollout hmiddle harm) hup hlater hlowered

/-- In a run from `s` to `s'` the build of a job has gone well, and its callback has read the
machines once, after that, and has armed each of those that ran the image then. Where the MAC is
in normal form, a flag that is not up was taken down since. -/
def Rollout.Armed (s : Rollout) (events : List RolloutEvent) (s' : Rollout) (job : Nat)
    (b : BuildJob) : Prop :=
  ∃ before read after, events = before ++ .list job read.registry.db.listAll :: after ∧
    Run RolloutStep s before read ∧ .build (.exit job 0) ∈ before ∧
    (∀ machines, .list job machines ∉ before ∧ .list job machines ∉ after) ∧
    b.autoRebootArmed = some (read.registry.db.listAll.countP b.runsOn) ∧
    ∀ m ∈ read.registry.db.listAll, b.runsOn m = true →
      ∃ meanwhile call later, after = meanwhile ++ .arm job m call :: later ∧
        (normaliseMac m.mac = m.mac → pendingReboot s'.registry.db m.mac = true ∨
          (∃ e ∈ meanwhile, e.Unenrols m.mac) ∨ ∃ e ∈ later, e.Lowers m.mac)

/-- **When a build reads as succeeded**, its callback has armed what it had to, or has raised. -/
theorem fleet_armed {job : Nat} {b : BuildJob} (hfresh : s.Fresh)
    (hrun : Run RolloutStep s events s') (hb : s'.builds.jobs[job]? = some b)
    (hsucceeded : b.state = .succeeded) (hasked : b.autoReboot = true) :
    (∃ exc, .build (.callFailed job exc) ∈ events) ∨ s.Armed events s' job b := by
  have h := recorded_of_run hfresh hrun
  have honce := listsOnce_of_run hfresh hrun
  have hstate : s'.builds.stateOf job = some .succeeded := by
    rw [BuildManager.stateOf, hb, Option.map_some, hsucceeded]
  have hcalled : job ∈ s'.builds.called := by
    have hcount := h.orderly.called job (by rw [hstate]; simp)
    rw [hstate, if_pos ⟨rfl, rfl⟩] at hcount
    exact List.count_pos_iff.mp (by rw [hcount]; exact Nat.one_pos)
  rcases h.called job hcalled with ⟨w, hw, hphase⟩ | hreported
  · -- A job whose callback runs is not published yet.
    have hrunning : s'.builds.stateOf job = some .running :=
      h.orderly.running_of_phase hw (by rw [hphase]; exact .head _)
    cases hstate.symm.trans hrunning
  rcases hreported with ⟨b', hb', harmed⟩ | hfailed
  · right
    obtain rfl := Option.some.inj (hb.symm.trans hb')
    obtain ⟨n, hn⟩ := Option.isSome_iff_exists.mp (harmed hasked)
    obtain ⟨machines, b', before, after, hb', -, rfl, hexit, hcount, harms⟩ :=
      h.armed job b n hb hn
    obtain rfl := Option.some.inj (hb.symm.trans hb')
    rw [List.append_nil] at hrun honce
    obtain ⟨read, hbefore, hrest⟩ := hrun.of_append
    obtain ⟨listed, hlist, hafter⟩ := hrest.of_cons
    cases hlist with
    | list hcalls hb'' hauto hnone =>
      refine ⟨before, read, after, by rw [List.append_nil], hbefore, hexit, honce.alone,
        hn.trans (congrArg _ hcount), fun m hm hruns => ?_⟩
      obtain ⟨call, hcall⟩ := harms m hm hruns
      obtain ⟨meanwhile, later, rfl⟩ := List.append_of_mem hcall
      have hread : HasRun read.registry.db :=
        hbefore.invariant (fun _ _ _ hs hstep => hasRun_rollout hs hstep) hfresh.hasRun
      refine ⟨meanwhile, call, later, rfl, fun hnormal => armed_or_lowered ?_ hnormal ?_ hafter⟩
      · exact hread
      · change (read.registry.db.machine m.mac).isSome = true
        rw [mem_listAll hm]
        rfl
  · exact .inl hfailed

/-- A flag that goes up in a run is put up by a step of it. -/
theorem exists_raises (h : HasRun s.registry.db) (hdown : pendingReboot s.registry.db mac = false)
    (hrun : Run RolloutStep s events s') (hup : pendingReboot s'.registry.db mac = true) :
    ∃ event ∈ events, ∃ op, event.op = some op ∧ op.raises mac = true := by
  by_contra hnone
  suffices hkeep : ∀ (s : Rollout) event (s' : Rollout),
      HasRun s.registry.db ∧ pendingReboot s.registry.db mac = false → RolloutStep s event s' →
      (¬ ∃ op, event.op = some op ∧ op.raises mac = true) →
      HasRun s'.registry.db ∧ pendingReboot s'.registry.db mac = false by
    have hend := (hrun.invariant_of_good hkeep ⟨h, hdown⟩ fun event hevent hraises =>
      hnone ⟨event, hevent, hraises⟩).2
    exact Bool.false_ne_true (hend.symm.trans hup)
  intro s event s' hs hstep hgood
  refine ⟨hasRun_rollout hs.1 hstep, ?_⟩
  rcases registry_step hstep with hsame | ⟨call, hop, hcall⟩
  · rw [hsame]
    exact hs.2
  · rw [db_of_step hcall]
    by_contra hraised
    exact hgood ⟨call.op, hop, raises_of_pendingReboot hs.1 hs.2 (by simpa using hraised)⟩

/-- **A flag goes up** by an operator's call, or by a build that asked for it and has gone well,
for a machine that ran the image at the moment when the machines were read after the build. -/
theorem raised_cases (hfresh : s.Fresh) (hrun : Run RolloutStep s events s')
    (hdown : pendingReboot s.registry.db mac = false)
    (hup : pendingReboot s'.registry.db mac = true) :
    (∃ call, .call call ∈ events ∧ call.op.raises mac = true) ∨
      ∃ job b m before read after, s'.builds.jobs[job]? = some b ∧ b.autoReboot = true ∧
        events = before ++ .list job read.registry.db.listAll :: after ∧
        Run RolloutStep s before read ∧ .build (.exit job 0) ∈ before ∧
        m ∈ read.registry.db.listAll ∧ b.runsOn m = true ∧
        (∃ call, .arm job m call ∈ after) ∧ normaliseMac m.mac = normaliseMac mac := by
  have h := recorded_of_run hfresh hrun
  have hops : ∀ event ∈ events, ∀ job m call, event = .arm job m call →
      call.op = .setPendingReboot m.mac true :=
    hrun.labels_forall (fun _ _ _ _ _ => trivial)
      (fun _ _ _ _ hstep job m call hevent => (arm_step hstep hevent).1) trivial
  obtain ⟨event, hevent, op, hop, hraises⟩ := exists_raises hfresh.hasRun hdown hrun hup
  cases event with
  | call call =>
    cases hop
    exact .inl ⟨call, hevent, hraises⟩
  | arm job m call =>
    right
    obtain rfl := Option.some.inj hop
    rw [hops _ hevent job m call rfl] at hraises
    obtain ⟨b, before, machines, after, hb, hauto, rfl, hexit, hm, hruns, harm⟩ :=
      h.arms job m call hevent
    obtain ⟨read, hbefore, hrest⟩ := hrun.of_append
    obtain ⟨listed, hlist, -⟩ := hrest.of_cons
    cases hlist with
    | list =>
      exact ⟨job, b, m, before, read, after, hb, hauto, rfl, hbefore, hexit, hm, hruns, harm,
        by simpa [Operation.raises] using hraises⟩
  | build | list | pass => cases hop

end Runs

section Examples

attribute [local instance] ascii noNetworks

def buildSchool : BuildCall := ⟨"school", "amd64", true, false⟩

/-- The desktop is enrolled, and nothing has been built. -/
def desktopRollout : Rollout := ⟨enrolledDesktop, newManager, []⟩

theorem desktopRollout_fresh : desktopRollout.Fresh :=
  ⟨enrolledDesktop_reachable.sound.hasRun, rfl, rfl⟩

/-- The image of the desktop is built, and the desktop is to boot it. -/
theorem run_desktopRollout : ∃ events s b, Run RolloutStep desktopRollout events s ∧
    s.builds.jobs[0]? = some b ∧ b.state = .succeeded ∧ b.autoReboot = true ∧
    (∀ exc, .build (.callFailed 0 exc) ∉ events) ∧
    (∀ call, .call call ∉ events) ∧ pendingReboot s.registry.db desktop.mac = true := by
  obtain ⟨m, hm⟩ : ∃ m, enrolledDesktop.db.listAll = [m] :=
    List.length_eq_one_iff.mp (by decide +kernel)
  have hmachine : m.mac = "52:54:00:12:34:56" ∧ m.profileName = "school" ∧
      m.architecture = "x86_64" := by
    have hall : ∀ m ∈ enrolledDesktop.db.listAll, m.mac = "52:54:00:12:34:56" ∧
        m.profileName = "school" ∧ m.architecture = "x86_64" := by
      decide +kernel
    exact hall m (by simp [hm])
  have hruns : ∀ b : BuildJob, b.profile = "school" → b.architecture = "amd64" →
      b.runsOn m = true := by
    intro b hprofile harchitecture
    simp [BuildJob.runsOn, hprofile, harchitecture, hmachine, architectureAliases]
  have hacquired := Run.single (@RolloutStep.build _ _ desktopRollout _ _ rfl
    (@BuildStep.acquire _ _ buildSchool rfl))
  have hcreated := hacquired.snoc (.build rfl
    (@BuildStep.create _ _ _ _ "school" _ [] [] "0a" rfl rfl))
  have hspawned := hcreated.snoc (.build rfl (@BuildStep.spawn _ _ _ _ [0] [] [] rfl rfl (by simp)))
  have hbegun := hspawned.snoc (.build rfl
    (@BuildStep.begin _ _ [0] [] none 0 [] [] 7 rfl (by simp)))
  have hexited := hbegun.snoc (.build rfl (@BuildStep.exit _ _ [0] [] none 0 [] [] 0 rfl))
  have hcalled := hexited.snoc (.build rfl (@BuildStep.call _ _ [0] [] none 0 [] [] rfl))
  have hlisted := hcalled.snoc (@RolloutStep.list _ _ _ 0 _ ⟨_, List.mem_singleton_self _, rfl⟩
    rfl rfl (by simp [desktopRollout]))
  rw [show desktopRollout.registry.db.listAll = [m] from hm] at hlisted
  have harmed := hlisted.snoc (@RolloutStep.arm _ _ _ 0 0 _ m [] _ _ [] [] rfl rfl
    (hruns _ rfl rfl) rfl
    (Registry.step_after (show 5 ≤ 8 by decide) (.setPendingReboot m.mac true)))
  have hreturned := harmed.snoc (@RolloutStep.finish _ _ _ 0 1 _ _ [] [] rfl rfl
    (@BuildStep.callReturned _ _ [0] [] none 0 [] [] _ _ rfl))
  have hpublished := hreturned.snoc (.build rfl
    (@BuildStep.publish _ _ [0] [] none 0 .succeeded [] [] 9 rfl))
  refine ⟨_, _, _, hpublished, rfl, rfl, rfl, by simp, by simp, ?_⟩
  change pendingReboot (setPendingReboot m.mac true enrolledDesktop.db) desktop.mac = true
  rw [hmachine.1]
  decide +kernel

theorem fleet_armed_desktop : ∃ events s b, Run RolloutStep desktopRollout events s ∧
    desktopRollout.Armed events s 0 b := by
  obtain ⟨events, s, b, hrun, hb, hsucceeded, hasked, hfine, -⟩ := run_desktopRollout
  rcases fleet_armed desktopRollout_fresh hrun hb hsucceeded hasked with ⟨exc, hexc⟩ | harmed
  · exact absurd hexc (hfine exc)
  · exact ⟨events, s, b, hrun, harmed⟩

/-- Nobody else calls, so it was the build. -/
theorem raised_cases_desktop : ∃ events s job m call b, Run RolloutStep desktopRollout events s ∧
    .arm job m call ∈ events ∧ normaliseMac m.mac = normaliseMac desktop.mac ∧
    s.builds.jobs[job]? = some b ∧ b.autoReboot = true ∧ .build (.exit job 0) ∈ events := by
  obtain ⟨events, s, -, hrun, -, -, -, -, hcalls, hup⟩ := run_desktopRollout
  rcases raised_cases desktopRollout_fresh hrun (by decide +kernel) hup with
    ⟨call, hcall, -⟩ | ⟨job, b, m, before, read, after, hb, hauto, rfl, -, hexit, -, -,
      ⟨call, harm⟩, hmac⟩
  · exact absurd hcall (hcalls call)
  · exact ⟨_, s, job, m, call, b, hrun, by simp [harm], hmac, hb, hauto, by simp [hexit]⟩

end Examples

end Fleetboot
