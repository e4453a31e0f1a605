import Fleetboot.Library.Interleaving
import Fleetboot.Library.Transition
import Fleetboot.Server.Tools
import Mathlib.Algebra.Order.BigOperators.Group.Finset
import Mathlib.Data.Nat.Cast.Basic

/-!
# Machines switched at once

`power_machines` with its pool of threads: up to eight machines are switched at a time, each in its
own steps, while the results are collected in the order of the machines. An exception that is
collected keeps the machines that no thread has come to from being switched.

* `powerTask_alone`: a thread by itself does what `power_machine` does.
* `powerMachines_pool`: in whatever order the threads make their steps, the results are those of
  switching one machine after the other.
-/

set_option autoImplicit false

namespace Fleetboot

open Python Relational Transition Interleaving

section Threads

variable [Unicode]

/-! ## One thread -/

/-- Where a thread is in `power_machine`. -/
inductive PowerTask
  | queued
  /-- `lookup` has returned: the machine's own command for the action, and its alias. -/
  | found (machine : Option (Option String × Option String))
  | running (route : PowerRoute)
  /-- A reboot has failed, and the soft-reboot signal is about to be armed. -/
  | arming (detail : String)
  | done (value : Except Exception PowerResult)

namespace PowerTask

def isQueued : PowerTask → Bool
  | queued => true
  | _ => false

def isDone : PowerTask → Bool
  | done _ => true
  | _ => false

/-- How many steps are left at most. -/
def stepsLeft : PowerTask → Nat
  | queued => 4
  | found _ => 3
  | running _ => 2
  | arming _ => 1
  | done _ => 0

end PowerTask

/-- The choice of `power_machine` from what it has read. -/
def chooseRoute (command alias_ pduHost : Option String) : PowerRoute :=
  match command with
  | some command => .machineCommand command
  | none =>
    match pduHost, alias_ with
    | some pduHost, some alias_ => .pdudaemon pduHost alias_
    | none, _ => .none "no per-machine power command and no fleet pdudaemon_host setting"
    | some _, none => .none ("no per-machine power command, and no pdudaemon alias " ++
        "(machine has never reported a hostname — set pdu_alias)")

omit [Unicode] in
theorem powerRoute_eq (db : Database) (m : Machine) (action : PowerAction) :
    powerRoute db m action = chooseRoute (truthyText (machinePowerCommand m action))
      (pdudaemonAlias m) (getSetting db pdudaemonHostKey) := rfl

/-- The next step of a thread, and the MAC that it arms the soft-reboot signal of, if it does. -/
def powerStep (outcome : String → CommandOutcome) (action : PowerAction) (mac : String) :
    PowerTask → Database → PowerTask × List String
  | .queued, db =>
    (.found ((db.lookup mac).map fun m =>
      (truthyText (machinePowerCommand m action), pdudaemonAlias m)), [])
  | .found none, _ => (.done (.ok
      { mac, action := action.text, method := "none", ok := false
        detail := "no machine with MAC " ++ mac }), [])
  | .found (some (command, alias_)), db =>
    (.running (chooseRoute command alias_ (getSetting db pdudaemonHostKey)), [])
  | .running route, _ =>
    match runRoute route (outcome mac) with
    | .error err => (.done (.error err), [])
    | .ok (succeeded, detail) =>
      if action = .reboot ∧ succeeded = false then (.arming detail, [])
      else (.done (.ok
        { mac, action := action.text, method := route.method, ok := succeeded, detail }), [])
  | .arming detail, _ => (.done (.ok
      { mac, action := action.text, method := "soft_reboot", ok := true
        detail := "armed the soft-reboot signal; the machine reboots itself " ++
          "on its next heartbeat" ++ if detail = "" then "" else " (" ++ detail ++ ")" }), [mac])
  | .done value, _ => (.done value, [])

/-! ## Arming -/

section Arming

variable {db : Database} {mac : String}

omit [Unicode] in
/-- One update of two machines, in either order. -/
theorem updateMachine_comm (db : Database) (a b : String) {f : Machine → Machine}
    (hmac : ∀ m, (f m).mac = m.mac) :
    (db.updateMachine a f hmac).updateMachine b f hmac =
      (db.updateMachine b f hmac).updateMachine a f hmac := by
  have htables : ∀ {t t' : Table Machine String (fun _ => true) Machine.mac}, t.rows = t'.rows →
      t = t' := by
    rintro ⟨rows, hunique⟩ ⟨rows', hunique'⟩ rfl
    rfl
  unfold Database.updateMachine
  dsimp only
  congr 1
  refine htables ?_
  rw [Table.rows_update, Table.rows_update, Table.rows_update, Table.rows_update, List.map_map,
    List.map_map]
  refine List.map_congr_left fun m _ => ?_
  have hone : ∀ k, (if m.mac = k then f m else m).mac = m.mac := fun k => by
    split
    · exact hmac m
    · rfl
  dsimp only [Function.comp]
  rw [hone, hone]
  split_ifs <;> rfl

theorem setPendingReboot_comm (db : Database) (a b : String) :
    setPendingReboot b true (setPendingReboot a true db) =
      setPendingReboot a true (setPendingReboot b true db) :=
  updateMachine_comm db _ _ _

/-- What a thread goes by is the same after the signal was armed for any machine. -/
theorem powerStep_setPendingReboot (outcome : String → CommandOutcome) (action : PowerAction)
    (mac : String) (task : PowerTask) (db : Database) (armed : String) :
    powerStep outcome action mac task (setPendingReboot armed true db) =
      powerStep outcome action mac task db := by
  cases task with
  | queued =>
    have hread : ((setPendingReboot armed true db).lookup mac).map
          (fun m => (truthyText (machinePowerCommand m action), pdudaemonAlias m)) =
        (db.lookup mac).map
          fun m => (truthyText (machinePowerCommand m action), pdudaemonAlias m) := by
      unfold setPendingReboot Database.lookup
      rw [Database.machine_updateMachine]
      split
      · rw [Option.map_map]
        cases action <;> rfl
      · rfl
    change (PowerTask.found (((setPendingReboot armed true db).lookup mac).map _), []) = _
    rw [hread]
    rfl
  | found machine =>
    cases machine with
    | none => rfl
    | some read => rfl
  | running | arming | done => rfl

end Arming

/-- The threads of `power_machines`. -/
def powerSystem (outcome : String → CommandOutcome) (action : PowerAction) (macs : List String) :
    System Database String Nat PowerTask where
  apply db mac := setPendingReboot mac true db
  comm := setPendingReboot_comm
  step i task db := match macs[i]? with
    | some mac => powerStep outcome action mac task db
    | none => (task, [])
  blind i task db armed := by
    cases macs[i]? with
    | none => rfl
    | some mac => exact powerStep_setPendingReboot outcome action mac task db armed

section Alone

variable {outcome : String → CommandOutcome} {action : PowerAction} {macs : List String}
  {db : Database} {mac : String} {i : Nat}

/-- What switching one machine returns. -/
def powerValue (outcome : String → CommandOutcome) (action : PowerAction) (db : Database)
    (mac : String) : Except Exception PowerResult :=
  (powerMachine mac action.text false (outcome mac) db).value

/-- Whether that ends with the soft-reboot signal. -/
def powerArms (outcome : String → CommandOutcome) (action : PowerAction) (db : Database)
    (mac : String) : List String :=
  match db.lookup mac with
  | none => []
  | some m =>
    match runRoute (powerRoute db m action) (outcome mac) with
    | .ok (false, _) => if action = .reboot then [mac] else []
    | _ => []

/-- **A thread alone** does what `power_machine` does, in four steps at most. -/
theorem powerTask_alone (hmac : macs[i]? = some mac) :
    (powerSystem outcome action macs).after db i 4 .queued =
        .done (powerValue outcome action db mac) ∧
      (powerSystem outcome action macs).writes db i 4 .queued = powerArms outcome action db mac ∧
      (powerMachine mac action.text false (outcome mac) db).db =
        (powerArms outcome action db mac).foldl (fun db mac => setPendingReboot mac true db)
          db := by
  have hstep : ∀ task, (powerSystem outcome action macs).step i task db =
      powerStep outcome action mac task db := by
    intro task
    change (match macs[i]? with
      | some mac => powerStep outcome action mac task db
      | none => (task, [])) = _
    rw [hmac]
  simp only [System.after, System.writes, hstep]
  unfold powerValue powerArms powerMachine
  rw [PowerAction.ofText_text]
  cases hlookup : db.lookup mac with
  | none => simp [powerStep, hlookup]
  | some m =>
    cases hrun : runRoute (powerRoute db m action) (outcome mac) with
    | error err => simp [powerStep, hlookup, ← powerRoute_eq, hrun]
    | ok answer =>
      obtain ⟨succeeded, detail⟩ := answer
      cases succeeded with
      | true => simp [powerStep, hlookup, ← powerRoute_eq, hrun]
      | false =>
        by_cases hreboot : action = .reboot
        · subst hreboot
          simp [powerStep, hlookup, ← powerRoute_eq, hrun]
        · simp [powerStep, hlookup, ← powerRoute_eq, hrun, hreboot]

/-- What a thread does is the same after the signal was armed for some machines. -/
theorem powerValue_foldl (armed : List String) :
    powerValue outcome action (armed.foldl (fun db mac => setPendingReboot mac true db) db) mac =
        powerValue outcome action db mac ∧
      powerArms outcome action (armed.foldl (fun db mac => setPendingReboot mac true db) db) mac =
        powerArms outcome action db mac := by
  obtain ⟨hvalue, harms, -⟩ := @powerTask_alone _ outcome action [mac] db mac 0 rfl
  obtain ⟨hvalue', harms', -⟩ := @powerTask_alone _ outcome action [mac]
    (armed.foldl (fun db mac => setPendingReboot mac true db) db) mac 0 rfl
  obtain ⟨hafter, hwrites⟩ :=
    (powerSystem outcome action [mac]).after_foldl db 0 armed 4 .queued
  exact ⟨PowerTask.done.inj (hvalue'.symm.trans (hafter.trans hvalue)),
    harms'.symm.trans (hwrites.trans harms)⟩

/-- One machine after the other. -/
theorem powerMachines_eq (outcome : String → CommandOutcome) (action : PowerAction)
    (macs : List String) (db : Database) :
    (powerMachines outcome action macs db).value = macs.mapM (powerValue outcome action db) ∧
      (powerMachines outcome action macs db).db = (macs.flatMap (powerArms outcome action db)).foldl
        (fun db mac => setPendingReboot mac true db) db := by
  induction macs generalizing db with
  | nil => exact ⟨rfl, rfl⟩
  | cons mac macs ih =>
    obtain ⟨-, -, hfirst⟩ := @powerTask_alone _ outcome action [mac] db mac 0 rfl
    obtain ⟨hvalue, hdb⟩ := ih (powerMachine mac action.text false (outcome mac) db).db
    have hvalues : powerValue outcome action
        (powerMachine mac action.text false (outcome mac) db).db =
        powerValue outcome action db := by
      funext other
      rw [hfirst]
      exact (powerValue_foldl _).1
    have harms : powerArms outcome action
        (powerMachine mac action.text false (outcome mac) db).db =
        powerArms outcome action db := by
      funext other
      rw [hfirst]
      exact (powerValue_foldl _).2
    rw [hvalues] at hvalue
    rw [harms] at hdb
    constructor
    · unfold powerMachines
      dsimp only
      rw [hvalue, List.mapM_cons]
      rfl
    · unfold powerMachines
      dsimp only
      rw [hdb, hfirst, List.flatMap_cons, List.foldl_append]

end Alone

/-! ## The pool -/

/-- `MAXIMUM_CONCURRENT_POWER_COMMANDS`. -/
def maximumConcurrentPowerCommands : Nat := 8

structure PowerPool where
  db : Database
  /-- The threads, by the position of their machine. -/
  tasks : Nat → PowerTask
  /-- What was collected of them. -/
  results : List PowerResult
  failed : Option Exception

def startPool (db : Database) : PowerPool :=
  { db, tasks := fun _ => .queued, results := [], failed := none }

/-- How many machines are being switched. -/
def PowerPool.busy (s : PowerPool) (macs : List String) : Nat :=
  ((List.range macs.length).filter fun i => !(s.tasks i).isQueued && !(s.tasks i).isDone).length

/-- A thread makes a step. -/
def PowerPool.next (s : PowerPool) (outcome : String → CommandOutcome) (action : PowerAction)
    (macs : List String) (i : Nat) : PowerPool :=
  let (db, tasks) := (powerSystem outcome action macs).next (s.db, s.tasks) i
  { s with db, tasks }

inductive PowerPoolEvent
  | step (i : Nat)
  | collect
  | fail (err : Exception)

inductive PowerPoolStep (outcome : String → CommandOutcome) (action : PowerAction)
    (macs : List String) (s : PowerPool) : PowerPoolEvent → PowerPool → Prop
  -- The machines are handed out in order.
  | take {i : Nat} : i < macs.length → s.tasks i = .queued → (∀ j < i, s.tasks j ≠ .queued) →
      s.busy macs < min macs.length maximumConcurrentPowerCommands →
      PowerPoolStep outcome action macs s (.step i) (s.next outcome action macs i)
  | work {i : Nat} : i < macs.length → s.tasks i ≠ .queued → (s.tasks i).isDone = false →
      PowerPoolStep outcome action macs s (.step i) (s.next outcome action macs i)
  | collect {result : PowerResult} : s.failed = none → s.results.length < macs.length →
      s.tasks s.results.length = .done (.ok result) →
      PowerPoolStep outcome action macs s .collect { s with results := s.results ++ [result] }
  -- What was not handed out by now may be cancelled.
  | fail {err : Exception} : s.failed = none → s.results.length < macs.length →
      s.tasks s.results.length = .done (.error err) →
      PowerPoolStep outcome action macs s (.fail err) { s with failed := some err }

/-- `power_machines` has returned or raised, and no thread is at work. -/
structure PowerPool.Ended (s : PowerPool) (macs : List String) : Prop where
  tasks : ∀ i < macs.length, (s.tasks i).isDone = true ∨ s.tasks i = .queued ∧ s.failed ≠ none
  results : s.failed = none → s.results.length = macs.length

def PowerPool.value (s : PowerPool) : Except Exception (List PowerResult) :=
  match s.failed with
  | some err => .error err
  | none => .ok s.results

section Pool

variable {outcome : String → CommandOutcome} {action : PowerAction} {macs : List String}
  {db : Database} {s s' : PowerPool} {event : PowerPoolEvent}

/-- The threads have made steps in some order, and what was collected is of the first machines. -/
structure Interleaved (outcome : String → CommandOutcome) (action : PowerAction)
    (macs : List String) (db : Database) (s : PowerPool) : Prop where
  schedule : ∃ schedule : List Nat, (∀ i ∈ schedule, i < macs.length) ∧
    (powerSystem outcome action macs).run schedule (db, fun _ => .queued) = (s.db, s.tasks)
  bound : s.results.length ≤ macs.length
  results : (macs.take s.results.length).mapM (powerValue outcome action db) = .ok s.results
  collected : ∀ i < s.results.length, (s.tasks i).isDone = true
  failed : ∀ err, s.failed = some err → macs.mapM (powerValue outcome action db) = .error err

theorem done_powerSystem (i : Nat) (value : Except Exception PowerResult) :
    (powerSystem outcome action macs).Done i (.done value) := by
  intro db
  change (match macs[i]? with
    | some mac => powerStep outcome action mac (.done value) db
    | none => (.done value, [])) = _
  cases macs[i]? <;> rfl

/-- A thread that is done has done what `power_machine` does. -/
theorem Interleaved.value_of_done (h : Interleaved outcome action macs db s) {i : Nat}
    {mac : String} {value : Except Exception PowerResult} (hmac : macs[i]? = some mac)
    (hdone : s.tasks i = .done value) : value = powerValue outcome action db mac := by
  obtain ⟨schedule, -, hrun⟩ := h.schedule
  have hlocal : s.tasks i =
      (powerSystem outcome action macs).after db i (schedule.count i) .queued := by
    rw [← ((powerSystem outcome action macs).run_spec schedule db fun _ => .queued).1 i, hrun]
  have halone := (@powerTask_alone _ outcome action macs db mac i hmac).1
  have hhere : (powerSystem outcome action macs).Done i
      ((powerSystem outcome action macs).after db i (schedule.count i) .queued) := by
    rw [← hlocal, hdone]
    exact done_powerSystem i value
  have hthere : (powerSystem outcome action macs).Done i
      ((powerSystem outcome action macs).after db i 4 .queued) := by
    rw [halone]
    exact done_powerSystem i _
  have hsame := ((powerSystem outcome action macs).after_eq_of_done hhere hthere).1
  rw [← hlocal, halone, hdone] at hsame
  exact PowerTask.done.inj hsame

theorem tasks_next_of_ne {i j : Nat} (hne : j ≠ i) :
    (s.next outcome action macs i).tasks j = s.tasks j :=
  Function.update_of_ne hne ..

theorem Interleaved.step (h : Interleaved outcome action macs db s)
    (hstep : PowerPoolStep outcome action macs s event s') :
    Interleaved outcome action macs db s' := by
  have hnext : ∀ i, i < macs.length → (s.tasks i).isDone = false →
      Interleaved outcome action macs db (s.next outcome action macs i) := by
    intro i hi hopen
    obtain ⟨schedule, hbound, hrun⟩ := h.schedule
    refine ⟨⟨schedule ++ [i], fun j hj => ?_, ?_⟩, h.bound, h.results, fun j hj => ?_, h.failed⟩
    · rcases List.mem_append.mp hj with hj | hj
      · exact hbound j hj
      · exact List.mem_singleton.mp hj ▸ hi
    · rw [System.run_concat, hrun]
      rfl
    · have hdone := h.collected j hj
      have hne : j ≠ i := by
        rintro rfl
        exact Bool.false_ne_true (hopen.symm.trans hdone)
      rw [tasks_next_of_ne hne]
      exact hdone
  cases hstep with
  | take hi hqueued => exact hnext _ hi (by rw [hqueued]; rfl)
  | work hi _ hopen => exact hnext _ hi hopen
  | @collect result hfailed hlt hdone =>
    have hmac := List.getElem?_eq_getElem hlt
    have hvalue := h.value_of_done hmac hdone
    refine ⟨h.schedule, ?_, ?_, fun i hi => ?_, h.failed⟩
    · rw [List.length_append]
      exact hlt
    · rw [List.length_append, List.length_singleton, List.take_add_one, hmac, List.mapM_append,
        h.results]
      dsimp only [Option.toList]
      rw [List.mapM_cons, ← hvalue]
      rfl
    · rw [List.length_append, List.length_singleton] at hi
      rcases Nat.lt_succ_iff_lt_or_eq.mp hi with hlt | rfl
      · exact h.collected i hlt
      · exact hdone ▸ rfl
  | @fail err hfailed hlt hdone =>
    have hmac := List.getElem?_eq_getElem hlt
    have hvalue := h.value_of_done hmac hdone
    refine ⟨h.schedule, h.bound, h.results, h.collected, fun err' herr => ?_⟩
    obtain rfl : err = err' := Option.some.inj herr
    rw [← List.take_append_drop s.results.length macs, List.mapM_append, h.results,
      List.drop_eq_getElem_cons hlt, List.mapM_cons, ← hvalue]
    rfl

theorem Interleaved.of_run {events : List PowerPoolEvent}
    (h : Run (PowerPoolStep outcome action macs) (startPool db) events s) :
    Interleaved outcome action macs db s :=
  h.invariant (fun _ _ _ hpooled hstep => hpooled.step hstep)
    { schedule := ⟨[], by simp, rfl⟩
      bound := Nat.zero_le _
      results := rfl
      collected := fun _ hi => absurd hi (Nat.not_lt_zero _)
      failed := fun _ herr => by cases herr }

theorem powerStep_ne_queued (mac : String) (task : PowerTask) (db : Database) :
    (powerStep outcome action mac task db).1 ≠ .queued := by
  unfold powerStep
  split
  · simp
  · simp
  · simp
  · split
    · simp
    · split <;> simp
  · simp
  · simp

/-- What a thread has written by the end. -/
theorem writes_of_ended {i n : Nat} {mac : String} (hmac : macs[i]? = some mac) :
    (((powerSystem outcome action macs).after db i n .queued).isDone = true →
      (powerSystem outcome action macs).writes db i n .queued = powerArms outcome action db mac) ∧
    ((powerSystem outcome action macs).after db i n .queued = .queued →
      (powerSystem outcome action macs).writes db i n .queued = []) := by
  constructor
  · intro hdone
    obtain ⟨value, hvalue⟩ : ∃ value,
        (powerSystem outcome action macs).after db i n .queued = .done value := by
      cases htask : (powerSystem outcome action macs).after db i n .queued with
      | done value => exact ⟨value, rfl⟩
      | queued | found | running | arming =>
        rw [htask] at hdone
        cases hdone
    obtain ⟨halone, hwrites, -⟩ := @powerTask_alone _ outcome action macs db mac i hmac
    have hhere : (powerSystem outcome action macs).Done i
        ((powerSystem outcome action macs).after db i n .queued) := by
      rw [hvalue]
      exact done_powerSystem i value
    have hthere : (powerSystem outcome action macs).Done i
        ((powerSystem outcome action macs).after db i 4 .queued) := by
      rw [halone]
      exact done_powerSystem i _
    exact ((powerSystem outcome action macs).after_eq_of_done hhere hthere).2.trans hwrites
  · intro hqueued
    cases n with
    | zero => rfl
    | succ n =>
      refine absurd hqueued ?_
      change (match macs[i]? with
        | some mac => powerStep outcome action mac _ db
        | none => _).1 ≠ _
      rw [hmac]
      exact powerStep_ne_queued mac _ db

omit [Unicode] in
theorem flatMap_range {β : Type} (macs : List String) (f : String → List β) :
    (List.range macs.length).flatMap (fun i => (macs[i]?.map f).getD []) = macs.flatMap f := by
  induction macs with
  | nil => rfl
  | cons mac macs ih =>
    rw [List.length_cons, List.range_succ_eq_map, List.flatMap_cons, List.flatMap_map,
      List.flatMap_cons, ← ih]
    rfl

theorem machine_foldl_setPendingReboot (armed : List String) (db : Database) (k : String) :
    (armed.foldl (fun db mac => setPendingReboot mac true db) db).machine k =
      if k ∈ armed.map normaliseMac then
        (db.machine k).map fun m => { m with pendingReboot := true }
      else db.machine k := by
  induction armed generalizing db with
  | nil => simp
  | cons mac armed ih =>
    have hfirst : (setPendingReboot mac true db).machine k =
        if k = normaliseMac mac then (db.machine k).map fun m => { m with pendingReboot := true }
        else db.machine k := Database.machine_updateMachine db _ _ _ k
    rw [List.foldl_cons, ih, hfirst, List.map_cons]
    by_cases hmac : k = normaliseMac mac
    · rw [if_pos hmac, if_pos (List.mem_cons.mpr (.inl hmac)), Option.map_map]
      split <;> rfl
    · simp only [List.mem_cons, hmac, false_or, if_false]

/-- **Machines switched at once.** In whatever order the threads make their steps, what is returned
or raised is what switching one machine after the other returns or raises; and so is what is left
in the registry, but that after an exception some machines may not have been switched. -/
theorem powerMachines_pool {events : List PowerPoolEvent}
    (hrun : Run (PowerPoolStep outcome action macs) (startPool db) events s)
    (hended : s.Ended macs) :
    s.value = (powerMachines outcome action macs db).value ∧
      (s.failed = none → s.db = (powerMachines outcome action macs db).db) ∧
      ∀ mac, s.db.lookup mac = db.lookup mac ∨
        s.db.lookup mac = (powerMachines outcome action macs db).db.lookup mac := by
  have hpooled := Interleaved.of_run hrun
  obtain ⟨hvalue, hdb⟩ := powerMachines_eq outcome action macs db
  obtain ⟨schedule, hbound, hschedule⟩ := hpooled.schedule
  obtain ⟨hlocals, ws, hstate, hperm⟩ :=
    (powerSystem outcome action macs).run_spec schedule db fun _ => .queued
  rw [hschedule] at hlocals hstate
  have hws := hperm (List.range macs.length) List.nodup_range
    fun i hi => List.mem_range.mpr (hbound i hi)
  have hwrites : ∀ i < macs.length, (powerSystem outcome action macs).writes db i
        (schedule.count i) .queued = (macs[i]?.map (powerArms outcome action db)).getD [] ∨
      s.failed ≠ none ∧ (powerSystem outcome action macs).writes db i
        (schedule.count i) .queued = [] := by
    intro i hi
    have hmac := List.getElem?_eq_getElem hi
    have hlocal := hlocals i
    dsimp only at hlocal
    rcases hended.tasks i hi with hdone | ⟨hqueued, hfailed⟩
    · rw [hlocal] at hdone
      rw [hmac]
      exact .inl ((writes_of_ended hmac).1 hdone)
    · rw [hlocal] at hqueued
      exact .inr ⟨hfailed, (writes_of_ended hmac).2 hqueued⟩
  refine ⟨?_, fun hnone => ?_, fun mac => ?_⟩
  · rw [hvalue]
    unfold PowerPool.value
    cases hfailed : s.failed with
    | some err => exact (hpooled.failed err hfailed).symm
    | none =>
      have hresults := hpooled.results
      rw [hended.results hfailed, List.take_length] at hresults
      exact hresults.symm
  · have hall : (List.range macs.length).flatMap (fun i => (powerSystem outcome action macs).writes
          db i (schedule.count i) .queued) = macs.flatMap (powerArms outcome action db) := by
      rw [← flatMap_range]
      refine List.flatMap_congr fun i hi => ?_
      exact (hwrites i (List.mem_range.mp hi)).resolve_right fun h => h.1 hnone
    rw [hdb]
    exact hstate.trans ((powerSystem outcome action macs).foldl_perm (hall ▸ hws) db)
  · have hsubset : ∀ armed ∈ ws, armed ∈ macs.flatMap (powerArms outcome action db) := by
      intro armed harmed
      obtain ⟨i, hi, hmem⟩ := List.mem_flatMap.mp (hws.mem_iff.mp harmed)
      rcases hwrites i (List.mem_range.mp hi) with heq | ⟨-, hnil⟩
      · rw [← flatMap_range]
        exact List.mem_flatMap.mpr ⟨i, hi, heq ▸ hmem⟩
      · rw [hnil] at hmem
        cases hmem
    have hstate' : s.db = ws.foldl (fun db mac => setPendingReboot mac true db) db := hstate
    unfold Database.lookup
    rw [hdb, hstate', machine_foldl_setPendingReboot, machine_foldl_setPendingReboot]
    by_cases hmem : normaliseMac mac ∈ ws.map normaliseMac
    · right
      obtain ⟨armed, harmed, heq⟩ := List.mem_map.mp hmem
      rw [if_pos hmem, if_pos (List.mem_map.mpr ⟨armed, hsubset armed harmed, heq⟩)]
    · left
      rw [if_neg hmem]

/-! ## How it ends -/

theorem stepsLeft_powerStep {mac : String} {task : PowerTask} (hopen : task.isDone = false) :
    (powerStep outcome action mac task db).1.stepsLeft < task.stepsLeft := by
  cases task with
  | queued => exact Nat.lt_succ_self 3
  | found machine =>
    cases machine with
    | none => exact Nat.zero_lt_succ 2
    | some read => exact Nat.lt_succ_self 2
  | running route =>
    simp only [powerStep]
    split
    · exact Nat.zero_lt_succ 1
    · split
      · exact Nat.lt_succ_self 1
      · exact Nat.zero_lt_succ 1
  | arming detail => exact Nat.zero_lt_one
  | done value => cases hopen

/-- How many steps the pool makes at most. -/
def PowerPool.stepsLeft (s : PowerPool) (macs : List String) : Nat :=
  ∑ i ∈ Finset.range macs.length, (s.tasks i).stepsLeft + (macs.length - s.results.length) +
    if s.failed = none then 1 else 0

theorem stepsLeft_next {i : Nat} (hi : i < macs.length) (hopen : (s.tasks i).isDone = false) :
    (s.next outcome action macs i).stepsLeft macs < s.stepsLeft macs := by
  have hself : ((s.next outcome action macs i).tasks i).stepsLeft < (s.tasks i).stepsLeft := by
    have htask : (s.next outcome action macs i).tasks i =
        (powerStep outcome action (macs[i]) (s.tasks i) s.db).1 := by
      refine (Function.update_self ..).trans ?_
      change (match macs[i]? with
        | some mac => powerStep outcome action mac (s.tasks i) s.db
        | none => _).1 = _
      rw [List.getElem?_eq_getElem hi]
    rw [htask]
    exact stepsLeft_powerStep hopen
  refine Nat.add_lt_add_right (Nat.add_lt_add_right (Finset.sum_lt_sum (fun j _ => ?_)
    ⟨i, Finset.mem_range.mpr hi, hself⟩) _) _
  by_cases hj : j = i
  · subst hj
    exact Nat.le_of_lt hself
  · rw [tasks_next_of_ne hj]

theorem PowerPoolStep.stepsLeft (h : PowerPoolStep outcome action macs s event s') :
    s'.stepsLeft macs < s.stepsLeft macs := by
  cases h with
  | take hi hqueued => exact stepsLeft_next hi (by rw [hqueued]; rfl)
  | work hi _ hopen => exact stepsLeft_next hi hopen
  | collect hnone hlt =>
    unfold PowerPool.stepsLeft
    rw [List.length_append, List.length_singleton]
    dsimp only
    omega
  | fail hnone hlt =>
    unfold PowerPool.stepsLeft
    rw [if_pos hnone, if_neg (Option.some_ne_none _)]
    exact Nat.lt_succ_self _

/-- The pool is never stuck. -/
theorem Interleaved.progress (h : Interleaved outcome action macs db s) (hnot : ¬ s.Ended macs) :
    ∃ event s', PowerPoolStep outcome action macs s event s' := by
  by_cases hwork : ∃ i < macs.length, s.tasks i ≠ .queued ∧ (s.tasks i).isDone = false
  · obtain ⟨i, hi, hqueued, hopen⟩ := hwork
    exact ⟨_, _, .work hi hqueued hopen⟩
  · have hidle : ∀ i < macs.length, s.tasks i = .queued ∨ (s.tasks i).isDone = true := by
      intro i hi
      by_contra hneither
      obtain ⟨hqueued, hopen⟩ := not_or.mp hneither
      exact hwork ⟨i, hi, hqueued, Bool.eq_false_iff.mpr hopen⟩
    cases hfailed : s.failed with
    | some err =>
      refine absurd ⟨fun i hi => ?_, fun hnone => ?_⟩ hnot
      · rcases hidle i hi with hqueued | hdone
        · exact .inr ⟨hqueued, by rw [hfailed]; exact Option.some_ne_none _⟩
        · exact .inl hdone
      · rw [hfailed] at hnone
        cases hnone
    | none =>
      have hlt : s.results.length < macs.length := by
        by_contra hge
        have heq := Nat.le_antisymm h.bound (Nat.le_of_not_lt hge)
        exact hnot ⟨fun i hi => .inl (h.collected i (heq ▸ hi)), fun _ => heq⟩
      cases htask : s.tasks s.results.length with
      | done value =>
        cases value with
        | ok result => exact ⟨_, _, .collect hfailed hlt htask⟩
        | error err => exact ⟨_, _, .fail hfailed hlt htask⟩
      | found | running | arming =>
        have hneither := hidle _ hlt
        rw [htask] at hneither
        rcases hneither with hqueued | hdone
        · cases hqueued
        · cases hdone
      | queued =>
        -- The first machine that no thread has come to.
        have hex : ∃ i, s.tasks i = .queued := ⟨_, htask⟩
        classical
        have hfirst := Nat.find_spec hex
        have hbound : Nat.find hex < macs.length := Nat.lt_of_le_of_lt (Nat.find_min' hex htask) hlt
        refine ⟨_, _, .take hbound hfirst (fun j hj => Nat.find_min hex hj) ?_⟩
        have hbusy : s.busy macs = 0 := by
          unfold PowerPool.busy
          rw [List.length_eq_zero_iff, List.filter_eq_nil_iff]
          intro i hi
          rcases hidle i (List.mem_range.mp hi) with hqueued | hdone
          · simp [hqueued, PowerTask.isQueued]
          · simp [hdone]
        rw [hbusy]
        exact Nat.lt_min.mpr ⟨Nat.lt_of_le_of_lt (Nat.zero_le _) hlt, by decide⟩

/-- From whatever state it has come to, the pool can go on to the end. -/
theorem Interleaved.ends {left : Nat} (h : Interleaved outcome action macs db s)
    (hleft : s.stepsLeft macs = left) :
    ∃ rest s', Run (PowerPoolStep outcome action macs) s rest s' ∧ s'.Ended macs := by
  induction left using Nat.strong_induction_on generalizing s with
  | _ left ih =>
    by_cases hended : s.Ended macs
    · exact ⟨[], s, .nil, hended⟩
    · obtain ⟨event, s', hstep⟩ := h.progress hended
      obtain ⟨rest, s'', hrest, hended'⟩ := ih _ (hleft ▸ hstep.stepsLeft) (h.step hstep) rfl
      exact ⟨event :: rest, s'', (Run.single hstep).append hrest, hended'⟩

theorem stepsLeft_of_run {events : List PowerPoolEvent}
    (hrun : Run (PowerPoolStep outcome action macs) s events s') :
    events.length + s'.stepsLeft macs ≤ s.stepsLeft macs := by
  induction hrun with
  | nil => exact Nat.le_of_eq (Nat.zero_add _)
  | snoc _ hstep ih =>
    have hless := hstep.stepsLeft
    rw [List.length_append, List.length_singleton]
    omega

/-- **The pool ends**: no run of it makes more than five steps for each machine and one, and from
whatever state it has come to it can go on to the end. -/
theorem powerMachines_ends {events : List PowerPoolEvent}
    (hrun : Run (PowerPoolStep outcome action macs) (startPool db) events s) :
    events.length ≤ 5 * macs.length + 1 ∧
      ∃ rest s', Run (PowerPoolStep outcome action macs) s rest s' ∧ s'.Ended macs := by
  refine ⟨?_, (Interleaved.of_run hrun).ends rfl⟩
  have hstart : (startPool db).stepsLeft macs = 5 * macs.length + 1 := by
    unfold PowerPool.stepsLeft startPool
    simp only [PowerTask.stepsLeft, Finset.sum_const, Finset.card_range, nsmul_eq_mul, Nat.cast_id,
      List.length_nil, if_true]
    omega
  exact hstart ▸ Nat.le_trans (Nat.le_add_right _ _) (stepsLeft_of_run hrun)

end Pool

end Threads

section Examples

attribute [local instance] ascii noNetworks

/-- A desktop and a MAC that the registry does not have are rebooted. -/
theorem powerMachines_pool_desktop : ∃ events s,
    Run (PowerPoolStep (fun _ => .exited 0) .reboot [desktop.mac, "52:54:00:00:00:09"])
      (startPool (newRegistry.after 5 (.enroll desktop)).db) events s ∧
    s.value = (powerMachines (fun _ => .exited 0) .reboot [desktop.mac, "52:54:00:00:00:09"]
      (newRegistry.after 5 (.enroll desktop)).db).value := by
  obtain ⟨events, s, hrun, hended⟩ := (@Interleaved.of_run _ (fun _ => .exited 0) .reboot
    [desktop.mac, "52:54:00:00:00:09"] (newRegistry.after 5 (.enroll desktop)).db _ _ .nil).ends rfl
  exact ⟨events, s, hrun, (powerMachines_pool hrun hended).1⟩

theorem powerMachines_ends_desktop : ∃ rest s, Run
    (PowerPoolStep (fun _ => .exited 0) .reboot [desktop.mac, "52:54:00:00:00:09"])
    (startPool (newRegistry.after 5 (.enroll desktop)).db) rest s ∧
    s.Ended [desktop.mac, "52:54:00:00:00:09"] :=
  (powerMachines_ends .nil).2

end Examples

end Fleetboot
