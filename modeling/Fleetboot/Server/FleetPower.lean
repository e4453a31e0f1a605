import Fleetboot.Library.Least
import Fleetboot.Registry.Reserving
import Fleetboot.Server.Heartbeat
import Fleetboot.Server.MachineTools
import Fleetboot.Server.PowerTargets

/-!
# Whom `power_fleet` switches

`power_fleet` switches some machines of a profile on, off, or through a reboot: those that have not
been heard of lately, to switch on, and those that have been, for the other two.

* `online_iff_recentlySeen`: what being online comes down to.
* `powerFleet_exact`: the first such machines by MAC, as many as were asked for, and nobody else.
* `powerFleet_pool`: and so when the threads of the pool switch them.
-/

set_option autoImplicit false

namespace Fleetboot

open Python Relational Transition Sorting

variable {Build : Type}

/-! ## Machines to be switched -/

section Selection

variable {now : Timestamp} {args : FleetArgs} {db : Database}

/-- A session of the MAC was stamped less than six minutes ago. -/
def RecentlySeen (now : Timestamp) (db : Database) (mac : String) : Prop :=
  ∃ row ∈ db.bootSessions.rows, row.mac = mac ∧
    ∃ stamp, row.latestStateAt = some stamp ∧ now < stamp + staleAfterSeconds

theorem online_iff_recentlySeen {mac : String} :
    (livenessOf now db mac).online = true ↔ RecentlySeen now db mac := by
  constructor
  · intro honline
    unfold livenessOf at honline
    cases hseen : lastSeenByMac db mac with
    | none =>
      rw [hseen] at honline
      cases honline
    | some seen =>
      rw [hseen] at honline
      have hrecent : now - seen < staleAfterSeconds := by simpa using honline
      obtain ⟨row, hrow, hmac, hstamp⟩ :=
        mem_stampsOf.mp (List.max?_eq_some_iff.mp hseen).1
      refine ⟨row, hrow, hmac, seen, hstamp, ?_⟩
      unfold staleAfterSeconds Timestamp at *
      omega
  · rintro ⟨row, hrow, hmac, stamp, hstamp, hrecent⟩
    exact online_of_seenSince ⟨stamp, mem_stampsOf.mpr ⟨row, hrow, hmac, hstamp⟩, Nat.le_refl _⟩
      hrecent

/-- A machine that the request is about and that is not yet as it is asked for. -/
structure Switchable (now : Timestamp) (args : FleetArgs) (db : Database) (m : Machine) :
    Prop where
  enrolled : m ∈ db.machines.rows
  profile : m.profileName = args.profile
  architecture : ∀ wanted, args.architecture = some wanted →
    SameArchitecture m.architecture wanted
  state : RecentlySeen now db m.mac ↔ args.action ≠ .on

/-- The first machines that may be switched, as many as were asked for. -/
structure FleetSelects (now : Timestamp) (args : FleetArgs) (db : Database)
    (macs : List String) : Prop where
  ascending : macs.Pairwise (· < ·)
  switchable : ∀ mac ∈ macs, ∃ m, Switchable now args db m ∧ m.mac = mac
  bounded : ∀ count, args.count = some count → macs.length ≤ count
  first : ∀ m, Switchable now args db m → m.mac ∉ macs →
    args.count = some macs.length ∧ ∀ mac ∈ macs, mac < m.mac

theorem mem_fleetCandidates_iff {m : Machine} :
    m ∈ fleetCandidates now args db ↔ Switchable now args db m := by
  have hstate : ((livenessOf now db m.mac).online != decide (args.action = .on)) = true ↔
      (RecentlySeen now db m.mac ↔ args.action ≠ .on) := by
    rw [← online_iff_recentlySeen]
    by_cases haction : args.action = .on <;> simp [haction]
  have harch : (args.architecture.all fun wanted =>
      decide (m.architecture ∈ architectureAliases wanted)) = true ↔
      ∀ wanted, args.architecture = some wanted → SameArchitecture m.architecture wanted := by
    cases args.architecture <;> simp [mem_architectureAliases_iff]
  unfold fleetCandidates fleetMatching Database.listAll
  rw [List.mem_insertionSort, List.mem_filter, List.mem_filter, List.mem_insertionSort,
    Bool.and_eq_true, beq_iff_eq, hstate, harch]
  exact ⟨fun ⟨⟨hrow, hprofile, harch⟩, hstate⟩ => ⟨hrow, hprofile, harch, hstate⟩,
    fun ⟨hrow, hprofile, harch, hstate⟩ => ⟨⟨hrow, hprofile, harch⟩, hstate⟩⟩

theorem nodup_fleetMatching :
    (((fleetMatching args db).filter fun m =>
      (livenessOf now db m.mac).online != decide (args.action = .on)).map Machine.mac).Nodup := by
  have hmacs : (db.machines.rows.map Machine.mac).Nodup := by simpa using db.machines.unique
  have hall : (db.listAll.map Machine.mac).Nodup :=
    ((List.perm_insertionSort _ _).map Machine.mac).nodup_iff.mpr hmacs
  unfold fleetMatching
  exact hall.sublist ((List.filter_sublist.trans List.filter_sublist).map Machine.mac)

/-- **The selection.** -/
theorem fleetSelects_selected :
    FleetSelects now args db ((fleetSelected now args db).map Machine.mac) := by
  have hascending : ((fleetCandidates now args db).map Machine.mac).Pairwise (· < ·) :=
    List.pairwise_map.mpr (pairwise_byKey Machine.mac nodup_fleetMatching)
  cases hcount : args.count with
  | none =>
    have hselected : fleetSelected now args db = fleetCandidates now args db := by
      rw [fleetSelected, hcount]
    rw [hselected]
    refine ⟨hascending, fun mac hmac => ?_, fun count h => ?_, fun m hm hnot => ?_⟩
    · obtain ⟨m, hm, rfl⟩ := List.mem_map.mp hmac
      exact ⟨m, mem_fleetCandidates_iff.mp hm, rfl⟩
    · rw [hcount] at h
      cases h
    · exact absurd (List.mem_map_of_mem (mem_fleetCandidates_iff.mpr hm)) hnot
  | some count =>
    have hselected : fleetSelected now args db = (fleetCandidates now args db).take count := by
      rw [fleetSelected, hcount]
    rw [hselected]
    refine ⟨hascending.sublist ((List.take_sublist _ _).map Machine.mac), fun mac hmac => ?_,
      fun count' h => ?_, fun m hm hnot => ?_⟩
    · obtain ⟨m, hm, rfl⟩ := List.mem_map.mp hmac
      exact ⟨m, mem_fleetCandidates_iff.mp (List.mem_of_mem_take hm), rfl⟩
    · obtain rfl : count = count' := Option.some.inj (hcount.symm.trans h)
      rw [List.length_map]
      exact List.length_take_le _ _
    · have hcandidate := (mem_byKey Machine.mac).mp (mem_fleetCandidates_iff.mpr hm)
      obtain ⟨hlength, hless⟩ := lt_of_not_mem_take Machine.mac nodup_fleetMatching hcandidate
        fun htaken => hnot (List.mem_map_of_mem htaken)
      refine ⟨?_, fun mac hmac => ?_⟩
      · rw [hcount, List.length_map]
        exact congrArg some hlength.symm
      · obtain ⟨other, hother, rfl⟩ := List.mem_map.mp hmac
        exact hless other hother

end Selection

/-! ## The tool -/

section Tool

variable [Unicode]

/-- The answer to what became of each machine, or to the first exception. -/
def fleetAnswer (now : Timestamp) (args : FleetArgs) (db : Database) :
    Except Exception (List PowerResult) → Except ToolFailure ToolContent
  | .ok results => .ok (.payload (fleetPayload now args db results))
  | .error err => .error (.raised err)

/-- **Whom `power_fleet` switches.** For arguments that pass its checks: the first machines that
may be switched, as many as were asked for, in the order of their MACs. The power commands are
those of these machines, what is returned or raised comes of switching each of them, and all that
changes is the soft-reboot signal of those whose reboot the routes did not bring about. -/
theorem powerFleet_exact (env : RequestEnv) {args : Fields} {checked : FleetArgs}
    (hargs : fleetArgs args = .ok checked) (deployment : Deployment Build) :
    ∃ macs, FleetSelects env.now checked deployment.db macs ∧
      (powerFleet env args deployment).powered =
        powerCalls deployment.db macs checked.action ∧
      (powerFleet env args deployment).deployment = { deployment with
        db := (macs.flatMap (powerArms env.outcome checked.action deployment.db)).foldl
          (fun db mac => setPendingReboot mac true db) deployment.db } ∧
      (powerFleet env args deployment).value = fleetAnswer env.now checked deployment.db
        (macs.mapM (powerValue env.outcome checked.action deployment.db)) := by
  refine ⟨_, fleetSelects_selected, ?_⟩
  obtain ⟨hvalue, hdb⟩ := powerMachines_eq env.outcome checked.action
    ((fleetSelected env.now checked deployment.db).map Machine.mac) deployment.db
  have hrun : powerFleet env args deployment = ToolRun.switched env checked.action
      ((fleetSelected env.now checked deployment.db).map Machine.mac) deployment
      fun results _ => fleetPayload env.now checked deployment.db results := by
    rw [powerFleet, hargs]
  rw [hrun]
  unfold ToolRun.switched
  refine ⟨rfl, congrArg (fun db => { deployment with db }) hdb, ?_⟩
  show fleetAnswer env.now checked deployment.db (powerMachines _ _ _ _).value = _
  rw [hvalue]

/-- **What the threads make of it**: in whatever order they switch the machines that are selected,
the answer is that of `powerFleet`, and so is the registry, but that after an exception some of the
machines may be as they were. -/
theorem powerFleet_pool (env : RequestEnv) {args : Fields} {checked : FleetArgs}
    (hargs : fleetArgs args = .ok checked) (deployment : Deployment Build)
    {events : List PowerPoolEvent} {s : PowerPool} {macs : List String}
    (hmacs : macs = (fleetSelected env.now checked deployment.db).map Machine.mac)
    (hrun : Run (PowerPoolStep env.outcome checked.action macs) (startPool deployment.db) events s)
    (hended : s.Ended macs) :
    (powerFleet env args deployment).value = fleetAnswer env.now checked deployment.db s.value ∧
      (s.failed = none → s.db = (powerFleet env args deployment).deployment.db) ∧
      ∀ mac, s.db.lookup mac = deployment.db.lookup mac ∨
        s.db.lookup mac = (powerFleet env args deployment).deployment.db.lookup mac := by
  obtain ⟨hvalue, hdb, hrows⟩ := powerMachines_pool hrun hended
  have hswitched : powerFleet env args deployment = ToolRun.switched env checked.action macs
      deployment fun results _ => fleetPayload env.now checked deployment.db results := by
    rw [powerFleet, hargs, hmacs]
  rw [hswitched, hvalue]
  exact ⟨rfl, hdb, hrows⟩

end Tool

section Examples

attribute [local instance] ascii noNetworks

/-- A fleet with two machines that have not booted. -/
def fleetDeployment : Deployment Unit := ⟨namedFleet.db, [], none, []⟩

def switchOneOn : Fields :=
  [("action", .str "on"), ("profile", .str "school"), ("count", .int 1)]

theorem powerFleet_exact_named : ∃ macs,
    FleetSelects 31 ⟨.on, "school", none, some 1⟩ fleetDeployment.db macs ∧
      (powerFleet (quietEnv 31) switchOneOn fleetDeployment).powered =
        powerCalls fleetDeployment.db macs .on := by
  obtain ⟨macs, hselects, hpowered, -⟩ := @powerFleet_exact Unit _ (quietEnv 31) switchOneOn
    ⟨.on, "school", none, some 1⟩ rfl fleetDeployment
  exact ⟨macs, hselects, hpowered⟩

example : (powerFleet (quietEnv 31) switchOneOn fleetDeployment).powered.map PowerCall.mac =
    ["52:54:00:12:34:56"] := by
  decide +kernel

end Examples

end Fleetboot
