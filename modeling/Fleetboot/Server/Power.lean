import Fleetboot.Library.Quote
import Fleetboot.Registry.Holds

/-!
# Power control

`power_machine` of `dashboard.py`: a machine's own command for the action, else the fleet's
pdudaemon under the machine's alias, else, for a reboot, the soft-reboot signal.

`enroll` replaces a machine's row and carries its power wiring over. The reported hostname is
no wiring, but the alias falls back to it.

* `powerCommandLine_enroll_iff`: re-enrolling keeps the command line of an action exactly when
  that command line does not rest on the hostname.
* `db_powerMachine`: switching on or off writes nothing.
* `pdudaemonPowerCommand_injective`: two aliases have two command lines.
-/

set_option autoImplicit false

namespace Fleetboot

open Python Relational Transition

/-! ## Routes -/

namespace PowerAction

def text : PowerAction → String
  | on => "on"
  | off => "off"
  | reboot => "reboot"

/-- `POWER_ACTIONS`. -/
def all : List PowerAction := [on, off, reboot]

/-- `action in POWER_ACTIONS`, as a reading of the text. -/
def ofText (text : String) : Option PowerAction := all.find? fun action => action.text == text

theorem ofText_text (action : PowerAction) : ofText action.text = some action := by
  cases action <;> decide

end PowerAction

/-- A text that is there and not empty, as `if text` sees it. -/
def truthyText (text : Option String) : Option String := text.filter (· != "")

/-- `_machine_power_command`. -/
def machinePowerCommand (m : Machine) : PowerAction → Option String
  | .on => m.powerOnCommand
  | .off => m.powerOffCommand
  | .reboot => m.rebootCommand

/-- `_pdudaemon_power_command`. -/
def pdudaemonPowerCommand (pduHost alias_ : String) (action : PowerAction) : String :=
  let base := if containsText pduHost "://" then pduHost else "http://" ++ pduHost
  "curl --fail \"" ++ base ++ "/power/control/" ++ action.text ++ "?alias=" ++ quote alias_ ++ "\""

/-- The settings key of the fleet's pdudaemon. -/
def pdudaemonHostKey : String := "pdudaemon_host"

/-- `machine.pdu_alias or machine.hostname`. -/
def pdudaemonAlias (m : Machine) : Option String :=
  (truthyText m.pduAlias).or (truthyText m.hostname)

/-- How a machine is switched, or why it cannot be. -/
inductive PowerRoute
  | machineCommand (command : String)
  | pdudaemon (pduHost alias_ : String)
  | none (detail : String)
  deriving DecidableEq

/-- The choice of `power_machine`. -/
def powerRoute (db : Database) (m : Machine) (action : PowerAction) : PowerRoute :=
  match truthyText (machinePowerCommand m action) with
  | some command => .machineCommand command
  | none =>
    match getSetting db pdudaemonHostKey, pdudaemonAlias m with
    | some pduHost, some alias_ => .pdudaemon pduHost alias_
    | none, _ => .none "no per-machine power command and no fleet pdudaemon_host setting"
    | some _, none => .none ("no per-machine power command, and no pdudaemon alias " ++
        "(machine has never reported a hostname — set pdu_alias)")

/-- The command line that is run. -/
def PowerRoute.commandLine (action : PowerAction) : PowerRoute → Option String
  | machineCommand command => some command
  | pdudaemon pduHost alias_ => some (pdudaemonPowerCommand pduHost alias_ action)
  | none _ => Option.none

def PowerRoute.method : PowerRoute → String
  | machineCommand _ => "machine_command"
  | pdudaemon _ _ => "pdudaemon"
  | none _ => "none"

/-- The columns of a machine that its routes are chosen from. -/
structure PowerWiring where
  rebootCommand : Option String
  powerOnCommand : Option String
  powerOffCommand : Option String
  pduAlias : Option String
  hostname : Option String
  deriving DecidableEq

def Machine.powerWiring (m : Machine) : PowerWiring :=
  { rebootCommand := m.rebootCommand
    powerOnCommand := m.powerOnCommand
    powerOffCommand := m.powerOffCommand
    pduAlias := m.pduAlias
    hostname := m.hostname }

theorem powerRoute_congr {db db' : Database} {m m' : Machine}
    (hsettings : db'.settings = db.settings) (hwiring : m'.powerWiring = m.powerWiring) :
    powerRoute db' m' = powerRoute db m := by
  unfold Machine.powerWiring at hwiring
  injection hwiring with hreboot hon hoff halias hhostname
  funext action
  have hcommand : machinePowerCommand m' action = machinePowerCommand m action := by
    cases action <;> assumption
  unfold powerRoute getSetting pdudaemonAlias
  rw [hcommand, hsettings, halias, hhostname]

/-! ## Switching -/

/-- What becomes of a command that is run. -/
inductive CommandOutcome
  | exited (code : Int)
  | timedOut (seconds : String)
  | raised (err : Exception)

structure PowerResult where
  mac : String
  action : String
  method : String
  ok : Bool
  detail : String
  deleted : Bool := false
  deriving DecidableEq

/-- Whether the action succeeded, and the detail to report. -/
def runRoute (route : PowerRoute) (outcome : CommandOutcome) : Except Exception (Bool × String) :=
  match route with
  | .none detail => .ok (false, detail)
  | _ =>
    match outcome with
    | .exited code =>
      .ok (decide (code = 0), if code = 0 then route.method ++ " succeeded"
        else route.method ++ " exited " ++ toString code)
    | .timedOut seconds => .ok (false, route.method ++ " timed out after " ++ seconds ++ "s")
    | .raised err => .error err

section Switch

variable [Unicode]

/-- The command line that `power_machine` runs for a MAC, if it runs one. -/
def powerCommandLine (db : Database) (mac : String) (action : PowerAction) : Option String :=
  (db.lookup mac).bind fun m => (powerRoute db m action).commandLine action

/-- `power_machine`, given what becomes of the command should it be run. -/
def powerMachine (mac action : String) (thenDelete : Bool) (outcome : CommandOutcome)
    (db : Database) : Outcome PowerResult :=
  match PowerAction.ofText action with
  | none => ⟨db, .error (.valueError ("unknown power action " ++ Python.repr action ++
      "; expected one of " ++ ", ".intercalate (PowerAction.all.map PowerAction.text)))⟩
  | some powerAction =>
    match db.lookup mac with
    | none => ⟨db, .ok
        { mac, action, method := "none", ok := false, detail := "no machine with MAC " ++ mac }⟩
    | some m =>
      let route := powerRoute db m powerAction
      match runRoute route outcome with
      | .error err => ⟨db, .error err⟩
      | .ok (succeeded, detail) =>
        if thenDelete then
          (remove mac db).andThen fun _ db => ⟨db, .ok
            { mac, action, method := route.method, ok := succeeded, detail, deleted := true }⟩
        else if powerAction = .reboot ∧ succeeded = false then
          ⟨setPendingReboot mac true db, .ok
            { mac, action, method := "soft_reboot", ok := true
              detail := "armed the soft-reboot signal; the machine reboots itself " ++
                "on its next heartbeat" ++
                if detail = "" then "" else " (" ++ detail ++ ")" }⟩
        else ⟨db, .ok { mac, action, method := route.method, ok := succeeded, detail }⟩

/-- Switching a machine on or off writes nothing. -/
theorem db_powerMachine {mac : String} {action : PowerAction} (haction : action ≠ .reboot)
    (outcome : CommandOutcome) (db : Database) :
    (powerMachine mac action.text false outcome db).db = db := by
  unfold powerMachine
  rw [PowerAction.ofText_text]
  dsimp only
  split
  · rfl
  · split
    · rfl
    · rw [if_neg (by simp), if_neg fun h => haction h.1]

end Switch

/-! ## Aliases and command lines -/

/-- Two aliases of one pdudaemon have two command lines. -/
theorem pdudaemonPowerCommand_injective {pduHost a b : String} {action : PowerAction}
    (h : pdudaemonPowerCommand pduHost a action = pdudaemonPowerCommand pduHost b action) :
    a = b := by
  unfold pdudaemonPowerCommand at h
  dsimp only at h
  rw [String.append_left_inj] at h
  exact quote_injective ((String.append_right_inj _).mp h)

/-! ## Re-enrolling -/

/-- The route of an action is the pdudaemon under the reported hostname. -/
structure RestsOnHostname (db : Database) (m : Machine) (action : PowerAction) : Prop where
  no_command : truthyText (machinePowerCommand m action) = none
  pdudaemon : (getSetting db pdudaemonHostKey).isSome
  no_alias : truthyText m.pduAlias = none
  hostname : (truthyText m.hostname).isSome

theorem machinePowerCommand_carried (previous row : Machine) (action : PowerAction) :
    machinePowerCommand ((CarriedColumns.select previous).assign row) action =
      machinePowerCommand previous action := by
  cases action <;> rfl

/-- Without a hostname the route is the same, unless it rested on the hostname. -/
theorem commandLine_without_hostname_iff {db db' : Database} {m m' : Machine}
    {action : PowerAction}
    (hcommand : machinePowerCommand m' action = machinePowerCommand m action)
    (halias : m'.pduAlias = m.pduAlias) (hhostname : m'.hostname = none)
    (hsettings : db'.settings = db.settings) :
    (powerRoute db' m' action).commandLine action = (powerRoute db m action).commandLine action ↔
      ¬ RestsOnHostname db m action := by
  have hpdu : getSetting db' pdudaemonHostKey = getSetting db pdudaemonHostKey := by
    unfold getSetting
    rw [hsettings]
  have hnew : pdudaemonAlias m' = truthyText m.pduAlias := by
    unfold pdudaemonAlias
    rw [halias, hhostname]
    exact Option.or_none
  unfold powerRoute
  rw [hcommand, hpdu, hnew]
  cases hown : truthyText (machinePowerCommand m action) with
  | some command => exact iff_of_true rfl fun h => by simpa [hown] using h.no_command
  | none =>
    cases hhost : getSetting db pdudaemonHostKey with
    | none => exact iff_of_true rfl fun h => by simpa [hhost] using h.pdudaemon
    | some pduHost =>
      cases hpduAlias : truthyText m.pduAlias with
      | some alias_ =>
        have hold : pdudaemonAlias m = some alias_ := by
          unfold pdudaemonAlias
          rw [hpduAlias]
          rfl
        rw [hold]
        exact iff_of_true rfl fun h => by simpa [hpduAlias] using h.no_alias
      | none =>
        have hold : pdudaemonAlias m = truthyText m.hostname := by
          unfold pdudaemonAlias
          rw [hpduAlias]
          rfl
        rw [hold]
        cases hname : truthyText m.hostname with
        | none => exact iff_of_true rfl fun h => by simpa [hname] using h.hostname
        | some name =>
          refine iff_of_false (fun h => by cases h) fun h => h ⟨hown, ?_, hpduAlias, ?_⟩
          · rw [hhost]
            rfl
          · rw [hname]
            rfl

section Enroll

variable [Unicode]

attribute [local irreducible] normaliseMac blankToNone

/-- **Re-enrolling and the power route.** For an enrolled machine, any arguments of `enroll` and
any action: the command line of the action is the same before and after, exactly when `enroll`
refuses its arguments or the command line does not rest on the reported hostname. -/
theorem powerCommandLine_enroll_iff {db : Database} {args : Enrolment} {m : Machine}
    (hm : db.lookup args.mac = some m) (now : Timestamp) (action : PowerAction) :
    powerCommandLine (enroll now args db).db args.mac action =
        powerCommandLine db args.mac action ↔
      ScratchMode.ofText args.scratchMode = none ∨ ¬ RestsOnHostname db m action := by
  have henroll := enroll_cases now args db
  generalize enroll now args db = out at henroll
  cases henroll with
  | refused hscratch => exact iff_of_true rfl (.inl hscratch)
  | @again scratch previous hscratch hprev =>
    obtain rfl : previous = m := Option.some.inj (hprev.symm.trans hm)
    have hafter : Database.lookup ((db.replaceMachine (args.row scratch now)).updateMachine
        (normaliseMac args.mac) (CarriedColumns.select previous).assign
        (CarriedColumns.mac_assign _)) args.mac =
        some ((CarriedColumns.select previous).assign (args.row scratch now)) := by
      rw [Database.lookup, Database.machine_updateMachine, if_pos rfl,
        Database.machine_replaceMachine, if_pos (by rfl), Option.map_some]
    unfold powerCommandLine
    rw [hafter, hm, Option.bind_some, Option.bind_some, hscratch]
    refine Iff.trans ?_ (show ¬ RestsOnHostname db previous action ↔ _ by simp)
    exact commandLine_without_hostname_iff (machinePowerCommand_carried _ _ action) rfl rfl rfl
  | new _ hnone =>
    rw [Database.lookup, hnone] at hm
    cases hm
  | orphan _ hnone =>
    rw [Database.lookup, hnone] at hm
    cases hm

end Enroll

section Examples

attribute [local instance] ascii noNetworks

/-- A fleet with a pdudaemon, and a desktop that has reported its hostname. -/
def wiredFleet : Registry :=
  ((newRegistry.after 5 (.enroll desktop)).after 6 (.setPdudaemonHost (some "pdu:16421"))).after 7
    (.updateHostname "52:54:00:12:34:56" "desk1")

/-- The machine had a command line for `off` and has none after the second `enroll`. -/
theorem powerCommandLine_enroll_desktop : Reachable wiredFleet ∧
    powerCommandLine wiredFleet.db desktop.mac .off =
      some "curl --fail \"http://pdu:16421/power/control/off?alias=desk1\"" ∧
    powerCommandLine (enroll 8 desktop wiredFleet.db).db desktop.mac .off = none := by
  have hrun : Run Step newRegistry _ wiredFleet :=
    ((Run.single (Registry.step_after (by decide) _)).snoc
      (Registry.step_after (show _ ≤ 6 by decide) _)).snoc
      (Registry.step_after (show _ ≤ 7 by decide) _)
  exact ⟨⟨newRegistry, _, newRegistry_opened, hrun⟩, by decide +kernel, by decide +kernel⟩

theorem powerCommandLine_enroll_iff_desktop :
    powerCommandLine (enroll 8 desktop (newRegistry.after 5 (.enroll desktop)).db).db
        desktop.mac .on =
      powerCommandLine (newRegistry.after 5 (.enroll desktop)).db desktop.mac .on :=
  (@powerCommandLine_enroll_iff _ _ _ (desktop.row .volatile 5) rfl 8 .on).mpr
    (.inr fun h => by cases h.hostname)

end Examples

end Fleetboot
