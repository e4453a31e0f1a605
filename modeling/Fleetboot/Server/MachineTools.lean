import Fleetboot.Server.KnownProfiles
import Fleetboot.Server.Mcp
import Fleetboot.Server.PowerPool

/-!
# The tools for machines

The tools of `mcp.py` with which an admin enrols, moves, deletes, switches and wires machines. The
tools for profiles, builds and bug reports have no use for the registry, so they are a parameter
that does not get it.

* `MachineTool.db_run`: a tool makes the calls of the registry that `MachineTool.operations` lists.
-/

set_option autoImplicit false

namespace Fleetboot

open Python Relational Transition

variable {Build : Type}

/-! ## Arguments -/

/-- `_require(args, key, bool)`. -/
def requireBool (args : Fields) (key : String) : Except String Bool :=
  match Json.get? args key with
  | none => .error ("missing argument: " ++ key)
  | some (.bool value) => .ok value
  | some _ => .error ("argument " ++ key ++ " must be bool")

/-- `if action not in POWER_ACTIONS`. -/
def checkAction (action : String) : Except String PowerAction :=
  match PowerAction.ofText action with
  | some action => .ok action
  | none =>
    .error ("action must be one of " ++ ", ".intercalate (PowerAction.all.map PowerAction.text))

/-- The checked arguments of `power_machine`. -/
def powerArgs (args : Fields) : Except String (String × PowerAction) := do
  let mac ← requireStr args "mac"
  let action ← requireStr args "action"
  return (mac, ← checkAction action)

/-- The checked arguments of `set_power_command`. -/
def powerCommandArgs (args : Fields) : Except String (String × PowerAction × String) := do
  let mac ← requireStr args "mac"
  let action ← requireStr args "action"
  let command ← requireStr args "command"
  return (mac, ← checkAction action, command)

/-- The checked arguments of `set_pdu_alias`. -/
def pduAliasArgs (args : Fields) : Except String (String × String) := do
  return (← requireStr args "mac", ← requireStr args "alias")

/-- The checked arguments of `set_pending_reboot`. -/
def pendingRebootArgs (args : Fields) : Except String (String × Bool) := do
  return (← requireStr args "mac", ← requireBool args "armed")

/-- The checked arguments of `set_reboot_command`. -/
def rebootCommandArgs (args : Fields) : Except String (String × String) := do
  return (← requireStr args "mac", ← requireStr args "command")

/-- The checked arguments of `power_fleet`. -/
structure FleetArgs where
  action : PowerAction
  profile : String
  architecture : Option String
  count : Option Nat

/-- `count` of `power_fleet`. -/
def fleetCount (args : Fields) : Except String (Option Nat) :=
  match Json.getD args "count" .null with
  | .null => .ok none
  | .int count => if count < 1 then .error "count must be at least 1" else .ok (some count.toNat)
  | _ => .error "count must be an integer"

def fleetArgs (args : Fields) : Except String FleetArgs := do
  let action ← requireStr args "action"
  let profile ← requireStr args "profile"
  let action ← checkAction action
  let architecture ← optionalStr args "architecture"
  let count ← fleetCount args
  return { action, profile, architecture, count }

/-! ## Tools -/

section Tools

variable [Unicode]

/-- `delete_machine`. -/
def deleteMachine (args : Fields) (deployment : Deployment Build) : ToolRun Build :=
  match requireStr args "mac" with
  | .error message => .fail deployment message
  | .ok mac =>
    let out := remove mac deployment.db
    let removed : Deployment Build := { deployment with db := out.db }
    match out.value with
    | .error err => ⟨removed, [], .error (.raised err)⟩
    | .ok value => .answer removed (.obj [("mac", .str mac), ("removed", .bool value)])

/-- `delete_after` of `reboot_machine`. -/
def deleteAfter (args : Fields) : Bool := (Json.getD args "delete_after" (.bool false)).truthy

/-- `reboot_machine`. -/
def rebootMachine (env : RequestEnv) (args : Fields) (deployment : Deployment Build) :
    ToolRun Build :=
  match requireStr args "mac" with
  | .error message => .fail deployment message
  | .ok mac =>
    let out := powerMachine mac PowerAction.reboot.text (deleteAfter args) (env.outcome mac)
      deployment.db
    ⟨{ deployment with db := out.db }, powerCalls deployment.db [mac] .reboot,
      match out.value with
      | .error err => .error (.raised err)
      | .ok _ => .ok (.payload (.obj
          [("mac", .str mac), ("deleted", .bool (out.db.lookup mac).isNone),
            ("pending_reboot", .bool (((out.db.lookup mac).map Machine.pendingReboot).getD
              false))]))⟩

/-- `power_machine`. -/
def powerTool (env : RequestEnv) (args : Fields) (deployment : Deployment Build) :
    ToolRun Build :=
  match powerArgs args with
  | .error message => .fail deployment message
  | .ok (mac, action) =>
    match deployment.db.lookup mac with
    | none => .fail deployment ("no machine with MAC " ++ Python.repr mac)
    | some _ =>
      let out := powerMachine mac action.text false (env.outcome mac) deployment.db
      ⟨{ deployment with db := out.db }, powerCalls deployment.db [mac] action,
        match out.value with
        | .error err => .error (.raised err)
        | .ok result => .ok (.payload (powerResultDict result))⟩

omit [Unicode] in
/-- The machines that `power_fleet` is about. -/
def fleetMatching (args : FleetArgs) (db : Database) : List Machine :=
  db.listAll.filter fun m => m.profileName == args.profile &&
    args.architecture.all fun wanted => decide (m.architecture ∈ architectureAliases wanted)

omit [Unicode] in
/-- Those of them that are not yet in the state that is asked for, by MAC. -/
def fleetCandidates (now : Timestamp) (args : FleetArgs) (db : Database) : List Machine :=
  ((fleetMatching args db).filter fun m =>
    (livenessOf now db m.mac).online != decide (args.action = .on)).insertionSort
      fun m m' => m.mac ≤ m'.mac

omit [Unicode] in
/-- `candidates[:count]`. -/
def fleetSelected (now : Timestamp) (args : FleetArgs) (db : Database) : List Machine :=
  match args.count with
  | none => fleetCandidates now args db
  | some count => (fleetCandidates now args db).take count

/-- What `power_fleet` answers when the machines were switched. -/
def fleetPayload (now : Timestamp) (args : FleetArgs) (db : Database)
    (results : List PowerResult) : Json :=
  let selected := (fleetSelected now args db).length
  .obj [("action", .str args.action.text), ("profile", .str args.profile),
    ("architecture", .ofOption args.architecture),
    ("matching", .int (fleetMatching args db).length),
    ("eligible", .int (fleetCandidates now args db).length), ("selected", .int selected),
    ("succeeded", .int (results.filter PowerResult.ok).length),
    ("short_by", .int (args.count.elim 0 fun count => max 0 ((count : Int) - selected))),
    ("results", .arr (results.map powerResultDict))]

/-- `power_fleet`. -/
def powerFleet (env : RequestEnv) (args : Fields) (deployment : Deployment Build) :
    ToolRun Build :=
  match fleetArgs args with
  | .error message => .fail deployment message
  | .ok args =>
    .switched env args.action ((fleetSelected env.now args deployment.db).map Machine.mac)
      deployment fun results _ => fleetPayload env.now args deployment.db results

/-- A tool that changes a column of a machine which has to be there, and answers with what the
column has become. -/
def ToolRun.column (deployment : Deployment Build) (mac column : String)
    (write : Database → Database) (payload : Machine → Json) : ToolRun Build :=
  match deployment.db.lookup mac with
  | none => .fail deployment ("no machine with MAC " ++ Python.repr mac)
  | some _ =>
    let written : Deployment Build := { deployment with db := write deployment.db }
    match written.db.lookup mac with
    | none => ⟨written, [], .error (.raised
        (.attributeError ("'NoneType' object has no attribute '" ++ column ++ "'")))⟩
    | some m => .answer written (payload m)

/-- `set_power_command`. -/
def setPowerCommandTool (args : Fields) (deployment : Deployment Build) : ToolRun Build :=
  match powerCommandArgs args with
  | .error message => .fail deployment message
  | .ok (mac, action, command) =>
    .column deployment mac "power_on_command" (setPowerCommand mac action (some command))
      fun m => .obj
        [("mac", .str mac), ("action", .str action.text),
          ("command", .ofOption (machinePowerCommand m action))]

/-- `set_pdu_alias`. -/
def setPduAliasTool (args : Fields) (deployment : Deployment Build) : ToolRun Build :=
  match pduAliasArgs args with
  | .error message => .fail deployment message
  | .ok (mac, alias_) =>
    .column deployment mac "pdu_alias" (setPduAlias mac (some alias_)) fun m => .obj
      [("mac", .str mac), ("pdu_alias", .ofOption m.pduAlias)]

/-- `set_pending_reboot`, which does not ask whether there is such a machine. -/
def setPendingRebootTool (args : Fields) (deployment : Deployment Build) : ToolRun Build :=
  match pendingRebootArgs args with
  | .error message => .fail deployment message
  | .ok (mac, armed) =>
    .answer { deployment with db := setPendingReboot mac armed deployment.db } (.obj
      [("mac", .str mac), ("pending_reboot", .bool armed)])

/-- `set_reboot_command`, which does not ask either. -/
def setRebootCommandTool (args : Fields) (deployment : Deployment Build) : ToolRun Build :=
  match rebootCommandArgs args with
  | .error message => .fail deployment message
  | .ok (mac, command) =>
    .answer { deployment with
        db := setPowerCommand mac .reboot (truthyText (some command)) deployment.db } (.obj
      [("mac", .str mac), ("reboot_command", .ofOption (truthyText (some command)))])

/-- `release_to_pool`. -/
def releaseToPoolTool (env : RequestEnv) (args : Fields) (deployment : Deployment Build) :
    ToolRun Build :=
  match requireStr args "mac" with
  | .error message => .fail deployment message
  | .ok mac =>
    match deployment.db.lookup mac with
    | none => .fail deployment ("no machine with MAC " ++ Python.repr mac)
    | some _ =>
      let out := releaseToPool env.now mac deployment.db
      let released : Deployment Build := { deployment with db := out.db }
      match out.value with
      | .error err => ⟨released, [], .error (.raised err)⟩
      | .ok value => .answer released (.obj
          [("mac", .str mac), ("released_permanent_hold", .bool value),
            ("availability",
              .str (availabilityOf (activeReservation out.db env.now mac)).text)])

/-- The tools for machines that only an admin may call. -/
inductive MachineTool
  | enrolMachine
  | setMachineProfile
  | deleteMachine
  | rebootMachine
  | powerMachine
  | powerFleet
  | pinMachine
  | releaseToPool
  | setPowerCommand
  | setPduAlias
  | setPendingReboot
  | setRebootCommand
  deriving DecidableEq

namespace MachineTool

def name : MachineTool → String
  | enrolMachine => "enrol_machine"
  | setMachineProfile => "set_machine_profile"
  | deleteMachine => "delete_machine"
  | rebootMachine => "reboot_machine"
  | powerMachine => "power_machine"
  | powerFleet => "power_fleet"
  | pinMachine => "pin_machine"
  | releaseToPool => "release_to_pool"
  | setPowerCommand => "set_power_command"
  | setPduAlias => "set_pdu_alias"
  | setPendingReboot => "set_pending_reboot"
  | setRebootCommand => "set_reboot_command"

def all : List MachineTool :=
  [enrolMachine, setMachineProfile, deleteMachine, rebootMachine, powerMachine, powerFleet,
    pinMachine, releaseToPool, setPowerCommand, setPduAlias, setPendingReboot, setRebootCommand]

/-- The tool of a name. -/
def ofName (name : String) : Option MachineTool := all.find? fun tool => tool.name == name

/-- The implementation under the tool's name. -/
def run (textColumn : Json → Except Exception String) (env : RequestEnv) (args : Fields)
    (deployment : Deployment Build) : MachineTool → ToolRun Build
  | enrolMachine => Fleetboot.enrolMachine textColumn env.now args deployment
  | setMachineProfile => Fleetboot.setMachineProfile env.now args deployment
  | deleteMachine => Fleetboot.deleteMachine args deployment
  | rebootMachine => Fleetboot.rebootMachine env args deployment
  | powerMachine => Fleetboot.powerTool env args deployment
  | powerFleet => Fleetboot.powerFleet env args deployment
  | pinMachine => Fleetboot.pinMachine env.now args deployment
  | releaseToPool => Fleetboot.releaseToPoolTool env args deployment
  | setPowerCommand => Fleetboot.setPowerCommandTool args deployment
  | setPduAlias => Fleetboot.setPduAliasTool args deployment
  | setPendingReboot => Fleetboot.setPendingRebootTool args deployment
  | setRebootCommand => Fleetboot.setRebootCommandTool args deployment

end MachineTool

/-! ## The calls of a tool -/

/-- The call of the registry with which `power_machine` ends, should it make one. -/
def powerOperation (mac : String) (action : PowerAction) (thenDelete : Bool)
    (outcome : CommandOutcome) (db : Database) : Option Operation :=
  match db.lookup mac with
  | none => none
  | some m =>
    match runRoute (powerRoute db m action) outcome with
    | .error _ => none
    | .ok (succeeded, _) =>
      if thenDelete then some (.remove mac)
      else if action = .reboot ∧ succeeded = false then some (.setPendingReboot mac true)
      else none

/-- A call about a machine that has to be there. -/
def operationIfThere (db : Database) (mac : String) (op : Operation) : List Operation :=
  if (db.lookup mac).isSome then [op] else []

/-- The calls that a tool makes, in this order. -/
def MachineTool.operations (textColumn : Json → Except Exception String) (env : RequestEnv)
    (args : Fields) (deployment : Deployment Build) : MachineTool → List Operation
  | enrolMachine => (enrolOperation textColumn deployment.profiles args).toList
  | setMachineProfile => (profileOperation deployment.profiles args).toList
  | deleteMachine => (requireStr args "mac").toOption.toList.map .remove
  | rebootMachine => ((requireStr args "mac").toOption.bind fun mac =>
      powerOperation mac .reboot (deleteAfter args) (env.outcome mac) deployment.db).toList
  | powerMachine => ((powerArgs args).toOption.bind fun named =>
      powerOperation named.1 named.2 false (env.outcome named.1) deployment.db).toList
  | powerFleet => (fleetArgs args).toOption.toList.flatMap fun args =>
      (((fleetSelected env.now args deployment.db).map Machine.mac).flatMap
        (powerArms env.outcome args.action deployment.db)).map fun mac => .setPendingReboot mac true
  | pinMachine => ((pinArgs deployment.profiles args).toOption.map .pin).toList
  | releaseToPool => (requireStr args "mac").toOption.toList.flatMap fun mac =>
      operationIfThere deployment.db mac (.releaseToPool mac)
  | setPowerCommand => (powerCommandArgs args).toOption.toList.flatMap fun named =>
      operationIfThere deployment.db named.1 (.setPowerCommand named.1 named.2.1 (some named.2.2))
  | setPduAlias => (pduAliasArgs args).toOption.toList.flatMap fun named =>
      operationIfThere deployment.db named.1 (.setPduAlias named.1 (some named.2))
  | setPendingReboot => (pendingRebootArgs args).toOption.toList.map fun named =>
      .setPendingReboot named.1 named.2
  | setRebootCommand => (rebootCommandArgs args).toOption.toList.map fun named =>
      .setPowerCommand named.1 .reboot (truthyText (some named.2))

variable [IpAddress]

/-- The database after some calls. -/
def dbAfterAll (now : Timestamp) (db : Database) (ops : List Operation) : Database :=
  ops.foldl (fun db op => (op.run now db).db) db

theorem dbAfterAll_toList (now : Timestamp) (db : Database) (op : Option Operation) :
    dbAfterAll now db op.toList = dbAfter now db op := by
  cases op <;> rfl

theorem db_powerOperation (now : Timestamp) (mac : String) (action : PowerAction)
    (thenDelete : Bool) (outcome : CommandOutcome) (db : Database) :
    (powerMachine mac action.text thenDelete outcome db).db =
      dbAfter now db (powerOperation mac action thenDelete outcome db) := by
  unfold powerMachine powerOperation
  rw [PowerAction.ofText_text]
  dsimp only
  cases db.lookup mac with
  | none => rfl
  | some m =>
    dsimp only
    cases runRoute (powerRoute db m action) outcome with
    | error err => rfl
    | ok answer =>
      obtain ⟨succeeded, detail⟩ := answer
      dsimp only
      split
      · simp only [dbAfter, Operation.run, Outcome.db_map, remove_eq]
        rfl
      · split <;> rfl

theorem dbAfterAll_setPendingReboot (now : Timestamp) (macs : List String) (db : Database) :
    dbAfterAll now db (macs.map fun mac => .setPendingReboot mac true) =
      macs.foldl (fun db mac => setPendingReboot mac true db) db := by
  unfold dbAfterAll
  rw [List.foldl_map]
  rfl

theorem db_column (now : Timestamp) (deployment : Deployment Build) (mac column : String)
    {write : Database → Database} {op : Operation} (payload : Machine → Json)
    (hwrite : (op.run now deployment.db).db = write deployment.db) :
    (ToolRun.column deployment mac column write payload).deployment.db =
      dbAfterAll now deployment.db (operationIfThere deployment.db mac op) := by
  unfold ToolRun.column operationIfThere
  cases deployment.db.lookup mac with
  | none => rfl
  | some m =>
    rw [if_pos (show (some m).isSome = true from rfl)]
    dsimp only
    split <;> exact hwrite.symm

/-- **A tool makes its calls**, one after the other. -/
theorem MachineTool.db_run (textColumn : Json → Except Exception String) (env : RequestEnv)
    (args : Fields) (deployment : Deployment Build) (tool : MachineTool) :
    (tool.run textColumn env args deployment).deployment.db =
      dbAfterAll env.now deployment.db (tool.operations textColumn env args deployment) := by
  cases tool with
  | enrolMachine =>
    exact (db_enrolMachine textColumn env.now args deployment).trans (dbAfterAll_toList ..).symm
  | setMachineProfile =>
    exact (db_setMachineProfile env.now args deployment).trans (dbAfterAll_toList ..).symm
  | pinMachine =>
    exact (db_pinMachine env.now args deployment).trans (dbAfterAll_toList ..).symm
  | deleteMachine =>
    simp only [run, operations, Fleetboot.deleteMachine]
    cases requireStr args "mac" with
    | error message => rfl
    | ok mac =>
      dsimp only
      split <;> rfl
  | rebootMachine =>
    simp only [run, operations, Fleetboot.rebootMachine, dbAfterAll_toList]
    cases requireStr args "mac" with
    | error message => rfl
    | ok mac => exact db_powerOperation env.now mac .reboot _ _ _
  | powerMachine =>
    simp only [run, operations, powerTool, dbAfterAll_toList]
    cases powerArgs args with
    | error message => rfl
    | ok named =>
      obtain ⟨mac, action⟩ := named
      dsimp only [Except.toOption, Option.bind_some]
      cases hm : deployment.db.lookup mac with
      | none =>
        simp only [powerOperation, hm]
        rfl
      | some m => exact db_powerOperation env.now mac action _ _ _
  | powerFleet =>
    simp only [run, operations, Fleetboot.powerFleet]
    cases fleetArgs args with
    | error message => rfl
    | ok checked =>
      simp only [Except.toOption, Option.toList_some, List.flatMap_singleton,
        dbAfterAll_setPendingReboot]
      exact (powerMachines_eq env.outcome checked.action _ deployment.db).2
  | releaseToPool =>
    simp only [run, operations, releaseToPoolTool]
    cases requireStr args "mac" with
    | error message => rfl
    | ok mac =>
      simp only [Except.toOption, Option.toList_some, List.flatMap_singleton, operationIfThere]
      cases deployment.db.lookup mac with
      | none => rfl
      | some m => rfl
  | setPowerCommand =>
    simp only [run, operations, setPowerCommandTool]
    cases powerCommandArgs args with
    | error message => rfl
    | ok named =>
      simp only [Except.toOption, Option.toList_some, List.flatMap_singleton]
      exact db_column env.now deployment named.1 _ _ rfl
  | setPduAlias =>
    simp only [run, operations, setPduAliasTool]
    cases pduAliasArgs args with
    | error message => rfl
    | ok named =>
      simp only [Except.toOption, Option.toList_some, List.flatMap_singleton]
      exact db_column env.now deployment named.1 _ _ rfl
  | setPendingReboot =>
    simp only [run, operations, setPendingRebootTool]
    cases pendingRebootArgs args <;> rfl
  | setRebootCommand =>
    simp only [run, operations, setRebootCommandTool]
    cases rebootCommandArgs args <;> rfl

end Tools

/-! ## The admin's tools -/

/-- The tools for profiles, builds and bug reports: what they leave of these, and what they
return. -/
abbrev FileTools (Build : Type) :=
  String → RequestEnv → Fields → List ProfileDir → Option BugReportStore → List Build →
    (List ProfileDir × Option BugReportStore × List Build) × Except ToolFailure ToolContent

/-- `_build_tool_impls`, as far as only an admin may call it. -/
def adminTools [Unicode] (textColumn : Json → Except Exception String) (files : FileTools Build) :
    AdminTools Build := fun name env args deployment =>
  match MachineTool.ofName name with
  | some tool => tool.run textColumn env args deployment
  | none =>
    let ((profiles, bugReports, builds), value) :=
      files name env args deployment.profiles deployment.bugReports deployment.builds
    ⟨{ deployment with profiles, bugReports, builds }, [], value⟩

end Fleetboot
