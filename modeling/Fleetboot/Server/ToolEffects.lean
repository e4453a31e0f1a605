import Fleetboot.Registry.Lifecycle
import Fleetboot.Server.Tools

/-!
# What the pool's tools do

A tool that a pool client may call makes at most one call of the registry, a `reserve`, `renew` or
`release`, and then switches the machines that this call returned. The results about runs use
these lemmas and never unfold a tool.

* `PoolTool.performs`: the call, the power commands that follow it, and what is left alone.
-/

set_option autoImplicit false

namespace Fleetboot

open Python Relational

variable {Build : Type}

/-! ## The call of a tool -/

def reserveOperation (args : Fields) (deployment : Deployment Build) : Option Operation :=
  match reserveArgs args with
  | .error _ => none
  | .ok args =>
    if args.profile ∉ listProfileNames deployment.profiles then none
    else match ttlSecondsOf args.ttlMinutes with
      | .error _ => none
      | .ok ttlSeconds => some (.reserve (args.request ttlSeconds))

def renewOperation (args : Fields) : Option Operation :=
  match renewArgs args with
  | .error _ => none
  | .ok (mac, ttlMinutes) =>
    match ttlSecondsOf ttlMinutes with
    | .error _ => none
    | .ok ttlSeconds => some (.renew mac ttlSeconds)

def releaseOperation (args : Fields) : Option Operation :=
  match releaseArgs args with
  | .error _ => none
  | .ok (macs, holder) => some (.release macs holder)

/-- The call of the registry that a tool makes. -/
def PoolTool.operation (args : Fields) (deployment : Deployment Build) :
    PoolTool → Option Operation
  | reserveMachines => reserveOperation args deployment
  | renewReservation => renewOperation args
  | releaseMachines => releaseOperation args
  | _ => none

/-- The file that a tool writes, should it write one. -/
def PoolTool.filed [Unicode] (env : RequestEnv) (role : Role) (args : Fields) :
    PoolTool → List String
  | reportBug =>
    match bugReportRequest args role with
    | .ok req => BugReports.filedPaths env.now env.tokenHex req
    | .error _ => []
  | _ => []

/-- The machines that are switched after a call, and how. -/
def switchedBy : Operation → Except Exception Reply → List String × PowerAction
  | .reserve _, .ok (.machines ms) => (ms.map Machine.mac, .on)
  | .release _ _, .ok (.macs freed) => (freed, .off)
  | .reapExpired, .ok (.macs freed) => (freed, .off)
  | _, _ => ([], .off)

theorem isPoolCall_of_operation {tool : PoolTool} {args : Fields}
    {deployment : Deployment Build} {op : Operation}
    (h : tool.operation args deployment = some op) :
    op.isPoolCall = true ∧ op ≠ .reapExpired := by
  cases tool <;> simp only [PoolTool.operation] at h
  case reserveMachines =>
    unfold reserveOperation at h
    (repeat' split at h) <;> cases h
    exact ⟨rfl, by simp⟩
  case renewReservation =>
    unfold renewOperation at h
    (repeat' split at h) <;> cases h
    exact ⟨rfl, by simp⟩
  case releaseMachines =>
    unfold releaseOperation at h
    split at h <;> cases h
    exact ⟨rfl, by simp⟩
  all_goals cases h

/-! ## Its effect -/

section Effects

variable [Unicode] [IpAddress]

/-- What the calls of the pool may change besides reservations: the profile of a machine. -/
structure OnlyProfiles (db db' : Database) : Prop where
  rest : SameRest db db'
  machine : ∀ k, ∃ profileOf : Machine → String, db'.machine k =
    (db.machine k).map fun m => { m with profileName := profileOf m }

omit [Unicode] [IpAddress] in
theorem OnlyProfiles.of_machine {db db' : Database} (hrest : SameRest db db')
    (hmachine : ∀ k, db'.machine k = db.machine k) : OnlyProfiles db db' :=
  ⟨hrest, fun k => ⟨Machine.profileName, by
    rw [hmachine]
    exact (congrFun Option.map_id _).symm⟩⟩

theorem onlyProfiles_poolCall (now : Timestamp) {op : Operation} (hop : op.isPoolCall = true)
    (db : Database) : OnlyProfiles db (op.run now db).db := by
  cases op with
  | reserve req =>
    simp only [Operation.run, Outcome.db_map]
    have hreserve := reserve_cases now req db
    generalize reserve now req db = out at hreserve
    cases hreserve with
    | refused => exact .of_machine (SameRest.refl db) fun _ => rfl
    | overlong => exact .of_machine (sameRest_releaseReservations db now _) fun _ => rfl
    | leased _ _ hleased =>
      refine ⟨hleased.rest, fun k => ?_⟩
      rw [hleased.machine]
      split
      · exact ⟨fun _ => strip req.profile, rfl⟩
      · exact ⟨Machine.profileName, (congrFun Option.map_id _).symm⟩
  | renew mac ttlSeconds =>
    simp only [Operation.run, Outcome.db_map]
    rcases renew_cases now mac ttlSeconds db with ⟨err, hr, -⟩ | ⟨-, hr⟩
    · rw [hr]
      exact .of_machine (SameRest.refl db) fun _ => rfl
    · rw [hr]
      exact .of_machine ⟨rfl, rfl, rfl, rfl, rfl⟩ fun _ => rfl
  | release macs holder =>
    simp only [Operation.run, Outcome.db_map, release]
    exact .of_machine (sameRest_releaseTargets _ db) (machine_releaseTargets _ db)
  | reapExpired =>
    obtain ⟨db', hr, hrel⟩ := reapExpired_effect now db
    simp only [Operation.run, Outcome.db_map, hr]
    exact .of_machine hrel.rest hrel.machine
  | _ => cases hop

/-- The database after a call, if there is one. -/
def dbAfter (now : Timestamp) (db : Database) : Option Operation → Database
  | none => db
  | some op => (op.run now db).db

/-- The power commands that follow a call. -/
def powerAfter (now : Timestamp) (db : Database) : Option Operation → List PowerCall
  | none => []
  | some op =>
    let out := op.run now db
    powerCalls out.db (switchedBy op out.value).1 (switchedBy op out.value).2

/-- A tool made the call, switched the machines, and wrote no file but the bug report. -/
structure Performs (now : Timestamp) (op : Option Operation) (filed : List String)
    (deployment : Deployment Build) (run : ToolRun Build) : Prop where
  db : run.deployment.db = dbAfter now deployment.db op
  powered : run.powered = powerAfter now deployment.db op
  profiles : run.deployment.profiles = deployment.profiles
  builds : run.deployment.builds = deployment.builds
  bugReports : BugReports.Kept filed deployment.bugReports run.deployment.bugReports

theorem Performs.nothing {now : Timestamp} {filed : List String} {deployment : Deployment Build}
    {value : Except ToolFailure ToolContent} :
    Performs now none filed deployment ⟨deployment, [], value⟩ :=
  ⟨rfl, rfl, rfl, rfl, .refl _ _⟩

/-- A call whose machines are not switched. -/
theorem Performs.call {now : Timestamp} {op : Operation} {deployment : Deployment Build}
    {db : Database} {value : Except ToolFailure ToolContent}
    (hdb : (op.run now deployment.db).db = db)
    (hswitched : (switchedBy op (op.run now deployment.db).value).1 = []) :
    Performs now (some op) [] deployment ⟨{ deployment with db := db }, [], value⟩ := by
  refine ⟨hdb.symm, ?_, rfl, rfl, .refl _ _⟩
  simp only [powerAfter]
  rw [hswitched]
  rfl

/-- A call whose machines are switched on or off. -/
theorem Performs.switched {now : Timestamp} {op : Operation} {deployment : Deployment Build}
    {db : Database} {macs : List String} {action : PowerAction} (env : RequestEnv)
    (payload : List PowerResult → Database → Json) (haction : action ≠ .reboot)
    (hdb : (op.run now deployment.db).db = db)
    (hswitched : switchedBy op (op.run now deployment.db).value = (macs, action)) :
    Performs now (some op) [] deployment
      (ToolRun.switched env action macs { deployment with db := db } payload) := by
  refine ⟨?_, ?_, rfl, rfl, .refl _ _⟩
  · exact (powerMachines_db haction env.outcome macs db).trans hdb.symm
  · simp only [powerAfter]
    rw [hswitched, hdb]
    rfl

theorem performs_reserveMachines (env : RequestEnv) (args : Fields)
    (deployment : Deployment Build) :
    Performs env.now (reserveOperation args deployment) [] deployment
      (reserveMachines env args deployment) := by
  unfold reserveMachines reserveOperation
  cases hargs : reserveArgs args with
  | error message => exact .nothing
  | ok args =>
    dsimp only
    split
    · exact .nothing
    · cases httl : ttlSecondsOf args.ttlMinutes with
      | error err => exact .nothing
      | ok ttlSeconds =>
        dsimp only
        cases hvalue : (reserve env.now (args.request ttlSeconds) deployment.db).value with
        | error err =>
          refine Performs.call ?_ ?_
          · simp only [Operation.run, Outcome.db_map]
          · simp only [Operation.run, Outcome.map, hvalue, Except.map, switchedBy]
        | ok leased =>
          refine Performs.switched env _ (by decide) ?_ ?_
          · simp only [Operation.run, Outcome.db_map]
          · simp only [Operation.run, Outcome.map, hvalue, Except.map, switchedBy]

theorem performs_releaseMachines (env : RequestEnv) (args : Fields)
    (deployment : Deployment Build) :
    Performs env.now (releaseOperation args) [] deployment
      (releaseMachines env args deployment) := by
  unfold releaseMachines releaseOperation
  cases hargs : releaseArgs args with
  | error message => exact .nothing
  | ok targets =>
    obtain ⟨macs, holder⟩ := targets
    dsimp only
    cases hvalue : (release env.now macs holder deployment.db).value with
    | error err =>
      refine Performs.call rfl ?_
      simp only [Operation.run, Outcome.map, hvalue, Except.map, switchedBy]
    | ok freed =>
      refine Performs.switched env _ (by decide) rfl ?_
      simp only [Operation.run, Outcome.map, hvalue, Except.map, switchedBy]

theorem performs_renewReservation (env : RequestEnv) (args : Fields)
    (deployment : Deployment Build) :
    Performs env.now (renewOperation args) [] deployment
      (renewReservation env args deployment) := by
  unfold renewReservation renewOperation
  cases hargs : renewArgs args with
  | error message => exact .nothing
  | ok checked =>
    obtain ⟨mac, minutes⟩ := checked
    dsimp only
    cases httl : ttlSecondsOf minutes with
    | error err => exact .nothing
    | ok ttlSeconds =>
      dsimp only
      split
      · exact Performs.call rfl rfl
      · exact Performs.call rfl rfl
      · exact Performs.call rfl rfl

theorem performs_reportBug (env : RequestEnv) (role : Role) (args : Fields)
    (deployment : Deployment Build) :
    Performs env.now none (PoolTool.filed env role args .reportBug) deployment
      (reportBug env role args deployment) := by
  unfold reportBug PoolTool.filed
  cases bugReportRequest args role with
  | error message => exact .nothing
  | ok req =>
    cases hstore : deployment.bugReports with
    | none => exact .nothing
    | some store =>
      have hkept := BugReports.kept_file env.now env.tokenHex req store
      rw [← hstore] at hkept
      dsimp only
      split <;> exact ⟨rfl, rfl, rfl, rfl, hkept⟩

/-- **A tool of the pool** makes its call, switches the machines that this returned, and writes no
file but the report it files. -/
theorem PoolTool.performs (config : McpConfig) (env : RequestEnv) (role : Role) (args : Fields)
    (deployment : Deployment Build) (tool : PoolTool) :
    Performs env.now (tool.operation args deployment) (tool.filed env role args) deployment
      (tool.run config env role args deployment) := by
  cases tool with
  | describeFleetboot =>
    simp only [PoolTool.run, PoolTool.operation, Fleetboot.describeFleetboot]
    split
    · split <;> exact .nothing
    · exact .nothing
  | listMachines => exact .nothing
  | getMachine =>
    simp only [PoolTool.run, PoolTool.operation, Fleetboot.getMachine]
    split
    · exact .nothing
    · split <;> exact .nothing
  | listProfiles => exact .nothing
  | getProfile =>
    simp only [PoolTool.run, PoolTool.operation, Fleetboot.getProfile]
    split
    · exact .nothing
    · split <;> exact .nothing
  | recentEvents =>
    simp only [PoolTool.run, PoolTool.operation, Fleetboot.recentEvents]
    split
    · exact .nothing
    · split <;> exact .nothing
  | reserveMachines => exact performs_reserveMachines env args deployment
  | releaseMachines => exact performs_releaseMachines env args deployment
  | renewReservation => exact performs_renewReservation env args deployment
  | reportBug => exact performs_reportBug env role args deployment

end Effects

end Fleetboot
