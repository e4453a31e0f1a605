import Fleetboot.Server.Deployment
import Fleetboot.Server.Power

/-!
# The tools of the pool

The tools of `mcp.py` that a pool client may call (`POOL_CLIENT_TOOLS`): the read-only ones, the
life cycle of a lease, and filing a bug report. A tool that switches machines records which power
commands it issued.

-/

set_option autoImplicit false

namespace Fleetboot

open Python Relational

/-! ## Running a tool -/

/-- What the world outside decides during a request: the clock at its beginning and after its power
commands, what becomes of the command for a MAC, and the random digits. -/
structure RequestEnv where
  now : Timestamp
  finished : Timestamp
  outcome : String → CommandOutcome
  tokenHex : String

/-- A power command that was issued. -/
structure PowerCall where
  mac : String
  action : PowerAction
  route : PowerRoute
  deriving DecidableEq

/-- Why a tool fails: a `_ToolError`, or another exception. -/
inductive ToolFailure
  | toolError (message : String)
  | raised (err : Exception)

/-- The content of a tool's answer. -/
inductive ToolContent
  | payload (value : Json)
  | markdown (text : String)

/-- What a tool leaves, which power commands it issued, and what it returns. -/
structure ToolRun (Build : Type) where
  deployment : Deployment Build
  powered : List PowerCall
  value : Except ToolFailure ToolContent

variable {Build : Type}

/-- A tool that fails without having done anything. -/
def ToolRun.fail (deployment : Deployment Build) (message : String) : ToolRun Build :=
  ⟨deployment, [], .error (.toolError message)⟩

/-- A tool that only answers. -/
def ToolRun.answer (deployment : Deployment Build) (value : Json) : ToolRun Build :=
  ⟨deployment, [], .ok (.payload value)⟩

/-! ## Arguments -/

/-- `_require(args, key, str)`. -/
def requireStr (args : Fields) (key : String) : Except String String :=
  match Json.get? args key with
  | none => .error ("missing argument: " ++ key)
  | some (.str value) => .ok value
  | some _ => .error ("argument " ++ key ++ " must be str")

/-- `_require(args, key, int)`, for which a boolean is an integer. -/
def requireInt (args : Fields) (key : String) : Except String Json :=
  match Json.get? args key with
  | none => .error ("missing argument: " ++ key)
  | some (.int value) => .ok (.int value)
  | some (.bool value) => .ok (.bool value)
  | some _ => .error ("argument " ++ key ++ " must be int")

/-- An argument that may be absent or null, and is a string otherwise. -/
def optionalStr (args : Fields) (key : String) : Except String (Option String) :=
  match Json.getD args key .null with
  | .null => .ok none
  | .str value => .ok (some value)
  | _ => .error (key ++ " must be a string")

/-- `ttl_minutes`, a positive number. -/
def ttlMinutes (args : Fields) : Except String Json :=
  match Json.getD args "ttl_minutes" (.int 60) with
  | .int value => if value ≤ 0 then .error "ttl_minutes must be a positive number"
    else .ok (.int value)
  | .float value => if value.nonpos then .error "ttl_minutes must be a positive number"
    else .ok (.float value)
  | _ => .error "ttl_minutes must be a positive number"

/-- `int(ttl_minutes * 60)`. -/
def ttlSecondsOf : Json → Except Exception Int
  | .int value => .ok (value * 60)
  | .float value => (value.timesNat 60).toInt
  | _ => .ok 0

section Power

variable [Unicode]

/-- The power commands that switching `macs` issues. -/
def powerCalls (db : Database) (macs : List String) (action : PowerAction) : List PowerCall :=
  macs.filterMap fun mac => (db.lookup mac).bind fun m =>
    let route := powerRoute db m action
    (route.commandLine action).map fun _ => ⟨mac, action, route⟩

/-- `power_machines`, one machine after the other; the first exception is raised at the end. The
threads of the pool leave out machines that they have not come to when one is raised. -/
def powerMachines (outcome : String → CommandOutcome) (action : PowerAction) :
    List String → Database → Outcome (List PowerResult)
  | [], db => ⟨db, .ok []⟩
  | mac :: macs, db =>
    let first := powerMachine mac action.text false (outcome mac) db
    let rest := powerMachines outcome action macs first.db
    ⟨rest.db, do return (← first.value) :: (← rest.value)⟩

theorem powerMachines_db {action : PowerAction} (haction : action ≠ .reboot)
    (outcome : String → CommandOutcome) (macs : List String) (db : Database) :
    (powerMachines outcome action macs db).db = db := by
  induction macs generalizing db with
  | nil => rfl
  | cons mac macs ih =>
    have hfirst := @db_powerMachine _ mac action haction (outcome mac) db
    simp only [powerMachines]
    rw [ih, hfirst]

end Power

/-- `_power_result_dict`. -/
def powerResultDict (result : PowerResult) : Json := .obj
  [("mac", .str result.mac), ("action", .str result.action), ("method", .str result.method),
    ("ok", .bool result.ok), ("detail", .str result.detail), ("deleted", .bool result.deleted)]

/-! ## Reading -/

section Read

variable [Unicode]

def describeFleetboot (config : McpConfig) (args : Fields) (deployment : Deployment Build) :
    ToolRun Build :=
  match Json.getD args "topic" (.str defaultTopic) with
  | .str name =>
    match config.getTopic name with
    | some topic => ⟨deployment, [], .ok (.markdown (topic.body ++ config.topicIndex))⟩
    | none => .fail deployment ("unknown topic: " ++ Python.repr name ++ ". Known topics: " ++
        ", ".intercalate config.topicNames)
  | _ => .fail deployment "topic must be a string"

omit [Unicode] in
/-- The machines as dictionaries. -/
def machineDicts (now : Timestamp) (db : Database) (ms : List Machine) : Json :=
  .arr (ms.map fun m =>
    machineDict m (livenessOf now db m.mac) (bulkReservation db now m.mac))

omit [Unicode] in
def listMachines (env : RequestEnv) (deployment : Deployment Build) : ToolRun Build :=
  .answer deployment (.obj
    [("machines", machineDicts env.now deployment.db deployment.db.listAll)])

def getMachine (env : RequestEnv) (args : Fields) (deployment : Deployment Build) :
    ToolRun Build :=
  match requireStr args "mac" with
  | .error message => .fail deployment message
  | .ok mac =>
    match deployment.db.lookup mac with
    | none => .fail deployment ("no machine with MAC " ++ Python.repr mac)
    | some m => .answer deployment (machineDict m (livenessOf env.now deployment.db m.mac)
        (activeReservation deployment.db env.now m.mac))

omit [Unicode] in
def listProfiles (deployment : Deployment Build) : ToolRun Build :=
  .answer deployment (.obj
    [("profiles", .arr ((listProfileNames deployment.profiles).map Json.str))])

def getProfile (args : Fields) (deployment : Deployment Build) : ToolRun Build :=
  match requireStr args "name" with
  | .error message => .fail deployment message
  | .ok name =>
    match safeProfileDir deployment.profiles name with
    | .error message => .fail deployment message
    | .ok none => .fail deployment ("profile not found: " ++ name)
    | .ok (some profile) => .answer deployment (.obj
        [("name", .str name), ("extra_packages", .str (profile.read "extra-packages.list")),
          ("setup_chroot", .str (profile.read "setup-chroot")),
          ("readme", .str (profile.read "README.md")),
          ("parents", .arr ((splitLines (strip (profile.read "parent"))).map Json.str)),
          ("suite", .str (strip (profile.read "suite")))])

def eventDict (event : BootEvent) : Json := .obj
  [("occurred_at", timestampJson (some event.occurredAt)), ("mac", .str event.mac),
    ("state", .str event.state), ("detail", .str (event.detail.getD ""))]

def recentEvents (args : Fields) (deployment : Deployment Build) : ToolRun Build :=
  match Json.toInt (Json.getD args "limit" (.int 200)) with
  | .error err => ⟨deployment, [], .error (.raised err)⟩
  | .ok limit =>
    let limit := (max 1 (min limit 1000)).toNat
    let answer := fun mac => ToolRun.answer deployment (.obj
      [("events", .arr ((recentBootEvents deployment.db limit mac).map eventDict))])
    match Json.getD args "mac" .null with
    | .null => answer none
    | .str mac => answer (some mac)
    | value => ⟨deployment, [], .error (.raised
        (.attributeError ("'" ++ value.typeName ++ "' object has no attribute 'replace'")))⟩

end Read

/-! ## Leasing -/

/-- The checked arguments of `reserve_machines`. -/
structure ReserveArgs where
  profile : String
  count : Int
  holder : String
  purpose : Option String
  architecture : Option String
  ttlMinutes : Json

def countArg (args : Fields) : Except String Int := do
  match ← requireInt args "count" with
  | .int count => if count < 1 then .error "count must be an integer >= 1" else .ok count
  | _ => .error "count must be an integer >= 1"

def holderArg (args : Fields) : Except String String :=
  match Json.getD args "holder" (.str "agent") with
  | .str holder => if strip holder = "" then .error "holder must be a non-empty string"
    else .ok holder
  | _ => .error "holder must be a non-empty string"

def reserveArgs (args : Fields) : Except String ReserveArgs := do
  let profile ← requireStr args "profile"
  let count ← countArg args
  let holder ← holderArg args
  let purpose ← optionalStr args "purpose"
  let architecture ← optionalStr args "architecture"
  let ttlMinutes ← ttlMinutes args
  return { profile, count, holder, purpose, architecture, ttlMinutes }

/-- The request that `reserve_machines` makes of the registry. -/
def ReserveArgs.request (args : ReserveArgs) (ttlSeconds : Int) : ReserveRequest :=
  { profile := args.profile
    count := args.count
    holder := strip args.holder
    ttlSeconds
    purpose := args.purpose
    architecture := args.architecture }

section Lease

variable [Unicode]

/-- Switch machines after a call of the registry, and answer. -/
def ToolRun.switched (env : RequestEnv) (action : PowerAction) (macs : List String)
    (deployment : Deployment Build) (payload : List PowerResult → Database → Json) :
    ToolRun Build :=
  let out := powerMachines env.outcome action macs deployment.db
  ⟨{ deployment with db := out.db }, powerCalls deployment.db macs action,
    match out.value with
    | .ok results => .ok (.payload (payload results out.db))
    | .error err => .error (.raised err)⟩

def reserveMachines (env : RequestEnv) (args : Fields) (deployment : Deployment Build) :
    ToolRun Build :=
  match reserveArgs args with
  | .error message => .fail deployment message
  | .ok args =>
    let known := listProfileNames deployment.profiles
    if args.profile ∉ known then
      .fail deployment ("unknown profile: " ++ Python.repr args.profile ++ ". Known profiles: " ++
        if known.isEmpty then "(none)" else ", ".intercalate known)
    else
      match ttlSecondsOf args.ttlMinutes with
      | .error err => ⟨deployment, [], .error (.raised err)⟩
      | .ok ttlSeconds =>
        let out := reserve env.now (args.request ttlSeconds) deployment.db
        match out.value with
        | .error err => ⟨{ deployment with db := out.db }, [], .error (.raised err)⟩
        | .ok leased =>
          .switched env .on (leased.map Machine.mac) { deployment with db := out.db }
            fun results db => .obj
              [("profile", .str args.profile), ("holder", .str args.holder),
                ("requested", .int args.count), ("reserved", .int leased.length),
                ("short_by", .int (max 0 (args.count - leased.length))),
                ("ttl_minutes", args.ttlMinutes),
                ("power_results", .arr (results.map powerResultDict)),
                ("machines", machineDicts env.finished db leased)]

/-- The texts of a list of strings. -/
def stringList (items : List Json) : Option (List String) :=
  items.mapM fun item => match item with
    | .str text => some text
    | _ => none

def macsArg (args : Fields) : Except String (Option (List String)) :=
  match Json.getD args "macs" .null with
  | .null => .ok none
  | .arr items =>
    match stringList items with
    | some macs => .ok (some macs)
    | none => .error "macs must be a list of strings"
  | _ => .error "macs must be a list of strings"

/-- The checked arguments of `release_machines`. -/
def releaseArgs (args : Fields) : Except String (Option (List String) × Option String) := do
  let macs ← macsArg args
  let holder ← optionalStr args "holder"
  if macs.getD [] = [] ∧ holder.getD "" = "" then .error "pass either macs or holder"
  else return (macs, holder)

def releaseMachines (env : RequestEnv) (args : Fields) (deployment : Deployment Build) :
    ToolRun Build :=
  match releaseArgs args with
  | .error message => .fail deployment message
  | .ok (macs, holder) =>
    let out := release env.now macs holder deployment.db
    match out.value with
    | .error err => ⟨{ deployment with db := out.db }, [], .error (.raised err)⟩
    | .ok freed =>
      .switched env .off freed { deployment with db := out.db } fun results _ => .obj
        [("released", .arr (freed.map Json.str)), ("count", .int freed.length),
          ("power_results", .arr (results.map powerResultDict))]

/-- The checked arguments of `renew_reservation`. -/
def renewArgs (args : Fields) : Except String (String × Json) := do
  let mac ← requireStr args "mac"
  let ttlMinutes ← ttlMinutes args
  return (mac, ttlMinutes)

def renewReservation (env : RequestEnv) (args : Fields) (deployment : Deployment Build) :
    ToolRun Build :=
  match renewArgs args with
  | .error message => .fail deployment message
  | .ok (mac, ttlMinutes) =>
    match ttlSecondsOf ttlMinutes with
    | .error err => ⟨deployment, [], .error (.raised err)⟩
    | .ok ttlSeconds =>
      let out := renew env.now mac ttlSeconds deployment.db
      let renewed : Deployment Build := { deployment with db := out.db }
      match out.value with
      | .error err => ⟨renewed, [], .error (.raised err)⟩
      | .ok false => .fail renewed ("no active lease on " ++ Python.repr mac ++ " to renew " ++
          "(unknown machine, permanent hold, or already free)")
      | .ok true => .answer renewed (.obj
          [("mac", .str mac), ("expires_at",
            timestampJson ((activeReservation out.db env.now mac).bind Reservation.expiresAt))])

/-! ## Reporting -/

inductive Role
  | admin
  | pool
  deriving DecidableEq

def Role.text : Role → String
  | admin => "admin"
  | pool => "pool"

/-- The request that `report_bug` makes of the store. -/
def bugReportRequest (args : Fields) (role : Role) : Except String BugReportRequest := do
  let title ← requireStr args "title"
  let description ← requireStr args "description"
  match Json.getD args "severity" (.str BugReports.defaultSeverity) with
  | .str severity => return {
      title
      description
      severity
      component := Json.getD args "component" .null
      reporter := Json.getD args "reporter" .null
      token := role.text }
  | _ => .error "severity must be a string"

def reportBug (env : RequestEnv) (role : Role) (args : Fields) (deployment : Deployment Build) :
    ToolRun Build :=
  match bugReportRequest args role with
  | .error message => .fail deployment message
  | .ok req =>
    match deployment.bugReports with
    | none => .fail deployment "bug reports are not enabled on this deployment"
    | some store =>
      let (filed, store) := BugReports.file env.now env.tokenHex req store
      let deployment := { deployment with bugReports := some store }
      match filed with
      | .error message => .fail deployment message
      | .ok report => .answer deployment (.obj
          [("id", .str report.id), ("status", .str report.status),
            ("message", .str "Thank you — the report is filed for a fix.")])

end Lease

/-! ## The pool's tools -/

/-- `POOL_CLIENT_TOOLS`. -/
inductive PoolTool
  | describeFleetboot
  | listMachines
  | getMachine
  | listProfiles
  | getProfile
  | recentEvents
  | reserveMachines
  | releaseMachines
  | renewReservation
  | reportBug
  deriving DecidableEq

namespace PoolTool

def name : PoolTool → String
  | describeFleetboot => "describe_fleetboot"
  | listMachines => "list_machines"
  | getMachine => "get_machine"
  | listProfiles => "list_profiles"
  | getProfile => "get_profile"
  | recentEvents => "recent_events"
  | reserveMachines => "reserve_machines"
  | releaseMachines => "release_machines"
  | renewReservation => "renew_reservation"
  | reportBug => "report_bug"

def all : List PoolTool :=
  [describeFleetboot, listMachines, getMachine, listProfiles, getProfile, recentEvents,
    reserveMachines, releaseMachines, renewReservation, reportBug]

/-- `name in POOL_CLIENT_TOOLS`, as a reading of the name. -/
def ofName (name : String) : Option PoolTool := all.find? fun tool => tool.name == name

variable [Unicode]

/-- The implementation under the tool's name. -/
def run (config : McpConfig) (env : RequestEnv) (role : Role) (args : Fields)
    (deployment : Deployment Build) : PoolTool → ToolRun Build
  | describeFleetboot => Fleetboot.describeFleetboot config args deployment
  | listMachines => Fleetboot.listMachines env deployment
  | getMachine => Fleetboot.getMachine env args deployment
  | listProfiles => Fleetboot.listProfiles deployment
  | getProfile => Fleetboot.getProfile args deployment
  | recentEvents => Fleetboot.recentEvents args deployment
  | reserveMachines => Fleetboot.reserveMachines env args deployment
  | releaseMachines => Fleetboot.releaseMachines env args deployment
  | renewReservation => Fleetboot.renewReservation env args deployment
  | reportBug => Fleetboot.reportBug env role args deployment

end PoolTool

end Fleetboot
