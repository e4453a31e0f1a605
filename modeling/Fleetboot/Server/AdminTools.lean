import Fleetboot.Server.Tools

/-!
# Tools of the administrator

The tools of `mcp.py` outside the pool's set that write a profile name: enrolling a machine,
moving it to another profile, and pinning it.
-/

set_option autoImplicit false

namespace Fleetboot

open Python Relational

variable {Build : Type}

/-! ## Arguments -/

/-- The checked arguments of `enrol_machine`. The architecture is not checked. -/
structure EnrolArgs where
  mac : String
  profileName : String
  architecture : Json
  platform : String
  serialConsole : Bool
  scratchMode : String

/-- A text out of a few, else the message. -/
def choiceArg (args : Fields) (key default : String) (choices : List String) (message : String) :
    Except String String :=
  match Json.getD args key (.str default) with
  | .str value => if value ∈ choices then .ok value else .error message
  | _ => .error message

def enrolArgs (args : Fields) : Except String EnrolArgs := do
  let mac ← requireStr args "mac"
  let profileName ← requireStr args "profile_name"
  let platform ← choiceArg args "platform" "efi" ["efi", "pc"] "platform must be 'efi' or 'pc'"
  let scratchMode ← choiceArg args "scratch_mode" "volatile" ["volatile", "persistent", "off"]
    "scratch_mode must be volatile/persistent/off"
  return {
    mac
    profileName
    architecture := Json.getD args "architecture" (.str "x86_64")
    platform
    serialConsole := (Json.getD args "serial_console" (.bool false)).truthy
    scratchMode }

def EnrolArgs.enrolment (args : EnrolArgs) (architecture : String) : Enrolment :=
  { mac := args.mac
    profileName := args.profileName
    architecture
    platform := args.platform
    serialConsole := args.serialConsole
    scratchMode := args.scratchMode }

/-- The checked arguments of `set_machine_profile`. -/
def profileChangeArgs (args : Fields) : Except String (String × String) := do
  let mac ← requireStr args "mac"
  let profileName ← requireStr args "profile_name"
  return (mac, profileName)

/-- The message about a name that is no profile directory. -/
def unknownProfile [Unicode] (name known : String) : String :=
  "unknown profile: " ++ Python.repr name ++ ". Known profiles: " ++ known

/-- The names of the profile directories, or that there are none. -/
def knownOrNone (profiles : List ProfileDir) : String :=
  let known := listProfileNames profiles
  if known.isEmpty then "(none)" else ", ".intercalate known

section Pin

variable [Unicode]

/-- `holder` of `pin_machine`. -/
def pinHolder (args : Fields) : Except String String :=
  match Json.getD args "holder" (.str "admin") with
  | .str holder => if strip holder = "" then .error "holder must be a non-empty string"
    else .ok holder
  | _ => .error "holder must be a non-empty string"

/-- `profile` of `pin_machine`: absent, or the name of a profile directory. -/
def pinProfile (profiles : List ProfileDir) (args : Fields) : Except String (Option String) := do
  let profile ← optionalStr args "profile"
  match profile with
  | none => return none
  | some name =>
    if name ∈ listProfileNames profiles then return some name
    else throw (unknownProfile name (knownOrNone profiles))

/-- The request that `pin_machine` makes of the registry. -/
def pinArgs (profiles : List ProfileDir) (args : Fields) : Except String PinRequest := do
  let mac ← requireStr args "mac"
  let holder ← pinHolder args
  let profile ← pinProfile profiles args
  let purpose ← optionalStr args "purpose"
  return { mac, holder := strip holder, profile, purpose }

end Pin

/-! ## Tools -/

section Tools

variable [Unicode]

/-- The answer of a tool that wrote a machine. -/
def ToolRun.machine (deployment : Deployment Build) (mac : String) (now : Timestamp)
    (live : Machine → Liveness) : ToolRun Build :=
  match deployment.db.lookup mac with
  | none => ⟨deployment, [], .error (.raised
      (.attributeError "'NoneType' object has no attribute 'mac'"))⟩
  | some m =>
    .answer deployment (machineDict m (live m) (activeReservation deployment.db now m.mac))

/-- `enrol_machine`. What SQLite keeps of an architecture, which any value may be, is
`textColumn`. -/
def enrolMachine (textColumn : Json → Except Exception String) (now : Timestamp) (args : Fields)
    (deployment : Deployment Build) : ToolRun Build :=
  match enrolArgs args with
  | .error message => .fail deployment message
  | .ok enrol =>
    if enrol.profileName ∉ listProfileNames deployment.profiles then
      .fail deployment (unknownProfile enrol.profileName (knownOrNone deployment.profiles))
    else
      match textColumn enrol.architecture with
      | .error err => ⟨deployment, [], .error (.raised err)⟩
      | .ok architecture =>
        let out := enroll now (enrol.enrolment architecture) deployment.db
        match out.value with
        | .error err => ⟨{ deployment with db := out.db }, [], .error (.raised err)⟩
        | .ok _ => .machine { deployment with db := out.db } enrol.mac now fun _ => .offline

/-- `set_machine_profile`. -/
def setMachineProfile (now : Timestamp) (args : Fields) (deployment : Deployment Build) :
    ToolRun Build :=
  match profileChangeArgs args with
  | .error message => .fail deployment message
  | .ok (mac, profileName) =>
    if profileName ∉ listProfileNames deployment.profiles then
      .fail deployment
        (unknownProfile profileName (", ".intercalate (listProfileNames deployment.profiles)))
    else
      let out := setProfile mac profileName deployment.db
      let changed : Deployment Build := { deployment with db := out.db }
      match out.value with
      | .error err => ⟨changed, [], .error (.raised err)⟩
      | .ok false => .fail changed ("no machine with MAC " ++ Python.repr mac)
      | .ok true => .machine changed mac now fun m => livenessOf now changed.db m.mac

/-- `pin_machine`. -/
def pinMachine (now : Timestamp) (args : Fields) (deployment : Deployment Build) :
    ToolRun Build :=
  match pinArgs deployment.profiles args with
  | .error message => .fail deployment message
  | .ok req =>
    let out := pin now req deployment.db
    let pinned : Deployment Build := { deployment with db := out.db }
    match out.value with
    | .error err => ⟨pinned, [], .error (.raised err)⟩
    | .ok none => .fail pinned ("no machine with MAC " ++ Python.repr req.mac)
    | .ok (some _) => .machine pinned req.mac now fun m => livenessOf now pinned.db m.mac

end Tools

end Fleetboot
