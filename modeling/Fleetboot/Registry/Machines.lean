import Fleetboot.Registry.Schema
import Fleetboot.Library.Calendar
import Mathlib.Data.List.Sort

/-!
# The machines of the registry

The `MachineRegistry` methods on `machines` and the steps of its constructor. `enroll`, `remove`
and the one-time pinning are given as the lists of SQL statements that they execute one after
the other, since in autocommit mode a process can stop between any two of them; what the call
does is the whole list.
-/

set_option autoImplicit false

namespace Fleetboot

open Python Relational

/-- `(text or "").strip() or None`. -/
def blankToNone (text : Option String) : Option String :=
  let cleaned := strip (text.getD "")
  if cleaned = "" then none else some cleaned

namespace Database

variable [Unicode]

/-! ## Reading -/

/-- `lookup`. -/
def lookup (db : Database) (mac : String) : Option Machine := db.machine (normaliseMac mac)

/-- `list_all`: `ORDER BY created_at, mac`. -/
def listAll (db : Database) : List Machine :=
  db.machines.rows.insertionSort fun m m' =>
    m.createdAt < m'.createdAt ∨ (m.createdAt = m'.createdAt ∧ m.mac ≤ m'.mac)

end Database

/-! ## Enrolling -/

/-- The arguments of `enroll`. -/
structure Enrolment where
  mac : String
  profileName : String
  architecture : String
  platform : String
  serialConsole : Bool := false
  enrolledBy : String := "manual"
  scratchMode : String := "volatile"

/-- The columns that `enroll` carries across a replacement (`carried_columns`). -/
structure CarriedColumns where
  rebootCommand : Option String
  powerOnCommand : Option String
  powerOffCommand : Option String
  pduAlias : Option String
  hardwareSpec : Option Fields

def CarriedColumns.select (m : Machine) : CarriedColumns :=
  { rebootCommand := m.rebootCommand
    powerOnCommand := m.powerOnCommand
    powerOffCommand := m.powerOffCommand
    pduAlias := m.pduAlias
    hardwareSpec := m.hardwareSpec }

def CarriedColumns.assign (carried : CarriedColumns) (m : Machine) : Machine :=
  { m with
    rebootCommand := carried.rebootCommand
    powerOnCommand := carried.powerOnCommand
    powerOffCommand := carried.powerOffCommand
    pduAlias := carried.pduAlias
    hardwareSpec := carried.hardwareSpec }

theorem CarriedColumns.mac_assign (carried : CarriedColumns) (m : Machine) :
    (carried.assign m).mac = m.mac := rfl

section Enrol

variable [Unicode]

/-- The row that `INSERT OR REPLACE` writes: every column it does not name has its default. -/
def Enrolment.row (args : Enrolment) (scratch : ScratchMode) (now : Timestamp) : Machine :=
  { mac := normaliseMac args.mac
    profileName := args.profileName
    architecture := args.architecture
    platform := args.platform
    serialConsole := args.serialConsole
    enrolledBy := args.enrolledBy
    scratchMode := scratch
    createdAt := now }

/-- The permanent hold of a machine that is enrolled for the first time. -/
def Enrolment.pin (args : Enrolment) : Database.NewReservation :=
  { mac := normaliseMac args.mac
    holder := args.enrolledBy
    purpose := some "enrolled — permanent by default"
    leaseKind := .permanent
    profile := some args.profileName }

/-- The writes of `enroll`, from the row it read before them. -/
def enrollStatements (now : Timestamp) (args : Enrolment) (scratch : ScratchMode)
    (db : Database) : List Statement :=
  [fun db => .ok (db.replaceMachine (args.row scratch now)),
    match (db.lookup args.mac).map CarriedColumns.select with
    | some carried => fun db =>
      .ok (db.updateMachine (normaliseMac args.mac) carried.assign carried.mac_assign)
    | none => Database.insertReservation now args.pin]

/-- `enroll`. -/
def enroll (now : Timestamp) (args : Enrolment) (db : Database) : Outcome Machine :=
  match ScratchMode.ofText args.scratchMode with
  | none => ⟨db, .error (.valueError
      ("scratch_mode must be volatile/persistent/off, got " ++ Python.repr args.scratchMode))⟩
  | some scratch =>
    (execAll (enrollStatements now args scratch db) db).andThen fun _ db =>
      match db.lookup args.mac with
      | some machine => ⟨db, .ok machine⟩
      | none => ⟨db, .error (.assertionError "")⟩

/-! ## Removing -/

/-- The writes of `remove`. -/
def removeStatements (mac : String) : List Statement :=
  [fun db => .ok { db with
      bootEvents := db.bootEvents.delete fun event => event.mac == normaliseMac mac },
    fun db => .ok { db with
      bootSessions := db.bootSessions.delete fun session => session.mac == normaliseMac mac },
    fun db => .ok (db.deleteReservations (normaliseMac mac)),
    fun db => .ok (db.deleteMachine (normaliseMac mac))]

/-- `remove`: whether there was a machine to delete. -/
def remove (mac : String) (db : Database) : Outcome Bool :=
  (execAll (removeStatements mac) db).andThen fun _ db' =>
    ⟨db', .ok (db.lookup mac).isSome⟩

/-! ## Changing columns -/

/-- `set_profile`. -/
def setProfile (mac profileName : String) (db : Database) : Outcome Bool :=
  let cleaned := strip profileName
  if cleaned = "" then ⟨db, .error (.valueError "profile_name must not be empty")⟩
  else ⟨db.updateMachine (normaliseMac mac) fun m => { m with profileName := cleaned },
    .ok (db.lookup mac).isSome⟩

/-- `update_hostname`. -/
def updateHostname (now : Timestamp) (mac hostname : String) (db : Database) : Database :=
  let cleaned := strip hostname
  if cleaned = "" then db
  else db.updateMachine (normaliseMac mac) fun m =>
    { m with hostname := some cleaned, hostnameSeenAt := some now }

/-- `update_last_ip`. -/
def updateLastIp (now : Timestamp) (mac ip : String) (db : Database) : Database :=
  let cleaned := strip ip
  if cleaned = "" then db
  else db.updateMachine (normaliseMac mac) fun m =>
    { m with lastIp := some cleaned, lastIpAt := some now }

/-- `update_boot_version`. -/
def updateBootVersion (now : Timestamp) (mac bootVersion : String) (db : Database) : Database :=
  let cleaned := strip bootVersion
  if cleaned = "" then db
  else db.updateMachine (normaliseMac mac) fun m =>
    { m with bootVersion := some cleaned, bootVersionSeenAt := some now }

/-- `update_diagnostics`. -/
def updateDiagnostics (now : Timestamp) (mac diagnostics : String) (db : Database) : Database :=
  let cleaned := strip diagnostics
  if cleaned = "" then db
  else db.updateMachine (normaliseMac mac) fun m =>
    { m with lastDiagnostics := some cleaned, lastDiagnosticsAt := some now }

/-- `update_hardware`, called with the text of a JSON object, which is kept here as the object. -/
def updateHardware (now : Timestamp) (mac : String) (hardware : Fields) (db : Database) :
    Database :=
  db.updateMachine (normaliseMac mac) fun m =>
    let spec := mergeSpec m.hardwareSpec (specFromInventory (some hardware))
    { m with
      lastHardware := some hardware
      lastHardwareAt := some now
      hardwareSpec := if spec.isEmpty then none else some spec }

/-- `set_pending_reboot`. -/
def setPendingReboot (mac : String) (pending : Bool) (db : Database) : Database :=
  db.updateMachine (normaliseMac mac) fun m => { m with pendingReboot := pending }

/-- The power actions (`POWER_ACTIONS`). -/
inductive PowerAction
  | on
  | off
  | reboot
  deriving DecidableEq

/-- `set_power_command`, with `set_reboot_command` as its `reboot` case. -/
def setPowerCommand (mac : String) (action : PowerAction) (command : Option String)
    (db : Database) : Database :=
  let value := blankToNone command
  db.updateMachine (normaliseMac mac) (fun m =>
    match action with
    | .on => { m with powerOnCommand := value }
    | .off => { m with powerOffCommand := value }
    | .reboot => { m with rebootCommand := value }) (fun m => by cases action <;> rfl)

/-- `set_pdu_alias`. -/
def setPduAlias (mac : String) (alias_ : Option String) (db : Database) : Database :=
  db.updateMachine (normaliseMac mac) fun m => { m with pduAlias := blankToNone alias_ }

end Enrol

/-! ## Settings -/

/-- `get_setting`: a blank value counts as unset. -/
def getSetting (db : Database) (key : String) : Option String :=
  blankToNone ((db.settings.lookup key).map Setting.value)

/-- `set_setting`: a blank value deletes the row. -/
def setSetting (now : Timestamp) (key : String) (value : Option String) (db : Database) :
    Database :=
  match blankToNone value with
  | none => { db with settings := db.settings.delete fun setting => setting.key == key }
  | some cleaned =>
    { db with settings := db.settings.replace { key, value := cleaned, updatedAt := now } }

/-! ## Opening the database -/

/-- The settings key that marks the one-time pinning as done. -/
def pinnedFlag : String := "reservations_pinned_existing"

/-- The permanent hold that the migration gives a machine. -/
def migrationPin (m : Machine) : Database.NewReservation :=
  { mac := m.mac
    holder := m.enrolledBy
    purpose := some "migrated: pre-reservation fleet machine"
    leaseKind := .permanent
    profile := some m.profileName }

/-- `INSERT INTO reservations … SELECT … FROM machines WHERE NOT EXISTS …`. -/
def insertMigrationPins (now : Timestamp) : Statement := fun db =>
  (db.machines.rows.filter fun m => (db.unreleased m.mac).isNone).foldlM
    (fun db m => Database.insertReservation now (migrationPin m) db) db

/-- `INSERT INTO settings` for the flag. -/
def insertPinnedFlag (now : Timestamp) : Statement := fun db =>
  match db.settings.insert
    { key := pinnedFlag, value := Calendar.datetimeText now, updatedAt := now } with
  | some settings => .ok { db with settings }
  | none => .error (.integrityError "UNIQUE constraint failed: settings.key")

/-- The writes of `_pin_existing_machines_once`. -/
def pinExistingStatements (now : Timestamp) (db : Database) : List Statement :=
  if (db.settings.lookup pinnedFlag).isSome then []
  else [insertMigrationPins now, insertPinnedFlag now]

/-- `_add_hardware_spec_column_if_missing`: the new column, filled in from stored inventories. -/
def addHardwareSpecColumn (db : Database) : Database :=
  if db.hardwareSpecAdded then db
  else { db with
    hardwareSpecAdded := true
    machines := db.machines.update (fun m =>
        match specFromInventory m.lastHardware with
        | [] => m
        | spec => { m with hardwareSpec := some spec })
      (fun _ _ => rfl) (fun m => by split <;> rfl) }

/-- The renames of old `boot_events` states. -/
def renameBootEvents (db : Database) : Database :=
  { db with
    bootEvents := (db.bootEvents.update (fun event =>
        if event.state = "login_ready" then { event with state := "login_console" } else event)
        (fun event => by split <;> rfl)).delete
      fun event => event.state == "user_logged_in" }

/-- `MachineRegistry(path)` on a database file: the schema is there afterwards, the
migrations have run. -/
def openRegistry (now : Timestamp) (db : Database) : Outcome Unit :=
  let db := addHardwareSpecColumn db
  (execAll (pinExistingStatements now db) db).andThen fun _ db => ⟨renameBootEvents db, .ok ()⟩

/-- A database file that does not exist yet, as `_SCHEMA` creates it. -/
def emptyFile : Database :=
  { machines := Table.empty
    reservations := Table.empty
    nextReservationId := 1
    settings := Table.empty
    rules := Serial.empty
    bootEvents := Serial.empty
    bootSessions := Table.empty
    hardwareSpecAdded := true }

/-- A database file from before reservations existed: whatever machines, settings and history
it holds, the `reservations` table is created empty and the pinning has not run. -/
structure PreReservationFile (db : Database) : Prop where
  no_reservations : db.reservations.rows = []
  not_pinned : db.settings.lookup pinnedFlag = none

end Fleetboot
