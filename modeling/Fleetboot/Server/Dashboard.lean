import Fleetboot.Server.Rest

/-!
# The forms of the dashboard

The routes of `dashboard.py` that write a profile name: the forms that enrol a machine, move it to
another profile, and add or edit an auto-enrolment rule. They are read after `require_admin` let
the request through. A form that succeeds answers with the location of the next page.
-/

set_option autoImplicit false

namespace Fleetboot

open Python Relational

/-- The fields of `enrol_machine`. -/
structure EnrolForm where
  mac : String
  profileName : String
  architecture : String := "x86_64"
  platform : String := "efi"
  serialConsole : Option String := none
  scratchMode : String := "volatile"

/-- The fields of `add_auto_enrol_rule_form` and `update_auto_enrol_rule_form`. -/
structure RuleForm where
  name : String
  matchKind : String
  matchValue : String := ""
  profileName : String
  architecture : String := "x86_64"
  platform : String := "any"
  serialConsole : Option String := none
  scratchMode : String := "volatile"

/-- `bool(text)` of a field that may be missing. -/
def isTicked (field : Option String) : Bool := field.getD "" != ""

def EnrolForm.enrolment (form : EnrolForm) : Enrolment :=
  { mac := form.mac
    profileName := form.profileName
    architecture := form.architecture
    platform := form.platform
    serialConsole := isTicked form.serialConsole
    scratchMode := form.scratchMode }

def RuleForm.request (form : RuleForm) : RuleRequest :=
  { name := form.name
    matchKind := form.matchKind
    matchValue := form.matchValue
    profileName := form.profileName
    architecture := form.architecture
    platform := form.platform
    serialConsole := isTicked form.serialConsole
    scratchMode := form.scratchMode }

/-- The checks that the two forms for rules share. -/
def RuleForm.check (form : RuleForm) : Except RestFailure Unit := do
  if form.matchKind ∉ ["mac_prefix", "ip_cidr"] then
    throw (.http 400 "invalid match_kind")
  if form.platform ∉ ["any", "efi", "pc"] then
    throw (.http 400 "platform must be 'any', 'efi', or 'pc'")
  if form.scratchMode ∉ ["volatile", "persistent", "off"] then
    throw (.http 400 "scratch_mode must be volatile/persistent/off")

section Forms

variable [Unicode]

/-- `POST /dashboard/machines`. -/
def enrolMachineForm (now : Timestamp) (form : EnrolForm) (db : Database) : RestRun String :=
  if form.scratchMode ∉ ["volatile", "persistent", "off"] then
    ⟨db, .error (.http 400 "scratch_mode must be volatile/persistent/off")⟩
  else (enroll now form.enrolment db).restRun fun _ => .ok "/dashboard"

/-- `POST /dashboard/machines/{mac}/profile`. -/
def setMachineProfileForm (profiles : List ProfileDir) (mac profileName : String)
    (db : Database) : RestRun String :=
  if profileName ∉ listProfileNames profiles then
    ⟨db, .error (.http 400 ("unknown profile: " ++ profileName))⟩
  else (setProfile mac profileName db).restRun fun changed =>
    if changed then .ok ("/dashboard/machines/" ++ mac)
    else .error (.http 404 "machine not found")

variable [IpAddress]

/-- `POST /dashboard/auto-enrol-rules`. -/
def addAutoEnrolRuleForm (now : Timestamp) (form : RuleForm) (db : Database) : RestRun String :=
  match form.check with
  | .error failure => ⟨db, .error failure⟩
  | .ok _ => (addAutoEnrolRule now form.request db).restRule fun _ =>
      .ok "/dashboard/auto-enrol-rules"

/-- `POST /dashboard/auto-enrol-rules/{rule_id}`. -/
def updateAutoEnrolRuleForm (id : Nat) (form : RuleForm) (db : Database) : RestRun String :=
  match form.check with
  | .error failure => ⟨db, .error failure⟩
  | .ok _ => (updateAutoEnrolRule id form.request db).restRule fun updated =>
      match updated with
      | some _ => .ok "/dashboard/auto-enrol-rules"
      | none => .error (.http 404 "rule not found")

end Forms

end Fleetboot
