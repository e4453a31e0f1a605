import Fleetboot.Registry.Machines
import Mathlib.Data.List.DropRight

/-!
# Auto-enrolment rules

The rules by which an unknown MAC is enrolled when it asks for its configuration. Networks are
read by Python's `ipaddress`, which enters as a parameter.
-/

set_option autoImplicit false

namespace Fleetboot

open Python Relational

namespace MatchKind

def text : MatchKind → String
  | macPrefix => "mac_prefix"
  | ipCidr => "ip_cidr"

/-- `match_kind in ("mac_prefix", "ip_cidr")`, as a reading of the text. -/
def ofText (text : String) : Option MatchKind :=
  [macPrefix, ipCidr].find? fun kind => kind.text == text

end MatchKind

/-- What the rules use of `ipaddress`: `str(ip_network(text, strict=False))` with the message of
its `ValueError`, and `ip_address(ip) in ip_network(network, strict=False)`, absent when one of
the two cannot be read. -/
class IpAddress where
  network : String → Except String String
  contains : String → String → Option Bool

/-- An `ipaddress` that can read nothing. -/
@[reducible] def noNetworks : IpAddress where
  network text := .error (text ++ " does not appear to be an IPv4 or IPv6 network")
  contains _ _ := none

variable [Unicode] [IpAddress]

/-- `text.rstrip(":")`. -/
def stripColons (text : String) : String := String.ofList (text.toList.rdropWhile (· == ':'))

omit [Unicode] [IpAddress] in
/-- `text.startswith(start)`. -/
def startsWith (text start : String) : Bool := start.toList.isPrefixOf text.toList

/-- `_normalise_match_value`. -/
def normaliseMatchValue (kind : MatchKind) (value : String) : Except Exception String :=
  match kind with
  | .macPrefix => .ok (stripColons (normaliseMac value))
  | .ipCidr =>
    match IpAddress.network (strip value) with
    | .ok network => .ok network
    | .error message => .error (.valueError message)

/-- `_rule_matches`, for a MAC in normal form. -/
def AutoEnrolRule.isMatch (rule : AutoEnrolRule) (mac : String)
    (sourceIp platform : Option String) :
    Bool :=
  let rulePlatform := lower (if rule.platform = "" then "any" else rule.platform)
  (rulePlatform == "any" || (platform.map lower == some rulePlatform)) &&
  match rule.matchKind with
  | .macPrefix => rule.matchValue == "" || startsWith mac rule.matchValue
  | .ipCidr =>
    match sourceIp with
    | none => false
    | some ip => (IpAddress.contains ip rule.matchValue).getD false

/-- The editable fields of a rule. -/
structure RuleRequest where
  name : String
  matchKind : String
  matchValue : String
  profileName : String
  architecture : String := "x86_64"
  platform : String := "any"
  serialConsole : Bool := false
  scratchMode : String := "volatile"

/-- What is written for the fields, once they are checked. -/
structure CheckedRule where
  matchKind : MatchKind
  matchValue : String
  scratchMode : ScratchMode

/-- The checks that adding and updating a rule share. -/
def RuleRequest.check (req : RuleRequest) : Except Exception CheckedRule :=
  match ScratchMode.ofText req.scratchMode with
  | none => .error (.valueError
      ("scratch_mode must be volatile/persistent/off, got " ++ Python.repr req.scratchMode))
  | some scratchMode =>
    match MatchKind.ofText req.matchKind with
    | none => .error (.valueError ("unknown match_kind: " ++ Python.repr req.matchKind))
    | some matchKind =>
      match normaliseMatchValue matchKind req.matchValue with
      | .error err => .error err
      | .ok matchValue => .ok { matchKind, matchValue, scratchMode }

/-- The row of a rule. -/
def RuleRequest.row (req : RuleRequest) (checked : CheckedRule) (createdAt : Timestamp)
    (id : Nat) : AutoEnrolRule :=
  { id
    name := req.name
    matchKind := checked.matchKind
    matchValue := checked.matchValue
    profileName := req.profileName
    architecture := req.architecture
    platform := req.platform
    serialConsole := req.serialConsole
    createdAt
    scratchMode := checked.scratchMode }

/-- `get_auto_enrol_rule`. -/
def getAutoEnrolRule (db : Database) (id : Nat) : Option AutoEnrolRule := db.rules.find id

/-- `list_auto_enrol_rules`: `ORDER BY id`. -/
def listAutoEnrolRules (db : Database) : List AutoEnrolRule := db.rules.sorted

/-- `add_auto_enrol_rule`. -/
def addAutoEnrolRule (now : Timestamp) (req : RuleRequest) (db : Database) :
    Outcome AutoEnrolRule :=
  match req.check with
  | .error err => ⟨db, .error err⟩
  | .ok checked =>
    let id := db.rules.next
    let db := { db with rules := db.rules.append (req.row checked now) (fun _ => rfl) }
    match getAutoEnrolRule db id with
    | some rule => ⟨db, .ok rule⟩
    | none => ⟨db, .error (.assertionError "")⟩

/-- `update_auto_enrol_rule`: a new name is carried to the machines the rule enrolled. -/
def updateAutoEnrolRule (id : Nat) (req : RuleRequest) (db : Database) :
    Outcome (Option AutoEnrolRule) :=
  match req.check with
  | .error err => ⟨db, .error err⟩
  | .ok checked =>
    match getAutoEnrolRule db id with
    | none => ⟨db, .ok none⟩
    | some previous =>
      let db := { db with
        rules := db.rules.update (fun rule =>
          if rule.id = id then req.row checked rule.createdAt rule.id else rule)
          (fun rule => by split <;> rfl) }
      let db := if previous.name = req.name then db else { db with
        machines := db.machines.update (fun m =>
          if m.enrolledBy = "rule:" ++ previous.name then
            { m with enrolledBy := "rule:" ++ req.name } else m)
          (fun _ _ => rfl) (fun m => by split <;> rfl) }
      ⟨db, .ok (getAutoEnrolRule db id)⟩

/-- `remove_auto_enrol_rule`. -/
def removeAutoEnrolRule (id : Nat) (db : Database) : Outcome Bool :=
  ⟨{ db with rules := db.rules.delete fun rule => rule.id == id },
    .ok (getAutoEnrolRule db id).isSome⟩

/-- `find_matching_rule`: the first rule that matches. -/
def findMatchingRule (db : Database) (mac : String) (sourceIp platform : Option String) :
    Option AutoEnrolRule :=
  (listAutoEnrolRules db).find? fun rule => rule.isMatch (normaliseMac mac) sourceIp platform

end Fleetboot
