import Fleetboot.Registry.Lifecycle
import Fleetboot.Server.Mcp
import Fleetboot.Server.Status
import Fleetboot.TftpGlue.GrubTemplate

/-!
# The REST API

The routes of `app.py` that enrol machines, change their profiles and add auto-enrolment rules,
and the lookup by which tftpjail asks for a machine, which enrols an unknown one when a rule
matches. The server always has a registry here; it need not have a directory of profiles.

* `enrollMachine_persists_iff`: when a machine has all that the body of its enrolment gives.
* `resolveMachine_new`: what the lookup enrols by a rule.
* `autoEnrol_carries_iff`: when a rule's body reaches the machines that it enrols.
-/

set_option autoImplicit false

namespace Fleetboot

open Python Relational

/-! ## Requests and answers -/

structure RestConfig where
  adminSecret : Option String
  mintSecret : Option String

/-- An `HTTPException`, or an exception that the route does not expect. -/
inductive RestFailure
  | http (status : Nat) (detail : String)
  | raised (err : Exception)
  deriving DecidableEq

/-- What a route leaves, and what it answers. -/
structure RestRun (α : Type) where
  db : Database
  value : Except RestFailure α

/-- `MachineEnrolment`. -/
structure MachineEnrolment where
  mac : String
  profileName : String
  architecture : String
  platform : String
  scratchMode : String := "volatile"
  rebootCommand : Option String := none
  serialConsole : Bool := false

/-- `AutoEnrolRuleRequest`. -/
structure AutoEnrolRuleRequest where
  name : String
  matchKind : String
  matchValue : String
  profileName : String
  architecture : String := "x86_64"
  platform : String := "any"
  serialConsole : Bool := false
  scratchMode : String := "volatile"

/-- `MachineRecord`. -/
structure MachineRecord where
  mac : String
  profileName : String
  architecture : String
  platform : String
  serialConsole : Bool
  enrolledBy : String
  hostname : Option String
  hostnameSeenAt : Option String
  scratchMode : String
  rebootCommand : Option String
  createdAt : String

/-- `MachineRecord.from_machine`. -/
def MachineRecord.fromMachine (m : Machine) : MachineRecord :=
  { mac := m.mac
    profileName := m.profileName
    architecture := m.architecture
    platform := m.platform
    serialConsole := m.serialConsole
    enrolledBy := m.enrolledBy
    hostname := m.hostname
    hostnameSeenAt := m.hostnameSeenAt.map Calendar.datetimeText
    scratchMode := m.scratchMode.text
    rebootCommand := m.rebootCommand
    createdAt := Calendar.datetimeText m.createdAt }

/-- What tftpjail makes of the answer of `/resolve`. -/
def MachineRecord.registered (record : MachineRecord) : RegisteredMachine :=
  { mac := record.mac
    profileName := record.profileName
    architecture := record.architecture
    platform := record.platform
    serialConsole := record.serialConsole
    enrolledBy := record.enrolledBy
    scratchMode := record.scratchMode }

/-- The query of `GET /resolve/{mac}`. -/
structure ResolveRequest where
  mac : String
  sourceIp : Option String
  platform : Option String
  authorization : Option String

section Routes

variable [Unicode]

/-! ## Checks -/

/-- The bearer token is the secret of the route. -/
def requireSecret (secret : Option String) (unconfigured : String) (authorization : Option String) :
    Except RestFailure Unit :=
  match secret with
  | none => .error (.http 503 unconfigured)
  | some secret =>
    if extractBearerToken authorization = "" then .error (.http 401 "unauthorised")
    else match compareDigest (extractBearerToken authorization) secret with
      | .error err => .error (.raised err)
      | .ok true => .ok ()
      | .ok false => .error (.http 401 "unauthorised")

/-- `_require_admin`. -/
def requireAdmin (config : RestConfig) (authorization : Option String) : Except RestFailure Unit :=
  requireSecret config.adminSecret "registry not configured" authorization

omit [Unicode] in
/-- `_require_known_profile`: without a directory of profiles there is nothing to check. -/
def requireKnownProfile (profiles : Option (List ProfileDir)) (name : String) :
    Except RestFailure Unit :=
  match profiles with
  | none => .ok ()
  | some profiles =>
    let known := listProfileNames profiles
    if name ∈ known then .ok ()
    else .error (.http 400 ("unknown profile: " ++ name ++ ". Known profiles: " ++
      if ", ".intercalate known = "" then "(none)" else ", ".intercalate known))

/-- An outcome of the registry, as the answer of a route. -/
def Outcome.restRun {α β : Type} (out : Outcome α) (answer : α → Except RestFailure β) :
    RestRun β :=
  ⟨out.db, match out.value with
    | .ok value => answer value
    | .error err => .error (.raised err)⟩

/-! ## Machines -/

/-- The checks of `POST /machines`. -/
def checkEnrolment (config : RestConfig) (profiles : Option (List ProfileDir))
    (authorization : Option String) (body : MachineEnrolment) : Except RestFailure Unit := do
  requireAdmin config authorization
  if ScratchMode.ofText body.scratchMode = none then
    throw (.http 400 "scratch_mode must be volatile/persistent/off")
  requireKnownProfile profiles body.profileName

/-- `POST /machines`. -/
def enrollMachine (config : RestConfig) (profiles : Option (List ProfileDir)) (now : Timestamp)
    (authorization : Option String) (body : MachineEnrolment) (db : Database) :
    RestRun MachineRecord :=
  match checkEnrolment config profiles authorization body with
  | .error failure => ⟨db, .error failure⟩
  | .ok _ => (enroll now
      { mac := body.mac
        profileName := body.profileName
        architecture := body.architecture
        platform := body.platform
        serialConsole := body.serialConsole
        scratchMode := body.scratchMode } db).restRun
      fun machine => .ok (.fromMachine machine)

/-- The checks of `PATCH /machines/{mac}`. -/
def checkProfileChange (config : RestConfig) (profiles : Option (List ProfileDir))
    (authorization : Option String) (profileName : String) : Except RestFailure Unit := do
  requireAdmin config authorization
  requireKnownProfile profiles profileName

/-- `PATCH /machines/{mac}`. -/
def changeMachineProfile (config : RestConfig) (profiles : Option (List ProfileDir))
    (authorization : Option String) (mac profileName : String) (db : Database) :
    RestRun MachineRecord :=
  match checkProfileChange config profiles authorization profileName with
  | .error failure => ⟨db, .error failure⟩
  | .ok _ =>
    let out := setProfile mac profileName db
    out.restRun fun changed =>
      match changed, out.db.lookup mac with
      | true, some machine => .ok (.fromMachine machine)
      | true, none => .error (.raised (.attributeError "'NoneType' object has no attribute 'mac'"))
      | false, _ => .error (.http 404 "not found")

/-! ## What an enrolment keeps -/

/-- What `enroll` writes for a MAC that is not enrolled. -/
theorem enroll_new {now : Timestamp} {args : Enrolment} {scratch : ScratchMode} {db : Database}
    (hsound : Sound db) (hmode : ScratchMode.ofText args.scratchMode = some scratch)
    (hunknown : db.lookup args.mac = none) :
    (enroll now args db).value = .ok (args.row scratch now) ∧
      (enroll now args db).db.lookup args.mac = some (args.row scratch now) := by
  have henroll := enroll_cases now args db
  generalize enroll now args db = out at henroll
  cases henroll with
  | refused hrefused =>
    rw [hmode] at hrefused
    cases hrefused
  | again _ hprevious => exact absurd (hprevious.symm.trans hunknown) (by simp)
  | new hscratch _ hinserted =>
    obtain rfl := Option.some.inj (hmode.symm.trans hscratch)
    refine ⟨rfl, ?_⟩
    rw [Database.lookup, hinserted.machine, Database.machine_replaceMachine]
    exact if_pos rfl
  | orphan _ _ hunreleased =>
    obtain ⟨m, hm⟩ := hsound.machine_of_unreleased hunreleased
    exact absurd (hm.symm.trans hunknown) (by simp)

/-- A machine has the value of every field of the body that enrolled it. -/
structure MachineEnrolment.Persisted (body : MachineEnrolment) (m : Machine) : Prop where
  mac : m.mac = normaliseMac body.mac
  profileName : m.profileName = body.profileName
  architecture : m.architecture = body.architecture
  platform : m.platform = body.platform
  scratchMode : m.scratchMode.text = body.scratchMode
  rebootCommand : m.rebootCommand = body.rebootCommand
  serialConsole : m.serialConsole = body.serialConsole

theorem scratchMode_of_checkEnrolment {config : RestConfig}
    {profiles : Option (List ProfileDir)} {authorization : Option String}
    {body : MachineEnrolment}
    (haccepted : checkEnrolment config profiles authorization body = .ok ()) :
    ∃ scratch, ScratchMode.ofText body.scratchMode = some scratch := by
  cases hmode : ScratchMode.ofText body.scratchMode with
  | some scratch => exact ⟨scratch, rfl⟩
  | none =>
    unfold checkEnrolment at haccepted
    rw [if_pos hmode] at haccepted
    cases hadmin : requireAdmin config authorization with
    | error failure =>
      rw [hadmin] at haccepted
      cases haccepted
    | ok _ =>
      rw [hadmin] at haccepted
      cases haccepted

/-- **`POST /machines`.** Let the route accept a body for a MAC that is not enrolled. The machine
that is then looked up has every field of the body exactly if the body gives no reboot command:
the route does not hand that field to the registry. -/
theorem enrollMachine_persists_iff [IpAddress] {config : RestConfig}
    {profiles : Option (List ProfileDir)} {authorization : Option String}
    {body : MachineEnrolment} {s : Registry} (now : Timestamp) (hs : Reachable s)
    (haccepted : checkEnrolment config profiles authorization body = .ok ())
    (hunknown : s.db.lookup body.mac = none) :
    (∃ m, (enrollMachine config profiles now authorization body s.db).db.lookup body.mac = some m ∧
      body.Persisted m) ↔ body.rebootCommand = none := by
  obtain ⟨scratch, hmode⟩ := scratchMode_of_checkEnrolment haccepted
  let args : Enrolment :=
    { mac := body.mac
      profileName := body.profileName
      architecture := body.architecture
      platform := body.platform
      serialConsole := body.serialConsole
      scratchMode := body.scratchMode }
  have hlookup : (enrollMachine config profiles now authorization body s.db).db.lookup body.mac =
      some (args.row scratch now) := by
    unfold enrollMachine
    rw [haccepted]
    exact (@enroll_new _ now args scratch s.db hs.sound hmode hunknown).2
  constructor
  · rintro ⟨m, hm, hpersisted⟩
    obtain rfl := Option.some.inj (hlookup.symm.trans hm)
    exact hpersisted.rebootCommand.symm
  · intro hnone
    exact ⟨_, hlookup, rfl, rfl, rfl, rfl, ScratchMode.text_of_ofText hmode, hnone.symm, rfl⟩

/-! ## Rules -/

variable [IpAddress]

/-- The checks of `POST /auto-enrol-rules`. -/
def checkRule (config : RestConfig) (profiles : Option (List ProfileDir))
    (authorization : Option String) (body : AutoEnrolRuleRequest) : Except RestFailure Unit := do
  requireAdmin config authorization
  if body.matchKind ∉ ["mac_prefix", "ip_cidr"] then
    throw (.http 400 "match_kind must be 'mac_prefix' or 'ip_cidr'")
  if body.platform ∉ ["any", "efi", "pc"] then
    throw (.http 400 "platform must be 'any', 'efi', or 'pc'")
  requireKnownProfile profiles body.profileName

/-- What the route hands to the registry. -/
def AutoEnrolRuleRequest.request (body : AutoEnrolRuleRequest) : RuleRequest :=
  { name := body.name
    matchKind := body.matchKind
    matchValue := body.matchValue
    profileName := body.profileName
    architecture := body.architecture
    platform := body.platform
    serialConsole := body.serialConsole }

/-- A `ValueError` of the registry becomes a 400. -/
def Outcome.restRule {α β : Type} (out : Outcome α) (answer : α → Except RestFailure β) :
    RestRun β :=
  match out.value with
  | .error (.valueError message) => ⟨out.db, .error (.http 400 message)⟩
  | _ => out.restRun answer

/-- `POST /auto-enrol-rules`. -/
def postAutoEnrolRule (config : RestConfig) (profiles : Option (List ProfileDir))
    (now : Timestamp) (authorization : Option String) (body : AutoEnrolRuleRequest)
    (db : Database) : RestRun AutoEnrolRule :=
  match checkRule config profiles authorization body with
  | .error failure => ⟨db, .error failure⟩
  | .ok _ => (addAutoEnrolRule now body.request db).restRule .ok

/-! ## Resolving a machine -/

/-- The platform of a machine that a rule enrols: what the URL says, else what the rule says. -/
def effectivePlatform (platform : Option String) (rule : AutoEnrolRule) : String :=
  match platform with
  | some "pc" => "pc"
  | some "efi" => "efi"
  | _ => if rule.platform ∈ ["pc", "efi"] then rule.platform else "efi"

/-- How a rule enrols a machine. -/
def AutoEnrolRule.enrolment (rule : AutoEnrolRule) (mac : String) (platform : Option String) :
    Enrolment :=
  { mac
    profileName := rule.profileName
    architecture := rule.architecture
    platform := effectivePlatform platform rule
    serialConsole := rule.serialConsole
    enrolledBy := "rule:" ++ rule.name
    scratchMode := rule.scratchMode.text }

/-- `GET /resolve/{mac}`. -/
def resolveMachine (config : RestConfig) (now : Timestamp) (req : ResolveRequest)
    (db : Database) : RestRun MachineRecord :=
  match requireSecret config.mintSecret "resolve not configured" req.authorization with
  | .error failure => ⟨db, .error failure⟩
  | .ok _ =>
    match db.lookup req.mac with
    | some machine => ⟨db, .ok (.fromMachine machine)⟩
    | none =>
      match findMatchingRule db req.mac req.sourceIp req.platform with
      | none => ⟨db, .error (.http 404 "not found")⟩
      | some rule => (enroll now (rule.enrolment req.mac req.platform) db).restRun
          fun machine => .ok (.fromMachine machine)

/-! ## From the body of a rule to the kernel -/

omit [Unicode] [IpAddress] in
theorem restRule_eq_ok {α β : Type} {out : Outcome α} {answer : α → Except RestFailure β} {b : β}
    (h : (out.restRule answer).value = .ok b) : ∃ a, out.value = .ok a ∧ answer a = .ok b := by
  unfold Outcome.restRule Outcome.restRun at h
  cases hvalue : out.value with
  | ok a =>
    rw [hvalue] at h
    exact ⟨a, rfl, h⟩
  | error err =>
    rw [hvalue] at h
    cases err <;> cases h

/-- The row that `add_auto_enrol_rule` returns. -/
theorem addAutoEnrolRule_eq_ok {now : Timestamp} {req : RuleRequest} {db : Database}
    {rule : AutoEnrolRule} (h : (addAutoEnrolRule now req db).value = .ok rule) :
    ∃ checked, req.check = .ok checked ∧ rule = req.row checked now db.rules.next := by
  unfold addAutoEnrolRule at h
  cases hcheck : req.check with
  | error err =>
    rw [hcheck] at h
    cases h
  | ok checked =>
    have hfind : getAutoEnrolRule
        { db with rules := db.rules.append (req.row checked now) fun _ => rfl } db.rules.next =
        some (req.row checked now db.rules.next) := by
      have happend := db.rules.find_append (req.row checked now) (fun _ => rfl) db.rules.next
      rwa [if_pos rfl] at happend
    rw [hcheck] at h
    dsimp only at h
    rw [hfind] at h
    cases h
    exact ⟨checked, rfl, rfl⟩

/-- The fields of a rule that the route created: the scratch mode is not the body's. -/
theorem rule_of_postAutoEnrolRule {config : RestConfig} {profiles : Option (List ProfileDir)}
    {now : Timestamp} {authorization : Option String} {body : AutoEnrolRuleRequest}
    {db : Database} {rule : AutoEnrolRule}
    (h : (postAutoEnrolRule config profiles now authorization body db).value = .ok rule) :
    rule.profileName = body.profileName ∧ rule.architecture = body.architecture ∧
      rule.serialConsole = body.serialConsole ∧ rule.scratchMode = .volatile := by
  unfold postAutoEnrolRule at h
  split at h
  · cases h
  · obtain ⟨row, hrow, heq⟩ := restRule_eq_ok h
    cases heq
    obtain ⟨checked, hcheck, rfl⟩ := addAutoEnrolRule_eq_ok hrow
    have hmode : ScratchMode.ofText body.request.scratchMode = some .volatile :=
      ScratchMode.ofText_text .volatile
    refine ⟨rfl, rfl, rfl, ?_⟩
    unfold RuleRequest.check at hcheck
    rw [hmode] at hcheck
    dsimp only at hcheck
    split at hcheck
    · cases hcheck
    · split at hcheck
      · cases hcheck
      · cases hcheck
        rfl

/-- **Auto-enrolment.** A MAC that is not enrolled and that a rule matches gets the rule's row. -/
theorem resolveMachine_new {config : RestConfig} {now : Timestamp} {req : ResolveRequest}
    {db : Database} {rule : AutoEnrolRule} (hsound : Sound db)
    (hauth : requireSecret config.mintSecret "resolve not configured" req.authorization = .ok ())
    (hunknown : db.lookup req.mac = none)
    (hrule : findMatchingRule db req.mac req.sourceIp req.platform = some rule) :
    (resolveMachine config now req db).value = .ok (.fromMachine
      ((rule.enrolment req.mac req.platform).row rule.scratchMode now)) := by
  have hmode : ScratchMode.ofText (rule.enrolment req.mac req.platform).scratchMode =
      some rule.scratchMode := ScratchMode.ofText_text _
  have hvalue : (enroll now (rule.enrolment req.mac req.platform) db).value = .ok _ :=
    (enroll_new hsound hmode hunknown).1
  unfold resolveMachine
  rw [hauth, hunknown, hrule]
  dsimp only [Outcome.restRun]
  rw [hvalue]

/-- A machine has the fields of a rule's body, and so has the kernel command line of whatever is
rendered for it. -/
structure AutoEnrolRuleRequest.Carried (body : AutoEnrolRuleRequest) (record : MachineRecord) :
    Prop where
  profileName : record.profileName = body.profileName
  architecture : record.architecture = body.architecture
  serialConsole : record.serialConsole = body.serialConsole
  scratchMode : record.scratchMode = body.scratchMode
  kernel : ∀ identity base token cfg, render identity base token record.registered = .ok cfg →
    ∃ start arguments rest, cfg = start ++ kernelLine arguments ++ rest ∧
      "fleetboot.scratch=" ++ body.scratchMode ∈ arguments

/-- **The auto-enrolment pipeline.** Let the route accept a body, and let the rule it created be
the first that matches a MAC that is not enrolled, then or at any later time. The machine that
the lookup enrols has the body's fields, and its kernel the body's scratch mode, exactly if that
mode is `volatile`: the route drops the field. -/
theorem autoEnrol_carries_iff {config : RestConfig} {profiles : Option (List ProfileDir)}
    {created : Timestamp} {authorization : Option String} {body : AutoEnrolRuleRequest}
    {db : Database} {rule : AutoEnrolRule} {s : Registry} (now : Timestamp) {req : ResolveRequest}
    (haccepted :
      (postAutoEnrolRule config profiles created authorization body db).value = .ok rule)
    (hs : Reachable s)
    (hauth : requireSecret config.mintSecret "resolve not configured" req.authorization = .ok ())
    (hunknown : s.db.lookup req.mac = none)
    (hfirst : findMatchingRule s.db req.mac req.sourceIp req.platform = some rule) :
    (∃ record, (resolveMachine config now req s.db).value = .ok record ∧ body.Carried record) ↔
      body.scratchMode = "volatile" := by
  obtain ⟨hprofile, harchitecture, hserial, hmode⟩ := rule_of_postAutoEnrolRule haccepted
  have hresolved : (resolveMachine config now req s.db).value = _ :=
    resolveMachine_new hs.sound hauth hunknown hfirst
  have htext : (MachineRecord.fromMachine
      ((rule.enrolment req.mac req.platform).row rule.scratchMode now)).scratchMode =
      "volatile" := congrArg ScratchMode.text hmode
  constructor
  · rintro ⟨record, hrecord, hcarried⟩
    obtain rfl := Except.ok.inj (hresolved.symm.trans hrecord)
    exact hcarried.scratchMode.symm.trans htext
  · intro hvolatile
    refine ⟨_, hresolved, hprofile, harchitecture, hserial, htext.trans hvolatile.symm, ?_⟩
    intro identity base token cfg hrender
    have hmode' : (MachineRecord.fromMachine ((rule.enrolment req.mac req.platform).row
        rule.scratchMode now)).registered.scratchMode ≠ "" := by
      intro hempty
      exact absurd (htext.symm.trans hempty) (by decide)
    obtain ⟨squashfs, rfl⟩ := kernel_line_of_render hmode' hrender
    refine ⟨_, _, _, rfl, ?_⟩
    rw [hvolatile, ← htext]
    exact scratch_mem_kernelArguments _ _ _ _ _

end Routes

section Examples

attribute [local instance] ascii noNetworks

def labSecrets : RestConfig := ⟨some "admin", some "mint"⟩

/-- A kiosk with a command that reboots it. -/
def kioskEnrolment (rebootCommand : Option String) : MachineEnrolment :=
  { mac := "52-54-00-12-34-56", profileName := "kiosk", architecture := "x86_64",
    platform := "efi", rebootCommand }

theorem newRegistry_reachable : Reachable newRegistry := ⟨_, _, newRegistry_opened, .nil⟩

theorem kioskEnrolment_accepted (rebootCommand : Option String) :
    checkEnrolment labSecrets none (some "Bearer admin") (kioskEnrolment rebootCommand) =
      .ok () := by
  have hnone : checkEnrolment labSecrets none (some "Bearer admin") (kioskEnrolment none) =
      .ok () := eq_ok_of_toOption (by decide +kernel)
  exact hnone

/-- The machine is enrolled without its reboot command. -/
theorem enrollMachine_drops_rebootCommand :
    Reachable newRegistry ∧
    checkEnrolment labSecrets none (some "Bearer admin") (kioskEnrolment (some "cycle.sh 4")) =
      .ok () ∧
    newRegistry.db.lookup "52-54-00-12-34-56" = none ∧
    ¬ ∃ m, (enrollMachine labSecrets none 5 (some "Bearer admin")
      (kioskEnrolment (some "cycle.sh 4")) newRegistry.db).db.lookup "52-54-00-12-34-56" = some m ∧
      (kioskEnrolment (some "cycle.sh 4")).Persisted m := by
  refine ⟨newRegistry_reachable, kioskEnrolment_accepted _, by decide +kernel, ?_⟩
  rintro ⟨m, hm, hpersisted⟩
  have hcolumn : ((enrollMachine labSecrets none 5 (some "Bearer admin")
      (kioskEnrolment (some "cycle.sh 4")) newRegistry.db).db.lookup "52-54-00-12-34-56").map
        Machine.rebootCommand = some none := by
    decide +kernel
  rw [hm, Option.map_some, hpersisted.rebootCommand] at hcolumn
  cases hcolumn

theorem enrollMachine_persists_kiosk :
    ∃ m, (enrollMachine labSecrets none 5 (some "Bearer admin") (kioskEnrolment none)
      newRegistry.db).db.lookup "52-54-00-12-34-56" = some m ∧ (kioskEnrolment none).Persisted m :=
  (enrollMachine_persists_iff 5 newRegistry_reachable (kioskEnrolment_accepted _)
    (by decide +kernel)).mpr rfl

/-- A rule for every machine. -/
def labRule (scratchMode : String) : AutoEnrolRuleRequest :=
  { name := "lab", matchKind := "mac_prefix", matchValue := "", profileName := "worker",
    scratchMode }

/-- The registry once the rule is created. -/
def labRegistry : Registry := newRegistry.after 5 (.addAutoEnrolRule (labRule "volatile").request)

theorem labRegistry_reachable : Reachable labRegistry :=
  ⟨newRegistry, _, newRegistry_opened, .single (Registry.step_after (by decide) _)⟩

/-- The row of the rule. -/
def labRow : AutoEnrolRule :=
  { id := 1, name := "lab", matchKind := .macPrefix, matchValue := "", profileName := "worker",
    architecture := "x86_64", platform := "any", serialConsole := false, createdAt := 5,
    scratchMode := .volatile }

def unknownMachine : ResolveRequest :=
  ⟨"52:54:00:12:34:56", none, some "efi", some "Bearer mint"⟩

theorem labRow_created (scratchMode : String) :
    (postAutoEnrolRule labSecrets none 5 (some "Bearer admin") (labRule scratchMode)
      newRegistry.db).value = .ok labRow := by
  have hvolatile : (postAutoEnrolRule labSecrets none 5 (some "Bearer admin")
      (labRule "volatile") newRegistry.db).value = .ok labRow :=
    eq_ok_of_toOption (by decide +kernel)
  exact hvolatile

theorem unknownMachine_matched : findMatchingRule labRegistry.db unknownMachine.mac
    unknownMachine.sourceIp unknownMachine.platform = some labRow := by
  decide +kernel

/-- A rule whose body asks for `persistent` enrols machines whose disk is wiped. -/
theorem autoEnrol_drops_scratchMode :
    (postAutoEnrolRule labSecrets none 5 (some "Bearer admin") (labRule "persistent")
      newRegistry.db).value = .ok labRow ∧
    Reachable labRegistry ∧ labRegistry.db.lookup unknownMachine.mac = none ∧
    findMatchingRule labRegistry.db unknownMachine.mac unknownMachine.sourceIp
      unknownMachine.platform = some labRow ∧
    ∃ record, (resolveMachine labSecrets 9 unknownMachine labRegistry.db).value = .ok record ∧
      record.scratchMode = "volatile" ∧ ¬ (labRule "persistent").Carried record := by
  have hresolved : (resolveMachine labSecrets 9 unknownMachine labRegistry.db).value = _ :=
    resolveMachine_new labRegistry_reachable.sound (by rfl) (by rfl) unknownMachine_matched
  refine ⟨labRow_created _, labRegistry_reachable, by rfl, unknownMachine_matched, _, hresolved,
    rfl, fun hcarried => ?_⟩
  exact absurd (show "volatile" = "persistent" from hcarried.scratchMode) (by decide)

theorem autoEnrol_carries_volatile : ∃ record,
    (resolveMachine labSecrets 9 unknownMachine labRegistry.db).value = .ok record ∧
      (labRule "volatile").Carried record :=
  (autoEnrol_carries_iff 9 (labRow_created _) labRegistry_reachable (by rfl) (by rfl)
    unknownMachine_matched).mpr rfl

end Examples

end Fleetboot
