import Fleetboot.Registry.ProfileNames
import Fleetboot.Server.AdminTools
import Fleetboot.Server.Dashboard
import Fleetboot.Server.ToolEffects

/-!
# Profile names are names of profiles

Every route that writes a profile name to a machine or a rule: the REST API, the tools, the forms
of the dashboard, and the lookup that enrols a machine by a rule. Between the requests other calls
of the registry are made and profile directories are created.

* `Request.db_serve`: a request makes one call of the registry at most.
* `Request.operation`: that call.
* `knownNames_serve_iff`: when a request keeps every stored name that of a directory.
* `profiles_stay_known`: runs of such requests.
-/

set_option autoImplicit false

namespace Fleetboot

open Python Relational Transition

/-! ## Requests -/

/-- What the routes share. The directory of profiles need not exist. -/
structure Site (Build : Type) where
  db : Database
  root : Option (List ProfileDir)
  bugReports : Option BugReportStore
  builds : List Build

/-- The calls that are handed a profile name. -/
def Operation.namesProfile : Operation → Bool
  | enroll _ | setProfile _ _ | reserve _ | addAutoEnrolRule _ | updateAutoEnrolRule _ _ => true
  | pin req => req.profile.isSome
  | _ => false

/-- A request that writes a profile name, or another call of the registry. -/
inductive Request
  | enrollMachine (authorization : Option String) (body : MachineEnrolment)
  | changeMachineProfile (authorization : Option String) (mac profileName : String)
  | postAutoEnrolRule (authorization : Option String) (body : AutoEnrolRuleRequest)
  | resolveMachine (req : ResolveRequest)
  | enrolTool (args : Fields)
  | profileTool (args : Fields)
  | reserveTool (args : Fields)
  | pinTool (args : Fields)
  | enrolForm (form : EnrolForm)
  | profileForm (mac profileName : String)
  | addRuleForm (form : RuleForm)
  | editRuleForm (id : Nat) (form : RuleForm)
  | call (op : Operation) (unnamed : op.namesProfile = false)

section Requests

variable {Build : Type}

def Site.profiles (s : Site Build) : List ProfileDir := s.root.getD []

def Site.deployment (s : Site Build) : Deployment Build :=
  { db := s.db, profiles := s.profiles, bugReports := s.bugReports, builds := s.builds }

/-- A profile directory has the name. -/
def Site.Listed (s : Site Build) (name : String) : Prop := name ∈ listProfileNames s.profiles

instance (s : Site Build) (name : String) : Decidable (s.Listed name) :=
  inferInstanceAs (Decidable (name ∈ listProfileNames s.profiles))

/-- Every profile name of a machine or a rule is that of a directory. -/
def Site.KnownNames (s : Site Build) : Prop := ∀ name, Stores s.db name → s.Listed name

variable [Unicode] [IpAddress]

/-- The routes' secrets, and what SQLite keeps of a value in a column of text. -/
structure Routes where
  secrets : RestConfig
  textColumn : Json → Except Exception String

/-- The call that a lookup makes: it enrols an unknown machine by the first rule that matches. -/
def resolveOperation (config : RestConfig) (req : ResolveRequest) (db : Database) :
    Option Operation :=
  match requireSecret config.mintSecret "resolve not configured" req.authorization,
    db.lookup req.mac with
  | .ok _, none => (findMatchingRule db req.mac req.sourceIp req.platform).map fun rule =>
      .enroll (rule.enrolment req.mac req.platform)
  | _, _ => none

def enrolOperation (textColumn : Json → Except Exception String) (profiles : List ProfileDir)
    (args : Fields) : Option Operation :=
  match enrolArgs args with
  | .error _ => none
  | .ok enrol =>
    if enrol.profileName ∉ listProfileNames profiles then none
    else match textColumn enrol.architecture with
      | .error _ => none
      | .ok architecture => some (.enroll (enrol.enrolment architecture))

def profileOperation (profiles : List ProfileDir) (args : Fields) : Option Operation :=
  match profileChangeArgs args with
  | .error _ => none
  | .ok (mac, profileName) =>
    if profileName ∉ listProfileNames profiles then none else some (.setProfile mac profileName)

namespace Request

/-- What a request leaves in the database. -/
def serve (routes : Routes) (env : RequestEnv) (s : Site Build) : Request → Database
  | enrollMachine authorization body =>
    (Fleetboot.enrollMachine routes.secrets s.root env.now authorization body s.db).db
  | changeMachineProfile authorization mac profileName =>
    (Fleetboot.changeMachineProfile routes.secrets s.root authorization mac profileName s.db).db
  | postAutoEnrolRule authorization body =>
    (Fleetboot.postAutoEnrolRule routes.secrets s.root env.now authorization body s.db).db
  | resolveMachine req => (Fleetboot.resolveMachine routes.secrets env.now req s.db).db
  | enrolTool args => (enrolMachine routes.textColumn env.now args s.deployment).deployment.db
  | profileTool args => (setMachineProfile env.now args s.deployment).deployment.db
  | reserveTool args => (reserveMachines env args s.deployment).deployment.db
  | pinTool args => (pinMachine env.now args s.deployment).deployment.db
  | enrolForm form => (enrolMachineForm env.now form s.db).db
  | profileForm mac profileName => (setMachineProfileForm s.profiles mac profileName s.db).db
  | addRuleForm form => (addAutoEnrolRuleForm env.now form s.db).db
  | editRuleForm id form => (updateAutoEnrolRuleForm id form s.db).db
  | call op _ => (op.run env.now s.db).db

/-- The call of the registry that a request makes once it passed the checks of its route. -/
def operation (routes : Routes) (s : Site Build) : Request → Option Operation
  | enrollMachine authorization body =>
    (checkEnrolment routes.secrets s.root authorization body).toOption.map fun _ =>
      .enroll {
        mac := body.mac
        profileName := body.profileName
        architecture := body.architecture
        platform := body.platform
        serialConsole := body.serialConsole
        scratchMode := body.scratchMode }
  | changeMachineProfile authorization mac profileName =>
    (checkProfileChange routes.secrets s.root authorization profileName).toOption.map fun _ =>
      .setProfile mac profileName
  | postAutoEnrolRule authorization body =>
    (checkRule routes.secrets s.root authorization body).toOption.map fun _ =>
      .addAutoEnrolRule body.request
  | resolveMachine req => resolveOperation routes.secrets req s.db
  | enrolTool args => enrolOperation routes.textColumn s.profiles args
  | profileTool args => profileOperation s.profiles args
  | reserveTool args => reserveOperation args s.deployment
  | pinTool args => (pinArgs s.profiles args).toOption.map .pin
  | enrolForm form =>
    if form.scratchMode ∉ ["volatile", "persistent", "off"] then none
    else some (.enroll form.enrolment)
  | profileForm mac profileName =>
    if profileName ∉ listProfileNames s.profiles then none else some (.setProfile mac profileName)
  | addRuleForm form => form.check.toOption.map fun _ => .addAutoEnrolRule form.request
  | editRuleForm id form => form.check.toOption.map fun _ => .updateAutoEnrolRule id form.request
  | call op _ => some op

end Request

/-! ## The call of a request -/

omit [Unicode] [IpAddress] in
theorem db_restRule {α β : Type} (out : Outcome α) (answer : α → Except RestFailure β) :
    (out.restRule answer).db = out.db := by
  unfold Outcome.restRule
  split <;> rfl

theorem db_resolveMachine (config : RestConfig) (now : Timestamp) (req : ResolveRequest)
    (db : Database) : (resolveMachine config now req db).db =
      dbAfter now db (resolveOperation config req db) := by
  unfold resolveMachine resolveOperation
  cases requireSecret config.mintSecret "resolve not configured" req.authorization with
  | error failure => rfl
  | ok checked =>
    cases db.lookup req.mac with
    | some m => rfl
    | none =>
      cases findMatchingRule db req.mac req.sourceIp req.platform <;> rfl

omit [IpAddress] in
theorem deployment_machine (deployment : Deployment Build) (mac : String) (now : Timestamp)
    (live : Machine → Liveness) :
    (ToolRun.machine deployment mac now live).deployment = deployment := by
  unfold ToolRun.machine
  split <;> rfl

theorem db_enrolMachine (textColumn : Json → Except Exception String) (now : Timestamp)
    (args : Fields) (deployment : Deployment Build) :
    (enrolMachine textColumn now args deployment).deployment.db =
      dbAfter now deployment.db (enrolOperation textColumn deployment.profiles args) := by
  unfold enrolMachine enrolOperation
  cases enrolArgs args with
  | error message => rfl
  | ok enrol =>
    dsimp only
    split
    · rfl
    · cases textColumn enrol.architecture with
      | error err => rfl
      | ok architecture =>
        dsimp only
        split
        · rfl
        · rw [deployment_machine]
          rfl

theorem db_setMachineProfile (now : Timestamp) (args : Fields) (deployment : Deployment Build) :
    (setMachineProfile now args deployment).deployment.db =
      dbAfter now deployment.db (profileOperation deployment.profiles args) := by
  unfold setMachineProfile profileOperation
  cases profileChangeArgs args with
  | error message => rfl
  | ok named =>
    dsimp only
    split
    · rfl
    · split
      · rfl
      · rfl
      · rw [deployment_machine]
        rfl

theorem db_pinMachine (now : Timestamp) (args : Fields) (deployment : Deployment Build) :
    (pinMachine now args deployment).deployment.db =
      dbAfter now deployment.db ((pinArgs deployment.profiles args).toOption.map .pin) := by
  unfold pinMachine
  cases pinArgs deployment.profiles args with
  | error message => rfl
  | ok req =>
    dsimp only
    split
    · rfl
    · rfl
    · rw [deployment_machine]
      rfl

/-- **A request makes one call** of the registry, or none. -/
theorem Request.db_serve (routes : Routes) (env : RequestEnv) (s : Site Build)
    (request : Request) :
    request.serve routes env s = dbAfter env.now s.db (request.operation routes s) := by
  cases request with
  | enrollMachine authorization body =>
    simp only [serve, operation, Fleetboot.enrollMachine]
    cases checkEnrolment routes.secrets s.root authorization body <;> rfl
  | changeMachineProfile authorization mac profileName =>
    simp only [serve, operation, Fleetboot.changeMachineProfile]
    cases checkProfileChange routes.secrets s.root authorization profileName <;> rfl
  | postAutoEnrolRule authorization body =>
    simp only [serve, operation, Fleetboot.postAutoEnrolRule]
    cases checkRule routes.secrets s.root authorization body with
    | error failure => rfl
    | ok checked => exact db_restRule _ _
  | resolveMachine req => exact db_resolveMachine routes.secrets env.now req s.db
  | enrolTool args => exact db_enrolMachine routes.textColumn env.now args s.deployment
  | profileTool args => exact db_setMachineProfile env.now args s.deployment
  | reserveTool args => exact (performs_reserveMachines env args s.deployment).db
  | pinTool args => exact db_pinMachine env.now args s.deployment
  | enrolForm form =>
    simp only [serve, operation, enrolMachineForm]
    split <;> rfl
  | profileForm mac profileName =>
    simp only [serve, operation, setMachineProfileForm]
    split <;> rfl
  | addRuleForm form =>
    simp only [serve, operation, addAutoEnrolRuleForm]
    cases form.check with
    | error failure => rfl
    | ok checked => exact db_restRule _ _
  | editRuleForm id form =>
    simp only [serve, operation, updateAutoEnrolRuleForm]
    cases form.check with
    | error failure => rfl
    | ok checked => exact db_restRule _ _
  | call op _ => rfl

/-! ## What the routes leave to their callers -/

/-- If the registry moves the machine to the profile, it stores the name of a directory. -/
def Site.Moves (s : Site Build) (mac profileName : String) : Prop :=
  strip profileName ≠ "" → (s.db.lookup mac).isSome → s.Listed (strip profileName)

/-- The forms that enrol a machine, add a rule or edit one are not refused for another reason only
when they name a profile directory. The REST API has a directory of profiles. A name that the
registry strips is that of a directory afterwards. -/
def Request.Careful (routes : Routes) (env : RequestEnv) (s : Site Build) : Request → Prop
  | enrollMachine authorization body =>
    checkEnrolment routes.secrets s.root authorization body = .ok () → s.root.isSome
  | changeMachineProfile authorization mac profileName =>
    checkProfileChange routes.secrets s.root authorization profileName = .ok () →
      s.Moves mac profileName
  | postAutoEnrolRule authorization body =>
    checkRule routes.secrets s.root authorization body = .ok () →
      body.request.check.toOption.isSome → s.root.isSome
  | profileTool args => ∀ mac profileName, profileChangeArgs args = .ok (mac, profileName) →
      s.Listed profileName → s.Moves mac profileName
  | reserveTool args => ∀ req, reserveOperation args s.deployment = some (.reserve req) →
      req.check = .ok () → (strOfInt req.ttlSeconds).toOption.isSome →
      reserveCandidates env.now req s.db ≠ [] → s.Listed (strip req.profile)
  | pinTool args => ∀ req, pinArgs s.profiles args = .ok req → (s.db.lookup req.mac).isSome →
      ∀ name, blankToNone req.profile = some name → s.Listed name
  | profileForm mac profileName => s.Listed profileName → s.Moves mac profileName
  | enrolForm form =>
    form.scratchMode ∈ ["volatile", "persistent", "off"] → s.Listed form.profileName
  | addRuleForm form =>
    form.check = .ok () → form.request.check.toOption.isSome → s.Listed form.profileName
  | editRuleForm id form =>
    form.check = .ok () → form.request.check.toOption.isSome →
      (getAutoEnrolRule s.db id).isSome → s.Listed form.profileName
  | resolveMachine _ | enrolTool _ | call _ _ => True

omit [Unicode] [IpAddress] in
theorem listed_iff_of_known {s : Site Build} {name : String}
    (h : requireKnownProfile s.root name = .ok ()) : s.Listed name ↔ s.root.isSome := by
  unfold Site.Listed Site.profiles
  cases hroot : s.root with
  | none => simp [listProfileNames]
  | some profiles =>
    rw [hroot] at h
    simp only [requireKnownProfile] at h
    split at h
    · rename_i hname
      exact iff_of_true hname rfl
    · cases h

theorem storedName_of_unnamed {now : Timestamp} {op : Operation} {db : Database}
    (h : op.namesProfile = false) : op.storedName now db = none := by
  cases op with
  | pin req =>
    have hnone : req.profile = none :=
      Option.isNone_iff_eq_none.mp (Option.isSome_eq_false_iff.mp h)
    have hblank : strip "" = "" := rfl
    simp [storedName_pin, hnone, blankToNone, hblank]
  | enroll | setProfile | reserve | addAutoEnrolRule | updateAutoEnrolRule => cases h
  | _ => rfl

omit [IpAddress] in
theorem checks_of_checkEnrolment {config : RestConfig} {profiles : Option (List ProfileDir)}
    {authorization : Option String} {body : MachineEnrolment}
    (h : checkEnrolment config profiles authorization body = .ok ()) :
    (ScratchMode.ofText body.scratchMode).isSome ∧
      requireKnownProfile profiles body.profileName = .ok () := by
  unfold checkEnrolment at h
  cases hadmin : requireAdmin config authorization with
  | error failure =>
    rw [hadmin] at h
    cases h
  | ok checked =>
    rw [hadmin] at h
    cases hscratch : ScratchMode.ofText body.scratchMode with
    | none =>
      rw [hscratch] at h
      cases h
    | some scratch =>
      rw [hscratch] at h
      exact ⟨rfl, h⟩

omit [IpAddress] in
theorem known_of_checkRule {config : RestConfig} {profiles : Option (List ProfileDir)}
    {authorization : Option String} {body : AutoEnrolRuleRequest}
    (h : checkRule config profiles authorization body = .ok ()) :
    requireKnownProfile profiles body.profileName = .ok () := by
  unfold checkRule at h
  cases hadmin : requireAdmin config authorization with
  | error failure =>
    rw [hadmin] at h
    cases h
  | ok checked =>
    rw [hadmin] at h
    by_cases hkind : body.matchKind ∉ ["mac_prefix", "ip_cidr"]
    · rw [if_pos hkind] at h
      cases h
    · by_cases hplatform : body.platform ∉ ["any", "efi", "pc"]
      · rw [if_neg hkind, if_pos hplatform] at h
        cases h
      · rw [if_neg hkind, if_neg hplatform] at h
        exact h

omit [IpAddress] in
theorem holder_of_pinArgs {profiles : List ProfileDir} {args : Fields} {req : PinRequest}
    (h : pinArgs profiles args = .ok req) : strip req.holder ≠ "" := by
  unfold pinArgs at h
  obtain ⟨mac, -, h⟩ := bind_eq_ok.mp h
  obtain ⟨holder, hholder, h⟩ := bind_eq_ok.mp h
  obtain ⟨profile, -, h⟩ := bind_eq_ok.mp h
  obtain ⟨purpose, -, h⟩ := bind_eq_ok.mp h
  cases h
  rw [strip_strip]
  unfold pinHolder at hholder
  split at hholder
  · split at hholder
    · cases hholder
    · cases hholder
      assumption
  · cases hholder

omit [IpAddress] in
theorem mem_of_findMatchingRule [IpAddress] {db : Database} {mac : String}
    {sourceIp platform : Option String} {rule : AutoEnrolRule}
    (h : findMatchingRule db mac sourceIp platform = some rule) : rule ∈ db.rules.rows :=
  Serial.mem_sorted.mp (List.mem_of_find?_eq_some h)

/-- The rule by which a machine is enrolled already has the name. -/
theorem stores_of_resolveOperation {config : RestConfig} {now : Timestamp} {req : ResolveRequest}
    {db : Database} {op : Operation} {name : String}
    (hop : resolveOperation config req db = some op) (hname : op.storedName now db = some name) :
    Stores db name := by
  unfold resolveOperation at hop
  split at hop
  · obtain ⟨rule, hrule, rfl⟩ := Option.map_eq_some_iff.mp hop
    obtain ⟨-, hsame⟩ := Option.ite_none_right_eq_some.mp hname
    cases hsame
    exact .inr ⟨rule, mem_of_findMatchingRule hrule, rfl⟩
  · cases hop

omit [Unicode] [IpAddress] in
theorem listed_of_enrolOperation {textColumn : Json → Except Exception String}
    {profiles : List ProfileDir} {args : Fields} {op : Operation}
    (h : enrolOperation textColumn profiles args = some op) :
    ∃ enrolment, op = .enroll enrolment ∧ enrolment.profileName ∈ listProfileNames profiles := by
  unfold enrolOperation at h
  split at h
  · cases h
  · split at h
    · cases h
    · rename_i enrol _ hlisted
      split at h
      · cases h
      · cases h
        exact ⟨_, rfl, not_not.mp hlisted⟩

omit [Unicode] [IpAddress] in
theorem reserve_of_reserveOperation {args : Fields} {deployment : Deployment Build}
    {op : Operation} (h : reserveOperation args deployment = some op) :
    ∃ req, op = .reserve req := by
  unfold reserveOperation at h
  (repeat' split at h) <;> cases h
  exact ⟨_, rfl⟩

/-- **Care is what it takes**: the name that a request stores is that of a directory. -/
theorem careful_iff {routes : Routes} {env : RequestEnv} {s : Site Build} {request : Request}
    (hknown : s.KnownNames) : request.Careful routes env s ↔
      ∀ op, request.operation routes s = some op →
        ∀ name, op.storedName env.now s.db = some name → s.Listed name := by
  cases request with
  | enrollMachine authorization body =>
    simp only [Request.Careful, Request.operation]
    cases hcheck : checkEnrolment routes.secrets s.root authorization body with
    | error failure => simp [Except.toOption]
    | ok checked =>
      obtain ⟨hscratch, hname⟩ := checks_of_checkEnrolment hcheck
      simp [Except.toOption, forall_storedName_enroll, hscratch, listed_iff_of_known hname]
  | changeMachineProfile authorization mac profileName =>
    simp only [Request.Careful, Request.operation]
    cases checkProfileChange routes.secrets s.root authorization profileName with
    | error failure => simp [Except.toOption]
    | ok checked => simp [Except.toOption, forall_storedName_setProfile, Site.Moves]
  | postAutoEnrolRule authorization body =>
    simp only [Request.Careful, Request.operation]
    cases hcheck : checkRule routes.secrets s.root authorization body with
    | error failure => simp [Except.toOption]
    | ok checked =>
      have hlisted : s.Listed body.request.profileName ↔ s.root.isSome :=
        listed_iff_of_known (known_of_checkRule hcheck)
      simp [Except.toOption, forall_storedName_addAutoEnrolRule, hlisted]
  | resolveMachine req =>
    refine iff_of_true trivial fun op hop name hname => hknown name ?_
    exact stores_of_resolveOperation hop hname
  | enrolTool args =>
    refine iff_of_true trivial fun op hop name hname => ?_
    obtain ⟨enrolment, rfl, hlisted⟩ := listed_of_enrolOperation hop
    obtain ⟨-, hsame⟩ := Option.ite_none_right_eq_some.mp hname
    cases hsame
    exact hlisted
  | profileTool args =>
    simp only [Request.Careful, Request.operation, profileOperation]
    cases profileChangeArgs args with
    | error message => simp
    | ok named =>
      obtain ⟨mac, profileName⟩ := named
      by_cases hlisted : profileName ∈ listProfileNames s.profiles
      · simp [hlisted, forall_storedName_setProfile, Site.Moves, Site.Listed]
      · simp [hlisted, Site.Listed]
  | reserveTool args =>
    simp only [Request.Careful, Request.operation]
    constructor
    · intro hcare op hop
      obtain ⟨req, rfl⟩ := reserve_of_reserveOperation hop
      exact forall_storedName_reserve.mpr (hcare req hop)
    · intro hlisted req hop
      exact forall_storedName_reserve.mp (hlisted _ hop)
  | pinTool args =>
    simp only [Request.Careful, Request.operation]
    cases hargs : pinArgs s.profiles args with
    | error message => simp [Except.toOption]
    | ok req =>
      have hholder := holder_of_pinArgs hargs
      simp [Except.toOption, forall_storedName_pin, hholder]
  | enrolForm form =>
    simp only [Request.Careful, Request.operation]
    by_cases hmode : form.scratchMode ∈ ["volatile", "persistent", "off"]
    · have hscratch : (ScratchMode.ofText form.enrolment.scratchMode).isSome :=
        ScratchMode.isSome_ofText_iff.mpr hmode
      simp only [hmode, not_true_eq_false, if_false, Option.some.injEq, forall_eq',
        forall_storedName_enroll, hscratch, forall_const]
      rfl
    · simp [hmode]
  | profileForm mac profileName =>
    simp only [Request.Careful, Request.operation]
    by_cases hlisted : profileName ∈ listProfileNames s.profiles
    · simp [hlisted, forall_storedName_setProfile, Site.Moves, Site.Listed]
    · simp [hlisted, Site.Listed]
  | addRuleForm form =>
    simp only [Request.Careful, Request.operation]
    cases form.check with
    | error failure => simp [Except.toOption]
    | ok checked => simp [Except.toOption, forall_storedName_addAutoEnrolRule, RuleForm.request]
  | editRuleForm id form =>
    simp only [Request.Careful, Request.operation]
    cases form.check with
    | error failure => simp [Except.toOption]
    | ok checked => simp [Except.toOption, forall_storedName_updateAutoEnrolRule, RuleForm.request]
  | call op unnamed =>
    refine iff_of_true trivial fun op' hop name hname => ?_
    cases hop
    rw [storedName_of_unnamed unnamed] at hname
    cases hname

/-- A request keeps every stored name that of a directory exactly if it is careful. -/
theorem knownNames_serve_iff {routes : Routes} {env : RequestEnv} {s : Site Build}
    {request : Request} (hrun : HasRun s.db) (hknown : s.KnownNames) :
    (∀ name, Stores (request.serve routes env s) name → s.Listed name) ↔
      request.Careful routes env s := by
  rw [careful_iff hknown, Request.db_serve]
  cases hop : request.operation routes s with
  | none => exact iff_of_true hknown fun op h => by cases h
  | some op =>
    constructor
    · intro hstored op' hop' name hname
      cases hop'
      exact hstored name (stores_storedName hname)
    · intro hlisted name hname
      rcases (writesName_run hrun).stores hname with hold | hnew
      · exact hknown name hold
      · exact hlisted op rfl name hnew

theorem hasRun_serve {routes : Routes} {env : RequestEnv} {s : Site Build} {request : Request}
    (hrun : HasRun s.db) : HasRun (request.serve routes env s) := by
  rw [Request.db_serve]
  cases request.operation routes s with
  | none => exact hrun
  | some op => exact hasRun_run hrun op

/-! ## Runs -/

/-- A request at a time, or a change below the directory of profiles. -/
inductive SiteEvent
  | request (env : RequestEnv) (request : Request)
  | directories

/-- A request leaves the directories alone. A change of the directories deletes none. -/
inductive SiteStep (routes : Routes) (s : Site Build) : SiteEvent → Site Build → Prop
  | request {s' : Site Build} {env : RequestEnv} {request : Request}
      (hdb : s'.db = request.serve routes env s) (hroot : s'.root = s.root) :
      SiteStep routes s (.request env request) s'
  | directories {s' : Site Build} (hdb : s'.db = s.db)
      (hkept : ∀ name, s.Listed name → s'.Listed name) : SiteStep routes s .directories s'

def SiteEvent.Careful (routes : Routes) (s : Site Build) : SiteEvent → Prop
  | request env made => made.Careful routes env s
  | directories => True

theorem SiteStep.hasRun {routes : Routes} {s s' : Site Build} {event : SiteEvent}
    (hstep : SiteStep routes s event s') (hrun : HasRun s.db) : HasRun s'.db := by
  cases hstep with
  | request hdb _ =>
    rw [hdb]
    exact hasRun_serve hrun
  | directories hdb _ => rwa [hdb]

theorem knownNames_step_iff {routes : Routes} {s s' : Site Build} {event : SiteEvent}
    (hrun : HasRun s.db) (hknown : s.KnownNames) (hstep : SiteStep routes s event s') :
    s'.KnownNames ↔ event.Careful routes s := by
  cases hstep with
  | @request s' env request hdb hroot =>
    have hlisted : ∀ name, s'.Listed name ↔ s.Listed name := by
      intro name
      unfold Site.Listed Site.profiles
      rw [hroot]
    unfold Site.KnownNames
    simp only [hdb, hlisted]
    exact knownNames_serve_iff hrun hknown
  | directories hdb hkept =>
    refine iff_of_true (fun name hname => hkept name (hknown name ?_)) trivial
    rwa [← hdb]

/-- **Known profiles.** In a database that a registry opened, and while no profile directory is
deleted:

* In every run whose requests are careful, a machine or a rule only ever has the name of a profile
  directory.
* A request that is not careful stores a name that no directory has when it is written. -/
theorem profiles_stay_known (Build : Type) (routes : Routes) :
    (∀ (s : Site Build) events s', HasRun s.db → s.KnownNames →
      Run (Restrict (SiteStep routes) fun s event => event.Careful routes s) s events s' →
      s'.KnownNames) ∧
    ∀ (s : Site Build) event s', HasRun s.db → s.KnownNames → SiteStep routes s event s' →
      (s'.KnownNames ↔ event.Careful routes s) := by
  refine ⟨fun s events s' hrun hknown hsteps => ?_, fun s event s' => knownNames_step_iff⟩
  have hkeep : ∀ (before : Site Build) event after, HasRun before.db ∧ before.KnownNames →
      Restrict (SiteStep routes) (fun s event => event.Careful routes s) before event after →
      HasRun after.db ∧ after.KnownNames := by
    intro before event after hbefore hstep
    have hcare := (knownNames_step_iff hbefore.1 hbefore.2 hstep.1).mpr hstep.2
    exact ⟨hstep.1.hasRun hbefore.1, hcare⟩
  have hend := hsteps.invariant (I := fun s : Site Build => HasRun s.db ∧ s.KnownNames) hkeep
    ⟨hrun, hknown⟩
  exact hend.2

end Requests

section Examples

attribute [local instance] ascii noNetworks

/-- A new registry beside the given profiles. -/
def newSite (profiles : List ProfileDir) : Site Unit := ⟨newRegistry.db, some profiles, none, []⟩

def labRoutes : Routes := ⟨labSecrets, fun _ => .ok "x86_64"⟩

def schoolForm : EnrolForm := { mac := "52:54:00:12:34:56", profileName := "school" }

def formEnv : RequestEnv := ⟨5, 5, fun _ => .exited 0, "0000"⟩

theorem knownNames_newSite (profiles : List ProfileDir) : (newSite profiles).KnownNames := by
  rintro name (⟨mac, m, hm, -⟩ | ⟨rule, hrule, -⟩)
  · cases hm
  · cases hrule

theorem hasRun_newSite (profiles : List ProfileDir) : HasRun (newSite profiles).db :=
  newRegistry_opened.sound.hasRun

/-- The site once the form was sent. -/
def enrolledSite (profiles : List ProfileDir) : Site Unit :=
  { newSite profiles with
    db := (Request.enrolForm schoolForm).serve labRoutes formEnv (newSite profiles) }

theorem siteStep_enrolForm (profiles : List ProfileDir) : SiteStep labRoutes (newSite profiles)
    (.request formEnv (.enrolForm schoolForm)) (enrolledSite profiles) :=
  .request rfl rfl

/-- The form enrols a machine with a profile that does not exist. -/
theorem enrolForm_unknown_profile :
    HasRun (newSite [⟨"base", []⟩]).db ∧ (newSite [⟨"base", []⟩]).KnownNames ∧
    SiteStep labRoutes (newSite [⟨"base", []⟩]) (.request formEnv (.enrolForm schoolForm))
      (enrolledSite [⟨"base", []⟩]) ∧
    ¬ (enrolledSite [⟨"base", []⟩]).KnownNames := by
  refine ⟨hasRun_newSite _, knownNames_newSite _, siteStep_enrolForm _, fun hknown => ?_⟩
  have hstored : Stores (enrolledSite [⟨"base", []⟩]).db "school" :=
    @stores_enroll _ 5 schoolForm.enrolment newRegistry.db (by decide)
  exact absurd (hknown _ hstored) (by decide)

theorem profiles_stay_known_school : (enrolledSite [⟨"school", []⟩]).KnownNames := by
  have hcare : (Request.enrolForm schoolForm).Careful labRoutes formEnv
      (newSite [⟨"school", []⟩]) :=
    fun _ => by decide
  exact (profiles_stay_known Unit labRoutes).1 (newSite [⟨"school", []⟩]) [_] _
    (hasRun_newSite _) (knownNames_newSite _) (.single ⟨siteStep_enrolForm _, hcare⟩)

end Examples

end Fleetboot
