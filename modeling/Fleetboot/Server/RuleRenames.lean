import Fleetboot.Registry.Columns
import Fleetboot.Server.Rest
import Mathlib.Logic.Function.Basic

/-!
# Renaming an auto-enrolment rule

A machine knows the rule that enrolled it by its name, `rule:<name>`, and `update_auto_enrol_rule`
carries a new name to the machines that bear the old one. A fleet is followed here together with
what the database does not keep: through which rule each machine was enrolled, and the last name
of every rule that ever was.

* `renameConfined_iff`: while machines bear the names of their rules, one rename touches the
  machines of its rule only exactly if no other rule of that name enrolled a machine.
* `everyRename_confined_iff`: the same for all the renames of a history.
-/

set_option autoImplicit false

namespace Fleetboot

open Python Relational Transition

/-! ## Histories -/

/-- Whoever enrols a machine other than by a rule leaves `enrolled_by` at its default. -/
def Operation.ByHand : Operation → Prop
  | enroll args => args.enrolledBy = "manual"
  | _ => True

/-- What reaches the registry: the lookup, which may enrol by a rule, or another call. -/
inductive FleetEvent
  | resolve (req : ResolveRequest)
  | call (op : Operation) (byHand : op.ByHand)

/-- The database, the rule through which the machine of each MAC was enrolled, and the name that
each rule has or had when it was deleted. -/
structure Fleet where
  db : Database
  enrolledThrough : String → Option Nat
  ruleName : Nat → Option String

section Histories

variable [Unicode] [IpAddress]

/-- The rule by which a lookup enrols its machine. -/
def enrollingRule (config : RestConfig) (req : ResolveRequest) (db : Database) :
    Option AutoEnrolRule :=
  match requireSecret config.mintSecret "resolve not configured" req.authorization,
    db.lookup req.mac with
  | .ok _, none => findMatchingRule db req.mac req.sourceIp req.platform
  | _, _ => none

namespace FleetEvent

def run (config : RestConfig) (now : Timestamp) : FleetEvent → Database → Database
  | resolve req, db => (resolveMachine config now req db).db
  | call op _, db => (op.run now db).db

/-- The rules through which machines were enrolled, after an event. -/
def enrolments (config : RestConfig) (db : Database) (before : String → Option Nat) :
    FleetEvent → String → Option Nat
  | resolve req =>
    match enrollingRule config req db with
    | some rule => Function.update before (normaliseMac req.mac) (some rule.id)
    | none => before
  | call (.enroll args) _ =>
    if (ScratchMode.ofText args.scratchMode).isSome then
      Function.update before (normaliseMac args.mac) none
    else before
  | call (.remove mac) _ => Function.update before (normaliseMac mac) none
  | call _ _ => before

end FleetEvent

omit [Unicode] [IpAddress] in
/-- The names of the rules there are, and the last names of the others. -/
def lastNames (db : Database) (before : Nat → Option String) (id : Nat) : Option String :=
  ((getAutoEnrolRule db id).map AutoEnrolRule.name).or (before id)

namespace Fleet

/-- The fleet after an event. -/
def after (config : RestConfig) (fleet : Fleet) (event : Timestamp × FleetEvent) : Fleet :=
  let db := event.2.run config event.1 fleet.db
  { db
    enrolledThrough := event.2.enrolments config fleet.db fleet.enrolledThrough
    ruleName := lastNames db fleet.ruleName }

def run (config : RestConfig) (fleet : Fleet) (history : List (Timestamp × FleetEvent)) : Fleet :=
  history.foldl (after config) fleet

/-- The fleet of a new registry. -/
def opened (clock : Timestamp) : Fleet :=
  ⟨(openRegistry clock emptyFile).db, fun _ => none, fun _ => none⟩

/-- The update gives a rule another name. -/
def Renames (fleet : Fleet) (id : Nat) (req : RuleRequest) : Prop :=
  (∃ checked, req.check = .ok checked) ∧
    ∃ rule, getAutoEnrolRule fleet.db id = some rule ∧ rule.name ≠ req.name

/-- The update changes `enrolled_by` of the machines that were enrolled through the rule and of
no others, and changes nothing else about machines. -/
structure RenameConfined (fleet : Fleet) (id : Nat) (req : RuleRequest) : Prop where
  changed : ∀ mac m, fleet.db.machine mac = some m →
    (((updateAutoEnrolRule id req fleet.db).db.machine mac).map Machine.enrolledBy ≠
      some m.enrolledBy ↔ fleet.enrolledThrough mac = some id)
  rest : ∀ mac, ((updateAutoEnrolRule id req fleet.db).db.machine mac).map
      (fun m => { m with enrolledBy := "" }) =
    (fleet.db.machine mac).map fun m => { m with enrolledBy := "" }

omit [Unicode] [IpAddress] in
/-- No other rule, there or deleted, through which a machine was enrolled has the rule's name. -/
def NameOwned (fleet : Fleet) (id : Nat) : Prop :=
  ∀ mac other, fleet.enrolledThrough mac = some other → other ≠ id →
    fleet.ruleName other ≠ fleet.ruleName id

end Fleet

/-- Something holds of the fleet before every rename of a history. -/
def EveryRename (config : RestConfig) (clock : Timestamp)
    (holds : Fleet → Nat → RuleRequest → Prop) (history : List (Timestamp × FleetEvent)) : Prop :=
  ∀ past now id req future,
    history = past ++ (now, .call (.updateAutoEnrolRule id req) trivial) :: future →
    ((Fleet.opened clock).run config past).Renames id req →
    holds ((Fleet.opened clock).run config past) id req

/-! ## Names and machines -/

omit [Unicode] [IpAddress] in
/-- The `enrolled_by` of a MAC. -/
def Database.provenance (db : Database) (mac : String) : Option String :=
  (db.machine mac).map Machine.enrolledBy

namespace Fleet

/-- Every machine that a rule enrolled bears the rule's name, and every other one `manual`. -/
structure Linked (fleet : Fleet) : Prop where
  hasRun : HasRun fleet.db
  enrolled : ∀ mac id, fleet.enrolledThrough mac = some id → ∃ name,
    fleet.ruleName id = some name ∧ fleet.db.provenance mac = some ("rule:" ++ name)
  byHand : ∀ mac, fleet.enrolledThrough mac = none → ∀ source,
    fleet.db.provenance mac = some source → source = "manual"
  distinct : fleet.db.rules.Distinct
  named : ∀ id rule, getAutoEnrolRule fleet.db id = some rule →
    fleet.ruleName id = some rule.name
  known : ∀ id name, fleet.ruleName id = some name → id < fleet.db.rules.next

omit [Unicode] [IpAddress] in
theorem rule_append_injective {name name' : String} (h : "rule:" ++ name = "rule:" ++ name') :
    name = name' := by
  have hlists := congrArg String.toList h
  rw [String.toList_append, String.toList_append] at hlists
  exact String.toList_inj.mp (List.append_cancel_left hlists)

omit [Unicode] [IpAddress] in
theorem rule_append_ne_manual (name : String) : "rule:" ++ name ≠ "manual" := by
  intro h
  have hlists := congrArg String.toList h
  rw [String.toList_append] at hlists
  have hheads := congrArg List.head? hlists
  exact absurd hheads (by simp)

variable {fleet : Fleet} {id : Nat} {req : RuleRequest}

/-- The rename changes `enrolled_by` of the machines that bear the old name. -/
theorem renameConfined_iff_bears {checked : CheckedRule} {rule : AutoEnrolRule}
    (hchecked : req.check = .ok checked) (hrule : getAutoEnrolRule fleet.db id = some rule)
    (hname : rule.name ≠ req.name) : fleet.RenameConfined id req ↔
      ∀ mac m, fleet.db.machine mac = some m →
        (m.enrolledBy = "rule:" ++ rule.name ↔ fleet.enrolledThrough mac = some id) := by
  have hmachine := (updateAutoEnrolRule_of_checked hchecked hrule).1
  have hcarried : ∀ m : Machine, (carryName rule.name req.name m).enrolledBy ≠ m.enrolledBy ↔
      m.enrolledBy = "rule:" ++ rule.name := by
    intro m
    rw [carryName, if_neg hname]
    constructor
    · intro hchanged
      by_contra hother
      rw [if_neg hother] at hchanged
      exact hchanged rfl
    · intro hbears hsame
      rw [if_pos hbears, hbears] at hsame
      exact hname (rule_append_injective hsame).symm
  have hchanged : ∀ mac m, fleet.db.machine mac = some m →
      (((updateAutoEnrolRule id req fleet.db).db.machine mac).map Machine.enrolledBy ≠
        some m.enrolledBy ↔ m.enrolledBy = "rule:" ++ rule.name) := by
    intro mac m hm
    rw [hmachine, hm, Option.map_some, Option.map_some, ← hcarried m]
    exact not_congr (Option.some_inj)
  constructor
  · intro h mac m hm
    exact (hchanged mac m hm).symm.trans (h.changed mac m hm)
  · intro h
    refine ⟨fun mac m hm => (hchanged mac m hm).trans (h mac m hm), fun mac => ?_⟩
    rw [hmachine, Option.map_map]
    refine congrArg (fun f => (fleet.db.machine mac).map f) (funext fun m => ?_)
    rw [Function.comp_apply, carryName, if_neg hname]
    split <;> rfl

/-- **One rename.** -/
theorem renameConfined_iff (h : fleet.Linked) (hrenames : fleet.Renames id req) :
    fleet.RenameConfined id req ↔ fleet.NameOwned id := by
  obtain ⟨⟨checked, hchecked⟩, rule, hrule, hname⟩ := hrenames
  have hid := h.named id rule hrule
  rw [renameConfined_iff_bears hchecked hrule hname]
  constructor
  · intro hbears mac other hthrough hother hsame
    obtain ⟨name, hlast, hprovenance⟩ := h.enrolled mac other hthrough
    obtain ⟨m, hm, hsource⟩ := Option.map_eq_some_iff.mp hprovenance
    obtain rfl : name = rule.name := Option.some.inj ((hlast.symm.trans hsame).trans hid)
    have hmine := (hbears mac m hm).mp hsource
    exact hother (Option.some.inj (hthrough.symm.trans hmine))
  · intro howned mac m hm
    have hsource : fleet.db.provenance mac = some m.enrolledBy := by
      rw [Database.provenance, hm, Option.map_some]
    constructor
    · intro hbears
      cases hthrough : fleet.enrolledThrough mac with
      | none =>
        have hmanual := h.byHand mac hthrough _ hsource
        exact absurd (hbears.symm.trans hmanual) (rule_append_ne_manual _)
      | some other =>
        obtain ⟨name, hlast, hprovenance⟩ := h.enrolled mac other hthrough
        have hsame : name = rule.name := rule_append_injective
          ((Option.some.inj (hprovenance.symm.trans hsource)).trans hbears)
        by_contra hother
        refine howned mac other hthrough (fun heq => hother (congrArg some heq)) ?_
        rw [hlast, hid, hsame]
    · intro hthrough
      obtain ⟨name, hlast, hprovenance⟩ := h.enrolled mac id hthrough
      obtain rfl : name = rule.name := Option.some.inj (hlast.symm.trans hid)
      exact Option.some.inj (hsource.symm.trans hprovenance)

/-! ## Runs -/

omit [Unicode] [IpAddress] in
/-- What is to be checked of a fleet that an event leaves. -/
theorem Linked.next (h : fleet.Linked) {db : Database} {through : String → Option Nat}
    (hrun : HasRun db) (hdistinct : db.rules.Distinct)
    (hnext : fleet.db.rules.next ≤ db.rules.next)
    (henrolled : ∀ mac id, through mac = some id → ∃ name,
      lastNames db fleet.ruleName id = some name ∧ db.provenance mac = some ("rule:" ++ name))
    (hbyHand : ∀ mac, through mac = none → ∀ source, db.provenance mac = some source →
      source = "manual") :
    Linked ⟨db, through, lastNames db fleet.ruleName⟩ := by
  refine ⟨hrun, henrolled, hbyHand, hdistinct, fun id rule hrule => ?_, fun id name hname => ?_⟩
  · show lastNames db fleet.ruleName id = _
    rw [lastNames, hrule]
    rfl
  · change lastNames db fleet.ruleName id = _ at hname
    unfold lastNames at hname
    cases hrule : getAutoEnrolRule db id with
    | some rule =>
      obtain ⟨hrow, rfl⟩ := Serial.mem_of_find hrule
      exact db.rules.fresh rule hrow
    | none =>
      rw [hrule] at hname
      exact Nat.lt_of_lt_of_le (h.known id name hname) hnext

omit [Unicode] [IpAddress] in
theorem Linked.lastNames_eq (h : fleet.Linked) {db : Database} {id : Nat}
    (hrule : ∀ rule, getAutoEnrolRule db id = some rule →
      getAutoEnrolRule fleet.db id = some rule) :
    lastNames db fleet.ruleName id = fleet.ruleName id := by
  unfold lastNames
  cases hfound : getAutoEnrolRule db id with
  | none => rfl
  | some rule => exact (h.named id rule (hrule rule hfound)).symm

omit [Unicode] [IpAddress] in
/-- Rules and machines as before. -/
theorem Linked.of_same (h : fleet.Linked) {db : Database} (hrun : HasRun db)
    (hprovenance : ∀ mac, db.provenance mac = fleet.db.provenance mac)
    (hrules : db.rules = fleet.db.rules) :
    Linked ⟨db, fleet.enrolledThrough, lastNames db fleet.ruleName⟩ := by
  refine h.next hrun (hrules ▸ h.distinct) (by rw [hrules]) (fun mac id hthrough => ?_)
    fun mac hthrough source hsource => ?_
  · have hlast : lastNames db fleet.ruleName id = fleet.ruleName id := by
      refine h.lastNames_eq fun rule hrule => ?_
      rwa [getAutoEnrolRule, ← hrules]
    rw [hlast, hprovenance]
    exact h.enrolled mac id hthrough
  · rw [hprovenance] at hsource
    exact h.byHand mac hthrough source hsource

omit [Unicode] [IpAddress] in
theorem provenance_eq_map_origin (db : Database) (mac : String) :
    db.provenance mac = ((db.machine mac).map Machine.origin).map Prod.fst := by
  rw [Database.provenance, Option.map_map]
  rfl

omit [Unicode] [IpAddress] in
theorem provenance_of_steady {db db' : Database} (h : Steady db db') (mac : String) :
    db'.provenance mac = db.provenance mac := by
  rw [provenance_eq_map_origin, provenance_eq_map_origin, h.origin]

omit [Unicode] [IpAddress] in
/-- One machine comes, goes or is enrolled anew. -/
theorem Linked.of_row (h : fleet.Linked) {db : Database} (mac : String)
    (through : Option Nat) (source : Option String) (hrun : HasRun db)
    (hrules : db.rules = fleet.db.rules)
    (hprovenance : ∀ k, db.provenance k = if k = mac then source else fleet.db.provenance k)
    (henrolled : ∀ id, through = some id → ∃ name,
      fleet.ruleName id = some name ∧ source = some ("rule:" ++ name))
    (hbyHand : through = none → ∀ by_, source = some by_ → by_ = "manual") :
    Linked ⟨db, Function.update fleet.enrolledThrough mac through,
      lastNames db fleet.ruleName⟩ := by
  have hlast : ∀ id, lastNames db fleet.ruleName id = fleet.ruleName id := by
    intro id
    refine h.lastNames_eq fun rule hrule => ?_
    rwa [getAutoEnrolRule, ← hrules]
  refine h.next hrun (hrules ▸ h.distinct) (by rw [hrules]) (fun k id hthrough => ?_)
    fun k hthrough by_ hsource => ?_
  · rw [hlast, hprovenance]
    by_cases hk : k = mac
    · rw [hk, Function.update_self] at hthrough
      rw [if_pos hk]
      exact henrolled id hthrough
    · rw [Function.update_of_ne hk] at hthrough
      rw [if_neg hk]
      exact h.enrolled k id hthrough
  · rw [hprovenance] at hsource
    by_cases hk : k = mac
    · rw [hk, Function.update_self] at hthrough
      rw [if_pos hk] at hsource
      exact hbyHand hthrough by_ hsource
    · rw [Function.update_of_ne hk] at hthrough
      rw [if_neg hk] at hsource
      exact h.byHand k hthrough by_ hsource

/-! ### The lookup -/

omit [Unicode] [IpAddress] in
/-- A row through which a rule enrols bears the name of the rule. -/
theorem Linked.ruleName_of_mem (h : fleet.Linked) {rule : AutoEnrolRule}
    (hrule : rule ∈ fleet.db.rules.rows) : fleet.ruleName rule.id = some rule.name :=
  h.named rule.id rule (h.distinct rule hrule)

theorem enrollingRule_eq_some {config : RestConfig} {lookup : ResolveRequest} {db : Database}
    {rule : AutoEnrolRule} (hrule : enrollingRule config lookup db = some rule) :
    rule ∈ db.rules.rows ∧ ∀ now, (resolveMachine config now lookup db).db =
      (enroll now (rule.enrolment lookup.mac lookup.platform) db).db := by
  unfold enrollingRule at hrule
  split at hrule
  · rename_i hauth hunknown
    refine ⟨Serial.mem_sorted.mp (List.mem_of_find?_eq_some hrule), fun now => ?_⟩
    unfold resolveMachine
    rw [hauth, hunknown, hrule]
    rfl
  · cases hrule

theorem resolveMachine_of_enrollingRule_eq_none {config : RestConfig} {lookup : ResolveRequest}
    {db : Database} (hrule : enrollingRule config lookup db = none) (now : Timestamp) :
    (resolveMachine config now lookup db).db = db := by
  unfold enrollingRule at hrule
  unfold resolveMachine
  cases hauth : requireSecret config.mintSecret "resolve not configured" lookup.authorization with
  | error failure => rfl
  | ok _ =>
    cases hmachine : db.lookup lookup.mac with
    | some machine => rfl
    | none =>
      rw [hauth, hmachine] at hrule
      dsimp only at hrule ⊢
      rw [hrule]

theorem Linked.resolve (h : fleet.Linked) (config : RestConfig) (now : Timestamp)
    (lookup : ResolveRequest) : (fleet.after config (now, .resolve lookup)).Linked := by
  unfold after
  simp only [FleetEvent.run, FleetEvent.enrolments]
  cases hrule : enrollingRule config lookup fleet.db with
  | none =>
    rw [resolveMachine_of_enrollingRule_eq_none hrule]
    exact h.of_same h.hasRun (fun _ => rfl) rfl
  | some rule =>
    obtain ⟨hmem, hdb⟩ := enrollingRule_eq_some hrule
    obtain ⟨horigin, hrules⟩ := @enroll_columns _ now fleet.db
      (rule.enrolment lookup.mac lookup.platform) rule.scratchMode (ScratchMode.ofText_text _)
    rw [hdb now]
    refine h.of_row (normaliseMac lookup.mac) (some rule.id) (some ("rule:" ++ rule.name))
      (hasRun_enroll h.hasRun _) hrules (fun k => ?_) (fun id hid => ?_) ?_
    · rw [provenance_eq_map_origin, provenance_eq_map_origin, horigin k]
      exact apply_ite (Option.map Prod.fst) _ _ _
    · obtain rfl := Option.some.inj hid
      exact ⟨rule.name, h.ruleName_of_mem hmem, rfl⟩
    · intro hnone
      cases hnone

/-! ### The other calls -/

theorem Linked.steady (h : fleet.Linked) (config : RestConfig) (now : Timestamp) {op : Operation}
    (byHand : op.ByHand) (hop : op.isSteady = true) :
    (fleet.after config (now, .call op byHand)).Linked := by
  have hsteady : Steady fleet.db (op.run now fleet.db).db := steady_run h.hasRun hop
  have hkept : (FleetEvent.call op byHand).enrolments config fleet.db fleet.enrolledThrough =
      fleet.enrolledThrough := by
    cases op with
    | enroll | remove | updateHardware | addAutoEnrolRule | updateAutoEnrolRule
    | removeAutoEnrolRule => cases hop
    | _ => rfl
  unfold after
  rw [hkept]
  exact h.of_same (hasRun_run h.hasRun op) (provenance_of_steady hsteady) hsteady.rules

theorem Linked.enroll (h : fleet.Linked) (config : RestConfig) (now : Timestamp)
    (args : Enrolment) (byHand : args.enrolledBy = "manual") :
    (fleet.after config (now, .call (.enroll args) byHand)).Linked := by
  unfold after
  simp only [FleetEvent.run, FleetEvent.enrolments, Operation.run, Outcome.db_map]
  cases hmode : ScratchMode.ofText args.scratchMode with
  | none =>
    rw [enroll_of_refused hmode]
    exact h.of_same h.hasRun (fun _ => rfl) rfl
  | some scratch =>
    obtain ⟨horigin, hrules⟩ := @enroll_columns _ now fleet.db args scratch hmode
    rw [if_pos (show (some scratch).isSome = true from rfl)]
    refine h.of_row (normaliseMac args.mac) none (some args.enrolledBy)
      (hasRun_enroll h.hasRun args) hrules (fun k => ?_) (fun id hid => ?_) ?_
    · rw [provenance_eq_map_origin, provenance_eq_map_origin, horigin k]
      exact apply_ite (Option.map Prod.fst) _ _ _
    · cases hid
    · intro _ source hsource
      exact (Option.some.inj hsource).symm.trans byHand

theorem Linked.remove (h : fleet.Linked) (config : RestConfig) (now : Timestamp) (mac : String) :
    (fleet.after config (now, .call (.remove mac) trivial)).Linked := by
  obtain ⟨horigin, hrules⟩ := @remove_columns _ fleet.db mac
  refine h.of_row (normaliseMac mac) none none (hasRun_run h.hasRun (.remove mac)) hrules
    (fun k => ?_) (fun id hid => ?_) ?_
  · show (Fleetboot.remove mac fleet.db).db.provenance k = _
    rw [provenance_eq_map_origin, provenance_eq_map_origin, horigin k]
    exact apply_ite (Option.map Prod.fst) _ _ _
  · cases hid
  · intro _ source hsource
    cases hsource

theorem Linked.updateHardware (h : fleet.Linked) (config : RestConfig) (now : Timestamp)
    (mac : String) (hardware : Fields) :
    (fleet.after config (now, .call (.updateHardware mac hardware) trivial)).Linked := by
  obtain ⟨horigin, hrules⟩ := @updateHardware_columns _ now fleet.db mac hardware
  refine h.of_same (hasRun_run h.hasRun (.updateHardware mac hardware)) (fun k => ?_) hrules
  show (Fleetboot.updateHardware now mac hardware fleet.db).provenance k = _
  rw [provenance_eq_map_origin, provenance_eq_map_origin, horigin k]
  split
  · rw [Option.map_map, Option.map_map]
    rfl
  · rfl

theorem Linked.addAutoEnrolRule (h : fleet.Linked) (config : RestConfig) (now : Timestamp)
    (req : RuleRequest) :
    (fleet.after config (now, .call (.addAutoEnrolRule req) trivial)).Linked := by
  have hrun : HasRun ((Operation.addAutoEnrolRule req).run now fleet.db).db :=
    hasRun_run h.hasRun _
  unfold after
  simp only [FleetEvent.run, FleetEvent.enrolments, Operation.run, Outcome.db_map] at hrun ⊢
  cases hchecked : req.check with
  | error err =>
    have hsame : (Fleetboot.addAutoEnrolRule now req fleet.db).db = fleet.db := by
      rw [Fleetboot.addAutoEnrolRule, hchecked]
    rw [hsame]
    exact h.of_same h.hasRun (fun _ => rfl) rfl
  | ok checked =>
    have hadded : (Fleetboot.addAutoEnrolRule now req fleet.db).db = { fleet.db with
        rules := fleet.db.rules.append (req.row checked now) fun _ => rfl } := by
      rw [Fleetboot.addAutoEnrolRule, hchecked]
      dsimp only
      split <;> rfl
    rw [hadded] at hrun ⊢
    refine h.next hrun (h.distinct.append _ fun _ => rfl) (Nat.le_succ _)
      (fun mac id hthrough => ?_) h.byHand
    obtain ⟨name, hlast, hprovenance⟩ := h.enrolled mac id hthrough
    refine ⟨name, ?_, hprovenance⟩
    -- The new rule has a key that no rule had before.
    have hold : id ≠ fleet.db.rules.next := Nat.ne_of_lt (h.known id name hlast)
    rw [h.lastNames_eq fun rule hrule => ?_]
    · exact hlast
    · have hfound := fleet.db.rules.find_append (req.row checked now) (fun _ => rfl) id
      rw [if_neg hold] at hfound
      exact hfound.symm.trans hrule

theorem Linked.removeAutoEnrolRule (h : fleet.Linked) (config : RestConfig) (now : Timestamp)
    (id : Nat) : (fleet.after config (now, .call (.removeAutoEnrolRule id) trivial)).Linked := by
  have hrun : HasRun ((Operation.removeAutoEnrolRule id).run now fleet.db).db :=
    hasRun_run h.hasRun _
  refine h.next hrun (h.distinct.delete_key id) (Nat.le_refl _) (fun mac id' hthrough => ?_)
    h.byHand
  obtain ⟨name, hlast, hprovenance⟩ := h.enrolled mac id' hthrough
  refine ⟨name, ?_, hprovenance⟩
  rw [h.lastNames_eq fun rule hrule => ?_]
  · exact hlast
  · have hfound := Serial.find_delete_key fleet.db.rules id id'
    rw [show (fleet.db.rules.delete fun rule => rule.id == id).find id' = some rule from hrule]
      at hfound
    split at hfound
    · cases hfound
    · exact hfound.symm

/-- A rename carries the name to the machines of its rule if the rule owns its old name. -/
theorem Linked.updateAutoEnrolRule (h : fleet.Linked) (config : RestConfig) (now : Timestamp)
    (id : Nat) (req : RuleRequest) (howned : fleet.Renames id req → fleet.NameOwned id) :
    (fleet.after config (now, .call (.updateAutoEnrolRule id req) trivial)).Linked := by
  have hrun : HasRun ((Operation.updateAutoEnrolRule id req).run now fleet.db).db :=
    hasRun_run h.hasRun _
  unfold after
  simp only [FleetEvent.run, FleetEvent.enrolments, Operation.run, Outcome.db_map] at hrun ⊢
  cases hchecked : req.check with
  | error err =>
    have hsame : (Fleetboot.updateAutoEnrolRule id req fleet.db).db = fleet.db := by
      rw [Fleetboot.updateAutoEnrolRule, hchecked]
    rw [hsame]
    exact h.of_same h.hasRun (fun _ => rfl) rfl
  | ok checked =>
    cases hrule : getAutoEnrolRule fleet.db id with
    | none =>
      have hsame : (Fleetboot.updateAutoEnrolRule id req fleet.db).db = fleet.db := by
        rw [Fleetboot.updateAutoEnrolRule, hchecked]
        dsimp only
        rw [hrule]
      rw [hsame]
      exact h.of_same h.hasRun (fun _ => rfl) rfl
    | some rule =>
      obtain ⟨hmachine, hfound, f, hkey, hrules⟩ := updateAutoEnrolRule_of_checked hchecked hrule
      have hprovenance : ∀ mac,
          (Fleetboot.updateAutoEnrolRule id req fleet.db).db.provenance mac =
            (fleet.db.machine mac).map fun m => (carryName rule.name req.name m).enrolledBy := by
        intro mac
        rw [Database.provenance, hmachine, Option.map_map]
        rfl
      refine h.next hrun (hrules ▸ h.distinct.update f hkey) (by rw [hrules]; exact Nat.le_refl _)
        (fun mac other hthrough => ?_) fun mac hthrough source hsource => ?_
      · obtain ⟨name, hlast, hbears⟩ := h.enrolled mac other hthrough
        obtain ⟨m, hm, hname⟩ := Option.map_eq_some_iff.mp hbears
        rw [hprovenance, hm, Option.map_some, lastNames, hfound]
        by_cases hother : other = id
        · -- A machine of the rule bears its old name, and then its new one.
          obtain rfl : name = rule.name := Option.some.inj
            (hlast.symm.trans (hother ▸ h.named id rule hrule))
          refine ⟨req.name, by rw [if_pos hother]; rfl, congrArg some ?_⟩
          by_cases hsame : rule.name = req.name
          · rw [carryName, if_pos hsame, hname, hsame]
          · rw [carryName, if_neg hsame, if_pos hname]
        · -- A machine of another rule bears another name.
          have hkept : lastNames (Fleetboot.updateAutoEnrolRule id req fleet.db).db
              fleet.ruleName other = fleet.ruleName other := by
            refine h.lastNames_eq fun rule' hrule' => ?_
            rwa [hfound, if_neg hother] at hrule'
          rw [lastNames, hfound] at hkept
          refine ⟨name, hkept.trans hlast, congrArg some ?_⟩
          by_cases hrenamed : rule.name = req.name
          · rw [carryName, if_pos hrenamed, hname]
          · rw [carryName, if_neg hrenamed, if_neg, hname]
            intro hcarried
            obtain rfl : name = rule.name := rule_append_injective (hname.symm.trans hcarried)
            exact howned ⟨⟨checked, hchecked⟩, rule, hrule, hrenamed⟩ mac other hthrough hother
              (hlast.trans (h.named id rule hrule).symm)
      · obtain ⟨m, hm, rfl⟩ := Option.map_eq_some_iff.mp ((hprovenance mac).symm.trans hsource)
        have hmanual := h.byHand mac hthrough m.enrolledBy (by
          rw [Database.provenance, hm, Option.map_some])
        by_cases hsame : rule.name = req.name
        · rw [carryName, if_pos hsame, hmanual]
        · rw [carryName, if_neg hsame, if_neg, hmanual]
          exact fun hcarried => rule_append_ne_manual _ (hcarried.symm.trans hmanual)

/-- **One event** keeps machines and names together if a renamed rule owns its name. -/
theorem Linked.after (h : fleet.Linked) (config : RestConfig) (now : Timestamp)
    (event : FleetEvent) (howned : ∀ id req, event = .call (.updateAutoEnrolRule id req) trivial →
      fleet.Renames id req → fleet.NameOwned id) : (fleet.after config (now, event)).Linked := by
  cases event with
  | resolve lookup => exact h.resolve config now lookup
  | call op byHand =>
    cases op with
    | enroll args => exact h.enroll config now args byHand
    | remove mac => exact h.remove config now mac
    | updateHardware mac hardware => exact h.updateHardware config now mac hardware
    | addAutoEnrolRule req => exact h.addAutoEnrolRule config now req
    | updateAutoEnrolRule id req =>
      exact h.updateAutoEnrolRule config now id req (howned id req rfl)
    | removeAutoEnrolRule id => exact h.removeAutoEnrolRule config now id
    | _ => exact h.steady config now byHand rfl

omit [Unicode] [IpAddress] in
theorem linked_opened (clock : Timestamp) : (opened clock).Linked := by
  obtain ⟨db, hopen, hrun, hmachine, -⟩ := @openRegistry_unpinned clock emptyFile rfl
  have hdb : (opened clock).db = db := congrArg Outcome.db hopen
  have hrules : (opened clock).db.rules = Serial.empty := rfl
  refine ⟨hdb ▸ hrun, fun _ _ hthrough => ?_, fun mac _ source hsource => ?_, ?_,
    fun _ _ hrule => ?_, fun _ _ hname => ?_⟩
  · cases hthrough
  · rw [Database.provenance, hdb, hmachine] at hsource
    cases hsource
  · rw [hrules]
    exact Serial.distinct_empty
  · rw [getAutoEnrolRule, hrules] at hrule
    cases hrule
  · cases hname

theorem run_concat (config : RestConfig) (fleet : Fleet) (history : List (Timestamp × FleetEvent))
    (event : Timestamp × FleetEvent) :
    fleet.run config (history ++ [event]) = (fleet.run config history).after config event :=
  List.foldl_concat _ _ _ _

end Fleet

section Every

variable {config : RestConfig} {clock : Timestamp} {history : List (Timestamp × FleetEvent)}
  {holds : Fleet → Nat → RuleRequest → Prop}

theorem everyRename_nil : EveryRename config clock holds [] :=
  fun _ _ _ _ _ hnil => absurd hnil (by simp)

theorem everyRename_concat {event : Timestamp × FleetEvent} :
    EveryRename config clock holds (history ++ [event]) ↔ EveryRename config clock holds history ∧
      ∀ id req, event.2 = .call (.updateAutoEnrolRule id req) trivial →
        ((Fleet.opened clock).run config history).Renames id req →
          holds ((Fleet.opened clock).run config history) id req := by
  constructor
  · intro h
    refine ⟨fun past now id req future hsplit => ?_, fun id req hevent => ?_⟩
    · exact h past now id req (future ++ [event]) (by rw [hsplit]; simp)
    · exact h history event.1 id req [] (by rw [← hevent])
  · rintro ⟨hhistory, hlast⟩ past now id req future hsplit
    rcases concat_eq_split hsplit with ⟨rfl, rfl, -⟩ | ⟨future', -, hpast⟩
    · exact hlast id req rfl
    · exact hhistory past now id req future' hpast

/-- **A run** in which every renamed rule owns its name. -/
theorem linked_run
    (howned : EveryRename config clock (fun fleet id _ => fleet.NameOwned id) history) :
    ((Fleet.opened clock).run config history).Linked := by
  induction history using List.reverseRecOn with
  | nil => exact Fleet.linked_opened clock
  | append_singleton history event ih =>
    obtain ⟨hhistory, hlast⟩ := everyRename_concat.mp howned
    rw [Fleet.run_concat]
    exact (ih hhistory).after config event.1 event.2 hlast

/-- **Renames.** In every history of a new registry, each rename changes the machines that were
enrolled through its rule and no others exactly if, at each rename, no other rule through which
an enrolled machine came has, or had when it was deleted, the name of the renamed rule. -/
theorem everyRename_confined_iff (config : RestConfig) (clock : Timestamp)
    (history : List (Timestamp × FleetEvent)) :
    EveryRename config clock Fleet.RenameConfined history ↔
      EveryRename config clock (fun fleet id _ => fleet.NameOwned id) history := by
  induction history using List.reverseRecOn with
  | nil => exact ⟨fun _ => everyRename_nil, fun _ => everyRename_nil⟩
  | append_singleton history event ih =>
    rw [everyRename_concat, everyRename_concat, ih]
    refine and_congr_right fun howned => ?_
    refine forall_congr' fun id => forall_congr' fun req => ?_
    refine imp_congr_right fun _ => imp_congr_right fun hrenames => ?_
    exact Fleet.renameConfined_iff (linked_run howned) hrenames

end Every

end Histories

section Examples

attribute [local instance] ascii noNetworks

/-- A rule of the name `lab` for the MACs that begin with a text. -/
def labRuleFor (start : String) : RuleRequest :=
  { name := "lab", matchKind := "mac_prefix", matchValue := start, profileName := "worker" }

def asksAs (mac : String) : FleetEvent :=
  .resolve ⟨mac, none, some "efi", some "Bearer mint"⟩

/-- Two rules of one name, and one machine through each. -/
def twoLabs : List (Timestamp × FleetEvent) :=
  [(1, .call (.addAutoEnrolRule (labRuleFor "aa")) trivial),
    (2, .call (.addAutoEnrolRule (labRuleFor "bb")) trivial),
    (3, asksAs "aa:00:00:00:00:01"), (4, asksAs "bb:00:00:00:00:02")]

def labRenamed : RuleRequest := { labRuleFor "aa" with name := "lab-a" }

/-- The rename of the first rule also changes the machine of the second. -/
theorem not_everyRename_confined : ¬ EveryRename labSecrets 0 Fleet.RenameConfined
    (twoLabs ++ [(5, .call (.updateAutoEnrolRule 1 labRenamed) trivial)]) := by
  intro h
  have hrenames : ((Fleet.opened 0).run labSecrets twoLabs).Renames 1 labRenamed := by
    have hname : (getAutoEnrolRule ((Fleet.opened 0).run labSecrets twoLabs).db 1).map
        AutoEnrolRule.name = some "lab" := by
      decide +kernel
    have hchecked : (labRenamed.check.toOption).isSome := by decide +kernel
    obtain ⟨rule, hrule, hlab⟩ := Option.map_eq_some_iff.mp hname
    obtain ⟨checked, hok⟩ := Option.isSome_iff_exists.mp hchecked
    exact ⟨⟨checked, eq_ok_of_toOption hok⟩, rule, hrule, hlab ▸ by decide⟩
  have hconfined := h twoLabs 5 1 labRenamed [] rfl hrenames
  have hbefore : ((Fleet.opened 0).run labSecrets twoLabs).db.provenance "bb:00:00:00:00:02" =
      some "rule:lab" := by
    decide +kernel
  have hafter : (updateAutoEnrolRule 1 labRenamed
      ((Fleet.opened 0).run labSecrets twoLabs).db).db.provenance "bb:00:00:00:00:02" =
      some "rule:lab-a" := by
    decide +kernel
  obtain ⟨m, hm, hsource⟩ := Option.map_eq_some_iff.mp hbefore
  have hthrough := (hconfined.changed _ m hm).mp (by
    rw [hsource]
    exact fun hsame => absurd (hafter.symm.trans hsame) (by decide))
  exact absurd hthrough (by decide +kernel)

end Examples

end Fleetboot
