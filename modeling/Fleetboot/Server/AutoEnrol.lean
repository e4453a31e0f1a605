import Fleetboot.Server.Rest
import Fleetboot.Server.ToolEffects

/-!
# Auto-enrolment under concurrency

`GET /resolve/{mac}` looks a machine up, searches the rules and enrols, in three calls of the
registry that each take its lock and give it back. Any number of such requests, and explicit
enrolments, profile changes and reservations, can come between two of them.

* `resolveMachine_db`: the three calls without anything in between are the route.
* `tracked_of_run`: a MAC whose request waits is enrolled explicitly exactly if that
  happened since the request looked it up.
* `autoEnrol_keeps_iff`: when auto-enrolment leaves explicitly enrolled machines alone.
-/

set_option autoImplicit false

namespace Fleetboot

open Python Relational Transition

/-! ## Requests in flight -/

/-- A request of tftpjail. The number tells apart requests with the same query. -/
structure ResolveCall where
  id : Nat
  mac : String
  sourceIp : Option String
  platform : Option String
  deriving DecidableEq

/-- How far a request is that did not find its machine. -/
inductive ResolveStage
  | unknown
  | matched (rule : AutoEnrolRule)

structure ResolveServer where
  clock : Timestamp
  db : Database
  waiting : ResolveCall → Option ResolveStage

/-- An enrolment by an admin, with the scratch mode checked. -/
structure ExplicitEnrolment where
  mac : String
  profileName : String
  architecture : String
  platform : String
  serialConsole : Bool
  scratchMode : ScratchMode

def ExplicitEnrolment.args (e : ExplicitEnrolment) : Enrolment :=
  { mac := e.mac
    profileName := e.profileName
    architecture := e.architecture
    platform := e.platform
    serialConsole := e.serialConsole
    scratchMode := e.scratchMode.text }

inductive ExplicitAction
  | enrol (e : ExplicitEnrolment)
  | changeProfile (mac profileName : String)
  | reserve (req : ReserveRequest)

def ExplicitAction.operation : ExplicitAction → Operation
  | enrol e => .enroll e.args
  | changeProfile mac profileName => .setProfile mac profileName
  | reserve req => .reserve req

inductive ResolveAction
  | lookup (call : ResolveCall)
  | search (call : ResolveCall)
  | enroll (call : ResolveCall)
  | explicit (action : ExplicitAction)

structure ResolveEvent where
  time : Timestamp
  action : ResolveAction

section Server

variable [Unicode] [IpAddress]

def ResolveServer.after (s : ResolveServer) (event : ResolveEvent) : ResolveServer :=
  match event.action with
  | .lookup call =>
    { s with
      clock := event.time
      waiting := Function.update s.waiting call
        (if (s.db.lookup call.mac).isSome then none else some .unknown) }
  | .search call =>
    { s with
      clock := event.time
      waiting := Function.update s.waiting call
        ((findMatchingRule s.db call.mac call.sourceIp call.platform).map .matched) }
  | .enroll call =>
    match s.waiting call with
    | some (.matched rule) =>
      { clock := event.time
        db := (Fleetboot.enroll event.time (rule.enrolment call.mac call.platform) s.db).db
        waiting := Function.update s.waiting call none }
    | _ => { s with clock := event.time }
  | .explicit action =>
    { s with clock := event.time, db := (action.operation.run event.time s.db).db }

/-- A request makes its calls in order. -/
def ResolveServer.Ready (s : ResolveServer) : ResolveAction → Prop
  | .lookup call => s.waiting call = none
  | .search call => s.waiting call = some .unknown
  | .enroll call => ∃ rule, s.waiting call = some (.matched rule)
  | .explicit _ => True

structure ResolveStep (s : ResolveServer) (event : ResolveEvent) (s' : ResolveServer) : Prop where
  time : s.clock ≤ event.time
  ready : s.Ready event.action
  after : s' = s.after event

/-- The route is its three calls, one right after the other. -/
theorem resolveMachine_db {config : RestConfig} {now : Timestamp} {req : ResolveRequest}
    {s : ResolveServer} {call : ResolveCall}
    (hcall : call.mac = req.mac ∧ call.sourceIp = req.sourceIp ∧ call.platform = req.platform)
    (hauth : requireSecret config.mintSecret "resolve not configured" req.authorization = .ok ())
    (hunknown : s.db.lookup req.mac = none) :
    (resolveMachine config now req s.db).db =
      (((s.after ⟨now, .lookup call⟩).after ⟨now, .search call⟩).after ⟨now, .enroll call⟩).db := by
  obtain ⟨id, mac, sourceIp, platform⟩ := call
  obtain ⟨rfl, rfl, rfl⟩ := hcall
  unfold resolveMachine
  rw [hauth, hunknown]
  simp only [ResolveServer.after, hunknown]
  cases findMatchingRule s.db req.mac req.sourceIp req.platform with
  | none => simp
  | some rule => simp [Outcome.restRun]

/-! ## Explicitly enrolled machines -/

/-- The machine was enrolled by an admin. -/
def EnrolledExplicitly (db : Database) (mac : String) : Prop :=
  (db.machine mac).map Machine.enrolledBy = some "manual"

/-- What auto-enrolment must leave alone. -/
def KeepsExplicit (db db' : Database) : Prop :=
  ∀ mac m, db.machine mac = some m → m.enrolledBy = "manual" →
    ∃ m', db'.machine mac = some m' ∧ m'.profileName = m.profileName ∧
      m'.architecture = m.architecture ∧ m'.scratchMode = m.scratchMode ∧
      m'.serialConsole = m.serialConsole ∧ m'.enrolledBy = m.enrolledBy

/-- An auto-enrolment step leaves every explicitly enrolled machine alone. -/
def ResolveServer.Keeps (s : ResolveServer) (event : ResolveEvent) : Prop :=
  ∀ call, event.action = .enroll call → KeepsExplicit s.db (s.after event).db

/-- Whether the MAC of a request was enrolled explicitly since the request looked it up, when it
was (`flag`) or was not before an action. -/
def ResolveAction.overtakes (call : ResolveCall) (flag : Bool) : ResolveAction → Bool
  | .lookup call' => if call' = call then false else flag
  | .explicit (.enrol e) => flag || normaliseMac e.mac == normaliseMac call.mac
  | _ => flag

/-- The MAC of a request was enrolled explicitly since the last time the request looked it up. -/
def overtaken (call : ResolveCall) (events : List ResolveEvent) : Bool :=
  events.foldl (fun flag event => event.action.overtakes call flag) false

omit [IpAddress] in
theorem overtaken_concat (call : ResolveCall) (events : List ResolveEvent)
    (event : ResolveEvent) :
    overtaken call (events ++ [event]) = event.action.overtakes call (overtaken call events) := by
  simp [overtaken]

/-! ## What a step does to them -/

omit [IpAddress] in
/-- Who enrolled the machines, after an enrolment. -/
theorem enrolledBy_enroll {now : Timestamp} {args : Enrolment} {scratch : ScratchMode}
    {db : Database} (hsound : Sound db)
    (hscratch : ScratchMode.ofText args.scratchMode = some scratch)
    (k : String) : ((enroll now args db).db.machine k).map Machine.enrolledBy =
      if k = normaliseMac args.mac then some args.enrolledBy
      else (db.machine k).map Machine.enrolledBy := by
  have henroll := enroll_cases now args db
  generalize enroll now args db = out at henroll
  have hrow : ∀ scratch, (args.row scratch now).mac = normaliseMac args.mac := fun _ => rfl
  cases henroll with
  | refused hrefused => cases hscratch.symm.trans hrefused
  | again _ hprevious =>
    rw [Database.machine_updateMachine, Database.machine_replaceMachine, hrow]
    split <;> rfl
  | new _ _ hinserted =>
    rw [hinserted.machine, Database.machine_replaceMachine, hrow]
    split <;> rfl
  | orphan _ hnone hunreleased =>
    obtain ⟨m, hm⟩ := hsound.machine_of_unreleased hunreleased
    cases hm.symm.trans hnone

omit [IpAddress] in
/-- An enrolment leaves the other machines alone. -/
theorem machine_enroll_of_ne {now : Timestamp} {args : Enrolment} {db : Database} {k : String}
    (hk : k ≠ normaliseMac args.mac) : (enroll now args db).db.machine k = db.machine k := by
  have henroll := enroll_cases now args db
  generalize enroll now args db = out at henroll
  have hrow : ∀ scratch, k ≠ (args.row scratch now).mac := fun _ => hk
  cases henroll with
  | refused _ => rfl
  | again _ _ =>
    rw [Database.machine_updateMachine, if_neg hk, Database.machine_replaceMachine,
      if_neg (hrow _)]
  | new _ _ hinserted =>
    rw [hinserted.machine, Database.machine_replaceMachine, if_neg (hrow _)]
  | orphan _ _ _ => rw [Database.machine_replaceMachine, if_neg (hrow _)]

omit [Unicode] [IpAddress] in
theorem rule_ne_manual (name : String) : "rule:" ++ name ≠ "manual" := by
  intro h
  have hchars := congrArg String.toList h
  rw [String.toList_append] at hchars
  simp at hchars

omit [IpAddress] in
/-- An auto-enrolment leaves nothing enrolled explicitly under its MAC. -/
theorem explicit_autoEnrol {now : Timestamp} {rule : AutoEnrolRule} {call : ResolveCall}
    {db : Database} (hsound : Sound db) (k : String) :
    EnrolledExplicitly (enroll now (rule.enrolment call.mac call.platform) db).db k ↔
      k ≠ normaliseMac call.mac ∧ EnrolledExplicitly db k := by
  unfold EnrolledExplicitly
  rw [enrolledBy_enroll hsound (ScratchMode.ofText_text rule.scratchMode)]
  by_cases hk : k = normaliseMac call.mac
  · rw [if_pos (show k = normaliseMac (rule.enrolment call.mac call.platform).mac from hk)]
    have hname := rule_ne_manual rule.name
    simpa [hk, AutoEnrolRule.enrolment] using hname
  · rw [if_neg (show ¬ k = normaliseMac (rule.enrolment call.mac call.platform).mac from hk)]
    simp [hk]

omit [IpAddress] in
/-- **When an auto-enrolment keeps explicit machines**: when its MAC is none of them. -/
theorem keepsExplicit_autoEnrol_iff {now : Timestamp} {rule : AutoEnrolRule}
    {call : ResolveCall} {db : Database} (hsound : Sound db) :
    KeepsExplicit db (enroll now (rule.enrolment call.mac call.platform) db).db ↔
      ¬ EnrolledExplicitly db (normaliseMac call.mac) := by
  constructor
  · intro hkeeps hexplicit
    obtain ⟨m, hm, hmanual⟩ := Option.map_eq_some_iff.mp hexplicit
    obtain ⟨m', hm', -, -, -, -, henrolledBy⟩ := hkeeps _ m hm hmanual
    have hafter : EnrolledExplicitly (enroll now (rule.enrolment call.mac call.platform) db).db
        (normaliseMac call.mac) := by
      rw [EnrolledExplicitly, hm', Option.map_some, henrolledBy, hmanual]
    exact ((explicit_autoEnrol hsound _).mp hafter).1 rfl
  · intro hfree mac m hm hmanual
    have hne : mac ≠ normaliseMac call.mac := by
      rintro rfl
      exact hfree (by rw [EnrolledExplicitly, hm, Option.map_some, hmanual])
    refine ⟨m, ?_, rfl, rfl, rfl, rfl, rfl⟩
    rw [machine_enroll_of_ne (show mac ≠ normaliseMac
      (rule.enrolment call.mac call.platform).mac from hne)]
    exact hm

/-- What an explicit action does to the machines that are enrolled explicitly. -/
theorem explicit_action {now : Timestamp} {action : ExplicitAction} {db : Database}
    (hsound : Sound db) (call : ResolveCall) :
    EnrolledExplicitly (action.operation.run now db).db (normaliseMac call.mac) ↔
      EnrolledExplicitly db (normaliseMac call.mac) ∨
        (ResolveAction.explicit action).overtakes call false = true := by
  cases action with
  | enrol e =>
    have henrolled : ((enroll now e.args db).db.machine _).map Machine.enrolledBy = _ :=
      enrolledBy_enroll hsound (ScratchMode.ofText_text e.scratchMode) (normaliseMac call.mac)
    simp only [ExplicitAction.operation, Operation.run, Outcome.db_map, ResolveAction.overtakes,
      Bool.false_or, beq_iff_eq, EnrolledExplicitly]
    rw [henrolled]
    by_cases hmac : normaliseMac call.mac = normaliseMac e.args.mac
    · have hmac' : normaliseMac e.mac = normaliseMac call.mac := hmac.symm
      rw [if_pos hmac]
      exact ⟨fun _ => .inr hmac', fun _ => rfl⟩
    · have hmac' : ¬ normaliseMac e.mac = normaliseMac call.mac := fun h => hmac h.symm
      rw [if_neg hmac]
      exact ⟨.inl, fun h => h.resolve_right hmac'⟩
  | changeProfile mac profileName =>
    have hsame : ∀ k, ((setProfile mac profileName db).db.machine k).map Machine.enrolledBy =
        (db.machine k).map Machine.enrolledBy := by
      intro k
      unfold setProfile
      dsimp only
      split
      · rfl
      · rw [Database.machine_updateMachine]
        split
        · rw [Option.map_map]
          rfl
        · rfl
    simp only [ExplicitAction.operation, Operation.run, Outcome.db_map, ResolveAction.overtakes,
      EnrolledExplicitly, hsame]
    simp
  | reserve req =>
    have hsame : ∀ k, ((Operation.run now (.reserve req) db).db.machine k).map
        Machine.enrolledBy = (db.machine k).map Machine.enrolledBy := by
      intro k
      obtain ⟨profileOf, hmachine⟩ :=
        (onlyProfiles_poolCall now (show (Operation.reserve req).isPoolCall = true from rfl)
          db).machine k
      rw [hmachine, Option.map_map]
      rfl
    simp only [ExplicitAction.operation, ResolveAction.overtakes, EnrolledExplicitly, hsame]
    simp

/-! ## Runs -/

theorem ResolveStep.sound {s s' : ResolveServer} {event : ResolveEvent} (hsound : Sound s.db)
    (hstep : ResolveStep s event s') : Sound s'.db := by
  obtain ⟨time, action⟩ := event
  rw [hstep.after]
  cases action with
  | lookup call => exact hsound
  | search call => exact hsound
  | enroll call =>
    obtain ⟨rule, hwaiting⟩ := hstep.ready
    have henrolled := sound_run time hsound (.enroll (rule.enrolment call.mac call.platform))
    simp only [Operation.run, Outcome.db_map] at henrolled
    simp only [ResolveServer.after, hwaiting]
    exact henrolled
  | explicit action => exact sound_run time hsound action.operation

/-- The MACs of the requests that wait are enrolled explicitly exactly if that happened since the
requests looked them up. -/
def ResolveServer.Tracked (s : ResolveServer) (events : List ResolveEvent) : Prop :=
  ∀ call, (s.waiting call).isSome →
    (EnrolledExplicitly s.db (normaliseMac call.mac) ↔ overtaken call events = true)

/-- A step that keeps the explicit machines keeps track of them. -/
theorem ResolveStep.tracked {s s' : ResolveServer} {event : ResolveEvent}
    {events : List ResolveEvent} (hsound : Sound s.db) (htracked : s.Tracked events)
    (hstep : ResolveStep s event s') (hkeeps : s.Keeps event) :
    s'.Tracked (events ++ [event]) := by
  intro call hwaits
  obtain ⟨time, action⟩ := event
  rw [overtaken_concat]
  rw [hstep.after] at hwaits ⊢
  cases action with
  | lookup call' =>
    simp only [ResolveServer.after, ResolveAction.overtakes] at hwaits ⊢
    by_cases hcall : call' = call
    · subst hcall
      rw [Function.update_self] at hwaits
      have hnone : s.db.machine (normaliseMac call'.mac) = none := by
        cases hlookup : s.db.lookup call'.mac with
        | none => exact hlookup
        | some m => simp [hlookup] at hwaits
      simp [EnrolledExplicitly, hnone]
    · rw [Function.update_of_ne (Ne.symm hcall)] at hwaits
      rw [if_neg hcall]
      exact htracked call hwaits
  | search call' =>
    simp only [ResolveServer.after, ResolveAction.overtakes] at hwaits ⊢
    by_cases hcall : call' = call
    · subst hcall
      exact htracked call' (by rw [hstep.ready]; rfl)
    · rw [Function.update_of_ne (Ne.symm hcall)] at hwaits
      exact htracked call hwaits
  | enroll call' =>
    obtain ⟨rule, hrule⟩ := hstep.ready
    have hfree := hkeeps call' rfl
    simp only [ResolveServer.after, hrule] at hfree hwaits ⊢
    rw [keepsExplicit_autoEnrol_iff hsound] at hfree
    have hne : call ≠ call' := by
      rintro rfl
      simp at hwaits
    rw [Function.update_of_ne hne] at hwaits
    rw [explicit_autoEnrol hsound]
    refine Iff.trans ?_ (htracked call hwaits)
    exact ⟨fun h => h.2, fun hexplicit => ⟨fun hmac => hfree (hmac ▸ hexplicit), hexplicit⟩⟩
  | explicit action =>
    simp only [ResolveServer.after] at hwaits ⊢
    rw [explicit_action hsound, htracked call hwaits]
    cases action with
    | enrol e => simp [ResolveAction.overtakes]
    | changeProfile mac profileName => simp [ResolveAction.overtakes]
    | reserve req => simp [ResolveAction.overtakes]

theorem tracked_of_run {s₀ s : ResolveServer} {events : List ResolveEvent}
    (hsound : Sound s₀.db) (hidle : ∀ call, s₀.waiting call = none)
    (hrun : Run (Restrict ResolveStep ResolveServer.Keeps) s₀ events s) :
    Sound s.db ∧ s.Tracked events := by
  induction hrun with
  | nil =>
    refine ⟨hsound, fun call hwaits => ?_⟩
    rw [hidle] at hwaits
    cases hwaits
  | snoc _ hstep ih =>
    obtain ⟨hsound', htracked⟩ := ih
    exact ⟨hstep.1.sound hsound', hstep.1.tracked hsound' htracked hstep.2⟩

/-- Nothing overtakes an auto-enrolment of the run. -/
def Undisturbed (events : List ResolveEvent) : Prop :=
  ∀ earlier event later call, events = earlier ++ event :: later →
    event.action = .enroll call → overtaken call earlier = false

omit [IpAddress] in
theorem undisturbed_concat (events : List ResolveEvent) (event : ResolveEvent) :
    Undisturbed (events ++ [event]) ↔ Undisturbed events ∧
      ∀ call, event.action = .enroll call → overtaken call events = false := by
  constructor
  · intro h
    refine ⟨fun earlier event' later call heq => ?_, fun call => h events event [] call rfl⟩
    exact h earlier event' (later ++ [event]) call (by rw [heq]; simp)
  · rintro ⟨hinit, hlast⟩ earlier event' later call heq haction
    rcases concat_eq_split heq with ⟨rfl, rfl, -⟩ | ⟨later', -, hearlier⟩
    · exact hlast call haction
    · exact hinit earlier event' later' call hearlier haction

/-- The step of a request keeps the explicit machines when nothing overtook the request. -/
theorem keeps_iff_not_overtaken {s s' : ResolveServer} {event : ResolveEvent}
    {events : List ResolveEvent} (hsound : Sound s.db) (htracked : s.Tracked events)
    (hstep : ResolveStep s event s') :
    s.Keeps event ↔ ∀ call, event.action = .enroll call → overtaken call events = false := by
  obtain ⟨time, action⟩ := event
  refine forall_congr' fun call => ?_
  refine imp_congr_right fun haction => ?_
  obtain rfl : action = .enroll call := haction
  obtain ⟨rule, hrule⟩ := hstep.ready
  have hwaits : (s.waiting call).isSome := by rw [hrule]; rfl
  simp only [ResolveServer.after, hrule]
  rw [keepsExplicit_autoEnrol_iff hsound, htracked call hwaits, Bool.not_eq_true]

/-- **Auto-enrolment beside explicit changes.** From every reachable registry without requests in
flight, over every run: no auto-enrolment step changes the profile, the architecture, the scratch
mode, the serial setting or `enrolled_by` of an explicitly enrolled machine, exactly if no
request's MAC is enrolled explicitly between its lookup and its enrolment. -/
theorem autoEnrol_keeps_iff {s₀ s : ResolveServer} {events : List ResolveEvent}
    (hs : Reachable ⟨s₀.clock, s₀.db⟩) (hidle : ∀ call, s₀.waiting call = none)
    (hrun : Run ResolveStep s₀ events s) :
    Run (Restrict ResolveStep ResolveServer.Keeps) s₀ events s ↔ Undisturbed events := by
  induction hrun with
  | nil =>
    refine ⟨fun _ earlier event later call heq => ?_, fun _ => .nil⟩
    cases earlier <;> cases heq
  | @snoc events event s s' hrun hstep ih =>
    rw [undisturbed_concat, ← ih]
    constructor
    · intro hkept
      obtain ⟨middle, hinit, hlast⟩ := hkept.of_concat
      obtain rfl := hinit.of_restrict.unique (fun _ _ _ _ h h' => h.after.trans h'.after.symm) hrun
      obtain ⟨hsound, htracked⟩ := tracked_of_run hs.sound hidle hinit
      exact ⟨hinit, (keeps_iff_not_overtaken hsound htracked hstep).mp hlast.2⟩
    · rintro ⟨hkept, hlast⟩
      obtain ⟨hsound, htracked⟩ := tracked_of_run hs.sound hidle hkept
      exact hkept.snoc ⟨hstep, (keeps_iff_not_overtaken hsound htracked hstep).mpr hlast⟩

end Server

section Examples

attribute [local instance] ascii noNetworks

/-- A server with a rule for every machine, and no request in flight. -/
def labServer : ResolveServer := ⟨labRegistry.clock, labRegistry.db, fun _ => none⟩

def labCall : ResolveCall := ⟨1, "52:54:00:12:34:56", none, some "efi"⟩

/-- An admin enrols the machine that asks. -/
def enrolLab : ExplicitAction :=
  .enrol ⟨"52-54-00-12-34-56", "school", "x86_64", "efi", false, .persistent⟩

/-- The request has looked up its machine and found a rule. -/
def matchedServer : ResolveServer :=
  (labServer.after ⟨7, .lookup labCall⟩).after ⟨8, .search labCall⟩

theorem waiting_matchedServer : matchedServer.waiting labCall = some (.matched labRow) := by
  have hmatched : findMatchingRule labRegistry.db labCall.mac labCall.sourceIp labCall.platform =
    some labRow := unknownMachine_matched
  unfold matchedServer
  simp only [ResolveServer.after, Function.update_self, labServer]
  rw [hmatched, Option.map_some]

theorem matchedServer_run : Run ResolveStep labServer
    [⟨7, .lookup labCall⟩, ⟨8, .search labCall⟩] matchedServer := by
  have hlookup : ResolveStep labServer ⟨7, .lookup labCall⟩
      (labServer.after ⟨7, .lookup labCall⟩) :=
    ⟨by decide, rfl, rfl⟩
  have hsearch : ResolveStep (labServer.after ⟨7, .lookup labCall⟩) ⟨8, .search labCall⟩
      matchedServer := ⟨show 7 ≤ 8 by decide, by rfl, rfl⟩
  exact (Run.single hlookup).snoc hsearch

/-- The admin's enrolment comes between the two. -/
def overtakenServer : ResolveServer := matchedServer.after ⟨9, .explicit enrolLab⟩

theorem waiting_overtakenServer : overtakenServer.waiting labCall = some (.matched labRow) :=
  waiting_matchedServer

theorem overtakenServer_run : ∃ events, Run ResolveStep labServer events overtakenServer := by
  have hstep : ResolveStep matchedServer ⟨9, .explicit enrolLab⟩ overtakenServer :=
    ⟨show 8 ≤ 9 by decide, trivial, rfl⟩
  exact ⟨_, matchedServer_run.snoc hstep⟩

theorem overtakenServer_explicit : EnrolledExplicitly overtakenServer.db "52:54:00:12:34:56" := by
  unfold EnrolledExplicitly
  decide +kernel

/-- The auto-enrolment replaces what the admin enrolled. -/
theorem autoEnrol_overwrites : Reachable ⟨labServer.clock, labServer.db⟩ ∧
    (∀ call, labServer.waiting call = none) ∧
    (∃ events, Run ResolveStep labServer events overtakenServer) ∧
    ResolveStep overtakenServer ⟨10, .enroll labCall⟩
      (overtakenServer.after ⟨10, .enroll labCall⟩) ∧
    ¬ overtakenServer.Keeps ⟨10, .enroll labCall⟩ := by
  obtain ⟨events, hrun⟩ := overtakenServer_run
  have hsound : Sound overtakenServer.db :=
    hrun.invariant (fun _ _ _ h hstep => hstep.sound h) labRegistry_reachable.sound
  have hmac : normaliseMac labCall.mac = "52:54:00:12:34:56" := by decide
  refine ⟨labRegistry_reachable, fun _ => rfl, ⟨events, hrun⟩,
    ⟨show 9 ≤ 10 by decide, ⟨_, waiting_overtakenServer⟩, rfl⟩, fun hkeeps => ?_⟩
  have hafter := hkeeps labCall rfl
  simp only [ResolveServer.after, waiting_overtakenServer] at hafter
  refine (keepsExplicit_autoEnrol_iff hsound).mp hafter ?_
  rw [hmac]
  exact overtakenServer_explicit

/-- A request that nothing overtakes. -/
theorem autoEnrol_keeps_alone : Run (Restrict ResolveStep ResolveServer.Keeps) labServer
    [⟨7, .lookup labCall⟩, ⟨8, .search labCall⟩, ⟨9, .enroll labCall⟩]
    (matchedServer.after ⟨9, .enroll labCall⟩) := by
  have hrun := matchedServer_run.snoc
    (show ResolveStep matchedServer ⟨9, .enroll labCall⟩ _ from
      ⟨show 8 ≤ 9 by decide, ⟨_, waiting_matchedServer⟩, rfl⟩)
  refine (autoEnrol_keeps_iff labRegistry_reachable (fun _ => rfl) hrun).mpr ?_
  refine (undisturbed_concat [_, _] _).mpr ⟨?_, fun call haction => ?_⟩
  · refine (undisturbed_concat [_] _).mpr ⟨?_, fun call haction => by cases haction⟩
    refine (undisturbed_concat [] _).mpr ⟨?_, fun call haction => by cases haction⟩
    intro earlier event later call heq
    cases earlier <;> cases heq
  · cases haction
    decide

end Examples

end Fleetboot
