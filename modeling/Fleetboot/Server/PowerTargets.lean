import Fleetboot.Server.Leases
import Fleetboot.Server.Status
import Fleetboot.Server.ToolEffects

/-!
# Who is switched under an alias

The pdudaemon knows machines by alias, and the alias of a machine without a `pdu_alias` is the
hostname that it last reported. So what a machine reports can decide which outlet the power
commands for it reach.

* `isolated_noted_iff`: after a report no other machine is switched in place of this one exactly
  when the reported hostname does not take over the alias of another.
* `powerTargets_isolated`: in runs of such reports, of calls of the pool and of the reaper, no
  power command for the machine reaches another machine's alias.
-/

set_option autoImplicit false

namespace Fleetboot

open Python Relational Transition

/-! ## Aliases -/

/-- The action on the MAC goes to the pdudaemon, under the alias. -/
def Targets (db : Database) (mac : String) (action : PowerAction) (alias_ : String) : Prop :=
  ∃ m pduHost, db.machine mac = some m ∧ powerRoute db m action = .pdudaemon pduHost alias_

/-- No two machines resolve to the same alias. -/
def DistinctAliases (db : Database) : Prop :=
  ∀ m ∈ db.machines.rows, ∀ m' ∈ db.machines.rows,
    (pdudaemonAlias m).isSome → pdudaemonAlias m = pdudaemonAlias m' → m.mac = m'.mac

/-- Switching the MAC on or off does not go to an alias that is another machine's route. -/
def Isolated (db : Database) (mac : String) : Prop :=
  ∀ action alias_, action ≠ .reboot → Targets db mac action alias_ →
    ∀ other action', other ≠ mac → ¬ Targets db other action' alias_

/-- The hostname, reported by the MAC, would be the alias of its power commands and is that of
another machine's. -/
def TakesOver (db : Database) (mac hostname : String) : Prop :=
  ∃ m action, db.machine mac = some m ∧ truthyText m.pduAlias = none ∧ action ≠ .reboot ∧
    truthyText (machinePowerCommand m action) = none ∧
    ∃ other action', other ≠ mac ∧ Targets db other action' hostname

theorem powerRoute_eq_pdudaemon_iff {db : Database} {m : Machine} {action : PowerAction}
    {pduHost alias_ : String} : powerRoute db m action = .pdudaemon pduHost alias_ ↔
      truthyText (machinePowerCommand m action) = none ∧
        getSetting db pdudaemonHostKey = some pduHost ∧ pdudaemonAlias m = some alias_ := by
  unfold powerRoute
  cases truthyText (machinePowerCommand m action) with
  | some command => simp
  | none =>
    cases getSetting db pdudaemonHostKey with
    | none => simp
    | some host => cases pdudaemonAlias m <;> simp

theorem targets_iff {db : Database} {mac : String} {action : PowerAction} {alias_ : String} :
    Targets db mac action alias_ ↔ ∃ m, db.machine mac = some m ∧
      truthyText (machinePowerCommand m action) = none ∧
      (getSetting db pdudaemonHostKey).isSome ∧ pdudaemonAlias m = some alias_ := by
  unfold Targets
  simp only [powerRoute_eq_pdudaemon_iff, Option.isSome_iff_exists]
  refine exists_congr fun m => ⟨?_, ?_⟩
  · rintro ⟨host, hm, hcommand, hhost, halias⟩
    exact ⟨hm, hcommand, ⟨host, hhost⟩, halias⟩
  · rintro ⟨hm, hcommand, ⟨host, hhost⟩, halias⟩
    exact ⟨host, hm, hcommand, hhost, halias⟩

theorem isolated_of_distinct {db : Database} (h : DistinctAliases db) (mac : String) :
    Isolated db mac := by
  rintro action alias_ - ⟨m, host, hm, hroute⟩ other action' hne ⟨m', host', hm', hroute'⟩
  obtain ⟨-, -, halias⟩ := powerRoute_eq_pdudaemon_iff.mp hroute
  obtain ⟨-, -, halias'⟩ := powerRoute_eq_pdudaemon_iff.mp hroute'
  obtain ⟨hrow, hmac⟩ := machine_eq_some_iff.mp hm
  obtain ⟨hrow', hmac'⟩ := machine_eq_some_iff.mp hm'
  have hsame := h m hrow m' hrow' (by simp [halias]) (halias.trans halias'.symm)
  exact hne (hmac' ▸ hmac ▸ hsame.symm)

/-! ## Calls that leave the wiring alone -/

/-- The wiring of every machine and the settings are as they were. -/
structure SameWiring (db db' : Database) : Prop where
  settings : db'.settings = db.settings
  wiring : ∀ k, (db'.machine k).map Machine.powerWiring = (db.machine k).map Machine.powerWiring

theorem SameWiring.refl (db : Database) : SameWiring db db := ⟨rfl, fun _ => rfl⟩

theorem targets_congr {db db' : Database} {mac : String} (hsettings : db'.settings = db.settings)
    (hwiring : (db'.machine mac).map Machine.powerWiring = (db.machine mac).map Machine.powerWiring)
    (action : PowerAction) (alias_ : String) :
    Targets db' mac action alias_ ↔ Targets db mac action alias_ := by
  unfold Targets
  cases h : db.machine mac with
  | none =>
    rw [h, Option.map_none, Option.map_eq_none_iff] at hwiring
    simp [hwiring]
  | some m =>
    rw [h] at hwiring
    obtain ⟨m', hm', hsame⟩ := Option.map_eq_some_iff.mp hwiring
    rw [hm']
    simp only [Option.some.injEq, exists_and_left, exists_eq_left',
      powerRoute_congr hsettings hsame]

theorem SameWiring.isolated_iff {db db' : Database} (h : SameWiring db db') (mac : String) :
    Isolated db' mac ↔ Isolated db mac := by
  unfold Isolated
  simp only [targets_congr h.settings (h.wiring _)]

theorem takesOver_congr {db db' : Database} (hsettings : db'.settings = db.settings)
    (hmachine : ∀ k, db'.machine k = db.machine k) (mac hostname : String) :
    TakesOver db' mac hostname ↔ TakesOver db mac hostname := by
  have htargets : ∀ other action alias_,
      Targets db' other action alias_ ↔ Targets db other action alias_ := fun other =>
    targets_congr hsettings (by rw [hmachine])
  unfold TakesOver
  simp only [hmachine, htargets]

section Calls

variable [Unicode] [IpAddress]

/-- The calls of the pool change no more of a machine than its profile. -/
theorem sameWiring_poolCall (now : Timestamp) {op : Operation} (hop : op.isPoolCall = true)
    (db : Database) : SameWiring db (op.run now db).db := by
  have honly := onlyProfiles_poolCall now hop db
  refine ⟨honly.rest.settings, fun k => ?_⟩
  obtain ⟨profileOf, hmachine⟩ := honly.machine k
  rw [hmachine, Option.map_map]
  rfl

/-! ## Reports -/

omit [IpAddress] in
theorem StatusReport.ne_of_keptHostname {report : StatusReport} {hostname : String}
    (h : report.keptHostname = some hostname) : hostname ≠ "" := by
  unfold StatusReport.keptHostname at h
  dsimp only at h
  split at h
  · cases h
  · rename_i hkept
    cases h
    exact fun hblank => hkept (.inr (.inr hblank))

omit [IpAddress] in
/-- The alias of a machine that has reported a hostname. -/
theorem targets_noted_iff {db db' : Database} {mac hostname : String} (hne : hostname ≠ "")
    (hnoted : Noted mac (some hostname) db db') {action : PowerAction} {alias_ : String} :
    Targets db' (normaliseMac mac) action alias_ ↔ ∃ m, db.machine (normaliseMac mac) = some m ∧
      truthyText (machinePowerCommand m action) = none ∧
      (getSetting db pdudaemonHostKey).isSome ∧
      (truthyText m.pduAlias).getD hostname = alias_ := by
  have hwiring := hnoted.wiring (normaliseMac mac)
  simp only [if_true] at hwiring
  rw [targets_iff, getSetting, hnoted.settings, ← getSetting]
  cases hm : db.machine (normaliseMac mac) with
  | none =>
    rw [hm, Option.map_none, Option.map_none, Option.map_eq_none_iff] at hwiring
    simp [hwiring]
  | some m =>
    rw [hm] at hwiring
    obtain ⟨m', hm', hsame⟩ := Option.map_eq_some_iff.mp hwiring
    injection hsame with hreboot hon hoff halias hhostname
    have hcommand : machinePowerCommand m' action = machinePowerCommand m action := by
      cases action <;> assumption
    have hresolved : pdudaemonAlias m' = some ((truthyText m.pduAlias).getD hostname) := by
      have hname : truthyText m'.hostname = some hostname := by
        rw [hhostname, Option.some_or]
        exact Option.filter_some_pos (by simp [hne])
      have hpdu : m'.pduAlias = m.pduAlias := halias
      unfold pdudaemonAlias
      rw [hpdu, hname]
      cases truthyText m.pduAlias <;> rfl
    simp only [hm', Option.some.injEq, exists_eq_left', hcommand, hresolved]

omit [IpAddress] in
/-- **A report of the machine itself** leaves it isolated exactly when the hostname that the
registry keeps of it takes over no other machine's alias. -/
theorem isolated_noted_iff {db db' : Database} {mac : String} {kept : Option String}
    (hisolated : Isolated db (normaliseMac mac)) (hnoted : Noted mac kept db db')
    (hne : ∀ hostname, kept = some hostname → hostname ≠ "") :
    Isolated db' (normaliseMac mac) ↔
      ∀ hostname, kept = some hostname → ¬ TakesOver db (normaliseMac mac) hostname := by
  have hother : ∀ other action alias_, other ≠ normaliseMac mac →
      (Targets db' other action alias_ ↔ Targets db other action alias_) := by
    intro other action alias_ hdiff
    refine targets_congr hnoted.settings ?_ action alias_
    rw [hnoted.wiring]
    simp only [if_neg hdiff]
    exact congrFun Option.map_id _
  cases kept with
  | none =>
    refine iff_of_true ?_ (by simp)
    have hself : ∀ k, (db'.machine k).map Machine.powerWiring =
        (db.machine k).map Machine.powerWiring := by
      intro k
      rw [hnoted.wiring]
      cases db.machine k <;> simp [PowerWiring.withHostname]
    exact (SameWiring.isolated_iff ⟨hnoted.settings, hself⟩ _).mpr hisolated
  | some hostname =>
    have hself := @targets_noted_iff _ db db' mac hostname (hne _ rfl) hnoted
    constructor
    · rintro hafter _ ⟨⟩ ⟨m, action, hm, halias, haction, hcommand, other, action', hdiff, htarget⟩
      obtain ⟨-, -, -, hhost, -⟩ := targets_iff.mp htarget
      refine hafter action hostname haction (hself.mpr ⟨m, hm, hcommand, hhost, ?_⟩) other action'
        hdiff ((hother _ _ _ hdiff).mpr htarget)
      rw [halias]
      rfl
    · intro hspares action alias_ haction htargets other action' hdiff htarget
      rw [hother _ _ _ hdiff] at htarget
      obtain ⟨m, hm, hcommand, hhost, halias⟩ := hself.mp htargets
      cases hpdu : truthyText m.pduAlias with
      | none =>
        -- The machine goes by the hostname that it reported.
        rw [hpdu] at halias
        obtain rfl : hostname = alias_ := halias
        exact hspares _ rfl ⟨m, action, hm, hpdu, haction, hcommand, other, action', hdiff, htarget⟩
      | some own =>
        -- The machine has an alias of its own, which the report leaves alone.
        rw [hpdu] at halias
        obtain rfl : own = alias_ := halias
        have hresolved : pdudaemonAlias m = some own := by
          unfold pdudaemonAlias
          rw [hpdu]
          rfl
        exact hisolated action own haction (targets_iff.mpr ⟨m, hm, hcommand, hhost, hresolved⟩)
          other action' hdiff htarget

end Calls

/-! ## Runs -/

section Runs

variable {Build : Type}

/-- The clock, what the server keeps, and the power commands that are still to come. -/
structure SwitchServer (Build : Type) where
  clock : Timestamp
  deployment : Deployment Build
  pending : List (String × PowerAction)

/-- Nothing is still to come. -/
def Deployment.server (deployment : Deployment Build) (clock : Timestamp) : SwitchServer Build :=
  ⟨clock, deployment, []⟩

/-- A tool of the pool makes its call of the registry, a machine reports its status, the reaper
reaps, or one of the power commands that follow these is issued. -/
inductive SwitchEvent
  | tool (called : PoolTool) (args : Fields) (env : RequestEnv)
  | status (time : Timestamp) (req : StatusRequest)
  | reap (time : Timestamp)
  | switch (time : Timestamp) (mac : String) (action : PowerAction) (outcome : CommandOutcome)

def SwitchEvent.time : SwitchEvent → Timestamp
  | tool _ _ env => env.now
  | status time _ => time
  | reap time => time
  | switch time _ _ _ => time

variable [Unicode] [IpAddress]

/-- The machines that are to be switched after a call. -/
def toSwitch (now : Timestamp) (db : Database) : Option Operation → List (String × PowerAction)
  | none => []
  | some op =>
    let switched := switchedBy op (op.run now db).value
    switched.1.map fun mac => (mac, switched.2)

/-- The state after an event. -/
def SwitchServer.after (config : McpConfig) (s : SwitchServer Build) (event : SwitchEvent) :
    SwitchServer Build :=
  let db := s.deployment.db
  match event with
  | .tool called args env =>
    { clock := env.now
      deployment := (called.run config env .pool args s.deployment).deployment
      pending := s.pending ++ toSwitch env.now db (called.operation args s.deployment) }
  | .status time req =>
    { s with clock := time, deployment := { s.deployment with db := (postStatus time req db).1 } }
  | .reap time =>
    { clock := time
      deployment := { s.deployment with db := (Operation.reapExpired.run time db).db }
      pending := s.pending ++ toSwitch time db (some .reapExpired) }
  | .switch time mac action outcome =>
    { clock := time
      deployment := { s.deployment with db := (powerMachine mac action.text false outcome db).db }
      pending := s.pending.erase (mac, action) }

/-- Reports bear tokens of the one machine; only what is to come is switched. -/
def SwitchEvent.Enabled (mac : String) (s : SwitchServer Build) : SwitchEvent → Prop
  | status _ req => ∀ session, req.session s.deployment.db = some session →
      normaliseMac session.mac = mac
  | switch _ mac' action _ => (mac', action) ∈ s.pending
  | _ => True

/-- The power commands that an event issues. -/
def SwitchEvent.issued (s : SwitchServer Build) : SwitchEvent → List PowerCall
  | switch _ mac action _ => powerCalls s.deployment.db [mac] action
  | _ => []

/-- One event, at a reading of the clock that is not before the last one. -/
structure SwitchStep (config : McpConfig) (mac : String) (s : SwitchServer Build)
    (event : SwitchEvent) (s' : SwitchServer Build) : Prop where
  later : s.clock ≤ event.time
  enabled : event.Enabled mac s
  after : s' = s.after config event

/-- No accepted report carries a hostname that takes over another machine's alias. -/
def SwitchEvent.Spares (mac : String) (s : SwitchServer Build) (event : SwitchEvent) : Prop :=
  ∀ time req hostname, event = .status time req → req.report.isValid = true →
    (req.session s.deployment.db).isSome → req.report.keptHostname = some hostname →
    ¬ TakesOver s.deployment.db mac hostname

/-- What is to come is switching on or off. -/
def SwitchServer.OnOrOff (s : SwitchServer Build) : Prop := ∀ item ∈ s.pending, item.2 ≠ .reboot

omit [Unicode] [IpAddress] in
theorem switchedBy_ne_reboot (op : Operation) (value : Except Exception Reply) :
    (switchedBy op value).2 ≠ .reboot := by
  unfold switchedBy
  split <;> simp

theorem ne_reboot_of_toSwitch {now : Timestamp} {db : Database} {op : Option Operation}
    {item : String × PowerAction} (h : item ∈ toSwitch now db op) : item.2 ≠ .reboot := by
  cases op with
  | none => cases h
  | some op =>
    obtain ⟨mac, -, rfl⟩ := List.mem_map.mp h
    exact switchedBy_ne_reboot op _

theorem SwitchStep.onOrOff {config : McpConfig} {mac : String} {s s' : SwitchServer Build}
    {event : SwitchEvent} (h : s.OnOrOff) (hstep : SwitchStep config mac s event s') :
    s'.OnOrOff := by
  intro item hitem
  rw [hstep.after] at hitem
  cases event with
  | tool called args env =>
    rcases List.mem_append.mp hitem with hold | hnew
    · exact h item hold
    · exact ne_reboot_of_toSwitch hnew
  | status time req => exact h item hitem
  | reap time =>
    rcases List.mem_append.mp hitem with hold | hnew
    · exact h item hold
    · exact ne_reboot_of_toSwitch hnew
  | switch time mac' action outcome => exact h item (List.mem_of_mem_erase hitem)

omit [IpAddress] in
theorem spares_of_not_status {mac : String} {s : SwitchServer Build} {event : SwitchEvent}
    (h : ∀ time req, event ≠ .status time req) : event.Spares mac s :=
  fun time req _ hevent => absurd hevent (h time req)

omit [IpAddress] in
/-- A report under a token of the machine. -/
theorem isolated_postStatus_iff {db : Database} {mac : String} {time : Timestamp}
    {req : StatusRequest} (h : Isolated db mac)
    (hbears : ∀ session, req.session db = some session → normaliseMac session.mac = mac) :
    Isolated (postStatus time req db).1 mac ↔
      (req.report.isValid = true → (req.session db).isSome →
        ∀ hostname, req.report.keptHostname = some hostname → ¬ TakesOver db mac hostname) := by
  have hposted := postStatus_cases time req db
  generalize postStatus time req db = out at hposted
  cases hposted with
  | refused hrefused =>
    refine iff_of_true h fun hvalid hsession => ?_
    rcases hrefused with hinvalid | hnone
    · rw [hvalid] at hinvalid
      cases hinvalid
    · rw [hnone] at hsession
      cases hsession
  | @accepted session recorded db' pending hvalid hrecord hnoted =>
    obtain ⟨hmac, hrest⟩ := recordReport_some hrecord
    obtain ⟨found, hfound, hsame⟩ := Option.map_eq_some_iff.mp hmac
    obtain rfl : normaliseMac session.mac = mac := hsame ▸ hbears found hfound
    have hsession : (req.session db).isSome := Option.isSome_iff_exists.mpr ⟨_, hfound⟩
    have hsettings : recorded.settings = db.settings := by rw [hrest]
    have hmachine : ∀ k, recorded.machine k = db.machine k := fun k => by
      rw [hrest]
      rfl
    have hrecorded : Isolated recorded (normaliseMac session.mac) :=
      ((SameWiring.mk hsettings fun k => by rw [hmachine]).isolated_iff _).mpr h
    have htakes := takesOver_congr hsettings hmachine (normaliseMac session.mac)
    rw [isolated_noted_iff hrecorded hnoted fun _ => StatusReport.ne_of_keptHostname]
    constructor
    · intro hspares _ _ hostname hkept
      exact (htakes hostname).not.mp (hspares hostname hkept)
    · intro hspares hostname hkept
      exact (htakes hostname).not.mpr (hspares hvalid hsession hostname hkept)

/-- **A step keeps the machine isolated exactly when it spares the others' aliases.** -/
theorem SwitchStep.isolated_iff {config : McpConfig} {mac : String} {s s' : SwitchServer Build}
    {event : SwitchEvent} (hstep : SwitchStep config mac s event s') (honOff : s.OnOrOff)
    (h : Isolated s.deployment.db mac) :
    Isolated s'.deployment.db mac ↔ event.Spares mac s := by
  have hafter := hstep.after
  have henabled := hstep.enabled
  cases event with
  | tool called args env =>
    refine iff_of_true ?_ (spares_of_not_status (by simp))
    have hdb : s'.deployment.db = dbAfter env.now s.deployment.db
        (called.operation args s.deployment) := by
      rw [hafter]
      exact (called.performs config env .pool args s.deployment).db
    rw [hdb]
    cases hop : called.operation args s.deployment with
    | none => exact h
    | some op =>
      have hsame := sameWiring_poolCall env.now (isPoolCall_of_operation hop).1 s.deployment.db
      exact (hsame.isolated_iff mac).mpr h
  | status time req =>
    have hdb : s'.deployment.db = (postStatus time req s.deployment.db).1 := by rw [hafter]; rfl
    rw [hdb, isolated_postStatus_iff h henabled]
    constructor
    · rintro hspares _ _ hostname ⟨⟩ hvalid hsession hkept
      exact hspares hvalid hsession hostname hkept
    · intro hspares hvalid hsession hostname hkept
      exact hspares time req hostname rfl hvalid hsession hkept
  | reap time =>
    refine iff_of_true ?_ (spares_of_not_status (by simp))
    have hsame := @sameWiring_poolCall _ _ time .reapExpired rfl s.deployment.db
    rw [hafter]
    exact (hsame.isolated_iff mac).mpr h
  | switch time mac' action outcome =>
    refine iff_of_true ?_ (spares_of_not_status (by simp))
    have hdb := @db_powerMachine _ mac' action (honOff _ henabled) outcome s.deployment.db
    rw [hafter]
    change Isolated (powerMachine mac' action.text false outcome s.deployment.db).db mac
    rw [hdb]
    exact h

omit [IpAddress] in
/-- A power command is issued as the machine is wired at that moment. -/
theorem mem_issued {s : SwitchServer Build} {event : SwitchEvent} {call : PowerCall}
    (h : call ∈ event.issued s) : ∃ time outcome m,
      event = .switch time call.mac call.action outcome ∧
      s.deployment.db.lookup call.mac = some m ∧
      call.route = powerRoute s.deployment.db m call.action := by
  cases event with
  | switch time mac action outcome =>
    simp only [SwitchEvent.issued, powerCalls, List.mem_filterMap, List.mem_singleton] at h
    obtain ⟨_, rfl, hcall⟩ := h
    obtain ⟨m, hm, hcall⟩ := Option.bind_eq_some_iff.mp hcall
    obtain ⟨line, -, rfl⟩ := Option.map_eq_some_iff.mp hcall
    exact ⟨time, outcome, m, rfl, hm, rfl⟩
  | tool | status | reap => cases h

/-- **Power targets are isolated.** From every registry in which no two machines resolve to the
same alias, with calls of the pool's tools, reports that bear tokens of a machine, reaping and
the power commands in any order, in every run in which no accepted report carries a hostname
that takes over another machine's alias:

* no power command for the machine goes to an alias that is another machine's route;
* after the next step this is still so exactly when that step is no such report either. -/
theorem powerTargets_isolated (config : McpConfig) {deployment : Deployment Build}
    (hdistinct : DistinctAliases deployment.db) (clock : Timestamp) (mac : String)
    {s : SwitchServer Build} {events : List SwitchEvent}
    (hrun : Run (Restrict (SwitchStep config mac) fun s event => event.Spares mac s)
      (deployment.server clock) events s) {event : SwitchEvent} {s' : SwitchServer Build}
    (hstep : SwitchStep config mac s event s') :
    (∀ call ∈ event.issued s, normaliseMac call.mac = mac →
      ∀ pduHost alias_, call.route = .pdudaemon pduHost alias_ →
        ∀ other action, other ≠ mac → ¬ Targets s.deployment.db other action alias_) ∧
    (Isolated s'.deployment.db mac ↔ event.Spares mac s) := by
  have hkept : s.OnOrOff ∧ Isolated s.deployment.db mac :=
    hrun.invariant (I := fun s => s.OnOrOff ∧ Isolated s.deployment.db mac)
      (fun _ _ _ h hstep => ⟨hstep.1.onOrOff h.1, (hstep.1.isolated_iff h.1 h.2).mpr hstep.2⟩)
      ⟨fun _ h => (by cases h), isolated_of_distinct hdistinct mac⟩
  refine ⟨fun call hcall hmac pduHost alias_ hroute => ?_, hstep.isolated_iff hkept.1 hkept.2⟩
  obtain ⟨time, outcome, m, rfl, hm, hchosen⟩ := mem_issued hcall
  have htargets : Targets s.deployment.db mac call.action alias_ :=
    ⟨m, pduHost, hmac ▸ hm, hchosen.symm.trans hroute⟩
  exact hkept.2 call.action alias_ (hkept.1 _ hstep.enabled) htargets

end Runs

section Examples

attribute [local instance] ascii noNetworks

/-- Another machine, held permanently. -/
def server : Enrolment :=
  { mac := "52-54-00-12-34-57", profileName := "school", architecture := "x86_64"
    platform := "efi" }

/-- A pooled desktop and a server, both with a hostname, and a session of the desktop. -/
def namedFleet : Registry :=
  ((((pooledRegistry.after 7 (.enroll server)).after 8 (.setPdudaemonHost (some "pdu:16421"))).after
    9 (.updateHostname desktop.mac "desk1")).after 10 (.updateHostname server.mac "server1")).after
    11 (.mint "t" desktop.mac)

theorem namedFleet_reachable : Reachable namedFleet := by
  obtain ⟨s₀, calls, hopen, hrun⟩ := pooledRegistry_reachable
  exact ⟨s₀, _, hopen, ((((hrun.snoc (Registry.step_after (show _ ≤ 7 by decide) _)).snoc
    (Registry.step_after (show _ ≤ 8 by decide) _)).snoc
    (Registry.step_after (show _ ≤ 9 by decide) _)).snoc
    (Registry.step_after (show _ ≤ 10 by decide) _)).snoc
    (Registry.step_after (show _ ≤ 11 by decide) _)⟩

theorem namedFleet_distinct : DistinctAliases namedFleet.db := by
  unfold DistinctAliases
  decide +kernel

def namedServer : SwitchServer Unit :=
  Deployment.server { newServer.deployment with db := namedFleet.db } 11

/-- The desktop reports a hostname. -/
def reportHostname (hostname : String) : SwitchEvent :=
  .status 20 ⟨some "Bearer t", none, { state := "login_console", hostname := some hostname }⟩

/-- `reserve_machines`. -/
def reserveOne : SwitchEvent :=
  .tool .reserveMachines [("profile", .str "worker"), ("count", .int 1)] (quietEnv 30)

/-- The desktop calls itself what the server is called, and is leased. -/
def spoofedServer : SwitchServer Unit :=
  (namedServer.after noDocs (reportHostname "server1")).after noDocs reserveOne

def switchOn : SwitchEvent := .switch 31 "52:54:00:12:34:56" .on (.exited 0)

theorem enabled_reportHostname (hostname : String) :
    (reportHostname hostname).Enabled "52:54:00:12:34:56" namedServer := by
  intro session hsession
  have htoken : extractBearerToken (some "Bearer t") = "t" := by decide +kernel
  have hminted : lookupSession namedServer.deployment.db "t" =
      some ⟨"t", "52:54:00:12:34:56", none⟩ := by decide +kernel
  rw [StatusRequest.session, htoken, hminted] at hsession
  cases hsession
  decide +kernel

theorem step_reportHostname (hostname : String) : SwitchStep noDocs "52:54:00:12:34:56" namedServer
    (reportHostname hostname) (namedServer.after noDocs (reportHostname hostname)) :=
  ⟨show 11 ≤ 20 by decide, enabled_reportHostname hostname, rfl⟩

/-- Switching the desktop on switches the server on. -/
theorem powerTargets_spoofed : Reachable namedFleet ∧ DistinctAliases namedFleet.db ∧
    (∃ events, Run (SwitchStep noDocs "52:54:00:12:34:56") namedServer events spoofedServer) ∧
    SwitchStep noDocs "52:54:00:12:34:56" spoofedServer switchOn
      (spoofedServer.after noDocs switchOn) ∧
    (⟨"52:54:00:12:34:56", .on, .pdudaemon "pdu:16421" "server1"⟩ : PowerCall) ∈
      switchOn.issued spoofedServer ∧
    Targets spoofedServer.deployment.db "52:54:00:12:34:57" .on "server1" := by
  have hreserve : SwitchStep noDocs "52:54:00:12:34:56"
      (namedServer.after noDocs (reportHostname "server1")) reserveOne spoofedServer :=
    ⟨show 20 ≤ 30 by decide, trivial, rfl⟩
  have hspoofed : ("52:54:00:12:34:56", PowerAction.on) ∈ spoofedServer.pending ∧
      (⟨"52:54:00:12:34:56", .on, .pdudaemon "pdu:16421" "server1"⟩ : PowerCall) ∈
        switchOn.issued spoofedServer ∧
      (spoofedServer.deployment.db.machine "52:54:00:12:34:57").map (fun m =>
        powerRoute spoofedServer.deployment.db m .on) =
          some (.pdudaemon "pdu:16421" "server1") := by
    decide +kernel
  obtain ⟨hpending, hissued, hroute⟩ := hspoofed
  obtain ⟨m, hm, hroute⟩ := Option.map_eq_some_iff.mp hroute
  exact ⟨namedFleet_reachable, namedFleet_distinct,
    ⟨_, (Run.single (step_reportHostname "server1")).snoc hreserve⟩,
    ⟨show 30 ≤ 31 by decide, hpending, rfl⟩, hissued, m, _, hm, hroute⟩

/-- Under its own name the desktop is switched alone. -/
theorem powerTargets_isolated_named :
    (⟨"52:54:00:12:34:56", .on, .pdudaemon "pdu:16421" "desk1"⟩ : PowerCall) ∈
      switchOn.issued (namedServer.after noDocs reserveOne) ∧
    ∀ other action, other ≠ "52:54:00:12:34:56" →
      ¬ Targets (namedServer.after noDocs reserveOne).deployment.db other action "desk1" := by
  have hreserve : SwitchStep noDocs "52:54:00:12:34:56" namedServer reserveOne
      (namedServer.after noDocs reserveOne) := ⟨show 11 ≤ 30 by decide, trivial, rfl⟩
  have hspares : reserveOne.Spares "52:54:00:12:34:56" namedServer :=
    spares_of_not_status fun _ _ h => by cases h
  have hreserved : ("52:54:00:12:34:56", PowerAction.on) ∈
      (namedServer.after noDocs reserveOne).pending ∧
      (⟨"52:54:00:12:34:56", .on, .pdudaemon "pdu:16421" "desk1"⟩ : PowerCall) ∈
        switchOn.issued (namedServer.after noDocs reserveOne) := by
    decide +kernel
  obtain ⟨hpending, hissued⟩ := hreserved
  have hswitch : SwitchStep noDocs "52:54:00:12:34:56" (namedServer.after noDocs reserveOne)
      switchOn ((namedServer.after noDocs reserveOne).after noDocs switchOn) :=
    ⟨show 30 ≤ 31 by decide, hpending, rfl⟩
  exact ⟨hissued, (powerTargets_isolated noDocs namedFleet_distinct 11 "52:54:00:12:34:56"
    (Run.single ⟨hreserve, hspares⟩) hswitch).1 _ hissued (by decide +kernel) "pdu:16421" "desk1"
    rfl⟩

end Examples

end Fleetboot
