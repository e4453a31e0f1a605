import Fleetboot.Library.Transition
import Fleetboot.Registry.Enrolment
import Fleetboot.Registry.Rules
import Fleetboot.Registry.Sessions

/-!
# The registry as a transition system

Every call that writes the database file, as one type of operations with one `run`, and the
runs of such calls under a clock that does not go back. A call is one step, since it holds the
write lock; `Registry/Crash.lean` looks inside.

* `Step`, `Opened`, `Reachable`: runs of calls from a file that was just opened.
* `run_write`: the calls that write no reservation leave every machine enrolled.
* `sameRest_run`: the calls that write one leave the other tables alone.
-/

set_option autoImplicit false

namespace Fleetboot

open Python Relational Transition

/-! ## Calls -/

/-- A call of the registry or of the session store. -/
inductive Operation
  | reopen
  | enroll (args : Enrolment)
  | remove (mac : String)
  | reserve (req : ReserveRequest)
  | renew (mac : String) (ttlSeconds : Int)
  | release (macs : Option (List String)) (holder : Option String)
  | pin (req : PinRequest)
  | releaseToPool (mac : String)
  | reapExpired
  | setProfile (mac profileName : String)
  | updateHostname (mac hostname : String)
  | updateLastIp (mac ip : String)
  | updateBootVersion (mac bootVersion : String)
  | updateDiagnostics (mac diagnostics : String)
  | updateHardware (mac : String) (hardware : Fields)
  | setPendingReboot (mac : String) (pending : Bool)
  | setPowerCommand (mac : String) (action : PowerAction) (command : Option String)
  | setPduAlias (mac : String) (pduAlias : Option String)
  | setPdudaemonHost (host : Option String)
  | logBootEvent (mac state : String) (detail : Option String)
  | addAutoEnrolRule (req : RuleRequest)
  | updateAutoEnrolRule (id : Nat) (req : RuleRequest)
  | removeAutoEnrolRule (id : Nat)
  | mint (token mac : String)
  | recordState (token : String) (state : BootState)
  | endSession (token : String)

/-- What a call returns. -/
inductive Reply
  | done
  | flag (value : Bool)
  | machine (m : Machine)
  | machines (ms : List Machine)
  | macs (macs : List String)
  | reservation (r : Option Reservation)
  | rule (rule : Option AutoEnrolRule)
  | session (session : Option BootSession)

def Outcome.map {α β : Type} (f : α → β) (out : Outcome α) : Outcome β :=
  ⟨out.db, out.value.map f⟩

@[simp] theorem Outcome.db_map {α β : Type} (f : α → β) (out : Outcome α) :
    (out.map f).db = out.db := rfl

/-- A call that only writes. -/
def Outcome.done (db : Database) : Outcome Reply := ⟨db, .ok .done⟩

section Run

variable [Unicode] [IpAddress]

/-- The call at a time. -/
def Operation.run (now : Timestamp) : Operation → Database → Outcome Reply
  | reopen, db => (openRegistry now db).map fun _ => .done
  | enroll args, db => (Fleetboot.enroll now args db).map .machine
  | remove mac, db => (Fleetboot.remove mac db).map .flag
  | reserve req, db => (Fleetboot.reserve now req db).map .machines
  | renew mac ttlSeconds, db => (Fleetboot.renew now mac ttlSeconds db).map .flag
  | release macs holder, db => (Fleetboot.release now macs holder db).map .macs
  | pin req, db => (Fleetboot.pin now req db).map .reservation
  | releaseToPool mac, db => (Fleetboot.releaseToPool now mac db).map .flag
  | reapExpired, db => (Fleetboot.reapExpired now db).map .macs
  | setProfile mac profileName, db => (Fleetboot.setProfile mac profileName db).map .flag
  | updateHostname mac hostname, db => .done (Fleetboot.updateHostname now mac hostname db)
  | updateLastIp mac ip, db => .done (Fleetboot.updateLastIp now mac ip db)
  | updateBootVersion mac bootVersion, db =>
    .done (Fleetboot.updateBootVersion now mac bootVersion db)
  | updateDiagnostics mac diagnostics, db =>
    .done (Fleetboot.updateDiagnostics now mac diagnostics db)
  | updateHardware mac hardware, db => .done (Fleetboot.updateHardware now mac hardware db)
  | setPendingReboot mac pending, db => .done (Fleetboot.setPendingReboot mac pending db)
  | setPowerCommand mac action command, db =>
    .done (Fleetboot.setPowerCommand mac action command db)
  | setPduAlias mac pduAlias, db => .done (Fleetboot.setPduAlias mac pduAlias db)
  | setPdudaemonHost host, db => .done (setSetting now "pdudaemon_host" host db)
  | logBootEvent mac state detail, db => .done (Fleetboot.logBootEvent now mac state detail db)
  | addAutoEnrolRule req, db => (Fleetboot.addAutoEnrolRule now req db).map fun r => .rule (some r)
  | updateAutoEnrolRule id req, db => (Fleetboot.updateAutoEnrolRule id req db).map .rule
  | removeAutoEnrolRule id, db => (Fleetboot.removeAutoEnrolRule id db).map .flag
  | mint token mac, db => (Fleetboot.mint now token mac db).map fun s => .session (some s)
  | recordState token state, db =>
    match Fleetboot.recordState now token state db with
    | some (session, db) => ⟨db, .ok (.session (some session))⟩
    | none => ⟨db, .ok (.session none)⟩
  | endSession token, db => .done (Fleetboot.endSession token db)

end Run

/-! ## Runs -/

/-- The clock and the file. -/
structure Registry where
  clock : Timestamp
  db : Database

/-- A call, when it was made, and what it returned or raised. -/
structure Call where
  time : Timestamp
  op : Operation
  value : Except Exception Reply

section Steps

variable [Unicode] [IpAddress]

/-- A call is made at a reading of the clock that is not before the last one. -/
structure Step (s : Registry) (call : Call) (s' : Registry) : Prop where
  later : s.clock ≤ call.time
  clock : s'.clock = call.time
  run : call.op.run call.time s.db = ⟨s'.db, call.value⟩

/-- The state after a call. -/
def Registry.after (s : Registry) (time : Timestamp) (op : Operation) : Registry :=
  ⟨time, (op.run time s.db).db⟩

theorem Registry.step_after {s : Registry} {time : Timestamp} (h : s.clock ≤ time)
    (op : Operation) : Step s ⟨time, op, (op.run time s.db).value⟩ (s.after time op) :=
  ⟨h, rfl, rfl⟩

/-- The database right after the registry opened a new file or a file from before
reservations. -/
def Opened (s : Registry) : Prop :=
  ∃ file, (file = emptyFile ∨ PreReservationFile file) ∧ s.db = (openRegistry s.clock file).db

/-- The states that some run reaches. -/
def Reachable (s : Registry) : Prop := ∃ s₀ calls, Opened s₀ ∧ Run Step s₀ calls s

end Steps

/-! ## The calls that write no reservation -/

/-- No machine comes or goes and no reservation changes. -/
structure SameHolds (db db' : Database) : Prop where
  unreleased : ∀ k, db'.unreleased k = db.unreleased k
  machine : ∀ k, (db'.machine k).map Machine.mac = (db.machine k).map Machine.mac
  hasRun : HasRun db → HasRun db'

theorem SameHolds.refl (db : Database) : SameHolds db db := ⟨fun _ => rfl, fun _ => rfl, id⟩

theorem SameHolds.trans {db db' db'' : Database} (h : SameHolds db db')
    (h' : SameHolds db' db'') : SameHolds db db'' :=
  ⟨fun k => (h'.unreleased k).trans (h.unreleased k),
    fun k => (h'.machine k).trans (h.machine k), fun hr => h'.hasRun (h.hasRun hr)⟩

theorem sameHolds_updateMachine (db : Database) (mac : String) (f : Machine → Machine)
    (hmac : ∀ m, (f m).mac = m.mac) : SameHolds db (db.updateMachine mac f hmac) := by
  refine ⟨fun _ => rfl, fun k => ?_, fun h => ⟨h.pinned, h.hardwareSpecAdded⟩⟩
  rw [Database.machine_updateMachine]
  split
  · cases db.machine k <;> simp [hmac]
  · rfl

theorem sameHolds_setSetting (now : Timestamp) {key : String} (hkey : key ≠ pinnedFlag)
    (value : Option String) (db : Database) : SameHolds db (setSetting now key value db) := by
  unfold setSetting
  split
  · refine ⟨fun _ => rfl, fun _ => rfl, fun h => ⟨?_, h.hardwareSpecAdded⟩⟩
    change ((db.settings.delete _).lookup pinnedFlag).isSome = true
    rw [Table.lookup_delete]
    obtain ⟨setting, hsetting⟩ := Option.isSome_iff_exists.mp h.pinned
    have := Table.key_of_lookup hsetting
    rw [hsetting, Option.filter_some_pos (by simp [this, Ne.symm hkey])]
    rfl
  · refine ⟨fun _ => rfl, fun _ => rfl, fun h => ⟨?_, h.hardwareSpecAdded⟩⟩
    change ((db.settings.replace _).lookup pinnedFlag).isSome = true
    rw [Table.lookup_replace _ rfl, if_neg hkey]
    exact h.pinned

theorem sameHolds_renameBootEvents (db : Database) : SameHolds db (renameBootEvents db) :=
  ⟨fun _ => rfl, fun _ => rfl, fun h => ⟨h.pinned, h.hardwareSpecAdded⟩⟩

theorem pdudaemonHost_ne_pinnedFlag : "pdudaemon_host" ≠ pinnedFlag := by decide

/-- The calls that may write a reservation. -/
def Operation.writesHolds : Operation → Bool
  | enroll _ | remove _ | reserve _ | renew _ _ | release _ _ | pin _ | releaseToPool _
  | reapExpired => true
  | _ => false

theorem sameHolds_logBootEvent [Unicode] (now : Timestamp) (mac state : String)
    (detail : Option String) (db : Database) :
    SameHolds db (logBootEvent now mac state detail db) := by
  unfold logBootEvent
  dsimp only
  split
  · exact ⟨fun _ => rfl, fun _ => rfl, fun h => ⟨h.pinned, h.hardwareSpecAdded⟩⟩
  · split <;> exact ⟨fun _ => rfl, fun _ => rfl, fun h => ⟨h.pinned, h.hardwareSpecAdded⟩⟩

theorem sameHolds_recordState (now : Timestamp) (token : String) (state : BootState)
    (db : Database) {session : BootSession} {db' : Database}
    (h : recordState now token state db = some (session, db')) : SameHolds db db' := by
  unfold recordState at h
  obtain ⟨row, -, hrow⟩ := Option.map_eq_some_iff.mp h
  obtain ⟨-, rfl⟩ := Prod.mk.inj hrow
  exact ⟨fun _ => rfl, fun _ => rfl, fun h => ⟨h.pinned, h.hardwareSpecAdded⟩⟩

section Write

variable [Unicode] [IpAddress]

theorem sameHolds_updateAutoEnrolRule (id : Nat) (req : RuleRequest) (db : Database) :
    SameHolds db (updateAutoEnrolRule id req db).db := by
  unfold updateAutoEnrolRule
  split
  · exact SameHolds.refl db
  · split
    · exact SameHolds.refl db
    · dsimp only
      split
      · exact ⟨fun _ => rfl, fun _ => rfl, fun h => ⟨h.pinned, h.hardwareSpecAdded⟩⟩
      · refine ⟨fun _ => rfl, fun k => ?_, fun h => ⟨h.pinned, h.hardwareSpecAdded⟩⟩
        unfold Database.machine
        rw [Table.lookup_update]
        cases db.machines.lookup k with
        | none => rfl
        | some m =>
          simp only [Option.map_some, Option.filter, if_true]
          split <;> rfl

theorem sameHolds_addAutoEnrolRule (now : Timestamp) (req : RuleRequest) (db : Database) :
    SameHolds db (addAutoEnrolRule now req db).db := by
  unfold addAutoEnrolRule
  split
  · exact SameHolds.refl db
  · dsimp only
    split <;> exact ⟨fun _ => rfl, fun _ => rfl, fun h => ⟨h.pinned, h.hardwareSpecAdded⟩⟩

/-- The calls that write columns of one machine other than its profile. -/
def Operation.writesColumns : Operation → Bool
  | updateHostname _ _ | updateLastIp _ _ | updateBootVersion _ _ | updateDiagnostics _ _
  | updateHardware _ _ | setPendingReboot _ _ | setPowerCommand _ _ _ | setPduAlias _ _ => true
  | _ => false

/-- What such a call leaves. -/
inductive ColumnsWritten (db : Database) : Database → Prop
  | nothing : ColumnsWritten db db
  | row (mac : String) (f : Machine → Machine) (hmac : ∀ m, (f m).mac = m.mac)
      (hprofile : ∀ m, (f m).profileName = m.profileName) :
      ColumnsWritten db (db.updateMachine mac f hmac)

theorem columnsWritten_run (now : Timestamp) {op : Operation} (db : Database)
    (hop : op.writesColumns = true) : ColumnsWritten db (op.run now db).db := by
  cases op with
  | updateHostname mac hostname =>
    simp only [Operation.run, Outcome.done, updateHostname]
    split
    · exact .nothing
    · exact .row _ _ _ fun _ => rfl
  | updateLastIp mac ip =>
    simp only [Operation.run, Outcome.done, updateLastIp]
    split
    · exact .nothing
    · exact .row _ _ _ fun _ => rfl
  | updateBootVersion mac bootVersion =>
    simp only [Operation.run, Outcome.done, updateBootVersion]
    split
    · exact .nothing
    · exact .row _ _ _ fun _ => rfl
  | updateDiagnostics mac diagnostics =>
    simp only [Operation.run, Outcome.done, updateDiagnostics]
    split
    · exact .nothing
    · exact .row _ _ _ fun _ => rfl
  | updateHardware mac hardware =>
    simp only [Operation.run, Outcome.done, updateHardware]
    exact .row _ _ _ fun _ => rfl
  | setPendingReboot mac pending =>
    simp only [Operation.run, Outcome.done, setPendingReboot]
    exact .row _ _ _ fun _ => rfl
  | setPowerCommand mac action command =>
    simp only [Operation.run, Outcome.done, setPowerCommand]
    refine .row _ _ _ fun m => ?_
    cases action <;> rfl
  | setPduAlias mac pduAlias =>
    simp only [Operation.run, Outcome.done, setPduAlias]
    exact .row _ _ _ fun _ => rfl
  | _ => cases hop

omit [Unicode] [IpAddress] in
theorem ColumnsWritten.sameHolds {db db' : Database} (h : ColumnsWritten db db') :
    SameHolds db db' := by
  cases h with
  | nothing => exact SameHolds.refl db
  | row mac f hmac => exact sameHolds_updateMachine db mac f hmac

/-- Two files with the same reservations, sessions and boot events. -/
structure SameRecords (db db' : Database) : Prop where
  reservations : db'.reservations = db.reservations
  bootSessions : db'.bootSessions = db.bootSessions
  bootEvents : db'.bootEvents = db.bootEvents

omit [Unicode] [IpAddress] in
theorem ColumnsWritten.sameRecords {db db' : Database} (h : ColumnsWritten db db') :
    SameRecords db db' := by
  cases h with
  | nothing => exact ⟨rfl, rfl, rfl⟩
  | row mac f hmac => exact ⟨rfl, rfl, rfl⟩

/-- The calls that write a column of a machine, its profile, a setting or a rule. -/
def Operation.configures : Operation → Bool
  | setProfile _ _ | setPdudaemonHost _ | addAutoEnrolRule _ | updateAutoEnrolRule _ _
  | removeAutoEnrolRule _ => true
  | op => op.writesColumns

/-- **The calls that configure** write nothing else. -/
theorem sameRecords_run (now : Timestamp) {op : Operation} (db : Database)
    (hop : op.configures = true) : SameRecords db (op.run now db).db := by
  cases op with
  | setProfile mac profileName =>
    simp only [Operation.run, Outcome.db_map, setProfile]
    split <;> exact ⟨rfl, rfl, rfl⟩
  | updateHostname | updateLastIp | updateBootVersion | updateDiagnostics | updateHardware
  | setPendingReboot | setPowerCommand | setPduAlias =>
    exact (columnsWritten_run now db rfl).sameRecords
  | setPdudaemonHost host =>
    simp only [Operation.run, Outcome.done, setSetting]
    split <;> exact ⟨rfl, rfl, rfl⟩
  | addAutoEnrolRule req =>
    rw [Operation.run, Outcome.db_map, addAutoEnrolRule]
    split
    · exact ⟨rfl, rfl, rfl⟩
    · dsimp only
      split <;> exact ⟨rfl, rfl, rfl⟩
  | updateAutoEnrolRule id req =>
    simp only [Operation.run, Outcome.db_map, updateAutoEnrolRule]
    split
    · exact ⟨rfl, rfl, rfl⟩
    · split
      · exact ⟨rfl, rfl, rfl⟩
      · dsimp only
        split <;> exact ⟨rfl, rfl, rfl⟩
  | removeAutoEnrolRule id => exact ⟨rfl, rfl, rfl⟩
  | _ => cases hop

/-- **The other calls** leave machines enrolled and reservations alone. -/
theorem run_write {now : Timestamp} {op : Operation} {db : Database} (hrun : HasRun db)
    (hop : op.writesHolds = false) : SameHolds db (op.run now db).db := by
  cases op with
  | reopen =>
    rw [Operation.run, openRegistry_of_hasRun now hrun]
    exact sameHolds_renameBootEvents db
  | setProfile mac profileName =>
    simp only [Operation.run, Outcome.db_map, setProfile]
    split
    · exact SameHolds.refl db
    · dsimp only
      exact sameHolds_updateMachine db _ _ _
  | updateHostname | updateLastIp | updateBootVersion | updateDiagnostics | updateHardware
  | setPendingReboot | setPowerCommand | setPduAlias =>
    exact (columnsWritten_run now db rfl).sameHolds
  | setPdudaemonHost host =>
    simp only [Operation.run, Outcome.done]
    exact sameHolds_setSetting now pdudaemonHost_ne_pinnedFlag host db
  | logBootEvent mac state detail => exact sameHolds_logBootEvent now mac state detail db
  | addAutoEnrolRule req => exact sameHolds_addAutoEnrolRule now req db
  | updateAutoEnrolRule id req => exact sameHolds_updateAutoEnrolRule id req db
  | removeAutoEnrolRule id =>
    exact ⟨fun _ => rfl, fun _ => rfl, fun h => ⟨h.pinned, h.hardwareSpecAdded⟩⟩
  | mint token mac =>
    simp only [Operation.run, Outcome.db_map, mint]
    split
    · exact ⟨fun _ => rfl, fun _ => rfl, fun h => ⟨h.pinned, h.hardwareSpecAdded⟩⟩
    · exact SameHolds.refl db
  | recordState token state =>
    simp only [Operation.run]
    cases h : recordState now token state db with
    | none => exact SameHolds.refl db
    | some result => exact sameHolds_recordState now token state db h
  | endSession token =>
    exact ⟨fun _ => rfl, fun _ => rfl, fun h => ⟨h.pinned, h.hardwareSpecAdded⟩⟩
  | enroll | remove | reserve | renew | release | pin | releaseToPool | reapExpired => cases hop

/-- The calls that may write a reservation, `remove` apart, write machines and reservations only. -/
theorem sameRest_run {now : Timestamp} {op : Operation} {db : Database}
    (hop : op.writesHolds = true) (hkept : ∀ mac, op ≠ .remove mac) :
    SameRest db (op.run now db).db := by
  cases op with
  | enroll args =>
    rw [Operation.run, Outcome.db_map]
    have h := enroll_cases now args db
    generalize enroll now args db = out at h
    cases h with
    | refused => exact SameRest.refl db
    | again | orphan => exact ⟨rfl, rfl, rfl, rfl, rfl⟩
    | new _ _ hinserted =>
      have h := hinserted.sameRest
      exact ⟨h.settings, h.rules, h.bootEvents, h.bootSessions, h.hardwareSpecAdded⟩
  | remove mac => exact absurd rfl (hkept mac)
  | reserve req =>
    rw [Operation.run, Outcome.db_map]
    have h := reserve_cases now req db
    generalize reserve now req db = out at h
    cases h with
    | refused => exact SameRest.refl db
    | overlong => exact sameRest_releaseReservations db now _
    | leased _ _ hleased => exact hleased.rest
  | renew mac ttlSeconds =>
    rw [Operation.run, Outcome.db_map]
    rcases renew_cases now mac ttlSeconds db with ⟨err, hrenew, -⟩ | ⟨-, hrenew⟩
    · rw [hrenew]
      exact SameRest.refl db
    · rw [hrenew]
      exact ⟨rfl, rfl, rfl, rfl, rfl⟩
  | release macs holder => exact sameRest_releaseTargets _ db
  | pin req =>
    rw [Operation.run, Outcome.db_map]
    rcases pin_cases now req db with
      ⟨-, message, hpin⟩ | ⟨-, hpin⟩ | ⟨m, db', -, -, hpinned, hpin⟩
    · rw [hpin]
      exact SameRest.refl db
    · rw [hpin]
      exact SameRest.refl db
    · rw [hpin]
      exact hpinned.rest
  | releaseToPool mac => exact sameRest_releaseReservations db now _
  | reapExpired =>
    obtain ⟨db', hreap, hreleased⟩ := reapExpired_effect now db
    rw [Operation.run, Outcome.db_map, hreap]
    exact hreleased.rest
  | _ => cases hop

end Write

end Fleetboot
