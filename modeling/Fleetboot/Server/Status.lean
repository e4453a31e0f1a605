import Fleetboot.Server.Power

/-!
# Status reports

`POST /status` of `app.py`: a machine that has booted reports a state under the token of its boot
session, and whatever else it knows of itself. A state that is no `BootState` is a custom one,
for which the session is only looked up.

* `noted_noteReport`: a report writes no reservation, setting or session, and of a machine's power
  wiring at most the hostname.
* `postStatus_cases`: a refusal, or the session's report is recorded and noted.
-/

set_option autoImplicit false

namespace Fleetboot

open Python Relational

/-! ## Requests -/

/-- `StatusReport`. -/
structure StatusReport where
  state : String
  detail : Option String := none
  hostname : Option String := none
  bootVersion : Option String := none
  diagnostics : Option String := none
  hardware : Option Fields := none

/-- The lengths that the model of the request demands. -/
def StatusReport.isValid (report : StatusReport) : Bool :=
  let atMost := fun (limit : Nat) (text : Option String) => decide ((text.getD "").length ≤ limit)
  decide (1 ≤ report.state.length) && decide (report.state.length ≤ 64) &&
    atMost 256 report.detail && atMost 253 report.hostname && atMost 128 report.bootVersion &&
    atMost 8192 report.diagnostics

structure StatusRequest where
  authorization : Option String
  clientHost : Option String
  report : StatusReport

/-- What the endpoint answers: 422, 401, or a `StatusAcknowledgement`. -/
inductive StatusAnswer
  | invalid
  | unauthorised
  | acknowledged (mac state : String) (pendingReboot : Bool)
  deriving DecidableEq

/-- `_BORING_HOSTNAMES`. -/
def boringHostnames : List String :=
  ["", "localhost", "(none)", "none", "debian", "debian-live", "fakemachine", "fleetboot",
    "fleetboot-client"]

section Post

variable [Unicode]

/-- `_extract_bearer_token`. -/
def extractBearerToken (header : Option String) : String :=
  let cs := stripChars (header.getD "").toList
  let scheme := String.ofList (cs.takeWhile fun c => !isSpace c)
  let rest := (cs.dropWhile fun c => !isSpace c).dropWhile isSpace
  if rest = [] ∨ lower scheme ≠ "bearer" then "" else strip (String.ofList rest)

/-- The hostname that a report makes the registry keep. -/
def StatusReport.keptHostname (report : StatusReport) : Option String :=
  let hostname := report.hostname.getD ""
  if hostname = "" ∨ lower hostname ∈ boringHostnames ∨ strip hostname = "" then none
  else some (strip hostname)

/-- Apply an update to a text that is there and not empty. -/
def whenTruthy (text : Option String) (update : String → Database → Database) (db : Database) :
    Database :=
  match truthyText text with
  | none => db
  | some text => update text db

/-- What the handler writes into the registry once it has the session. -/
def noteReport (now : Timestamp) (mac : String) (clientHost : Option String)
    (report : StatusReport) (db : Database) : Database :=
  let db := logBootEvent now mac report.state report.detail db
  let db := whenTruthy clientHost (updateLastIp now mac) db
  let db := whenTruthy report.hostname (fun hostname db =>
    if lower hostname ∈ boringHostnames then db else updateHostname now mac hostname db) db
  let db := whenTruthy report.bootVersion (updateBootVersion now mac) db
  let db := whenTruthy report.diagnostics (updateDiagnostics now mac) db
  match report.hardware.getD [] with
  | [] => db
  | hardware => updateHardware now mac hardware db

/-- The session of a report, and what recording its state leaves: a custom state is not
recorded. -/
def recordReport (now : Timestamp) (token state : String) (db : Database) :
    Option (BootSession × Database) :=
  match BootState.ofValue state with
  | some known => recordState now token known db
  | none => (lookupSession db token).map fun session => (session, db)

/-- `POST /status`. -/
def postStatus (now : Timestamp) (req : StatusRequest) (db : Database) :
    Database × StatusAnswer :=
  if req.report.isValid = false then (db, .invalid)
  else
    match recordReport now (extractBearerToken req.authorization) req.report.state db with
    | none => (db, .unauthorised)
    | some (session, db) =>
      let db := noteReport now session.mac req.clientHost req.report db
      (db, .acknowledged session.mac req.report.state
        (((db.lookup session.mac).map Machine.pendingReboot).getD false))

/-! ## What a report writes -/

omit [Unicode] in
def PowerWiring.withHostname (wiring : PowerWiring) (hostname : Option String) : PowerWiring :=
  { wiring with hostname := hostname.or wiring.hostname }

/-- A report of a MAC was noted: of the wiring only the hostname may be new. -/
structure Noted (mac : String) (hostname : Option String) (db db' : Database) : Prop where
  reservations : db'.reservations = db.reservations
  settings : db'.settings = db.settings
  bootSessions : db'.bootSessions = db.bootSessions
  wiring : ∀ k, (db'.machine k).map Machine.powerWiring =
    ((db.machine k).map Machine.powerWiring).map fun wiring =>
      if k = normaliseMac mac then wiring.withHostname hostname else wiring

theorem Noted.refl (mac : String) (db : Database) : Noted mac none db db :=
  { reservations := rfl
    settings := rfl
    bootSessions := rfl
    wiring := fun k => by cases db.machine k <;> simp [PowerWiring.withHostname] }

theorem Noted.trans {mac : String} {h h' : Option String} {db db' db'' : Database}
    (hfirst : Noted mac h db db') (hthen : Noted mac h' db' db'') :
    Noted mac (h'.or h) db db'' :=
  { reservations := hthen.reservations.trans hfirst.reservations
    settings := hthen.settings.trans hfirst.settings
    bootSessions := hthen.bootSessions.trans hfirst.bootSessions
    wiring := fun k => by
      rw [hthen.wiring, hfirst.wiring, Option.map_map]
      refine Option.map_congr fun wiring _ => ?_
      dsimp only [Function.comp]
      split
      · simp [PowerWiring.withHostname, Option.or_assoc]
      · rfl }

/-- An update of the row that leaves the wiring alone. -/
theorem noted_updateMachine (db : Database) (mac : String) (f : Machine → Machine)
    (hmac : ∀ m, (f m).mac = m.mac) (hostname : Option String)
    (hwiring : ∀ m, (f m).powerWiring = m.powerWiring.withHostname hostname) :
    Noted mac hostname db (db.updateMachine (normaliseMac mac) f hmac) := by
  refine ⟨rfl, rfl, rfl, fun k => ?_⟩
  rw [Database.machine_updateMachine]
  split
  · cases db.machine k <;> simp [hwiring]
  · exact (congrFun Option.map_id _).symm

theorem noted_logBootEvent (now : Timestamp) (mac state : String) (detail : Option String)
    (db : Database) : Noted mac none db (logBootEvent now mac state detail db) := by
  have hrefl := Noted.refl mac db
  unfold logBootEvent
  dsimp only
  split
  · exact ⟨rfl, rfl, rfl, hrefl.wiring⟩
  · split <;> exact ⟨rfl, rfl, rfl, hrefl.wiring⟩

theorem noted_whenTruthy {mac : String} {update : String → Database → Database}
    (hupdate : ∀ text db, Noted mac none db (update text db)) (text : Option String)
    (db : Database) : Noted mac none db (whenTruthy text update db) := by
  unfold whenTruthy
  split
  · exact Noted.refl mac db
  · exact hupdate _ db

theorem noted_updateLastIp (now : Timestamp) (mac ip : String) (db : Database) :
    Noted mac none db (updateLastIp now mac ip db) := by
  unfold updateLastIp
  dsimp only
  split
  · exact Noted.refl mac db
  · exact noted_updateMachine db mac _ _ none fun _ => rfl

theorem noted_updateBootVersion (now : Timestamp) (mac bootVersion : String) (db : Database) :
    Noted mac none db (updateBootVersion now mac bootVersion db) := by
  unfold updateBootVersion
  dsimp only
  split
  · exact Noted.refl mac db
  · exact noted_updateMachine db mac _ _ none fun _ => rfl

theorem noted_updateDiagnostics (now : Timestamp) (mac diagnostics : String) (db : Database) :
    Noted mac none db (updateDiagnostics now mac diagnostics db) := by
  unfold updateDiagnostics
  dsimp only
  split
  · exact Noted.refl mac db
  · exact noted_updateMachine db mac _ _ none fun _ => rfl

theorem noted_updateHardware (now : Timestamp) (mac : String) (hardware : Fields)
    (db : Database) : Noted mac none db (updateHardware now mac hardware db) :=
  noted_updateMachine db mac _ _ none fun _ => rfl

/-- The reported hostname is kept when it is of use. -/
theorem noted_hostname (now : Timestamp) (mac : String) (report : StatusReport) (db : Database) :
    Noted mac report.keptHostname db
      (whenTruthy report.hostname (fun hostname db =>
        if lower hostname ∈ boringHostnames then db else updateHostname now mac hostname db)
        db) := by
  have hkept : report.keptHostname = (truthyText report.hostname).bind fun hostname =>
      if lower hostname ∈ boringHostnames ∨ strip hostname = "" then none
      else some (strip hostname) := by
    unfold StatusReport.keptHostname truthyText
    cases report.hostname with
    | none => rfl
    | some hostname => by_cases hempty : hostname = "" <;> simp [hempty, Option.filter]
  rw [hkept]
  unfold whenTruthy
  cases truthyText report.hostname with
  | none => exact Noted.refl mac db
  | some hostname =>
    dsimp only
    rw [Option.bind_some]
    by_cases hboring : lower hostname ∈ boringHostnames
    · rw [if_pos hboring, if_pos (.inl hboring)]
      exact Noted.refl mac db
    · rw [if_neg hboring]
      unfold updateHostname
      dsimp only
      by_cases hblank : strip hostname = ""
      · rw [if_pos hblank, if_pos (.inr hblank)]
        exact Noted.refl mac db
      · rw [if_neg hblank, if_neg (by simp [hboring, hblank])]
        exact noted_updateMachine db mac _ _ _ fun _ => rfl

/-- **What the handler writes.** -/
theorem noted_noteReport (now : Timestamp) (mac : String) (clientHost : Option String)
    (report : StatusReport) (db : Database) :
    Noted mac report.keptHostname db (noteReport now mac clientHost report db) := by
  have hevent := noted_logBootEvent now mac report.state report.detail db
  have hip := hevent.trans (noted_whenTruthy (noted_updateLastIp now mac) clientHost _)
  have hname := hip.trans (noted_hostname now mac report _)
  have hversion := hname.trans
    (noted_whenTruthy (noted_updateBootVersion now mac) report.bootVersion _)
  have hdiagnostics := hversion.trans
    (noted_whenTruthy (noted_updateDiagnostics now mac) report.diagnostics _)
  rw [Option.none_or, Option.none_or, Option.or_none, Option.or_none] at hdiagnostics
  unfold noteReport
  dsimp only
  cases report.hardware.getD [] with
  | nil => exact hdiagnostics
  | cons field fields =>
    have hhardware := hdiagnostics.trans (noted_updateHardware now mac (field :: fields) _)
    rw [Option.none_or] at hhardware
    exact hhardware

omit [Unicode] in
/-- What recording a report leaves besides the session's own row. -/
theorem recordReport_some {now : Timestamp} {token state : String} {db recorded : Database}
    {session : BootSession} (h : recordReport now token state db = some (session, recorded)) :
    (lookupSession db token).map BootSession.mac = some session.mac ∧
      recorded = { db with bootSessions := recorded.bootSessions } := by
  unfold recordReport at h
  split at h
  · obtain ⟨row, hrow, heq⟩ := Option.map_eq_some_iff.mp h
    cases heq
    refine ⟨?_, rfl⟩
    rw [lookupSession, hrow]
    rfl
  · obtain ⟨found, hfound, heq⟩ := Option.map_eq_some_iff.mp h
    cases heq
    rw [hfound]
    exact ⟨rfl, rfl⟩

omit [Unicode] in
theorem recordReport_none {now : Timestamp} {token state : String} {db : Database}
    (h : recordReport now token state db = none) : lookupSession db token = none := by
  unfold recordReport at h
  split at h
  · have hrow : db.bootSessions.lookup token = none := Option.map_eq_none_iff.mp h
    rw [lookupSession, hrow]
    rfl
  · exact Option.map_eq_none_iff.mp h

/-- The session whose token a request bears. -/
def StatusRequest.session (req : StatusRequest) (db : Database) : Option BootSession :=
  lookupSession db (extractBearerToken req.authorization)

/-- What a report leaves, and its answer. -/
inductive Posted (now : Timestamp) (req : StatusRequest) (db : Database) :
    Database × StatusAnswer → Prop
  | refused {answer : StatusAnswer} :
      req.report.isValid = false ∨ req.session db = none →
      (∀ mac state pending, answer ≠ .acknowledged mac state pending) →
      Posted now req db (db, answer)
  | accepted {session : BootSession} {recorded db' : Database} {pending : Bool} :
      req.report.isValid = true →
      recordReport now (extractBearerToken req.authorization) req.report.state db =
        some (session, recorded) →
      Noted session.mac req.report.keptHostname recorded db' →
      Posted now req db (db', .acknowledged session.mac req.report.state pending)

/-- **`POST /status`.** -/
theorem postStatus_cases (now : Timestamp) (req : StatusRequest) (db : Database) :
    Posted now req db (postStatus now req db) := by
  unfold postStatus
  split
  · rename_i hinvalid
    exact .refused (.inl hinvalid) (by simp)
  · rename_i hvalid
    split
    · rename_i hrecord
      exact .refused (.inr (recordReport_none hrecord)) (by simp)
    · rename_i session recorded hrecord
      exact .accepted (by simpa using hvalid) hrecord
        (noted_noteReport now session.mac req.clientHost req.report recorded)

end Post

end Fleetboot
