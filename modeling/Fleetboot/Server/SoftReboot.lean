import Fleetboot.Server.Mcp
import Fleetboot.Server.Status
import Mathlib.Data.List.Dedup
import Mathlib.Data.List.Perm.Subperm

/-!
# The soft-reboot signal

An operator arms `pending_reboot`, every status reply carries it, a reporter that sees it reboots
its machine, and the mint for the next boot clears it. Between these stand a network that delays
and reorders, a `mint_session` of two steps, and any number of reporters.

* `postStatus_eq`, `mintSession`: the two endpoints, cut where other requests may come between.
* `RebootStep`: one machine, the server, and what is in flight between them.
* `Tracked.step`: the invariant, which connects the flag with what is in flight.
-/

set_option autoImplicit false

namespace Fleetboot

open Python Relational Transition

section Protocol

variable [Unicode]

/-! ## The endpoints in two steps -/

/-- The flag that the reports of a MAC are answered with. -/
def pendingReboot (db : Database) (mac : String) : Bool :=
  ((db.lookup mac).map Machine.pendingReboot).getD false

/-- `POST /status` up to the reading of the flag: the session, or an answer already. -/
def beginStatus (now : Timestamp) (req : StatusRequest) (db : Database) :
    Database × Except StatusAnswer BootSession :=
  if req.report.isValid = false then (db, .error .invalid)
  else
    match recordReport now (extractBearerToken req.authorization) req.report.state db with
    | none => (db, .error .unauthorised)
    | some (session, db) => (noteReport now session.mac req.clientHost req.report db, .ok session)

/-- The rest of it. -/
def finishStatus (session : BootSession) (state : String) (db : Database) : StatusAnswer :=
  .acknowledged session.mac state (pendingReboot db session.mac)

/-- With nothing in between the two steps are the endpoint. -/
theorem postStatus_eq (now : Timestamp) (req : StatusRequest) (db : Database) :
    postStatus now req db = ((beginStatus now req db).1,
      match (beginStatus now req db).2 with
      | .error answer => answer
      | .ok session => finishStatus session req.report.state (beginStatus now req db).1) := by
  unfold postStatus beginStatus
  split
  · rfl
  · cases recordReport now (extractBearerToken req.authorization) req.report.state db <;> rfl

structure MintRequest where
  authorization : Option String
  mac : String

/-- What `POST /sessions` answers: 503, 401, a failure of the server, or a `MintResponse`. -/
inductive MintAnswer
  | notConfigured
  | unauthorised
  | failed (err : Exception)
  | minted (token mac : String)

/-- `mint_session` up to the mint: the session, or an answer already. -/
def beginMint (mintSecret : Option String) (now : Timestamp) (token : String) (req : MintRequest)
    (db : Database) : Database × Except MintAnswer BootSession :=
  match mintSecret with
  | none => (db, .error .notConfigured)
  | some secret =>
    let presented := extractBearerToken req.authorization
    if presented = "" then (db, .error .unauthorised)
    else match compareDigest presented secret with
      | .error err => (db, .error (.failed err))
      | .ok false => (db, .error .unauthorised)
      | .ok true =>
        let out := mint now token req.mac db
        (out.db, match out.value with
          | .ok session => .ok session
          | .error err => .error (.failed err))

/-- The rest of it: the signal has been consumed. -/
def finishMint (session : BootSession) (db : Database) : Database × MintAnswer :=
  (setPendingReboot session.mac false db, .minted session.token session.mac)

/-- `mint_session`. -/
def mintSession (mintSecret : Option String) (now : Timestamp) (token : String) (req : MintRequest)
    (db : Database) : Database × MintAnswer :=
  match beginMint mintSecret now token req db with
  | (db, .error answer) => (db, answer)
  | (db, .ok session) => finishMint session db

/-! ## What the steps do to the flag -/

/-- No flag has changed. -/
def SamePending (db db' : Database) : Prop :=
  ∀ k, (db'.machine k).map Machine.pendingReboot = (db.machine k).map Machine.pendingReboot

section Flag

variable {db db' db'' : Database} {mac : String}

omit [Unicode] in
theorem SamePending.refl (db : Database) : SamePending db db := fun _ => rfl

omit [Unicode] in
theorem SamePending.trans (h : SamePending db db') (h' : SamePending db' db'') :
    SamePending db db'' := fun k => (h' k).trans (h k)

theorem SamePending.pendingReboot_eq (h : SamePending db db') (mac : String) :
    pendingReboot db' mac = pendingReboot db mac := by
  unfold pendingReboot Database.lookup
  rw [h]

omit [Unicode] in
theorem samePending_updateMachine (db : Database) (mac : String) (f : Machine → Machine)
    (hmac : ∀ m, (f m).mac = m.mac) (hpending : ∀ m, (f m).pendingReboot = m.pendingReboot) :
    SamePending db (db.updateMachine mac f hmac) := by
  intro k
  rw [Database.machine_updateMachine]
  split
  · cases db.machine k <;> simp [hpending]
  · rfl

theorem samePending_updateLastIp (now : Timestamp) (mac ip : String) (db : Database) :
    SamePending db (updateLastIp now mac ip db) := by
  unfold updateLastIp
  dsimp only
  split
  · exact .refl db
  · exact samePending_updateMachine _ _ _ _ fun _ => rfl

theorem samePending_updateHostname (now : Timestamp) (mac hostname : String) (db : Database) :
    SamePending db (if lower hostname ∈ boringHostnames then db
      else updateHostname now mac hostname db) := by
  split
  · exact .refl db
  · unfold updateHostname
    dsimp only
    split
    · exact .refl db
    · exact samePending_updateMachine _ _ _ _ fun _ => rfl

theorem samePending_updateBootVersion (now : Timestamp) (mac version : String) (db : Database) :
    SamePending db (updateBootVersion now mac version db) := by
  unfold updateBootVersion
  dsimp only
  split
  · exact .refl db
  · exact samePending_updateMachine _ _ _ _ fun _ => rfl

theorem samePending_updateDiagnostics (now : Timestamp) (mac text : String) (db : Database) :
    SamePending db (updateDiagnostics now mac text db) := by
  unfold updateDiagnostics
  dsimp only
  split
  · exact .refl db
  · exact samePending_updateMachine _ _ _ _ fun _ => rfl

theorem samePending_logBootEvent (now : Timestamp) (mac state : String) (detail : Option String)
    (db : Database) : SamePending db (logBootEvent now mac state detail db) := by
  unfold logBootEvent
  dsimp only
  split
  · exact .refl db
  · split <;> exact .refl db

omit [Unicode] in
theorem samePending_whenTruthy {update : String → Database → Database}
    (hupdate : ∀ text db, SamePending db (update text db)) (text : Option String)
    (db : Database) : SamePending db (whenTruthy text update db) := by
  unfold whenTruthy
  split
  · exact .refl db
  · exact hupdate _ db

/-- A report is noted in other columns. -/
theorem samePending_noteReport (now : Timestamp) (mac : String) (clientHost : Option String)
    (report : StatusReport) (db : Database) :
    SamePending db (noteReport now mac clientHost report db) := by
  have hevent := samePending_logBootEvent now mac report.state report.detail db
  have hip := hevent.trans
    (samePending_whenTruthy (samePending_updateLastIp now mac) clientHost _)
  have hname := hip.trans
    (samePending_whenTruthy (samePending_updateHostname now mac) report.hostname _)
  have hversion := hname.trans
    (samePending_whenTruthy (samePending_updateBootVersion now mac) report.bootVersion _)
  have hdiagnostics := hversion.trans
    (samePending_whenTruthy (samePending_updateDiagnostics now mac) report.diagnostics _)
  unfold noteReport
  dsimp only
  cases report.hardware.getD [] with
  | nil => exact hdiagnostics
  | cons field fields =>
    exact hdiagnostics.trans (samePending_updateMachine _ _ _ _ fun _ => rfl)

/-- What `set_pending_reboot` leaves of the flag of a MAC. -/
theorem pendingReboot_setPendingReboot (mac mac' : String) (pending : Bool) (db : Database) :
    pendingReboot (setPendingReboot mac' pending db) mac =
      if normaliseMac mac = normaliseMac mac' then pending && (db.lookup mac).isSome
      else pendingReboot db mac := by
  unfold pendingReboot setPendingReboot Database.lookup
  rw [Database.machine_updateMachine]
  split
  · cases db.machine (normaliseMac mac) <;> simp
  · rfl

end Flag

/-! ## What the steps do to the sessions -/

/-- The MAC that a token stands for. -/
def sessionMac (db : Database) (token : String) : Option String :=
  (db.bootSessions.lookup token).map SessionRow.mac

def StatusAnswer.Signals (answer : StatusAnswer) : Prop :=
  ∃ mac state, answer = .acknowledged mac state true

section Sessions

variable {db db' : Database} {now : Timestamp} {token : String}

/-- A mint is refused, or a session is inserted. -/
theorem beginMint_cases (mintSecret : Option String) (now : Timestamp) (token : String)
    (req : MintRequest) (db : Database) :
    (∃ answer, beginMint mintSecret now token req db = (db, .error answer) ∧
        ∀ token' mac, answer ≠ .minted token' mac) ∨
      ∃ rows, db.bootSessions.insert (mintedRow now token req.mac) = some rows ∧
        beginMint mintSecret now token req db = ({ db with bootSessions := rows },
          .ok (mintedRow now token req.mac).toSession) := by
  unfold beginMint
  cases mintSecret with
  | none => exact .inl ⟨_, rfl, fun _ _ h => by cases h⟩
  | some secret =>
    dsimp only
    split
    · exact .inl ⟨_, rfl, fun _ _ h => by cases h⟩
    · cases compareDigest (extractBearerToken req.authorization) secret with
      | error err => exact .inl ⟨_, rfl, fun _ _ h => by cases h⟩
      | ok same =>
        cases same with
        | false => exact .inl ⟨_, rfl, fun _ _ h => by cases h⟩
        | true =>
          dsimp only
          cases hinsert : db.bootSessions.insert (mintedRow now token req.mac) with
          | none =>
            have hlive : db.bootSessions.lookup token ≠ none := fun hnone => by
              have hsome := (insert_mintedRow_isSome_iff now token req.mac db).mpr hnone
              rw [hinsert] at hsome
              cases hsome
            rw [mint_live req.mac hlive]
            exact .inl ⟨_, rfl, fun _ _ h => by cases h⟩
          | some rows =>
            have hmint : mint now token req.mac db = ⟨{ db with bootSessions := rows },
                .ok (mintedRow now token req.mac).toSession⟩ := by
              unfold mint
              unfold mintedRow at hinsert
              dsimp only
              rw [hinsert]
              rfl
            rw [hmint]
            exact .inr ⟨rows, rfl, rfl⟩

theorem beginMint_ok {mintSecret : Option String} {req : MintRequest} {session : BootSession}
    (h : beginMint mintSecret now token req db = (db', .ok session)) :
    session.token = token ∧ session.mac = normaliseMac req.mac ∧
      sessionMac db' token = some (normaliseMac req.mac) ∧
      (∀ token' mac, sessionMac db token' = some mac → sessionMac db' token' = some mac) ∧
      SamePending db db' := by
  rcases beginMint_cases mintSecret now token req db with
    ⟨answer, hrefused, -⟩ | ⟨rows, hinsert, hminted⟩
  · rw [hrefused] at h
    cases h
  · rw [hminted] at h
    cases h
    have hlookup := fun token' => Table.lookup_insert hinsert rfl token'
    refine ⟨rfl, rfl, ?_, ?_, .refl _⟩
    · change (rows.lookup token).map SessionRow.mac = _
      rw [hlookup, if_pos (show (mintedRow now token req.mac).token = token from rfl)]
      rfl
    · intro token' mac hmac
      change (rows.lookup token').map SessionRow.mac = _
      rw [hlookup]
      split
      · rename_i hsame
        -- A token that has a session is refused.
        have hnone := (insert_mintedRow_isSome_iff now token req.mac db).mp
          (Option.isSome_of_eq_some hinsert)
        obtain rfl : token = token' := hsame
        unfold sessionMac at hmac
        rw [hnone] at hmac
        cases hmac
      · exact hmac

theorem beginMint_error {mintSecret : Option String} {req : MintRequest} {answer : MintAnswer}
    (h : beginMint mintSecret now token req db = (db', .error answer)) :
    db' = db ∧ ∀ token' mac, answer ≠ .minted token' mac := by
  rcases beginMint_cases mintSecret now token req db with
    ⟨answer', hrefused, hanswer⟩ | ⟨rows, hinsert, hminted⟩
  · rw [hrefused] at h
    cases h
    exact ⟨rfl, hanswer⟩
  · rw [hminted] at h
    cases h

omit [Unicode] in
theorem sessionMac_recordReport {state : String} {session : BootSession}
    (h : recordReport now token state db = some (session, db')) :
    sessionMac db token = some session.mac ∧
      ∀ token', sessionMac db' token' = sessionMac db token' := by
  unfold recordReport at h
  split at h
  · obtain ⟨row, hrow, heq⟩ := Option.map_eq_some_iff.mp h
    cases heq
    refine ⟨by rw [sessionMac, hrow]; rfl, fun token' => ?_⟩
    unfold sessionMac
    dsimp only
    rw [Table.lookup_update]
    cases db.bootSessions.lookup token' with
    | none => rfl
    | some row' =>
      simp only [Option.map_some, Option.filter, if_true]
      split <;> rfl
  · obtain ⟨found, hfound, heq⟩ := Option.map_eq_some_iff.mp h
    cases heq
    obtain ⟨row, hrow, rfl⟩ := Option.map_eq_some_iff.mp hfound
    exact ⟨by rw [sessionMac, hrow]; rfl, fun _ => rfl⟩

theorem beginStatus_ok {req : StatusRequest} {session : BootSession}
    (h : beginStatus now req db = (db', .ok session)) :
    sessionMac db (extractBearerToken req.authorization) = some session.mac ∧
      (∀ token, sessionMac db' token = sessionMac db token) ∧ SamePending db db' := by
  unfold beginStatus at h
  split at h
  · cases h
  · cases hrecord : recordReport now (extractBearerToken req.authorization) req.report.state db with
    | none =>
      rw [hrecord] at h
      cases h
    | some result =>
      obtain ⟨found, recorded⟩ := result
      rw [hrecord] at h
      cases h
      obtain ⟨hmac, hsessions⟩ := sessionMac_recordReport hrecord
      have hnoted := noted_noteReport now session.mac req.clientHost req.report recorded
      have hsame : SamePending db recorded := by
        intro k
        rw [(recordReport_some hrecord).2]
        rfl
      refine ⟨hmac, fun token => ?_, hsame.trans (samePending_noteReport _ _ _ _ _)⟩
      unfold sessionMac at hsessions ⊢
      rw [hnoted.bootSessions, hsessions]

theorem beginStatus_error {req : StatusRequest} {answer : StatusAnswer}
    (h : beginStatus now req db = (db', .error answer)) : db' = db ∧ ¬ answer.Signals := by
  unfold beginStatus at h
  split at h
  · cases h
    exact ⟨rfl, fun ⟨_, _, hsignals⟩ => by cases hsignals⟩
  · split at h
    · cases h
      exact ⟨rfl, fun ⟨_, _, hsignals⟩ => by cases hsignals⟩
    · cases h

end Sessions

/-! ## One machine and what is in flight -/

/-- The server's files, the machine, and the messages and handlers under way. Every one of these
belongs to a boot of the machine. -/
structure SoftReboot where
  db : Database
  /-- The boot that the machine is in, or is about to start. -/
  boot : Nat
  /-- Its token, once it runs. -/
  token : Option String
  mintRequests : List (Nat × MintRequest)
  minting : List (Nat × BootSession)
  mintReplies : List (Nat × MintAnswer)
  reports : List (Nat × StatusRequest)
  reporting : List (Nat × BootSession × String)
  replies : List (Nat × StatusAnswer)
  /-- The reporters that are about to reboot the machine. -/
  signalled : List Nat

inductive RebootAction
  /-- `set_pending_reboot` of an operator or a failed power command, for any machine. -/
  | setPending (mac : String) (pending : Bool)
  /-- A session is asked for. -/
  | requestMint (req : MintRequest)
  | beginMint (now : Timestamp) (token : String) (boot : Nat) (req : MintRequest)
  | finishMint (boot : Nat) (session : BootSession)
  /-- The machine boots with the token of a reply. -/
  | start (token : String)
  /-- A reporter posts. -/
  | report (req : StatusRequest)
  | beginStatus (now : Timestamp) (boot : Nat) (req : StatusRequest)
  | finishStatus (boot : Nat) (session : BootSession) (state : String)
  /-- A reporter reads its reply. -/
  | deliver (answer : StatusAnswer)
  /-- `systemctl reboot` on the signal. -/
  | act
  /-- The machine goes down, for whatever reason, and tries to boot again. -/
  | leave

/-- An action, and the boot of the machine at the time. -/
structure RebootEvent where
  boot : Nat
  action : RebootAction

/-- A reply reaches only the boot that sent the request, and a boot starts with the token of a
mint that was made for it. Whatever is in flight may be taken in any order, or stay there. -/
inductive RebootStep (mintSecret : Option String) (mac : String) (s : SoftReboot) :
    RebootEvent → SoftReboot → Prop
  | setPending (mac' : String) (pending : Bool) :
      RebootStep mintSecret mac s ⟨s.boot, .setPending mac' pending⟩
        { s with db := setPendingReboot mac' pending s.db }
  | requestMint {req : MintRequest} : normaliseMac req.mac = normaliseMac mac →
      RebootStep mintSecret mac s ⟨s.boot, .requestMint req⟩
        { s with mintRequests := (s.boot, req) :: s.mintRequests }
  | mint {now : Timestamp} {token : String} {boot : Nat} {req : MintRequest}
      {before after : List (Nat × MintRequest)} {db : Database} {session : BootSession} :
      s.mintRequests = before ++ (boot, req) :: after →
      beginMint mintSecret now token req s.db = (db, .ok session) →
      RebootStep mintSecret mac s ⟨s.boot, .beginMint now token boot req⟩
        { s with db, mintRequests := before ++ after, minting := (boot, session) :: s.minting }
  | mintRefused {now : Timestamp} {token : String} {boot : Nat} {req : MintRequest}
      {before after : List (Nat × MintRequest)} {db : Database} {answer : MintAnswer} :
      s.mintRequests = before ++ (boot, req) :: after →
      beginMint mintSecret now token req s.db = (db, .error answer) →
      RebootStep mintSecret mac s ⟨s.boot, .beginMint now token boot req⟩
        { s with
          db
          mintRequests := before ++ after
          mintReplies := (boot, answer) :: s.mintReplies }
  | finishMint {boot : Nat} {session : BootSession} {before after : List (Nat × BootSession)} :
      s.minting = before ++ (boot, session) :: after →
      RebootStep mintSecret mac s ⟨s.boot, .finishMint boot session⟩
        { s with
          db := (finishMint session s.db).1
          minting := before ++ after
          mintReplies := (boot, (finishMint session s.db).2) :: s.mintReplies }
  | start {token mac' : String} : s.token = none → (s.boot, .minted token mac') ∈ s.mintReplies →
      RebootStep mintSecret mac s ⟨s.boot, .start token⟩ { s with token := some token }
  | report {req : StatusRequest} : s.token = some (extractBearerToken req.authorization) →
      RebootStep mintSecret mac s ⟨s.boot, .report req⟩
        { s with reports := (s.boot, req) :: s.reports }
  | status {now : Timestamp} {boot : Nat} {req : StatusRequest}
      {before after : List (Nat × StatusRequest)} {db : Database} {session : BootSession} :
      s.reports = before ++ (boot, req) :: after →
      beginStatus now req s.db = (db, .ok session) →
      RebootStep mintSecret mac s ⟨s.boot, .beginStatus now boot req⟩
        { s with
          db
          reports := before ++ after
          reporting := (boot, session, req.report.state) :: s.reporting }
  | statusRefused {now : Timestamp} {boot : Nat} {req : StatusRequest}
      {before after : List (Nat × StatusRequest)} {db : Database} {answer : StatusAnswer} :
      s.reports = before ++ (boot, req) :: after →
      beginStatus now req s.db = (db, .error answer) →
      RebootStep mintSecret mac s ⟨s.boot, .beginStatus now boot req⟩
        { s with db, reports := before ++ after, replies := (boot, answer) :: s.replies }
  | finishStatus {boot : Nat} {session : BootSession} {state : String}
      {before after : List (Nat × BootSession × String)} :
      s.reporting = before ++ (boot, session, state) :: after →
      RebootStep mintSecret mac s ⟨s.boot, .finishStatus boot session state⟩
        { s with
          reporting := before ++ after
          replies := (boot, finishStatus session state s.db) :: s.replies }
  | deliver {answer : StatusAnswer} {before after : List (Nat × StatusAnswer)} {token : String} :
      s.replies = before ++ (s.boot, answer) :: after → s.token = some token →
      ¬ answer.Signals →
      RebootStep mintSecret mac s ⟨s.boot, .deliver answer⟩ { s with replies := before ++ after }
  | signal {answer : StatusAnswer} {before after : List (Nat × StatusAnswer)} {token : String} :
      s.replies = before ++ (s.boot, answer) :: after → s.token = some token →
      answer.Signals →
      RebootStep mintSecret mac s ⟨s.boot, .deliver answer⟩
        { s with replies := before ++ after, signalled := s.boot :: s.signalled }
  | act {token : String} : s.boot ∈ s.signalled → s.token = some token →
      RebootStep mintSecret mac s ⟨s.boot, .act⟩ s
  | leave : RebootStep mintSecret mac s ⟨s.boot, .leave⟩
      { s with boot := s.boot + 1, token := none }

/-- The machine is off and nothing is in flight. -/
structure SoftReboot.Idle (s : SoftReboot) : Prop where
  token : s.token = none
  mintRequests : s.mintRequests = []
  minting : s.minting = []
  mintReplies : s.mintReplies = []
  reports : s.reports = []
  reporting : s.reporting = []
  replies : s.replies = []
  signalled : s.signalled = []

/-! ## What a run has brought -/

/-- The signal of the machine is armed. -/
def RebootEvent.arms (mac : String) (event : RebootEvent) : Bool :=
  match event.action with
  | .setPending mac' pending => pending && normaliseMac mac' == normaliseMac mac
  | _ => false

omit [Unicode] in
/-- A reporter reboots the machine. -/
def RebootEvent.acts (event : RebootEvent) : Bool :=
  match event.action with
  | .act => true
  | _ => false

/-- The mint of the token for the boot is completed. -/
def RebootEvent.Mints (boot : Nat) (token : String) (event : RebootEvent) : Prop :=
  ∃ session, event.action = .finishMint boot session ∧ session.token = token

/-- The signal was armed during the boot, after the mint of its token. -/
def ArmedSince (mac : String) (events : List RebootEvent) (boot : Nat) (token : String) : Prop :=
  ∃ before minted after armed, events = before ++ minted :: after ∧ minted.Mints boot token ∧
    armed ∈ after ∧ armed.boot = boot ∧ armed.arms mac = true

/-- After every completed mint the signal was armed again, for the present boot during it. -/
def ArmedAgain (mac : String) (events : List RebootEvent) (boot : Nat) : Prop :=
  ∀ before minted after boot' token, events = before ++ minted :: after →
    minted.Mints boot' token →
      ∃ armed ∈ after, armed.arms mac = true ∧ (boot' = boot → armed.boot = boot')

/-- The boots that ended on the signal. -/
def endedBoots (events : List RebootEvent) : List Nat :=
  ((events.filter RebootEvent.acts).map RebootEvent.boot).dedup

section History

variable {mac token : String} {boot : Nat} {events : List RebootEvent} {event : RebootEvent}

theorem ArmedSince.snoc (h : ArmedSince mac events boot token) (event : RebootEvent) :
    ArmedSince mac (events ++ [event]) boot token := by
  obtain ⟨before, minted, after, armed, rfl, hminted, harmed, hboot, harms⟩ := h
  exact ⟨before, minted, after ++ [event], armed, by simp, hminted,
    List.mem_append_left _ harmed, hboot, harms⟩

theorem ArmedAgain.armedSince (h : ArmedAgain mac events boot) {minted : RebootEvent}
    (hmem : minted ∈ events) (hminted : minted.Mints boot token) :
    ArmedSince mac events boot token := by
  obtain ⟨before, after, rfl⟩ := List.append_of_mem hmem
  obtain ⟨armed, harmed, harms, hboot⟩ := h before minted after boot token rfl hminted
  exact ⟨before, minted, after, armed, rfl, hminted, harmed, hboot rfl, harms⟩

theorem ArmedAgain.snoc (h : ArmedAgain mac events boot)
    (hevent : ∀ boot token, ¬ event.Mints boot token) :
    ArmedAgain mac (events ++ [event]) boot := by
  intro before minted after boot' token hsplit hminted
  rcases concat_eq_split hsplit with ⟨rfl, -⟩ | ⟨after', rfl, hbefore⟩
  · exact absurd hminted (hevent boot' token)
  · obtain ⟨armed, harmed, harms⟩ := h before minted after' boot' token hbefore hminted
    exact ⟨armed, List.mem_append_left _ harmed, harms⟩

/-- Arming, for the boot in which it happens. -/
theorem ArmedAgain.of_arms (harms : event.arms mac = true)
    (hevent : ∀ boot token, ¬ event.Mints boot token) :
    ArmedAgain mac (events ++ [event]) event.boot := by
  intro before minted after boot' token hsplit hminted
  rcases concat_eq_split hsplit with ⟨rfl, -⟩ | ⟨after', rfl, -⟩
  · exact absurd hminted (hevent boot' token)
  · exact ⟨event, by simp, harms, fun hboot => hboot.symm⟩

end History

/-! ## The invariant -/

/-- What is in flight belongs to boots up to the present one and to sessions of the machine. If
the present boot could see the signal, now or in a reply under way, it was armed since the mint of
its token. -/
structure Tracked (mac : String) (s : SoftReboot) (events : List RebootEvent) : Prop where
  mintRequests : ∀ p ∈ s.mintRequests, p.1 ≤ s.boot ∧ normaliseMac p.2.mac = normaliseMac mac
  minting : ∀ p ∈ s.minting, p.1 ≤ s.boot ∧ p.2.mac = normaliseMac mac ∧
    sessionMac s.db p.2.token = some (normaliseMac mac)
  mintReplies : ∀ p ∈ s.mintReplies, ∀ token mac', p.2 = .minted token mac' →
    sessionMac s.db token = some (normaliseMac mac) ∧ ∃ event ∈ events, event.Mints p.1 token
  mints : ∀ event ∈ events, ∀ boot token, event.Mints boot token → boot ≤ s.boot
  running : ∀ token, s.token = some token → sessionMac s.db token = some (normaliseMac mac) ∧
    (∃ event ∈ events, event.Mints s.boot token) ∧ ⟨s.boot, .start token⟩ ∈ events
  reports : ∀ p ∈ s.reports, p.1 ≤ s.boot ∧
    sessionMac s.db (extractBearerToken p.2.authorization) = some (normaliseMac mac) ∧
      (p.1 = s.boot → s.token ≠ none)
  reporting : ∀ p ∈ s.reporting, p.1 ≤ s.boot ∧ p.2.1.mac = normaliseMac mac ∧
    (p.1 = s.boot → s.token ≠ none)
  replies : ∀ p ∈ s.replies, p.1 ≤ s.boot ∧ (p.1 = s.boot → p.2.Signals →
    ∃ token, s.token = some token ∧ ArmedSince mac events s.boot token)
  signalled : ∀ boot ∈ s.signalled, boot ≤ s.boot ∧ (boot = s.boot →
    ∃ token, s.token = some token ∧ ArmedSince mac events s.boot token)
  flag : pendingReboot s.db mac = true → ArmedAgain mac events s.boot

namespace Tracked

variable {mac : String} {s : SoftReboot} {events : List RebootEvent}

theorem of_idle (h : s.Idle) : Tracked mac s [] :=
  { mintRequests := by simp [h.mintRequests]
    minting := by simp [h.minting]
    mintReplies := by simp [h.mintReplies]
    mints := by simp
    running := by simp [h.token]
    reports := by simp [h.reports]
    reporting := by simp [h.reporting]
    replies := by simp [h.replies]
    signalled := by simp [h.signalled]
    flag := fun _ before minted after boot token hsplit => by simp at hsplit }

/-- The databases of the server's steps know the sessions of before, and no new signal. -/
theorem of_db (h : Tracked mac s events) {db : Database}
    (hsessions : ∀ token m, sessionMac s.db token = some m → sessionMac db token = some m)
    (hflag : pendingReboot db mac = true → pendingReboot s.db mac = true) :
    Tracked mac { s with db } events :=
  { h with
    minting := fun p hp => ⟨(h.minting p hp).1, (h.minting p hp).2.1,
      hsessions _ _ (h.minting p hp).2.2⟩
    mintReplies := fun p hp token mac' hanswer =>
      ⟨hsessions _ _ (h.mintReplies p hp token mac' hanswer).1,
        (h.mintReplies p hp token mac' hanswer).2⟩
    running := fun token htoken => ⟨hsessions _ _ (h.running token htoken).1,
      (h.running token htoken).2⟩
    reports := fun p hp => ⟨(h.reports p hp).1, hsessions _ _ (h.reports p hp).2.1,
      (h.reports p hp).2.2⟩
    flag := fun hpending => h.flag (hflag hpending) }

/-- All but the flag, which may only be on if the signal was armed again. -/
theorem snoc (h : Tracked mac s events) {event : RebootEvent}
    (hmints : ∀ boot token, event.Mints boot token → boot ≤ s.boot)
    (hflag : pendingReboot s.db mac = true → ArmedAgain mac (events ++ [event]) s.boot) :
    Tracked mac s (events ++ [event]) := by
  have hkept : ∀ boot token, (∃ e ∈ events, e.Mints boot token) →
      ∃ e ∈ events ++ [event], e.Mints boot token :=
    fun _ _ ⟨e, he, hminted⟩ => ⟨e, List.mem_append_left _ he, hminted⟩
  refine
    { h with
      mintReplies := fun p hp token mac' hanswer => ?_
      mints := fun e he boot token hminted => ?_
      running := fun token htoken => ?_
      replies := fun p hp => ⟨(h.replies p hp).1, fun hboot hsignals => ?_⟩
      signalled := fun boot hb => ⟨(h.signalled boot hb).1, fun hboot => ?_⟩
      flag := hflag }
  · obtain ⟨hmac, hminted⟩ := h.mintReplies p hp token mac' hanswer
    exact ⟨hmac, hkept _ _ hminted⟩
  · rcases List.mem_append.mp he with hold | hnew
    · exact h.mints e hold boot token hminted
    · rw [List.mem_singleton.mp hnew] at hminted
      exact hmints boot token hminted
  · obtain ⟨hmac, hminted, hstart⟩ := h.running token htoken
    exact ⟨hmac, hkept _ _ hminted, List.mem_append_left _ hstart⟩
  · obtain ⟨token, htoken, harmed⟩ := (h.replies p hp).2 hboot hsignals
    exact ⟨token, htoken, harmed.snoc event⟩
  · obtain ⟨token, htoken, harmed⟩ := (h.signalled boot hb).2 hboot
    exact ⟨token, htoken, harmed.snoc event⟩

/-- An event that completes no mint. -/
theorem quiet (h : Tracked mac s events) {event : RebootEvent}
    (hevent : ∀ boot session, event.action ≠ .finishMint boot session) :
    Tracked mac s (events ++ [event]) := by
  have hmints : ∀ boot token, ¬ event.Mints boot token :=
    fun boot _ ⟨session, haction, _⟩ => hevent boot session haction
  exact h.snoc (fun boot token hminted => absurd hminted (hmints boot token))
    fun hpending => (h.flag hpending).snoc hmints

theorem setPending (h : Tracked mac s events) (mac' : String) (pending : Bool) :
    Tracked mac { s with db := setPendingReboot mac' pending s.db }
      (events ++ [⟨s.boot, .setPending mac' pending⟩]) := by
  by_cases harms : RebootEvent.arms mac ⟨s.boot, .setPending mac' pending⟩ = true
  · have hevent : ∀ boot token,
        ¬ RebootEvent.Mints boot token ⟨s.boot, .setPending mac' pending⟩ := by
      rintro boot token ⟨session, haction, -⟩
      cases haction
    have hsnoc := @quiet _ mac s events h ⟨s.boot, .setPending mac' pending⟩ (by simp)
    exact { hsnoc with flag := fun _ => .of_arms harms hevent }
  · have hdb : Tracked mac { s with db := setPendingReboot mac' pending s.db } events := by
      refine h.of_db (fun _ _ hmac => hmac) fun hpending => ?_
      rw [pendingReboot_setPendingReboot] at hpending
      split at hpending
      · rename_i hsame
        rw [Bool.and_eq_true] at hpending
        simp [RebootEvent.arms, hpending.1, hsame] at harms
      · exact hpending
    exact hdb.quiet (by simp)

/-- Completing a mint clears the flag of the machine. -/
theorem finishMint (h : Tracked mac s events) {boot : Nat} {session : BootSession}
    {before after : List (Nat × BootSession)}
    (hminting : s.minting = before ++ (boot, session) :: after) :
    Tracked mac
      { s with
        db := (Fleetboot.finishMint session s.db).1
        minting := before ++ after
        mintReplies := (boot, (Fleetboot.finishMint session s.db).2) :: s.mintReplies }
      (events ++ [⟨s.boot, .finishMint boot session⟩]) := by
  obtain ⟨hle, hmac, hsession⟩ := h.minting (boot, session) (mem_taken hminting)
  have hcleared : pendingReboot (setPendingReboot session.mac false s.db) mac ≠ true := by
    have hsame : normaliseMac mac = normaliseMac session.mac := by
      rw [hmac, normaliseMac_normaliseMac]
    rw [pendingReboot_setPendingReboot, if_pos hsame, Bool.false_and]
    exact Bool.false_ne_true
  have hdb : Tracked mac { s with db := setPendingReboot session.mac false s.db } events :=
    h.of_db (fun _ _ hmac => hmac) fun hpending => absurd hpending hcleared
  have hminted : RebootEvent.Mints boot session.token ⟨s.boot, .finishMint boot session⟩ :=
    ⟨session, rfl, rfl⟩
  have hsnoc := @snoc _ mac _ events hdb ⟨s.boot, .finishMint boot session⟩
    (fun boot' token hmints => by
      obtain ⟨session', haction, -⟩ := hmints
      cases haction
      exact hle) fun hpending => absurd hpending hcleared
  refine { hsnoc with minting := fun p hp => ?_, mintReplies := fun p hp token mac' hanswer => ?_ }
  · exact hsnoc.minting p (mem_of_mem_rest hminting hp)
  · rcases List.mem_cons.mp hp with rfl | hold
    · cases hanswer
      exact ⟨hsession, _, by simp, hminted⟩
    · exact hsnoc.mintReplies p hold token mac' hanswer

/-- The machine boots with the token of a mint for this boot. -/
theorem start (h : Tracked mac s events) {token mac' : String} (hoff : s.token = none)
    (hreply : (s.boot, .minted token mac') ∈ s.mintReplies) :
    Tracked mac { s with token := some token } (events ++ [⟨s.boot, .start token⟩]) := by
  have hsnoc := @quiet _ mac s events h ⟨s.boot, .start token⟩ (by simp)
  refine
    { hsnoc with
      running := fun token' htoken => ?_
      reports := fun p hp => ⟨(h.reports p hp).1, (h.reports p hp).2.1, fun _ => by simp⟩
      reporting := fun p hp => ⟨(h.reporting p hp).1, (h.reporting p hp).2.1, fun _ => by simp⟩
      replies := fun p hp => ⟨(h.replies p hp).1, fun hboot hsignals => ?_⟩
      signalled := fun b hb => ⟨(h.signalled b hb).1, fun hboot => ?_⟩ }
  · obtain rfl := Option.some.inj htoken
    obtain ⟨hmac, hminted⟩ := hsnoc.mintReplies _ hreply _ mac' rfl
    exact ⟨hmac, hminted, by simp⟩
  · obtain ⟨token', htoken, -⟩ := (h.replies p hp).2 hboot hsignals
    cases hoff.symm.trans htoken
  · obtain ⟨token', htoken, -⟩ := (h.signalled b hb).2 hboot
    cases hoff.symm.trans htoken

/-- The machine goes down: nothing in flight belongs to its next boot. -/
theorem leave (h : Tracked mac s events) :
    Tracked mac { s with boot := s.boot + 1, token := none } events := by
  have hnext : ∀ {boot : Nat}, boot ≤ s.boot → boot ≠ s.boot + 1 := by
    intro boot hle
    omega
  exact
    { mintRequests := fun p hp => ⟨(h.mintRequests p hp).1.trans (Nat.le_succ _),
        (h.mintRequests p hp).2⟩
      minting := fun p hp => ⟨(h.minting p hp).1.trans (Nat.le_succ _), (h.minting p hp).2⟩
      mintReplies := h.mintReplies
      mints := fun e he boot token hminted =>
        (h.mints e he boot token hminted).trans (Nat.le_succ _)
      running := fun token htoken => by cases htoken
      reports := fun p hp => ⟨(h.reports p hp).1.trans (Nat.le_succ _), (h.reports p hp).2.1,
        fun hboot => absurd hboot (hnext (h.reports p hp).1)⟩
      reporting := fun p hp => ⟨(h.reporting p hp).1.trans (Nat.le_succ _), (h.reporting p hp).2.1,
        fun hboot => absurd hboot (hnext (h.reporting p hp).1)⟩
      replies := fun p hp => ⟨(h.replies p hp).1.trans (Nat.le_succ _),
        fun hboot => absurd hboot (hnext (h.replies p hp).1)⟩
      signalled := fun b hb => ⟨(h.signalled b hb).1.trans (Nat.le_succ _),
        fun hboot => absurd hboot (hnext (h.signalled b hb).1)⟩
      flag := fun hpending before minted after boot token hsplit hminted => by
        obtain ⟨armed, harmed, harms, -⟩ :=
          h.flag hpending before minted after boot token hsplit hminted
        have hle := h.mints minted (mem_taken hsplit) boot token hminted
        exact ⟨armed, harmed, harms, fun hboot => absurd hboot (hnext hle)⟩ }

/-- The flag that a handler reads for a session of the machine. -/
theorem signals_finishStatus {session : BootSession} {state : String} {db : Database}
    (hmac : session.mac = normaliseMac mac)
    (h : (Fleetboot.finishStatus session state db).Signals) :
    pendingReboot db mac = true := by
  obtain ⟨mac', state', hanswer⟩ := h
  have hread := (StatusAnswer.acknowledged.inj hanswer).2.2
  rw [hmac] at hread
  unfold pendingReboot Database.lookup at hread ⊢
  rwa [normaliseMac_normaliseMac] at hread

/-- **Every step keeps track.** -/
theorem step {mintSecret : Option String} (h : Tracked mac s events) {event : RebootEvent}
    {s' : SoftReboot} (hstep : RebootStep mintSecret mac s event s') :
    Tracked mac s' (events ++ [event]) := by
  cases hstep with
  | setPending mac' pending => exact h.setPending mac' pending
  | requestMint hmac =>
    refine quiet ?_ (by simp)
    refine { h with mintRequests := fun p hp => ?_ }
    rcases List.mem_cons.mp hp with rfl | hold
    · exact ⟨Nat.le_refl _, hmac⟩
    · exact h.mintRequests p hold
  | @mint now token boot req before after db session hqueue hbegin =>
    obtain ⟨rfl, hmac, hsession, hsessions, hsame⟩ := beginMint_ok hbegin
    have hdb : Tracked mac { s with db } events :=
      h.of_db hsessions fun hpending => by rwa [hsame.pendingReboot_eq] at hpending
    obtain ⟨hle, hreq⟩ := h.mintRequests _ (mem_taken hqueue)
    refine quiet ?_ (by simp)
    refine { hdb with
      mintRequests := fun p hp => h.mintRequests p (mem_of_mem_rest hqueue hp)
      minting := fun p hp => ?_ }
    rcases List.mem_cons.mp hp with rfl | hold
    · exact ⟨hle, hmac.trans hreq, hreq ▸ hsession⟩
    · exact hdb.minting p hold
  | @mintRefused now token boot req before after db answer hqueue hbegin =>
    obtain ⟨rfl, hanswer⟩ := beginMint_error hbegin
    refine quiet ?_ (by simp)
    refine { h with
      mintRequests := fun p hp => h.mintRequests p (mem_of_mem_rest hqueue hp)
      mintReplies := fun p hp token mac' hminted => ?_ }
    rcases List.mem_cons.mp hp with rfl | hold
    · exact absurd hminted (hanswer token mac')
    · exact h.mintReplies p hold token mac' hminted
  | finishMint hqueue => exact h.finishMint hqueue
  | start hoff hreply => exact h.start hoff hreply
  | report htoken =>
    refine quiet ?_ (by simp)
    refine { h with reports := fun p hp => ?_ }
    rcases List.mem_cons.mp hp with rfl | hold
    · exact ⟨Nat.le_refl _, (h.running _ htoken).1, fun _ hoff => by cases htoken.symm.trans hoff⟩
    · exact h.reports p hold
  | @status now boot req before after db session hqueue hbegin =>
    obtain ⟨hmac, hsessions, hsame⟩ := beginStatus_ok hbegin
    have hdb : Tracked mac { s with db } events :=
      h.of_db (fun token m hm => (hsessions token).trans hm)
        fun hpending => by rwa [hsame.pendingReboot_eq] at hpending
    obtain ⟨hle, hown, hon⟩ := h.reports _ (mem_taken hqueue)
    refine quiet ?_ (by simp)
    refine { hdb with
      reports := fun p hp => hdb.reports p (mem_of_mem_rest hqueue hp)
      reporting := fun p hp => ?_ }
    rcases List.mem_cons.mp hp with rfl | hold
    · exact ⟨hle, Option.some.inj (hmac.symm.trans hown), hon⟩
    · exact hdb.reporting p hold
  | @statusRefused now boot req before after db answer hqueue hbegin =>
    obtain ⟨rfl, hanswer⟩ := beginStatus_error hbegin
    refine quiet ?_ (by simp)
    refine { h with
      reports := fun p hp => h.reports p (mem_of_mem_rest hqueue hp)
      replies := fun p hp => ?_ }
    rcases List.mem_cons.mp hp with rfl | hold
    · exact ⟨(h.reports _ (mem_taken hqueue)).1, fun _ hsignals => absurd hsignals hanswer⟩
    · exact h.replies p hold
  | @finishStatus boot session state before after hqueue =>
    refine quiet ?_ (by simp)
    refine { h with
      reporting := fun p hp => h.reporting p (mem_of_mem_rest hqueue hp)
      replies := fun p hp => ?_ }
    rcases List.mem_cons.mp hp with rfl | hold
    · obtain ⟨hle, hmac, hon⟩ := h.reporting _ (mem_taken hqueue)
      refine ⟨hle, fun hboot hsignals => ?_⟩
      obtain ⟨token, htoken⟩ := Option.ne_none_iff_exists'.mp (hon hboot)
      obtain ⟨minted, hmem, hminted⟩ := (h.running token htoken).2.1
      exact ⟨token, htoken,
        (h.flag (signals_finishStatus hmac hsignals)).armedSince hmem hminted⟩
    · exact h.replies p hold
  | deliver hqueue _ _ =>
    refine quiet ?_ (by simp)
    exact { h with replies := fun p hp => h.replies p (mem_of_mem_rest hqueue hp) }
  | signal hqueue htoken hsignals =>
    refine quiet ?_ (by simp)
    refine { h with
      replies := fun p hp => h.replies p (mem_of_mem_rest hqueue hp)
      signalled := fun b hb => ?_ }
    rcases List.mem_cons.mp hb with rfl | hold
    · exact ⟨Nat.le_refl _, fun _ => (h.replies _ (mem_taken hqueue)).2 rfl hsignals⟩
    · exact h.signalled b hold
  | act => exact h.quiet (by simp)
  | leave => exact h.leave.quiet (by simp)

end Tracked

/-! ## Runs -/

section Runs

variable {mintSecret : Option String} {mac : String} {s s' : SoftReboot}
  {events : List RebootEvent} {event : RebootEvent}

/-- Boots are counted up, and an event carries the present one. -/
theorem RebootStep.boot_le (h : RebootStep mintSecret mac s event s') :
    event.boot = s.boot ∧ s.boot ≤ s'.boot := by
  cases h
  case leave => exact ⟨rfl, Nat.le_succ _⟩
  all_goals exact ⟨rfl, Nat.le_refl _⟩

theorem boots_of_run (h : Run (RebootStep mintSecret mac) s events s') :
    s.boot ≤ s'.boot ∧ ∀ e ∈ events, s.boot ≤ e.boot ∧ e.boot ≤ s'.boot := by
  induction h with
  | nil => exact ⟨Nat.le_refl _, by simp⟩
  | snoc hrun hstep ih =>
    obtain ⟨hle, hevents⟩ := ih
    obtain ⟨hboot, hstepLe⟩ := hstep.boot_le
    refine ⟨hle.trans hstepLe, fun e he => ?_⟩
    rcases List.mem_append.mp he with hold | hnew
    · exact ⟨(hevents e hold).1, (hevents e hold).2.trans hstepLe⟩
    · rw [List.mem_singleton.mp hnew, hboot]
      exact ⟨hle, hstepLe⟩

theorem Tracked.of_run (hidle : s.Idle) (h : Run (RebootStep mintSecret mac) s events s') :
    Tracked mac s' events := by
  have hkeep : ∀ s es e s', Tracked mac s es → RebootStep mintSecret mac s e s' →
      Tracked mac s' (es ++ [e]) := fun _ _ _ _ htracked hstep => htracked.step hstep
  exact h.history hkeep (Tracked.of_idle hidle)

omit [Unicode] in
theorem mem_endedBoots {boot : Nat} :
    boot ∈ endedBoots events ↔ ⟨boot, .act⟩ ∈ events := by
  unfold endedBoots
  rw [List.mem_dedup, List.mem_map]
  constructor
  · rintro ⟨⟨boot', action⟩, hmem, rfl⟩
    rw [List.mem_filter] at hmem
    cases action <;> simp_all [RebootEvent.acts]
  · intro hmem
    exact ⟨_, List.mem_filter.mpr ⟨hmem, rfl⟩, rfl⟩

/-- Whoever acts on the signal had it armed after the mint that the boot started with. -/
theorem armedSince_of_act (hidle : s.Idle) {before after : List RebootEvent} {boot : Nat}
    (h : Run (RebootStep mintSecret mac) s (before ++ ⟨boot, .act⟩ :: after) s') :
    ∃ token, ⟨boot, .start token⟩ ∈ before ∧ ArmedSince mac before boot token := by
  rw [← List.concat_append] at h
  obtain ⟨_, hupto, -⟩ := h.of_append
  rw [List.concat_eq_append] at hupto
  obtain ⟨middle, hbefore, hact⟩ := hupto.of_concat
  have htracked := Tracked.of_run hidle hbefore
  cases hact with
  | act hsignalled htoken =>
    obtain ⟨token, htoken', harmed⟩ := (htracked.signalled _ hsignalled).2 rfl
    exact ⟨token, (htracked.running token htoken').2.2, harmed⟩

theorem ArmedSince.exists_arms {boot : Nat} {token : String}
    (h : ArmedSince mac events boot token) :
    ∃ armed ∈ events, armed.boot = boot ∧ armed.arms mac = true := by
  obtain ⟨before, minted, after, armed, rfl, -, harmed, hboot, harms⟩ := h
  exact ⟨armed, by simp [harmed], hboot, harms⟩

/-- A boot that ends on the signal is one in which it was armed. -/
theorem exists_arms_of_ended (hidle : s.Idle) (h : Run (RebootStep mintSecret mac) s events s')
    {boot : Nat} (hended : boot ∈ endedBoots events) :
    ∃ armed ∈ events, armed.boot = boot ∧ armed.arms mac = true := by
  obtain ⟨before, after, rfl⟩ := List.append_of_mem (mem_endedBoots.mp hended)
  obtain ⟨token, -, harmed⟩ := armedSince_of_act hidle h
  obtain ⟨armed, hmem, hboot, harms⟩ := harmed.exists_arms
  exact ⟨armed, List.mem_append_left _ hmem, hboot, harms⟩

theorem endedBoots_length_le (hidle : s.Idle) (h : Run (RebootStep mintSecret mac) s events s') :
    (endedBoots events).length ≤ (events.filter fun e => e.arms mac).length := by
  have hsubset : endedBoots events ⊆ (events.filter fun e => e.arms mac).map RebootEvent.boot := by
    intro boot hended
    obtain ⟨armed, hmem, hboot, harms⟩ := exists_arms_of_ended hidle h hended
    exact List.mem_map.mpr ⟨armed, List.mem_filter.mpr ⟨hmem, harms⟩, hboot⟩
  have hnodup : (endedBoots events).Nodup := List.nodup_dedup _
  calc (endedBoots events).length
      ≤ ((events.filter fun e => e.arms mac).map RebootEvent.boot).length :=
        (hnodup.subperm hsubset).length_le
    _ = (events.filter fun e => e.arms mac).length := List.length_map _

/-- Without arming only the boot that was under way can end on the signal. -/
theorem endedBoots_length_le_one (hidle : s.Idle) {before after : List RebootEvent}
    (h : Run (RebootStep mintSecret mac) s (before ++ after) s')
    (hnone : ∀ e ∈ after, e.arms mac = false) : (endedBoots after).length ≤ 1 := by
  obtain ⟨middle, hbefore, hafter⟩ := h.of_append
  have hpresent : ∀ boot ∈ endedBoots after, boot = middle.boot := by
    intro boot hended
    have hact := mem_endedBoots.mp hended
    obtain ⟨armed, hmem, hboot, harms⟩ := exists_arms_of_ended hidle h
      (mem_endedBoots.mpr (List.mem_append_right before hact))
    have hle : armed.boot ≤ middle.boot := by
      rcases List.mem_append.mp hmem with hold | hnew
      · exact ((boots_of_run hbefore).2 armed hold).2
      · exact absurd harms (by simp [hnone armed hnew])
    have hge := ((boots_of_run hafter).2 _ hact).1
    rw [hboot] at hle
    exact le_antisymm hle hge
  have hsubset : endedBoots after ⊆ [middle.boot] := fun boot hended => by
    simp [hpresent boot hended]
  have hnodup : (endedBoots after).Nodup := List.nodup_dedup _
  exact (hnodup.subperm hsubset).length_le

end Runs

/-- **Soft-reboot safety.** After a mint for the machine no reply carries the signal until it is
armed again, whoever acts on the signal sits in a boot in which it was armed after the mint that
the boot started with, and so there are no more such reboots than arms and, without arming, at
most the one that was under way. -/
theorem softReboot_safe {mintSecret : Option String} {mac : String} {s₀ s : SoftReboot}
    {events : List RebootEvent} (hidle : s₀.Idle)
    (hrun : Run (RebootStep mintSecret mac) s₀ events s) :
    (∀ before minted after boot token, events = before ++ minted :: after →
      minted.Mints boot token → (∀ e ∈ after, e.arms mac = false) →
        ∀ p ∈ s.reporting, ¬ (finishStatus p.2.1 p.2.2 s.db).Signals) ∧
    (∀ before after boot, events = before ++ ⟨boot, .act⟩ :: after →
      ∃ token, ⟨boot, .start token⟩ ∈ before ∧ ArmedSince mac before boot token) ∧
    (endedBoots events).length ≤ (events.filter fun e => e.arms mac).length ∧
    ∀ before after, events = before ++ after → (∀ e ∈ after, e.arms mac = false) →
      (endedBoots after).length ≤ 1 := by
  have htracked := Tracked.of_run hidle hrun
  refine ⟨?_, ?_, endedBoots_length_le hidle hrun, ?_⟩
  · intro before minted after boot token hsplit hminted hnone p hp hsignals
    have hpending := Tracked.signals_finishStatus (htracked.reporting p hp).2.1 hsignals
    obtain ⟨armed, harmed, harms, -⟩ :=
      htracked.flag hpending before minted after boot token hsplit hminted
    exact Bool.false_ne_true ((hnone armed harmed).symm.trans harms)
  · rintro before after boot rfl
    exact armedSince_of_act hidle hrun
  · rintro before after rfl hnone
    exact endedBoots_length_le_one hidle hrun hnone

end Protocol

section Examples

attribute [local instance] ascii noNetworks

/-- A machine that is off. -/
def desktopOff : SoftReboot :=
  { db := (newRegistry.after 5 (.enroll desktop)).db, boot := 0, token := none, mintRequests := [],
    minting := [], mintReplies := [], reports := [], reporting := [], replies := [],
    signalled := [] }

def desktopMint : MintRequest := { authorization := some "Bearer secret", mac := desktop.mac }

def desktopReport : StatusRequest :=
  { authorization := some "Bearer 00ff", clientHost := none, report := { state := "heartbeat" } }

/-- The database when the signal has been armed. -/
def armedDatabase : Database :=
  setPendingReboot desktop.mac true
    (mintSession (some "secret") 7 "00ff" desktopMint desktopOff.db).1

theorem beginStatus_desktopReport : ∃ db session,
    beginStatus 8 desktopReport armedDatabase = (db, .ok session) ∧
      session.mac = normaliseMac desktop.mac := by
  have hmac : (beginStatus 8 desktopReport armedDatabase).2.toOption.map BootSession.mac =
      some (normaliseMac desktop.mac) := by decide +kernel
  obtain ⟨session, hsession, hsame⟩ := Option.map_eq_some_iff.mp hmac
  refine ⟨(beginStatus 8 desktopReport armedDatabase).1, session, Prod.ext rfl ?_, hsame⟩
  cases hanswer : (beginStatus 8 desktopReport armedDatabase).2 with
  | error _ =>
    rw [hanswer] at hsession
    cases hsession
  | ok _ =>
    rw [hanswer] at hsession
    cases hsession
    rfl

/-- The machine boots, the signal is armed, and a heartbeat reboots the machine. -/
theorem softReboot_safe_desktop : ∃ events s,
    Run (RebootStep (some "secret") desktop.mac) desktopOff events s ∧
      ⟨0, .act⟩ ∈ events ∧
      (endedBoots events).length ≤ (events.filter fun e => e.arms desktop.mac).length := by
  have hrequested := Run.single
    (@RebootStep.requestMint _ (some "secret") desktop.mac desktopOff desktopMint rfl)
  have hminting := hrequested.snoc
    (@RebootStep.mint _ _ _ _ 7 "00ff" 0 desktopMint [] [] _ _ rfl rfl)
  have hminted := hminting.snoc (@RebootStep.finishMint _ _ _ _ 0 _ [] [] rfl)
  have hbooted := hminted.snoc (.start rfl (.head _))
  have harmed := hbooted.snoc (.setPending desktop.mac true)
  have hposted := harmed.snoc (@RebootStep.report _ _ _ _ desktopReport (by decide +kernel))
  obtain ⟨db, session, hbegin, hmac⟩ := beginStatus_desktopReport
  have hsignals : (finishStatus session "heartbeat" db).Signals := by
    have hpending : pendingReboot armedDatabase desktop.mac = true := by decide +kernel
    rw [← (beginStatus_ok hbegin).2.2.pendingReboot_eq] at hpending
    refine ⟨session.mac, "heartbeat", ?_⟩
    unfold finishStatus
    unfold pendingReboot Database.lookup at hpending ⊢
    rw [hmac, normaliseMac_normaliseMac, hpending]
  have hrecorded := hposted.snoc
    (@RebootStep.status _ _ _ _ 8 0 desktopReport [] [] db session rfl hbegin)
  have hreplied := hrecorded.snoc (@RebootStep.finishStatus _ _ _ _ 0 session _ [] [] rfl)
  have hsignalled := hreplied.snoc (@RebootStep.signal _ _ _ _ _ [] [] "00ff" rfl rfl hsignals)
  have hacted := hsignalled.snoc (@RebootStep.act _ _ _ _ "00ff" (.head _) rfl)
  have hidle : desktopOff.Idle := ⟨rfl, rfl, rfl, rfl, rfl, rfl, rfl, rfl⟩
  exact ⟨_, _, hacted, List.mem_append_right _ (.head _), (softReboot_safe hidle hacted).2.2.1⟩

end Examples

end Fleetboot
