import Fleetboot.Registry.Machines

/-!
# Boot events and boot sessions

The durable log of boot events (`registry.py`) and the session store in its SQLite mode
(`boot_sessions.py`), which share the registry's database file. A token is drawn at random when
it is minted; here it is an argument.
-/

set_option autoImplicit false

namespace Fleetboot

open Python Relational

variable [Unicode]

/-! ## Boot events -/

/-- `ORDER BY id DESC LIMIT 1` among the events of a MAC. -/
def latestBootEvent (db : Database) (mac : String) : Option BootEvent :=
  ((db.bootEvents.rows.filter fun event => event.mac == mac).insertionSort
    fun event event' : BootEvent => event'.id ≤ event.id).head?

/-- `log_boot_event`: a repetition of the latest event only moves its time. -/
def logBootEvent (now : Timestamp) (mac state : String) (detail : Option String)
    (db : Database) : Database :=
  let insert : Database :=
    { db with
      bootEvents := db.bootEvents.append
        (fun id => { id, mac := normaliseMac mac, state, detail, occurredAt := now })
        (fun _ => rfl) }
  match latestBootEvent db (normaliseMac mac) with
  | none => insert
  | some latest =>
    if latest.state = state ∧ latest.detail.getD "" = detail.getD "" then
      { db with
        bootEvents := db.bootEvents.update (fun event =>
          if event.id = latest.id then { event with occurredAt := now } else event)
          (fun event => by split <;> rfl) }
    else insert

/-- `recent_boot_events`: newest first. -/
def recentBootEvents (db : Database) (limit : Nat) (mac : Option String) : List BootEvent :=
  let events : List BootEvent := match mac with
    | some mac => db.bootEvents.rows.filter fun event => event.mac == normaliseMac mac
    | none => db.bootEvents.rows
  (events.insertionSort fun event event' =>
    event'.occurredAt < event.occurredAt ∨
      (event'.occurredAt = event.occurredAt ∧ event'.id ≤ event.id)).take limit

/-! ## Sessions -/

/-- A session as the store hands it out. -/
structure BootSession where
  token : String
  mac : String
  latestState : Option BootState
  deriving DecidableEq

def SessionRow.toSession (row : SessionRow) : BootSession :=
  { token := row.token, mac := row.mac, latestState := row.latestState }

/-- `mint`. -/
def mint (now : Timestamp) (token mac : String) (db : Database) : Outcome BootSession :=
  let row : SessionRow :=
    { token, mac := normaliseMac mac, mintedAt := now, latestState := none, latestStateAt := none }
  match db.bootSessions.insert row with
  | some bootSessions => ⟨{ db with bootSessions }, .ok row.toSession⟩
  | none => ⟨db, .error (.integrityError "UNIQUE constraint failed: boot_sessions.token")⟩

/-- `lookup` of a token. -/
def lookupSession (db : Database) (token : String) : Option BootSession :=
  (db.bootSessions.lookup token).map SessionRow.toSession

/-- The furthest of the state a session had reached and the state it reports. -/
def furthestState (previous : Option BootState) (state : BootState) : BootState :=
  match previous with
  | none => state
  | some previous => if previous.index ≤ state.index then state else previous

/-- `record_state`: `none` stands for `UnknownTokenError`. The time always advances. -/
def recordState (now : Timestamp) (token : String) (state : BootState) (db : Database) :
    Option (BootSession × Database) :=
  (db.bootSessions.lookup token).map fun row =>
    let latest := furthestState row.latestState state
    ({ token, mac := row.mac, latestState := some latest },
      { db with
        bootSessions := db.bootSessions.update (fun session =>
          if session.token = token then
            { session with latestState := some latest, latestStateAt := some now }
          else session)
          (fun _ _ => rfl) (fun session => by split <;> rfl) })

/-- `end`. -/
def endSession (token : String) (db : Database) : Database :=
  { db with bootSessions := db.bootSessions.delete fun session => session.token == token }

/-- `active_sessions`. -/
def activeSessions (db : Database) : List BootSession :=
  db.bootSessions.rows.map SessionRow.toSession

/-- The times at which the sessions of a MAC last reported. -/
def stampsOf (db : Database) (mac : String) : List Timestamp :=
  (db.bootSessions.rows.filter fun session => session.mac == mac).filterMap
    SessionRow.latestStateAt

/-- `last_seen_by_mac`, for one MAC: `MAX(latest_state_at)`, absent without a stamp. -/
def lastSeenByMac (db : Database) (mac : String) : Option Timestamp :=
  (stampsOf db mac).max?

/-! ## What the calls do to the rows -/

/-- The row that `mint` inserts. -/
def mintedRow (now : Timestamp) (token mac : String) : SessionRow :=
  { token, mac := normaliseMac mac, mintedAt := now, latestState := none, latestStateAt := none }

/-- A row after a report. -/
def SessionRow.report (now : Timestamp) (state : BootState) (row : SessionRow) : SessionRow :=
  { row with
    latestState := some (furthestState row.latestState state)
    latestStateAt := some now }

section Rows

variable {now : Timestamp} {token : String} {db : Database}

theorem insert_mintedRow_isSome_iff (now : Timestamp) (token mac : String) (db : Database) :
    (db.bootSessions.insert (mintedRow now token mac)).isSome ↔
      db.bootSessions.lookup token = none :=
  Table.insert_isSome_iff rfl

/-- A new token gets a row at the end. -/
theorem mint_fresh (mac : String) (hfresh : db.bootSessions.lookup token = none) :
    (mint now token mac db).value = .ok (mintedRow now token mac).toSession ∧
      (mint now token mac db).db.bootSessions.rows =
        db.bootSessions.rows ++ [mintedRow now token mac] := by
  obtain ⟨bootSessions, hinsert⟩ := Option.isSome_iff_exists.mp
    ((insert_mintedRow_isSome_iff now token mac db).mpr hfresh)
  have hmint : mint now token mac db =
      ⟨{ db with bootSessions }, .ok (mintedRow now token mac).toSession⟩ := by
    unfold mint
    unfold mintedRow at hinsert
    dsimp only
    rw [hinsert]
    rfl
  rw [hmint]
  exact ⟨rfl, Table.rows_insert hinsert⟩

/-- The token of a row is refused. -/
theorem mint_live (mac : String) (hlive : db.bootSessions.lookup token ≠ none) :
    mint now token mac db =
      ⟨db, .error (.integrityError "UNIQUE constraint failed: boot_sessions.token")⟩ := by
  have hinsert : db.bootSessions.insert (mintedRow now token mac) = none := by
    rw [← Option.not_isSome_iff_eq_none, insert_mintedRow_isSome_iff]
    exact hlive
  unfold mint
  unfold mintedRow at hinsert
  dsimp only
  rw [hinsert]

omit [Unicode] in
/-- A report changes the row with its token. -/
theorem recordState_live {state : BootState} {row : SessionRow}
    (hrow : db.bootSessions.lookup token = some row) :
    ∃ db', recordState now token state db = some ((row.report now state).toSession, db') ∧
      db'.bootSessions.rows = db.bootSessions.rows.map fun session =>
        if session.token = token then session.report now state else session := by
  have htoken : row.token = token := Table.key_of_lookup hrow
  refine ⟨_, by rw [recordState, hrow, Option.map_some, ← htoken]; rfl, ?_⟩
  rw [Table.rows_update]
  refine List.map_congr_left fun session hsession => ?_
  by_cases hsame : session.token = token
  · have heq : session = row := Table.eq_of_key_eq hsession (Table.mem_of_lookup hrow) rfl rfl
      (hsame.trans htoken.symm)
    rw [heq, if_pos rfl, if_pos htoken]
    rfl
  · rw [if_neg hsame, if_neg (htoken ▸ hsame)]

omit [Unicode] in
theorem recordState_unknown {state : BootState} (hnone : db.bootSessions.lookup token = none) :
    recordState now token state db = none := by
  rw [recordState, hnone, Option.map_none]

end Rows

end Fleetboot
