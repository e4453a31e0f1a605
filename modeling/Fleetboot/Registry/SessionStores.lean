import Fleetboot.Library.Dict
import Fleetboot.Library.Trace
import Fleetboot.Registry.Sessions
import Mathlib.Data.List.Find
import Mathlib.Data.List.MinMax

/-!
# The two session stores

`boot_sessions.py` keeps sessions in a dictionary of objects when it is given no file, and in the
table of `Registry/Sessions.lean` otherwise. Both are driven by the same calls here, at the same
times and with the same tokens.

* `activeSessions_mint`, `activeSessions_recordState`, `activeSessions_endSession`: what a call
  makes of the list of sessions in the file.
* `stores_step`: one call keeps the two lists of sessions equal.
* `stores_agree`: the answers over a run of calls, and which state a session is in.
-/

set_option autoImplicit false

namespace Fleetboot

open Python Relational Transition

/-! ## The store in memory -/

/-- A session as an object. It also keeps every report. -/
structure MemorySession where
  token : String
  mac : String
  latestState : Option BootState := none
  reports : List BootState := []

namespace MemorySession

def toSession (session : MemorySession) : BootSession :=
  { token := session.token, mac := session.mac, latestState := session.latestState }

/-- `_record_in_memory`, on the object. -/
def report (state : BootState) (session : MemorySession) : MemorySession :=
  let session := { session with reports := session.reports ++ [state] }
  match session.latestState with
  | none => { session with latestState := some state }
  | some latest =>
    if latest.index < state.index then { session with latestState := some state } else session

end MemorySession

/-- `_sessions`. -/
abbrev MemoryStore := Dict String MemorySession

namespace MemoryStore

variable [Unicode]

/-- `mint`. -/
def mint (token mac : String) (store : MemoryStore) : BootSession × MemoryStore :=
  let session : MemorySession := { token, mac := normaliseMac mac }
  (session.toSession, store.set token session)

/-- `lookup`. -/
def lookup (store : MemoryStore) (token : String) : Option BootSession :=
  (store.get? token).map MemorySession.toSession

/-- `record_state`: `none` stands for `UnknownTokenError`. -/
def recordState (token : String) (state : BootState) (store : MemoryStore) :
    Option (BootSession × MemoryStore) :=
  (store.get? token).map fun session =>
    ((session.report state).toSession, store.modify token (MemorySession.report state))

/-- `end`. -/
def endSession (token : String) (store : MemoryStore) : MemoryStore := store.pop token

/-- `active_sessions`. -/
def activeSessions (store : MemoryStore) : List BootSession :=
  store.values.map MemorySession.toSession

end MemoryStore

/-! ## Calls -/

/-- A call of the store. The token of `mint` is the one that is drawn. -/
inductive SessionCall
  | mint (token mac : String)
  | lookup (token : String)
  | recordState (token : String) (state : BootState)
  | endSession (token : String)
  | activeSessions

/-- What a call returns or raises. -/
inductive SessionReply
  | minted (session : BootSession)
  | found (session : Option BootSession)
  | recorded (session : BootSession)
  | unknownToken
  | ended
  | active (sessions : List BootSession)
  | raised (err : Exception)
  deriving DecidableEq

section Calls

variable [Unicode]

/-- A call of the store in memory, which does not look at the clock. -/
def SessionCall.inMemory (store : MemoryStore) :
    Timestamp × SessionCall → SessionReply × MemoryStore
  | (_, mint token mac) => (.minted (store.mint token mac).1, (store.mint token mac).2)
  | (_, lookup token) => (.found (store.lookup token), store)
  | (_, recordState token state) =>
    match store.recordState token state with
    | some (session, store) => (.recorded session, store)
    | none => (.unknownToken, store)
  | (_, endSession token) => (.ended, store.endSession token)
  | (_, activeSessions) => (.active store.activeSessions, store)

/-- A call of the store in the file. -/
def SessionCall.inDatabase (db : Database) :
    Timestamp × SessionCall → SessionReply × Database
  | (now, mint token mac) =>
    let out := Fleetboot.mint now token mac db
    (match out.value with
      | .ok session => .minted session
      | .error err => .raised err, out.db)
  | (_, lookup token) => (.found (lookupSession db token), db)
  | (now, recordState token state) =>
    match Fleetboot.recordState now token state db with
    | some (session, db) => (.recorded session, db)
    | none => (.unknownToken, db)
  | (_, endSession token) => (.ended, Fleetboot.endSession token db)
  | (_, activeSessions) => (.active (Fleetboot.activeSessions db), db)

/-- A `mint` does not draw the token of a live session. -/
def SessionCall.Fresh (store : MemoryStore) : Timestamp × SessionCall → Prop
  | (_, mint token _) => store.get? token = none
  | _ => True

end Calls

/-! ## The list of sessions in the file -/

/-- A session after a report. -/
def BootSession.reported (state : BootState) (session : BootSession) : BootSession :=
  { session with latestState := some (furthestState session.latestState state) }

theorem lookupSession_eq (db : Database) (token : String) :
    lookupSession db token = (activeSessions db).find? fun session => session.token == token := by
  unfold lookupSession activeSessions Table.lookup
  rw [List.find?_map]
  rfl

theorem lookupSession_eq_none_iff {db : Database} {token : String} :
    lookupSession db token = none ↔ db.bootSessions.lookup token = none :=
  Option.map_eq_none_iff

theorem activeSessions_mint [Unicode] {now : Timestamp} {token : String} (mac : String)
    {db : Database} (hfresh : lookupSession db token = none) :
    activeSessions (mint now token mac db).db =
      activeSessions db ++ [⟨token, normaliseMac mac, none⟩] := by
  obtain ⟨-, hrows⟩ := @mint_fresh _ now token db mac (lookupSession_eq_none_iff.mp hfresh)
  rw [activeSessions, hrows, List.map_append]
  rfl

theorem activeSessions_endSession (token : String) (db : Database) :
    activeSessions (endSession token db) =
      (activeSessions db).filter fun session => session.token != token := by
  unfold activeSessions endSession
  rw [Table.rows_delete, List.filter_map]
  rfl

/-- A report changes the session with its token and no other. -/
theorem activeSessions_recordState {now : Timestamp} {token : String} {state : BootState}
    {db : Database} {session : BootSession} (hlive : lookupSession db token = some session) :
    ∃ db', recordState now token state db = some (session.reported state, db') ∧
      activeSessions db' = (activeSessions db).map fun session =>
        if session.token = token then session.reported state else session := by
  obtain ⟨row, hrow, rfl⟩ := Option.map_eq_some_iff.mp hlive
  obtain ⟨db', hrecorded, hrows⟩ := @recordState_live now token db state row hrow
  refine ⟨db', hrecorded, ?_⟩
  rw [activeSessions, activeSessions, hrows, List.map_map, List.map_map]
  refine List.map_congr_left fun row' _ => ?_
  have htoken : row'.toSession.token = row'.token := rfl
  simp only [Function.comp_apply, htoken]
  split <;> rfl

/-! ## The list of sessions in memory -/

/-- The two ways to keep the furthest state agree: an index tells a state from all others. -/
theorem toSession_report (state : BootState) (session : MemorySession) :
    (session.report state).toSession = session.toSession.reported state := by
  unfold MemorySession.report BootSession.reported MemorySession.toSession
  cases hlatest : session.latestState with
  | none => rfl
  | some latest =>
    dsimp only [furthestState]
    rcases Nat.lt_trichotomy latest.index state.index with hlt | heq | hgt
    · rw [if_pos hlt, if_pos hlt.le]
    · rw [if_neg heq.not_lt, if_pos heq.le, ← BootState.index_injective heq]
    · rw [if_neg hgt.not_gt, if_neg hgt.not_ge]

namespace MemoryStore

/-- A session stands under its token. -/
def Keyed (store : MemoryStore) : Prop := ∀ e ∈ store.entries, e.2.token = e.1

theorem activeSessions_eq (store : MemoryStore) :
    store.activeSessions = store.entries.map fun e => e.2.toSession := by
  unfold activeSessions Dict.values
  rw [List.map_map]
  rfl

variable {store : MemoryStore} {token : String}

theorem lookup_eq (hkeyed : store.Keyed) (token : String) :
    store.lookup token = store.activeSessions.find? fun session => session.token == token := by
  have hfind : store.entries.find? (fun e => e.2.toSession.token == token) =
      store.entries.find? fun e => e.1 == token := by
    refine List.find?_congr fun e he => ?_
    rw [← hkeyed e he]
    rfl
  unfold lookup Dict.get?
  rw [activeSessions_eq, List.find?_map, Option.map_map]
  exact congrArg (Option.map fun e => e.2.toSession) hfind.symm

theorem keyed_set (hkeyed : store.Keyed) {session : MemorySession}
    (hnew : store.get? session.token = none) : Keyed (store.set session.token session) := by
  intro e he
  rw [Dict.entries_set_new hnew] at he
  rcases List.mem_append.mp he with hold | hlast
  · exact hkeyed e hold
  · rw [List.mem_singleton.mp hlast]

theorem keyed_modify (hkeyed : store.Keyed) (state : BootState) :
    Keyed (store.modify token (MemorySession.report state)) := by
  have htoken : ∀ session : MemorySession, (session.report state).token = session.token :=
    fun session => congrArg BootSession.token (toSession_report state session)
  intro e he
  obtain ⟨e', he', rfl⟩ := List.mem_map.mp he
  split
  · exact (htoken e'.2).trans (hkeyed e' he')
  · exact hkeyed e' he'

theorem keyed_pop (hkeyed : store.Keyed) : Keyed (store.pop token) :=
  fun e he => hkeyed e (List.mem_filter.mp he).1

theorem activeSessions_modify (hkeyed : store.Keyed) (state : BootState) :
    activeSessions (store.modify token (MemorySession.report state)) =
      store.activeSessions.map fun session =>
        if session.token = token then session.reported state else session := by
  rw [activeSessions_eq, activeSessions_eq]
  simp only [Dict.modify, List.map_map]
  refine List.map_congr_left fun e he => ?_
  have htoken : e.2.toSession.token = e.1 := hkeyed e he
  simp only [Function.comp_apply, htoken]
  split
  · exact toSession_report state e.2
  · rfl

theorem activeSessions_pop (hkeyed : store.Keyed) :
    activeSessions (store.pop token) =
      store.activeSessions.filter fun session => session.token != token := by
  rw [activeSessions_eq, activeSessions_eq, List.filter_map]
  refine congrArg (List.map _) (List.filter_congr fun e he => ?_)
  have htoken : e.2.toSession.token = e.1 := hkeyed e he
  simp only [Function.comp_apply, htoken]

theorem reports_report (state : BootState) (session : MemorySession) :
    (session.report state).reports = session.reports ++ [state] := by
  unfold MemorySession.report
  dsimp only
  split
  · rfl
  · split <;> rfl

end MemoryStore

/-! ## One call of both -/

section Calls

variable [Unicode]

/-- The stores hold the same sessions in the same order. -/
structure SameSessions (store : MemoryStore) (db : Database) : Prop where
  keyed : store.Keyed
  sessions : store.activeSessions = activeSessions db

omit [Unicode] in
theorem SameSessions.lookup {store : MemoryStore} {db : Database} (h : SameSessions store db)
    (token : String) : store.lookup token = lookupSession db token := by
  rw [MemoryStore.lookup_eq h.keyed, lookupSession_eq, h.sessions]

/-- **One call**: both stores answer the same and hold the same sessions again. -/
theorem stores_step {store : MemoryStore} {db : Database} {call : Timestamp × SessionCall}
    (h : SameSessions store db) (hfresh : SessionCall.Fresh store call) :
    (SessionCall.inMemory store call).1 = (SessionCall.inDatabase db call).1 ∧
      SameSessions (SessionCall.inMemory store call).2 (SessionCall.inDatabase db call).2 := by
  obtain ⟨now, call⟩ := call
  cases call with
  | mint token mac =>
    have hnew : store.get? token = none := hfresh
    have hfree : lookupSession db token = none := by
      rw [← h.lookup, MemoryStore.lookup, hnew]
      rfl
    have hvalue := (@mint_fresh _ now token db mac (lookupSession_eq_none_iff.mp hfree)).1
    have hkeyed : MemoryStore.Keyed (store.set token ⟨token, normaliseMac mac, none, []⟩) :=
      @MemoryStore.keyed_set store h.keyed ⟨token, normaliseMac mac, none, []⟩ hnew
    refine ⟨?_, hkeyed, ?_⟩
    · simp only [SessionCall.inMemory, SessionCall.inDatabase, hvalue]
      rfl
    · simp only [SessionCall.inMemory, SessionCall.inDatabase, MemoryStore.mint]
      rw [activeSessions_mint mac hfree, ← h.sessions, MemoryStore.activeSessions_eq,
        Dict.entries_set_new hnew,
        List.map_append, ← MemoryStore.activeSessions_eq]
      rfl
  | lookup token => exact ⟨congrArg SessionReply.found (h.lookup token), h⟩
  | recordState token state =>
    have hlookup := h.lookup token
    simp only [SessionCall.inMemory, SessionCall.inDatabase, MemoryStore.recordState]
    cases hget : store.get? token with
    | none =>
      rw [MemoryStore.lookup, hget, Option.map_none] at hlookup
      have hrow := lookupSession_eq_none_iff.mp hlookup.symm
      rw [recordState_unknown hrow]
      exact ⟨rfl, h⟩
    | some session =>
      rw [MemoryStore.lookup, hget, Option.map_some] at hlookup
      obtain ⟨db', hrecorded, hactive⟩ :=
        @activeSessions_recordState now token state db _ hlookup.symm
      rw [hrecorded]
      refine ⟨congrArg SessionReply.recorded (toSession_report state session),
        MemoryStore.keyed_modify h.keyed state, ?_⟩
      rw [hactive, ← h.sessions]
      exact MemoryStore.activeSessions_modify h.keyed state
  | endSession token =>
    refine ⟨rfl, MemoryStore.keyed_pop h.keyed, ?_⟩
    simp only [SessionCall.inMemory, SessionCall.inDatabase, MemoryStore.endSession]
    rw [MemoryStore.activeSessions_pop h.keyed, activeSessions_endSession, h.sessions]
  | activeSessions => exact ⟨congrArg SessionReply.active h.sessions, h⟩

/-- A `mint` that draws the token of a live session starts that session over in memory and raises
in the file. -/
theorem stores_differ {store : MemoryStore} {db : Database} {call : Timestamp × SessionCall}
    (h : SameSessions store db) (hstale : ¬ SessionCall.Fresh store call) :
    (SessionCall.inMemory store call).1 ≠ (SessionCall.inDatabase db call).1 := by
  obtain ⟨now, call⟩ := call
  cases call with
  | mint token mac =>
    have hlive : lookupSession db token ≠ none := by
      rw [← h.lookup, MemoryStore.lookup, ne_eq, Option.map_eq_none_iff]
      exact hstale
    have hrefused := @mint_live _ now token db mac (lookupSession_eq_none_iff.not.mp hlive)
    simp only [SessionCall.inMemory, SessionCall.inDatabase, hrefused]
    intro hsame
    cases hsame
  | lookup | recordState | endSession | activeSessions => exact absurd trivial hstale

/-! ## The furthest state -/

/-- The states reported for each token since it was minted last. -/
def SessionCall.note (reported : String → List BootState) :
    Timestamp × SessionCall → String → List BootState
  | (_, mint token _) => Function.update reported token []
  | (_, recordState token state) =>
    Function.update reported token (reported token ++ [state])
  | _ => reported

/-- The states that the calls report for a token. -/
def reportedStates (calls : List (Timestamp × SessionCall)) (token : String) : List BootState :=
  calls.foldl SessionCall.note (fun _ => []) token

omit [Unicode] in
/-- A session that has the furthest state of its reports has it after one more. -/
theorem argmax_report {session : MemorySession} (state : BootState)
    (h : session.latestState = session.reports.argmax BootState.index) :
    (session.report state).latestState = (session.report state).reports.argmax BootState.index := by
  rw [MemoryStore.reports_report, List.argmax_concat, ← h]
  unfold MemorySession.report
  dsimp only
  cases hlatest : session.latestState with
  | none => rfl
  | some latest =>
    dsimp only
    split <;> rfl

/-- Every session in memory has the furthest of the states reported for it. -/
def Furthest (store : MemoryStore) (reported : String → List BootState) : Prop :=
  ∀ token session, store.get? token = some session → session.reports = reported token ∧
    session.latestState = session.reports.argmax BootState.index

theorem furthest_step {store : MemoryStore} {reported : String → List BootState}
    (call : Timestamp × SessionCall) (h : Furthest store reported) :
    Furthest (SessionCall.inMemory store call).2 (SessionCall.note reported call) := by
  obtain ⟨now, call⟩ := call
  intro key session hsession
  cases call with
  | mint token mac =>
    simp only [SessionCall.inMemory, MemoryStore.mint, Dict.get?_set] at hsession
    simp only [SessionCall.note]
    split at hsession
    · rename_i hkey
      cases hsession
      rw [hkey, Function.update_self]
      exact ⟨rfl, rfl⟩
    · rename_i hkey
      rw [Function.update_of_ne hkey]
      exact h key session hsession
  | recordState token state =>
    simp only [SessionCall.inMemory, MemoryStore.recordState] at hsession
    simp only [SessionCall.note]
    cases hget : store.get? token with
    | none =>
      rw [hget] at hsession
      have hkey : key ≠ token := by
        rintro rfl
        cases hget.symm.trans hsession
      rw [Function.update_of_ne hkey]
      exact h key session hsession
    | some old =>
      rw [hget] at hsession
      simp only [Option.map_some, Dict.get?_modify] at hsession
      by_cases hkey : key = token
      · rw [if_pos hkey, hkey, hget, Option.map_some] at hsession
        cases hsession
        obtain ⟨hreports, hlatest⟩ := h token old hget
        rw [hkey, Function.update_self, MemoryStore.reports_report, hreports]
        refine ⟨rfl, ?_⟩
        have := argmax_report state hlatest
        rwa [MemoryStore.reports_report, hreports] at this
      · rw [if_neg hkey] at hsession
        rw [Function.update_of_ne hkey]
        exact h key session hsession
  | endSession token =>
    simp only [SessionCall.inMemory, MemoryStore.endSession, Dict.get?_pop] at hsession
    split at hsession
    · cases hsession
    · exact h key session hsession
  | lookup | activeSessions => exact h key session hsession

omit [Unicode] in
theorem Furthest.active {store : MemoryStore} {reported : String → List BootState}
    (h : Furthest store reported) (hkeyed : store.Keyed) {session : BootSession}
    (hsession : session ∈ store.activeSessions) :
    session.latestState = (reported session.token).argmax BootState.index := by
  rw [MemoryStore.activeSessions_eq] at hsession
  obtain ⟨e, he, rfl⟩ := List.mem_map.mp hsession
  obtain ⟨hreports, hlatest⟩ := h e.1 e.2 (Dict.get?_of_mem he)
  have htoken : e.2.toSession.token = e.1 := hkeyed e he
  rw [htoken, ← hreports]
  exact hlatest

/-! ## Runs of calls -/

/-- The answers of the store in memory, and its sessions at the end. -/
def runMemory (calls : List (Timestamp × SessionCall)) : List SessionReply × List BootSession :=
  let run := trace SessionCall.inMemory Dict.empty calls
  (run.1, MemoryStore.activeSessions run.2)

/-- The answers of the store in a file, and its sessions at the end. -/
def runDatabase (db : Database) (calls : List (Timestamp × SessionCall)) :
    List SessionReply × List BootSession :=
  let run := trace SessionCall.inDatabase db calls
  (run.1, activeSessions run.2)

/-- No `mint` draws the token of a session that is live at that time. -/
def FreshTokens (calls : List (Timestamp × SessionCall)) : Prop :=
  AllAllowed SessionCall.inMemory SessionCall.Fresh Dict.empty calls

/-- **The two stores.** Both begin without sessions and take the same calls.

* They answer the same, call for call, exactly if no `mint` draws the token of a live session.
* Then, in both, the state of a live session is the furthest of those reported for its token. -/
theorem stores_agree {db : Database} (hempty : db.bootSessions.rows = [])
    (calls : List (Timestamp × SessionCall)) :
    ((runMemory calls).1 = (runDatabase db calls).1 ↔ FreshTokens calls) ∧
    (FreshTokens calls →
      (runMemory calls).2 = (runDatabase db calls).2 ∧
      (∀ session ∈ (runMemory calls).2,
        session.latestState = (reportedStates calls session.token).argmax BootState.index) ∧
      ∀ session ∈ (runDatabase db calls).2,
        session.latestState = (reportedStates calls session.token).argmax BootState.index) := by
  have hstart : SameSessions Dict.empty db := by
    refine ⟨fun e he => absurd he List.not_mem_nil, ?_⟩
    rw [activeSessions, hempty]
    rfl
  have hstep : ∀ store db call, SameSessions store db → SessionCall.Fresh store call →
      (SessionCall.inMemory store call).1 = (SessionCall.inDatabase db call).1 ∧
        SameSessions (SessionCall.inMemory store call).2 (SessionCall.inDatabase db call).2 :=
    fun store db call => stores_step
  have hdiffer : ∀ store db call, SameSessions store db → ¬ SessionCall.Fresh store call →
      (SessionCall.inMemory store call).1 ≠ (SessionCall.inDatabase db call).1 :=
    fun store db call => stores_differ
  refine ⟨?_, fun hfresh => ?_⟩
  · exact trace_eq_iff_of_lockstep hstep hdiffer hstart calls
  · have hend := related_of_lockstep hstep hstart hfresh
    have hsame : (runMemory calls).2 = (runDatabase db calls).2 := hend.sessions
    have hfurthest : Furthest (trace SessionCall.inMemory Dict.empty calls).2
        (calls.foldl SessionCall.note fun _ => []) :=
      trace_history (fun store reported call => furthest_step call)
        (fun token session h => by cases h) calls
    have hlaw : ∀ session ∈ (runMemory calls).2,
        session.latestState = (reportedStates calls session.token).argmax BootState.index :=
      fun session hsession => hfurthest.active hend.keyed hsession
    exact ⟨hsame, hlaw, fun session hsession => hlaw session (hsame ▸ hsession)⟩

end Calls

section Examples

attribute [local instance] ascii

def zeroToken : String := "0000000000000000000000000000000000000000000000000000000000000000"

/-- One token is drawn twice: the dictionary takes it again, the table refuses it. -/
theorem stores_differ_zeroToken :
    (runMemory [(1, .mint zeroToken "52:54:00:12:34:56"),
      (2, .mint zeroToken "52:54:00:12:34:57")]).1 ≠
    (runDatabase emptyFile [(1, .mint zeroToken "52:54:00:12:34:56"),
      (2, .mint zeroToken "52:54:00:12:34:57")]).1 := by
  decide +kernel

/-- Reports out of order. -/
def mixedReports : List (Timestamp × SessionCall) :=
  [(1, .mint zeroToken "52:54:00:12:34:56"), (2, .recordState zeroToken .networkUp),
    (3, .recordState zeroToken .bootingKernel), (4, .recordState "ff" .networkUp),
    (5, .activeSessions)]

theorem stores_agree_mixedReports :
    (runMemory mixedReports).1 = (runDatabase emptyFile mixedReports).1 := by
  have hfresh : FreshTokens mixedReports := by
    simp [FreshTokens, mixedReports, AllAllowed, SessionCall.Fresh]
  exact (stores_agree rfl mixedReports).1.mpr hfresh

end Examples

end Fleetboot
