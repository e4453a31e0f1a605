import Fleetboot.Registry.Operations
import Fleetboot.Registry.SessionStores
import Fleetboot.Server.Deployment

/-!
# The state that is shown

`list_machines` and the dashboard show, for a MAC, the state of the last of its sessions that has
one. Sessions are dropped by `end` only, so a MAC has one for every boot.

* `get?_statesByMac`: the dictionary of the dashboard, for one MAC.
* `settled_iff`: when the last session that has a state is the last session.
* `shownState_iff`: which steps keep the shown state that of the boot that was minted last.
-/

set_option autoImplicit false

namespace Fleetboot

open Python Relational Transition

/-! ## What is shown -/

/-- `_states_by_mac`. -/
def statesByMac (sessions : List BootSession) : Dict String String :=
  sessions.foldl (fun states session =>
    match session.latestState with
    | some state => states.set session.mac state.value
    | none => states) .empty

/-- The sessions of a MAC, in the order in which they were minted. -/
def sessionsOf (db : Database) (mac : String) : List SessionRow :=
  db.bootSessions.rows.filter fun session => session.mac == mac

/-- The session of a MAC that was minted last. -/
def currentSession (db : Database) (mac : String) : Option SessionRow :=
  (sessionsOf db mac).getLast?

/-- The last state among the sessions of a MAC wins. -/
theorem get?_statesByMac (sessions : List BootSession) (mac : String) :
    (statesByMac sessions).get? mac = (((sessions.filter fun session =>
      session.mac == mac).filterMap BootSession.latestState).getLast?).map BootState.value := by
  induction sessions using List.reverseRecOn with
  | nil => rfl
  | append_singleton sessions session ih =>
    rw [statesByMac, List.foldl_append, ← statesByMac, List.filter_append, List.filterMap_append]
    simp only [List.foldl_cons, List.foldl_nil]
    cases hstate : session.latestState with
    | none =>
      have hnone : ([session].filter fun session => session.mac == mac).filterMap
          BootSession.latestState = [] := by
        by_cases hmac : session.mac = mac <;> simp [hmac, hstate]
      rw [hnone, List.append_nil]
      exact ih
    | some state =>
      rw [Dict.get?_set]
      by_cases hmac : session.mac = mac
      · simp [hmac, hstate]
      · rw [if_neg (Ne.symm hmac), ih]
        simp [hmac]

/-- The dashboard and `list_machines` show the same. -/
theorem get?_statesByMac_active (db : Database) (mac : String) :
    (statesByMac (activeSessions db)).get? mac = (latestStateOf db mac).map BootState.value := by
  rw [get?_statesByMac, activeSessions, List.filter_map, List.filterMap_map]
  rfl

theorem state_livenessOf (now : Timestamp) (db : Database) (mac : String) :
    (livenessOf now db mac).state = latestStateOf db mac := by
  unfold livenessOf
  dsimp only
  split <;> rfl

/-- For every MAC both show the state of the session that was minted last, and nothing while that
has none. -/
def ShowsCurrent (db : Database) : Prop := ∀ now mac,
  (livenessOf now db mac).state = (currentSession db mac).bind SessionRow.latestState ∧
  (statesByMac (activeSessions db)).get? mac =
    ((currentSession db mac).bind SessionRow.latestState).map BootState.value

/-! ## Which sessions have reported -/

/-- The last session has reported, or none has. -/
def Settled (sessions : List SessionRow) : Prop :=
  (∀ row ∈ sessions.getLast?, row.latestState.isSome) ∨ ∀ row ∈ sessions, row.latestState = none

/-- The last session that has a state is the last one when the sessions are settled. -/
theorem settled_iff (sessions : List SessionRow) :
    (sessions.filterMap SessionRow.latestState).getLast? =
      sessions.getLast?.bind SessionRow.latestState ↔ Settled sessions := by
  unfold Settled
  induction sessions using List.reverseRecOn with
  | nil => simp
  | append_singleton sessions row ih =>
    rw [List.filterMap_append, List.getLast?_append]
    cases hstate : row.latestState with
    | some state => simp [hstate]
    | none => simp [hstate, or_imp, forall_and]

theorem showsCurrent_iff (db : Database) :
    ShowsCurrent db ↔ ∀ mac, Settled (sessionsOf db mac) := by
  have hshown : ∀ mac, latestStateOf db mac = (currentSession db mac).bind SessionRow.latestState ↔
      Settled (sessionsOf db mac) := fun mac => settled_iff _
  constructor
  · intro h mac
    have hstate := (h 0 mac).1
    rw [state_livenessOf] at hstate
    exact (hshown mac).mp hstate
  · intro h now mac
    have hstate := (hshown mac).mpr (h mac)
    rw [state_livenessOf, get?_statesByMac_active, hstate]
    exact ⟨rfl, rfl⟩

/-! ## Steps -/

section Steps

variable [Unicode]

/-- A call of the store in the file, at a reading of the clock that is not before the last one. -/
structure StoreStep (s : Registry) (call : Timestamp × SessionCall) (s' : Registry) : Prop where
  later : s.clock ≤ call.1
  clock : s'.clock = call.1
  db : s'.db = (SessionCall.inDatabase s.db call).2

/-- No session of the MAC has reported when one is minted; a report is made on the session that was
minted last, or after that one has reported; and ending a session leaves the last one that has
reported, or none that has. -/
def SessionCall.Orderly (db : Database) : Timestamp × SessionCall → Prop
  | (_, mint token mac) => db.bootSessions.lookup token = none →
      ∀ row ∈ sessionsOf db (normaliseMac mac), row.latestState = none
  | (_, recordState token _) => ∀ row, db.bootSessions.lookup token = some row →
      ∀ current ∈ currentSession db row.mac, current.token = token ∨ current.latestState.isSome
  | (_, endSession token) => ∀ row, db.bootSessions.lookup token = some row →
      Settled ((sessionsOf db row.mac).filter fun session => session.token != token)
  | _ => True

omit [Unicode] in
theorem mem_sessionsOf {db : Database} {mac : String} {row : SessionRow} :
    row ∈ sessionsOf db mac ↔ row ∈ db.bootSessions.rows ∧ row.mac = mac := by
  simp [sessionsOf]

theorem sessionsOf_mint {now : Timestamp} {token mac : String} {db : Database}
    (hfresh : db.bootSessions.lookup token = none) (key : String) :
    sessionsOf (mint now token mac db).db key =
      if key = normaliseMac mac then sessionsOf db key ++ [mintedRow now token mac]
      else sessionsOf db key := by
  have hmac : (mintedRow now token mac).mac = normaliseMac mac := rfl
  unfold sessionsOf
  rw [(mint_fresh mac hfresh).2, List.filter_append]
  by_cases hkey : key = normaliseMac mac
  · simp [hkey, hmac]
  · simp [hkey, hmac, Ne.symm hkey]

omit [Unicode] in
/-- A report keeps the sessions of every MAC in their places. -/
theorem sessionsOf_report {now : Timestamp} {token : String} {state : BootState}
    {db db' : Database} (hrows : db'.bootSessions.rows = db.bootSessions.rows.map fun session =>
      if session.token = token then session.report now state else session) (key : String) :
    sessionsOf db' key = (sessionsOf db key).map fun session =>
      if session.token = token then session.report now state else session := by
  unfold sessionsOf
  rw [hrows, List.filter_map]
  refine congrArg (List.map _) (List.filter_congr fun row _ => ?_)
  simp only [Function.comp_apply]
  split <;> rfl

omit [Unicode] in
theorem sessionsOf_endSession (token : String) (db : Database) (key : String) :
    sessionsOf (endSession token db) key =
      (sessionsOf db key).filter fun session => session.token != token := by
  unfold sessionsOf endSession
  rw [Table.rows_delete, List.filter_filter, List.filter_filter]
  exact List.filter_congr fun row _ => Bool.and_comm _ _

omit [Unicode] in
theorem settled_append_new {sessions : List SessionRow} {row : SessionRow}
    (hrow : row.latestState = none) :
    Settled (sessions ++ [row]) ↔ ∀ session ∈ sessions, session.latestState = none := by
  simp [Settled, hrow, or_imp, forall_and]

omit [Unicode] in
/-- After a report on one of them, sessions are settled when the last one has reported. -/
theorem settled_report {sessions : List SessionRow} {now : Timestamp} {token : String}
    {state : BootState} {row : SessionRow} (hrow : row ∈ sessions) (htoken : row.token = token) :
    Settled (sessions.map fun session =>
      if session.token = token then session.report now state else session) ↔
      ∀ current ∈ sessions.getLast?, current.token = token ∨ current.latestState.isSome := by
  have hlast : ∀ current : SessionRow, (if current.token = token then current.report now state
      else current).latestState.isSome ↔ current.token = token ∨ current.latestState.isSome := by
    intro current
    by_cases hcurrent : current.token = token
    · rw [if_pos hcurrent]
      exact iff_of_true rfl (.inl hcurrent)
    · rw [if_neg hcurrent, or_iff_right hcurrent]
  have hsome : ¬ ∀ session ∈ sessions.map fun session =>
      if session.token = token then session.report now state else session,
      session.latestState = none := by
    intro hnone
    have hreported := (hlast row).mpr (.inl htoken)
    rw [hnone _ (List.mem_map_of_mem hrow)] at hreported
    cases hreported
  unfold Settled
  rw [or_iff_left hsome, List.getLast?_map]
  simp only [Option.mem_def, Option.map_eq_some_iff, forall_exists_index, and_imp,
    forall_apply_eq_imp_iff₂, hlast]

omit [Unicode] in
/-- A session of another MAC than the row's has another token. -/
theorem token_ne_of_mac_ne {db : Database} {token key : String} {row session : SessionRow}
    (hrow : db.bootSessions.lookup token = some row) (hkey : key ≠ row.mac)
    (hsession : session ∈ sessionsOf db key) : session.token ≠ token := by
  obtain ⟨hmem, hmac⟩ := mem_sessionsOf.mp hsession
  intro htoken
  have heq : session = row := Table.eq_of_key_eq hmem (Table.mem_of_lookup hrow) rfl rfl
    (htoken.trans (Table.key_of_lookup hrow).symm)
  exact hkey (hmac.symm.trans (congrArg SessionRow.mac heq))

omit [Unicode] in
/-- A change that only concerns the sessions of one MAC. -/
theorem showsCurrent_iff_of_mac {db db' : Database} {mac : String} (h : ShowsCurrent db)
    (hother : ∀ key, key ≠ mac → sessionsOf db' key = sessionsOf db key) :
    ShowsCurrent db' ↔ Settled (sessionsOf db' mac) := by
  rw [showsCurrent_iff] at h ⊢
  constructor
  · intro hsettled
    exact hsettled mac
  · intro hsettled key
    by_cases hkey : key = mac
    · rwa [hkey]
    · rw [hother key hkey]
      exact h key

/-- **One step.** -/
theorem showsCurrent_step_iff {s s' : Registry} {call : Timestamp × SessionCall}
    (h : ShowsCurrent s.db) (hstep : StoreStep s call s') :
    ShowsCurrent s'.db ↔ SessionCall.Orderly s.db call := by
  obtain ⟨now, call⟩ := call
  rw [hstep.db]
  cases call with
  | lookup | activeSessions => exact iff_of_true h trivial
  | mint token mac =>
    simp only [SessionCall.inDatabase, SessionCall.Orderly]
    by_cases hfresh : s.db.bootSessions.lookup token = none
    · have hsessions := @sessionsOf_mint _ now token mac s.db hfresh
      have hother : ∀ key, key ≠ normaliseMac mac →
          sessionsOf (mint now token mac s.db).db key = sessionsOf s.db key := by
        intro key hkey
        rw [hsessions, if_neg hkey]
      rw [showsCurrent_iff_of_mac h hother, hsessions, if_pos rfl, settled_append_new rfl]
      simp only [hfresh, forall_const]
    · rw [mint_live mac hfresh]
      exact iff_of_true h fun hnone => absurd hnone hfresh
  | recordState token state =>
    simp only [SessionCall.inDatabase, SessionCall.Orderly]
    cases hrow : s.db.bootSessions.lookup token with
    | none =>
      rw [recordState_unknown hrow]
      exact iff_of_true h fun row hsome => by cases hsome
    | some row =>
      obtain ⟨db', hrecorded, hrows⟩ := @recordState_live now token s.db state row hrow
      rw [hrecorded]
      have hsessions := sessionsOf_report hrows
      have htoken : row.token = token := Table.key_of_lookup hrow
      have hmem : row ∈ sessionsOf s.db row.mac :=
        mem_sessionsOf.mpr ⟨Table.mem_of_lookup hrow, rfl⟩
      have hother : ∀ key, key ≠ row.mac → sessionsOf db' key = sessionsOf s.db key := by
        intro key hkey
        have hsame : ∀ session ∈ sessionsOf s.db key, (if session.token = token then
            session.report now state else session) = id session :=
          fun session hsession => if_neg (token_ne_of_mac_ne hrow hkey hsession)
        rw [hsessions, List.map_congr_left hsame, List.map_id]
      rw [showsCurrent_iff_of_mac h hother, hsessions, settled_report hmem htoken]
      simp only [Option.some.injEq, forall_eq', currentSession]
  | endSession token =>
    simp only [SessionCall.inDatabase, SessionCall.Orderly]
    have hsessions := sessionsOf_endSession token s.db
    cases hrow : s.db.bootSessions.lookup token with
    | none =>
      have hsame : ∀ key, sessionsOf (endSession token s.db) key = sessionsOf s.db key := by
        intro key
        rw [hsessions, List.filter_eq_self]
        intro session hsession
        have htoken := Table.lookup_eq_none_iff.mp hrow session (mem_sessionsOf.mp hsession).1 rfl
        simpa using htoken
      refine iff_of_true ?_ fun row hsome => by cases hsome
      rw [showsCurrent_iff] at h ⊢
      intro key
      rw [hsame]
      exact h key
    | some row =>
      have hother : ∀ key, key ≠ row.mac →
          sessionsOf (endSession token s.db) key = sessionsOf s.db key := by
        intro key hkey
        rw [hsessions, List.filter_eq_self]
        intro session hsession
        simpa using token_ne_of_mac_ne hrow hkey hsession
      rw [showsCurrent_iff_of_mac h hother, hsessions]
      simp only [Option.some.injEq, forall_eq']

/-! ## Runs -/

omit [Unicode] in
/-- The sessions stand in the order of their times, none of which is ahead of the clock. -/
def MintedInOrder (s : Registry) : Prop :=
  s.db.bootSessions.rows.Pairwise (fun row row' => row.mintedAt ≤ row'.mintedAt) ∧
    ∀ row ∈ s.db.bootSessions.rows, row.mintedAt ≤ s.clock

theorem mintedInOrder_step {s s' : Registry} {call : Timestamp × SessionCall}
    (h : MintedInOrder s) (hstep : StoreStep s call s') : MintedInOrder s' := by
  obtain ⟨now, call⟩ := call
  obtain ⟨hsorted, hclock⟩ := h
  have hlater : s.clock ≤ now := hstep.later
  have hnow : ∀ row ∈ s.db.bootSessions.rows, row.mintedAt ≤ now :=
    fun row hrow => (hclock row hrow).trans hlater
  unfold MintedInOrder
  rw [hstep.db, hstep.clock]
  cases call with
  | lookup | activeSessions => exact ⟨hsorted, hnow⟩
  | mint token mac =>
    simp only [SessionCall.inDatabase]
    by_cases hfresh : s.db.bootSessions.lookup token = none
    · have hminted : (mintedRow now token mac).mintedAt = now := rfl
      rw [(mint_fresh mac hfresh).2]
      refine ⟨List.pairwise_append.mpr ⟨hsorted, List.pairwise_singleton _ _, ?_⟩, ?_⟩
      · intro row hrow row' hrow'
        rw [List.mem_singleton.mp hrow', hminted]
        exact hnow row hrow
      · intro row hrow
        rcases List.mem_append.mp hrow with hold | hnew
        · exact hnow row hold
        · rw [List.mem_singleton.mp hnew, hminted]
    · rw [mint_live mac hfresh]
      exact ⟨hsorted, hnow⟩
  | recordState token state =>
    simp only [SessionCall.inDatabase]
    cases hrow : s.db.bootSessions.lookup token with
    | none =>
      rw [recordState_unknown hrow]
      exact ⟨hsorted, hnow⟩
    | some row =>
      obtain ⟨db', hrecorded, hrows⟩ := @recordState_live now token s.db state row hrow
      have hminted : ∀ session : SessionRow, (if session.token = token then
          session.report now state else session).mintedAt = session.mintedAt := by
        intro session
        split <;> rfl
      rw [hrecorded]
      dsimp only
      rw [hrows]
      refine ⟨List.pairwise_map.mpr ?_, fun session hsession => ?_⟩
      · simpa only [hminted] using hsorted
      · obtain ⟨old, hold, rfl⟩ := List.mem_map.mp hsession
        rw [hminted]
        exact hnow old hold
  | endSession token =>
    exact ⟨hsorted.filter _, fun row hrow => hnow row (List.mem_filter.mp hrow).1⟩

omit [Unicode] in
/-- The session that stands last was minted last. -/
theorem MintedInOrder.current {s : Registry} (h : MintedInOrder s) {mac : String}
    {current row : SessionRow} (hcurrent : currentSession s.db mac = some current)
    (hrow : row ∈ sessionsOf s.db mac) : row.mintedAt ≤ current.mintedAt := by
  have hsorted : (sessionsOf s.db mac).Pairwise fun row row' => row.mintedAt ≤ row'.mintedAt :=
    h.1.filter _
  obtain ⟨before, hsplit⟩ := List.getLast?_eq_some_iff.mp hcurrent
  rw [hsplit] at hsorted hrow
  rcases List.mem_append.mp hrow with hold | hlast
  · exact (List.pairwise_append.mp hsorted).2.2 row hold current (List.mem_singleton_self _)
  · rw [List.mem_singleton.mp hlast]

/-- **The shown state.** In runs of the session store from one without sessions:

* The session that stands last for a MAC was minted last, in every run.
* In every run of orderly steps both pages show its state.
* After any single step from a state in which they do, they do exactly if the step is orderly. -/
theorem shownState_iff :
    (∀ s calls s', s.db.bootSessions.rows = [] → Run StoreStep s calls s' →
      ∀ mac current, currentSession s'.db mac = some current →
        ∀ row ∈ sessionsOf s'.db mac, row.mintedAt ≤ current.mintedAt) ∧
    (∀ s calls s', s.db.bootSessions.rows = [] →
      Run (Restrict StoreStep fun s call => SessionCall.Orderly s.db call) s calls s' →
      ShowsCurrent s'.db) ∧
    ∀ s call s', ShowsCurrent s.db → StoreStep s call s' →
      (ShowsCurrent s'.db ↔ SessionCall.Orderly s.db call) := by
  refine ⟨fun s calls s' hempty hrun mac current hcurrent row hrow => ?_,
    fun s calls s' hempty hrun => ?_, fun s call s' => showsCurrent_step_iff⟩
  · have hstart : MintedInOrder s := by
      unfold MintedInOrder
      rw [hempty]
      exact ⟨List.Pairwise.nil, fun row hrow => absurd hrow List.not_mem_nil⟩
    have hend := hrun.invariant (fun s call s' h hstep => mintedInOrder_step h hstep) hstart
    exact hend.current hcurrent hrow
  · have hstart : ShowsCurrent s.db := by
      rw [showsCurrent_iff]
      intro mac
      refine .inr fun row hrow => ?_
      rw [sessionsOf, hempty] at hrow
      cases hrow
    refine hrun.invariant (I := fun s => ShowsCurrent s.db) (fun before call after h hstep => ?_)
      hstart
    exact (showsCurrent_step_iff h hstep.1).mpr hstep.2

end Steps

section Examples

attribute [local instance] ascii

/-- The store after one more call. -/
def afterCall (s : Registry) (now : Timestamp) (call : SessionCall) : Registry :=
  ⟨now, (SessionCall.inDatabase s.db (now, call)).2⟩

theorem storeStep_afterCall {s : Registry} {now : Timestamp} (h : s.clock ≤ now)
    (call : SessionCall) : StoreStep s (now, call) (afterCall s now call) :=
  ⟨h, rfl, rfl⟩

def firstBoot : Registry :=
  afterCall (afterCall ⟨0, emptyFile⟩ 1 (.mint zeroToken "52:54:00:12:34:56")) 2
    (.recordState zeroToken .loginConsole)

/-- The machine boots again and has not reported yet. -/
def secondBoot : Registry := afterCall firstBoot 90 (.mint "7f" "52:54:00:12:34:56")

theorem run_firstBoot : Run StoreStep ⟨0, emptyFile⟩
    [(1, .mint zeroToken "52:54:00:12:34:56"), (2, .recordState zeroToken .loginConsole)]
    firstBoot :=
  (Run.single (storeStep_afterCall (by decide) _)).snoc (storeStep_afterCall (by decide) _)

/-- The state of the first boot is shown during the second. -/
theorem secondBoot_shows_firstBoot :
    (∃ calls, Run StoreStep ⟨0, emptyFile⟩ calls secondBoot) ∧
    (currentSession secondBoot.db "52:54:00:12:34:56").map SessionRow.latestState = some none ∧
    (statesByMac (activeSessions secondBoot.db)).get? "52:54:00:12:34:56" =
      some "login_console" ∧
    ¬ ShowsCurrent secondBoot.db := by
  have hcurrent : (currentSession secondBoot.db "52:54:00:12:34:56").map
      SessionRow.latestState = some none := by decide +kernel
  have hshown : (statesByMac (activeSessions secondBoot.db)).get? "52:54:00:12:34:56" =
      some "login_console" := by decide +kernel
  refine ⟨⟨_, run_firstBoot.snoc (storeStep_afterCall (by decide) _)⟩, hcurrent, hshown,
    fun h => ?_⟩
  obtain ⟨current, hrow, hnone⟩ := Option.map_eq_some_iff.mp hcurrent
  have hstate := (h 90 "52:54:00:12:34:56").2
  rw [hshown, hrow, Option.bind_some, hnone] at hstate
  cases hstate

theorem shownState_firstBoot : ShowsCurrent firstBoot.db := by
  have hmint : SessionCall.Orderly emptyFile (1, .mint zeroToken "52:54:00:12:34:56") :=
    fun _ row hrow => absurd hrow List.not_mem_nil
  have hstart : ShowsCurrent (afterCall ⟨0, emptyFile⟩ 1
      (.mint zeroToken "52:54:00:12:34:56")).db :=
    shownState_iff.2.1 ⟨0, emptyFile⟩ [_] _ rfl
      (.single ⟨storeStep_afterCall (by decide) _, hmint⟩)
  have hreport : SessionCall.Orderly (afterCall ⟨0, emptyFile⟩ 1
      (.mint zeroToken "52:54:00:12:34:56")).db (2, .recordState zeroToken .loginConsole) := by
    intro row hrow current hcurrent
    have htoken : (currentSession (afterCall ⟨0, emptyFile⟩ 1
        (.mint zeroToken "52:54:00:12:34:56")).db row.mac).map SessionRow.token =
        some zeroToken := by
      cases hrow
      decide +kernel
    rw [Option.mem_def.mp hcurrent] at htoken
    exact .inl (Option.some.inj htoken)
  exact (shownState_iff.2.2 _ _ _ hstart (storeStep_afterCall (by decide) _)).mpr hreport

end Examples

end Fleetboot
