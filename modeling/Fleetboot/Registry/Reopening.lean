import Fleetboot.Registry.Holds

/-!
# Opening the registry again

`MachineRegistry(path)` on a file that this version wrote: the columns are there and the pinning
has run, but the states of boot events are rewritten on every start.

* `renameBootEvents_eq_self_iff`: what that leaves alone.
* `retired_run`: which calls leave an event that it rewrites, and which remove it.
* `reopenInert_iff`: after a run, opening is a no-op exactly if no such event is left.
-/

set_option autoImplicit false

namespace Fleetboot

open Python Relational Transition

/-! ## Retired states -/

/-- The states that opening renames or deletes. -/
def retiredStates : List String := ["login_ready", "user_logged_in"]

/-- Some boot event of a MAC is in a retired state. -/
def Database.Retired (db : Database) (mac : String) : Prop :=
  ∃ event ∈ db.bootEvents.rows, event.mac = mac ∧ event.state ∈ retiredStates

/-- The new name of a state. -/
def renamedEvent (event : BootEvent) : BootEvent :=
  if event.state = "login_ready" then { event with state := "login_console" } else event

theorem rows_renameBootEvents (db : Database) : (renameBootEvents db).bootEvents.rows =
    (db.bootEvents.rows.map renamedEvent).filter fun event => !(event.state == "user_logged_in") :=
  rfl

theorem renamedEvent_eq_self {event : BootEvent} (h : event.state ∉ retiredStates) :
    renamedEvent event = event :=
  if_neg fun hstate => h (by rw [hstate]; exact List.mem_cons_self)

/-- What is left after opening is in no retired state. -/
theorem not_retired_renameBootEvents (db : Database) (mac : String) :
    ¬ (renameBootEvents db).Retired mac := by
  rintro ⟨event, hevent, -, hstate⟩
  rw [rows_renameBootEvents] at hevent
  obtain ⟨hrenamed, hkept⟩ := List.mem_filter.mp hevent
  obtain ⟨before, -, rfl⟩ := List.mem_map.mp hrenamed
  have hlogged : (renamedEvent before).state ≠ "user_logged_in" := by simpa using hkept
  have hready : (renamedEvent before).state ≠ "login_ready" := by
    unfold renamedEvent
    split
    · exact fun hsame => absurd (show "login_console" = "login_ready" from hsame) (by decide)
    · assumption
  rcases List.mem_cons.mp hstate with hstate | hstate
  · exact hready hstate
  · exact hlogged (List.mem_singleton.mp hstate)

theorem renameBootEvents_of_not_retired {db : Database} (h : ∀ mac, ¬ db.Retired mac) :
    renameBootEvents db = db := by
  have hstate : ∀ event ∈ db.bootEvents.rows, event.state ∉ retiredStates :=
    fun event hevent hretired => h event.mac ⟨event, hevent, rfl, hretired⟩
  have hmap : db.bootEvents.rows.map renamedEvent = db.bootEvents.rows := by
    rw [List.map_congr_left fun event hevent => renamedEvent_eq_self (hstate event hevent),
      List.map_id']
  have hrows : (renameBootEvents db).bootEvents.rows = db.bootEvents.rows := by
    rw [rows_renameBootEvents, hmap, List.filter_eq_self]
    intro event hevent
    have := hstate event hevent
    simpa using fun hlogged => this (by rw [hlogged]; decide)
  have hevents : (renameBootEvents db).bootEvents = db.bootEvents := Serial.eq_of_rows hrows rfl
  calc renameBootEvents db = { db with bootEvents := (renameBootEvents db).bootEvents } := rfl
    _ = { db with bootEvents := db.bootEvents } := by rw [hevents]

/-- **What opening leaves alone.** -/
theorem renameBootEvents_eq_self_iff (db : Database) :
    renameBootEvents db = db ↔ ∀ mac, ¬ db.Retired mac := by
  refine ⟨fun hsame mac => ?_, renameBootEvents_of_not_retired⟩
  rw [← hsame]
  exact not_retired_renameBootEvents db mac

/-! ## Opening again and again -/

/-- The file after the registry was opened on it at each of these times. -/
def reopenAll (times : List Timestamp) (db : Database) : Database :=
  times.foldl (fun db now => (openRegistry now db).db) db

/-- Opening changes no row, and opening again changes nothing more. -/
structure ReopenInert (db : Database) : Prop where
  unchanged : ∀ now, openRegistry now db = ⟨db, .ok ()⟩
  repeated : ∀ now times, reopenAll (now :: times) db = (openRegistry now db).db

/-- A file that was opened twice is as it was after the first time. -/
theorem reopenAll_of_hasRun {db : Database} (h : HasRun db) (now : Timestamp)
    (times : List Timestamp) : reopenAll (now :: times) db = (openRegistry now db).db := by
  have hfirst : (openRegistry now db).db = renameBootEvents db := by
    rw [openRegistry_of_hasRun now h]
  have hthen : ∀ later, (openRegistry later (renameBootEvents db)).db = renameBootEvents db := by
    intro later
    have hrun : HasRun (renameBootEvents db) := ⟨h.pinned, h.hardwareSpecAdded⟩
    rw [openRegistry_of_hasRun later hrun]
    exact renameBootEvents_of_not_retired (not_retired_renameBootEvents db)
  rw [reopenAll, List.foldl_cons, hfirst]
  induction times with
  | nil => rfl
  | cons later times ih => rw [List.foldl_cons, hthen, ih]

theorem reopenInert_iff_not_retired {db : Database} (h : HasRun db) :
    ReopenInert db ↔ ∀ mac, ¬ db.Retired mac := by
  rw [← renameBootEvents_eq_self_iff]
  constructor
  · intro hinert
    have hopen := hinert.unchanged 0
    rw [openRegistry_of_hasRun 0 h] at hopen
    exact congrArg Outcome.db hopen
  · intro hsame
    refine ⟨fun now => ?_, reopenAll_of_hasRun h⟩
    rw [openRegistry_of_hasRun now h, hsame]

/-! ## Which calls leave a retired state -/

section Calls

variable [Unicode]

/-- The call logs an event of a MAC in a retired state. -/
def Operation.Retires (mac : String) : Operation → Prop
  | logBootEvent mac' state _ => normaliseMac mac' = mac ∧ state ∈ retiredStates
  | _ => False

/-- No event of a MAC is in a retired state after the call. -/
def Operation.Clears (mac : String) : Operation → Prop
  | reopen => True
  | remove mac' => normaliseMac mac' = mac
  | _ => False

variable [IpAddress] {now : Timestamp} {db : Database} {mac : String}

/-- The calls that neither open the file nor write boot events. -/
def Operation.leavesEvents : Operation → Bool
  | reopen | remove _ | logBootEvent _ _ _ => false
  | _ => true

theorem bootEvents_run {op : Operation} (hop : op.leavesEvents = true) :
    (op.run now db).db.bootEvents = db.bootEvents := by
  cases op with
  | enroll | reserve | renew | release | pin | releaseToPool | reapExpired =>
    exact (sameRest_run rfl (by simp)).bootEvents
  | setProfile | updateHostname | updateLastIp | updateBootVersion | updateDiagnostics
  | updateHardware | setPendingReboot | setPowerCommand | setPduAlias | setPdudaemonHost
  | addAutoEnrolRule | updateAutoEnrolRule | removeAutoEnrolRule =>
    exact (sameRecords_run now db rfl).bootEvents
  | mint token mac =>
    simp only [Operation.run, Outcome.db_map, mint]
    split <;> rfl
  | recordState token state =>
    simp only [Operation.run]
    cases hrecord : recordState now token state db with
    | none => rfl
    | some result =>
      obtain ⟨row, -, hrow⟩ := Option.map_eq_some_iff.mp hrecord
      obtain rfl := hrow
      rfl
  | endSession token => rfl
  | reopen | remove | logBootEvent => cases hop

omit [Unicode] [IpAddress] in
theorem mem_of_latestBootEvent {latest : BootEvent} (h : latestBootEvent db mac = some latest) :
    latest ∈ db.bootEvents.rows ∧ latest.mac = mac := by
  have hsorted := List.mem_of_head? h
  rw [List.mem_insertionSort, List.mem_filter] at hsorted
  exact ⟨hsorted.1, by simpa using hsorted.2⟩

omit [IpAddress] in
/-- A log entry leaves what there was of a MAC, and its own state. -/
theorem exists_logBootEvent (P : String → Prop) (mac' state : String) (detail : Option String) :
    (∃ event ∈ (logBootEvent now mac' state detail db).bootEvents.rows,
      event.mac = mac ∧ P event.state) ↔
      (normaliseMac mac' = mac ∧ P state) ∨
        ∃ event ∈ db.bootEvents.rows, event.mac = mac ∧ P event.state := by
  have hinsert : ∀ new : BootEvent, new.mac = normaliseMac mac' → new.state = state →
      ((∃ event ∈ db.bootEvents.rows ++ [new], event.mac = mac ∧ P event.state) ↔
        (normaliseMac mac' = mac ∧ P state) ∨
          ∃ event ∈ db.bootEvents.rows, event.mac = mac ∧ P event.state) := by
    rintro new hmac rfl
    constructor
    · rintro ⟨event, hevent, hevent'⟩
      rcases List.mem_append.mp hevent with hold | hnew
      · exact .inr ⟨event, hold, hevent'⟩
      · rw [List.mem_singleton.mp hnew, hmac] at hevent'
        exact .inl hevent'
    · rintro (⟨hmac', hstate⟩ | ⟨event, hevent, hevent'⟩)
      · exact ⟨new, List.mem_append_right _ (List.mem_singleton.mpr rfl), hmac.trans hmac', hstate⟩
      · exact ⟨event, List.mem_append_left _ hevent, hevent'⟩
  unfold logBootEvent
  dsimp only
  cases hlatest : latestBootEvent db (normaliseMac mac') with
  | none => exact hinsert _ rfl rfl
  | some latest =>
    dsimp only
    split
    · -- The latest event is in that state already, and its time moves.
      rename_i hrepeated
      obtain ⟨hmem, hlatestmac⟩ := mem_of_latestBootEvent hlatest
      constructor
      · rintro ⟨event, hevent, hevent'⟩
        obtain ⟨before, hbefore, rfl⟩ := List.mem_map.mp hevent
        refine .inr ⟨before, hbefore, ?_⟩
        split at hevent' <;> exact hevent'
      · intro h
        obtain ⟨event, hevent, hmac, hstate⟩ :
            ∃ event ∈ db.bootEvents.rows, event.mac = mac ∧ P event.state := by
          rcases h with ⟨hmac, hstate⟩ | hold
          · exact ⟨latest, hmem, hlatestmac.trans hmac, hrepeated.1 ▸ hstate⟩
          · exact hold
        refine ⟨_, List.mem_map_of_mem hevent, ?_⟩
        split <;> exact ⟨hmac, hstate⟩
    · exact hinsert _ rfl rfl

omit [IpAddress] in
theorem retired_logBootEvent (mac' state : String) (detail : Option String) :
    (logBootEvent now mac' state detail db).Retired mac ↔
      (normaliseMac mac' = mac ∧ state ∈ retiredStates) ∨ db.Retired mac :=
  exists_logBootEvent (· ∈ retiredStates) mac' state detail

omit [IpAddress] in
/-- A removal takes the events of its MAC and no others. -/
theorem exists_remove (P : String → Prop) (mac' : String) :
    (∃ event ∈ (remove mac' db).db.bootEvents.rows, event.mac = mac ∧ P event.state) ↔
      (∃ event ∈ db.bootEvents.rows, event.mac = mac ∧ P event.state) ∧
        normaliseMac mac' ≠ mac := by
  constructor
  · rintro ⟨event, hevent, rfl, hstate⟩
    obtain ⟨hrow, hkept⟩ := List.mem_filter.mp hevent
    exact ⟨⟨event, hrow, rfl, hstate⟩, fun heq => by simp [heq] at hkept⟩
  · rintro ⟨⟨event, hevent, rfl, hstate⟩, hother⟩
    exact ⟨event, List.mem_filter.mpr ⟨hevent, by simpa using Ne.symm hother⟩, rfl, hstate⟩

omit [IpAddress] in
theorem retired_remove (mac' : String) : (remove mac' db).db.Retired mac ↔
    db.Retired mac ∧ normaliseMac mac' ≠ mac :=
  exists_remove (· ∈ retiredStates) mac'

/-- **One call.** -/
theorem retired_run {op : Operation} (hrun : HasRun db) : (op.run now db).db.Retired mac ↔
    op.Retires mac ∨ db.Retired mac ∧ ¬ op.Clears mac := by
  have hleaves : op.leavesEvents = true → (op.run now db).db.Retired mac = db.Retired mac := by
    intro hop
    rw [Database.Retired, bootEvents_run hop]
    rfl
  cases op with
  | reopen =>
    rw [Operation.run, openRegistry_of_hasRun now hrun]
    exact iff_of_false (not_retired_renameBootEvents db mac) fun h =>
      h.elim id fun hkept => hkept.2 trivial
  | remove mac' =>
    rw [Operation.run, Outcome.db_map, retired_remove]
    exact (false_or _).symm ▸ Iff.rfl
  | logBootEvent mac' state detail =>
    refine (retired_logBootEvent mac' state detail).trans (or_congr_right ?_)
    exact ⟨fun h => ⟨h, id⟩, fun h => h.1⟩
  | _ =>
    rw [hleaves rfl]
    exact ⟨fun h => .inr ⟨h, id⟩, fun h => h.elim False.elim fun hkept => hkept.1⟩

/-- A retired state was logged for the MAC and neither removed nor rewritten since. -/
def LeftRetired (calls : List Call) (mac : String) : Prop :=
  ∃ past call future, calls = past ++ call :: future ∧ call.op.Retires mac ∧
    ∀ later ∈ future, ¬ later.op.Clears mac

omit [IpAddress] in
theorem leftRetired_concat {calls : List Call} {call : Call} : LeftRetired (calls ++ [call]) mac ↔
    call.op.Retires mac ∨ LeftRetired calls mac ∧ ¬ call.op.Clears mac := by
  constructor
  · rintro ⟨past, logged, future, hsplit, hretires, hkept⟩
    rcases concat_eq_split hsplit with ⟨rfl, -, -⟩ | ⟨future, rfl, hcalls⟩
    · exact .inl hretires
    · exact .inr ⟨⟨past, logged, future, hcalls, hretires,
        fun later hlater => hkept later (List.mem_append_left _ hlater)⟩,
        hkept call (List.mem_append_right _ (List.mem_singleton.mpr rfl))⟩
  · rintro (hretires | ⟨⟨past, logged, future, rfl, hretires, hkept⟩, hlast⟩)
    · exact ⟨calls, call, [], rfl, hretires, fun later hlater => absurd hlater List.not_mem_nil⟩
    · refine ⟨past, logged, future ++ [call], by simp, hretires, fun later hlater => ?_⟩
      rcases List.mem_append.mp hlater with hlater | hlater
      · exact hkept later hlater
      · rw [List.mem_singleton.mp hlater]
        exact hlast

/-- **A run.** -/
theorem retired_runs {s s' : Registry} {calls : List Call} (hruns : Run Step s calls s')
    (hs : HasRun s.db) (hnone : ¬ s.db.Retired mac) :
    HasRun s'.db ∧ (s'.db.Retired mac ↔ LeftRetired calls mac) := by
  induction hruns with
  | nil => exact ⟨hs, iff_of_false hnone (by rintro ⟨past, call, future, hnil, -⟩; simp at hnil)⟩
  | @snoc calls call middle last hpast hstep ih =>
    have hdb : last.db = (call.op.run call.time middle.db).db := by rw [hstep.run]
    refine ⟨hdb ▸ hasRun_run ih.1 call.op, ?_⟩
    rw [hdb, retired_run ih.1, leftRetired_concat, ih.2]

omit [Unicode] [IpAddress] in
/-- What opening leaves, if it succeeds, has its states rewritten. -/
theorem openRegistry_eq_rename {file : Database}
    (hok : (openRegistry now file).value = .ok ()) :
    ∃ before, (openRegistry now file).db = renameBootEvents before := by
  unfold openRegistry Outcome.andThen at hok ⊢
  dsimp only at hok ⊢
  split at hok
  · exact ⟨_, rfl⟩
  · cases hok

omit [Unicode] [IpAddress] in
theorem Opened.not_retired {s : Registry} (h : Opened s) (mac : String) : ¬ s.db.Retired mac := by
  obtain ⟨file, hfile, hdb⟩ := h
  have hunpinned : file.settings.lookup pinnedFlag = none := by
    rcases hfile with rfl | hfile
    · rfl
    · exact hfile.not_pinned
  obtain ⟨db, hopen, -⟩ := @openRegistry_unpinned s.clock file hunpinned
  obtain ⟨before, hrenamed⟩ := openRegistry_eq_rename (congrArg Outcome.value hopen)
  rw [hdb, hrenamed]
  exact not_retired_renameBootEvents before mac

/-- **Reopening.** After every run, opening the registry again changes no row, however often,
exactly if no event is left of a MAC that was logged as `login_ready` or `user_logged_in`: the
MAC has been removed since then, or the registry opened. -/
theorem reopenInert_iff {s s' : Registry} {calls : List Call} (hs : Opened s)
    (hruns : Run Step s calls s') :
    ReopenInert s'.db ↔ ∀ mac, ¬ LeftRetired calls mac := by
  have hrun : HasRun s'.db := (retired_runs hruns hs.sound.hasRun (hs.not_retired "")).1
  rw [reopenInert_iff_not_retired hrun]
  refine forall_congr' fun mac => not_congr ?_
  exact (retired_runs hruns hs.sound.hasRun (hs.not_retired mac)).2

end Calls

section Examples

attribute [local instance] ascii noNetworks

/-- The log of a state on a new registry. -/
def logCall (state : String) : Call :=
  ⟨5, .logBootEvent "52:54:00:12:34:56" state none, .ok .done⟩

def loggedRegistry (state : String) : Registry :=
  newRegistry.after 5 (.logBootEvent "52:54:00:12:34:56" state none)

theorem run_logCall (state : String) :
    Run Step newRegistry [logCall state] (loggedRegistry state) :=
  .single ⟨show (0 : Timestamp) ≤ 5 by decide, rfl, rfl⟩

/-- A custom state of a retired name is gone when the registry opens again. -/
theorem not_reopenInert : Reachable (loggedRegistry "user_logged_in") ∧
    ¬ ReopenInert (loggedRegistry "user_logged_in").db := by
  refine ⟨⟨newRegistry, _, newRegistry_opened, run_logCall _⟩, fun h => ?_⟩
  have hsame := congrArg (fun out => out.db.bootEvents.rows.length) (h.unchanged 6)
  exact absurd hsame (by decide +kernel)

theorem reopenInert_runner_started : ReopenInert (loggedRegistry "runner_started").db := by
  refine (reopenInert_iff newRegistry_opened (run_logCall _)).mpr fun mac hleft => ?_
  rcases (@leftRetired_concat _ mac [] (logCall "runner_started")).mp hleft with
    ⟨-, hstate⟩ | ⟨⟨past, call, future, hnil, -⟩, -⟩
  · exact absurd hstate (by decide)
  · simp at hnil

end Examples

end Fleetboot
