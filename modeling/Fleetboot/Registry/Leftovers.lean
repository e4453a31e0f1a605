import Fleetboot.Registry.Reopening
import Fleetboot.Registry.Reserving

/-!
# What is left of a MAC

The rows that name a MAC, in the four tables that `remove` deletes from, and which calls bring
new ones.

* `mem_bindings_run`, `normalSessions_run`: the sessions are for MACs as `mint` writes them.
* `gone_remove`, `gone_run`: after `remove` there is no row, and only an enrolment, a new session
  or a boot event brings one.
* `logged_logBootEvent`, `logged_run`: what becomes of the boot events.
-/

set_option autoImplicit false

namespace Fleetboot

open Python Relational Transition

/-! ## Sessions -/

section Sessions

variable [Unicode] [IpAddress] {now : Timestamp} {db : Database}

/-- The calls that write no session. -/
def Operation.leavesSessions : Operation → Bool
  | remove _ | mint _ _ | recordState _ _ | endSession _ => false
  | _ => true

theorem bootSessions_run {op : Operation} (hrun : HasRun db) (hop : op.leavesSessions = true) :
    (op.run now db).db.bootSessions = db.bootSessions := by
  cases op with
  | reopen =>
    rw [Operation.run, openRegistry_of_hasRun now hrun]
    rfl
  | enroll | reserve | renew | release | pin | releaseToPool | reapExpired =>
    exact (sameRest_run rfl (by simp)).bootSessions
  | setProfile | updateHostname | updateLastIp | updateBootVersion | updateDiagnostics
  | updateHardware | setPendingReboot | setPowerCommand | setPduAlias | setPdudaemonHost
  | addAutoEnrolRule | updateAutoEnrolRule | removeAutoEnrolRule =>
    exact (sameRecords_run now db rfl).bootSessions
  | logBootEvent mac state detail =>
    simp only [Operation.run, Outcome.done, logBootEvent]
    split
    · rfl
    · split <;> rfl
  | remove | mint | recordState | endSession => cases hop

/-- The tokens of the sessions, each with the MAC it is for. -/
def Database.bindings (db : Database) : List (String × String) :=
  db.bootSessions.rows.map fun row => (row.token, row.mac)

/-- The MACs that the sessions are for. -/
def Database.sessionMacs (db : Database) : List String := db.bootSessions.rows.map SessionRow.mac

omit [Unicode] [IpAddress] in
theorem mem_sessionMacs_iff {mac : String} :
    mac ∈ db.sessionMacs ↔ ∃ token, (token, mac) ∈ db.bindings := by
  unfold Database.sessionMacs Database.bindings
  simp only [List.mem_map, Prod.mk.injEq]
  constructor
  · rintro ⟨row, hrow, hmac⟩
    exact ⟨row.token, row, hrow, rfl, hmac⟩
  · rintro ⟨-, row, hrow, -, hmac⟩
    exact ⟨row, hrow, hmac⟩

omit [Unicode] [IpAddress] in
/-- A report binds nothing new. -/
theorem bindings_recordState {token : String} {state : BootState} {session : BootSession}
    {recorded : Database} (h : recordState now token state db = some (session, recorded)) :
    recorded.bindings = db.bindings := by
  obtain ⟨row, -, hrow⟩ := Option.map_eq_some_iff.mp h
  cases hrow
  unfold Database.bindings
  rw [Table.rows_update, List.map_map]
  refine List.map_congr_left fun session _ => ?_
  rw [Function.comp_apply]
  split <;> rfl

/-- **The sessions after a call**: only `mint` binds a token. -/
theorem mem_bindings_run {op : Operation} {token mac : String} (hrun : HasRun db)
    (h : (token, mac) ∈ (op.run now db).db.bindings) :
    (token, mac) ∈ db.bindings ∨ ∃ mac', op = .mint token mac' ∧ normaliseMac mac' = mac := by
  cases op with
  | remove mac' =>
    obtain ⟨row, hrow, heq⟩ := List.mem_map.mp h
    exact .inl (List.mem_map.mpr ⟨row, (List.mem_filter.mp hrow).1, heq⟩)
  | mint token' mac' =>
    rw [Operation.run, Outcome.db_map] at h
    by_cases hlive : db.bootSessions.lookup token' = none
    · obtain ⟨row, hrow, heq⟩ := List.mem_map.mp h
      rw [(mint_fresh mac' hlive).2] at hrow
      rcases List.mem_append.mp hrow with hrow | hrow
      · exact .inl (List.mem_map.mpr ⟨row, hrow, heq⟩)
      · rw [List.mem_singleton.mp hrow] at heq
        cases heq
        exact .inr ⟨mac', rfl, rfl⟩
    · rw [mint_live mac' hlive] at h
      exact .inl h
  | recordState token' state =>
    simp only [Operation.run] at h
    cases hrecord : recordState now token' state db with
    | none =>
      rw [hrecord] at h
      exact .inl h
    | some found =>
      rw [hrecord] at h
      exact .inl (bindings_recordState hrecord ▸ h)
  | endSession token' =>
    obtain ⟨row, hrow, heq⟩ := List.mem_map.mp h
    exact .inl (List.mem_map.mpr ⟨row, (List.mem_filter.mp hrow).1, heq⟩)
  | _ =>
    unfold Database.bindings at h
    rw [bootSessions_run hrun rfl] at h
    exact .inl h

theorem mem_sessionMacs_run {op : Operation} {mac : String} (hrun : HasRun db)
    (hmac : mac ∈ (op.run now db).db.sessionMacs) :
    mac ∈ db.sessionMacs ∨ ∃ token mac', op = .mint token mac' ∧ normaliseMac mac' = mac := by
  obtain ⟨token, hbound⟩ := mem_sessionMacs_iff.mp hmac
  rcases mem_bindings_run hrun hbound with hold | ⟨mac', hmint, hnormal⟩
  · exact .inl (mem_sessionMacs_iff.mpr ⟨token, hold⟩)
  · exact .inr ⟨token, mac', hmint, hnormal⟩

/-- Every session is for a MAC in normal form, as `mint` writes it. -/
def NormalSessions (db : Database) : Prop := ∀ mac ∈ db.sessionMacs, normaliseMac mac = mac

theorem normalSessions_run {op : Operation} (hrun : HasRun db) (h : NormalSessions db) :
    NormalSessions (op.run now db).db := by
  intro mac hmac
  rcases mem_sessionMacs_run hrun hmac with hmac | ⟨token, mac', -, rfl⟩
  · exact h mac hmac
  · exact normaliseMac_normaliseMac mac'

end Sessions

/-! ## Reservations -/

section Reservations

variable {now : Timestamp} {db : Database} {mac : String}

theorem reservationsOf_eq_nil_iff :
    db.reservationsOf mac = [] ↔ ∀ r ∈ db.reservations.rows, r.mac ≠ mac := by
  simp [Database.reservationsOf, List.filter_eq_nil_iff]

/-- Releasing brings no row. -/
theorem unreserved_releaseReservations (p : Reservation → Bool) :
    (db.releaseReservations now p).reservationsOf mac = [] ↔ db.reservationsOf mac = [] := by
  rw [reservationsOf_eq_nil_iff, reservationsOf_eq_nil_iff, Database.releaseReservations,
    Table.rows_update, List.forall_mem_map]
  refine forall₂_congr fun r _ => ?_
  split <;> rfl

theorem unreserved_setExpiry (expiresAt : Option Timestamp) (p : Reservation → Bool) :
    (db.setExpiry expiresAt p).reservationsOf mac = [] ↔ db.reservationsOf mac = [] := by
  rw [reservationsOf_eq_nil_iff, reservationsOf_eq_nil_iff, Database.setExpiry,
    Table.rows_update, List.forall_mem_map]
  refine forall₂_congr fun r _ => ?_
  split <;> rfl

theorem unreserved_releaseTargets (macs : List String) (db : Database) :
    (releaseTargets now macs db).1.reservationsOf mac = [] ↔ db.reservationsOf mac = [] := by
  induction macs generalizing db with
  | nil => rfl
  | cons target macs ih =>
    simp only [releaseTargets]
    rw [ih, unreserved_releaseReservations]

theorem reservations_run [Unicode] [IpAddress] {op : Operation} (hrun : HasRun db)
    (hop : op.writesHolds = false) : (op.run now db).db.reservations = db.reservations := by
  cases op with
  | reopen =>
    rw [Operation.run, openRegistry_of_hasRun now hrun]
    rfl
  | setProfile | updateHostname | updateLastIp | updateBootVersion | updateDiagnostics
  | updateHardware | setPendingReboot | setPowerCommand | setPduAlias | setPdudaemonHost
  | addAutoEnrolRule | updateAutoEnrolRule | removeAutoEnrolRule =>
    exact (sameRecords_run now db rfl).reservations
  | logBootEvent mac state detail =>
    simp only [Operation.run, Outcome.done, logBootEvent]
    split
    · rfl
    · split <;> rfl
  | mint token mac =>
    simp only [Operation.run, Outcome.db_map, mint]
    split <;> rfl
  | recordState token state =>
    simp only [Operation.run]
    cases hrecord : recordState now token state db with
    | none => rfl
    | some found =>
      obtain ⟨row, -, hrow⟩ := Option.map_eq_some_iff.mp hrecord
      cases hrow
      rfl
  | endSession token => rfl
  | enroll | remove | reserve | renew | release | pin | releaseToPool | reapExpired => cases hop

theorem unreserved_reapExpired :
    (reapExpired now db).db.reservationsOf mac = [] ↔ db.reservationsOf mac = [] := by
  have hloop := @execAll_keeps _ (fun db => db.reservationsOf mac = [])
    ((reapableMacs now db).map (releaseUnreleased now))
    (fun statement hmem db db' hrun => by
      obtain ⟨target, -, rfl⟩ := List.mem_map.mp hmem
      cases hrun
      exact propext (unreserved_releaseReservations _)) db
  have hdb : (reapExpired now db).db =
      (execAll ((reapableMacs now db).map (releaseUnreleased now)) db).db := by
    unfold reapExpired reapableMacs Outcome.andThen
    dsimp only
    split <;> rfl
  rw [hdb, hloop]

variable [Unicode]

/-- A permanent hold is a row of its MAC. -/
theorem unreserved_pin {req : PinRequest} (hmachine : db.machine mac = none) :
    (pin now req db).db.reservationsOf mac = [] ↔ db.reservationsOf mac = [] := by
  unfold pin
  split
  · rfl
  · cases hlookup : db.lookup req.mac with
    | none => rfl
    | some m =>
      have hne : normaliseMac req.mac ≠ mac := by
        rintro rfl
        rw [Database.lookup, hmachine] at hlookup
        cases hlookup
      have hloop := @execAll_keeps _ (fun db => db.reservationsOf mac = [])
        (pinStatements now req)
        (fun statement hmem db db' hrun => by
          unfold pinStatements at hmem
          rcases List.mem_append.mp hmem with hmem | hmem
          · rcases List.mem_cons.mp hmem with rfl | hmem
            · cases hrun
              exact propext (unreserved_releaseReservations _)
            · obtain rfl := List.mem_singleton.mp hmem
              exact congrArg (· = []) (reservationsOf_insertReservation hne hrun)
          · split at hmem
            · obtain rfl := List.mem_singleton.mp hmem
              cases hrun
              rfl
            · cases hmem) db
      dsimp only
      unfold Outcome.andThen
      split <;> exact iff_of_eq hloop

/-- **The reservations after a call**: a MAC that has neither machine nor reservation gets none,
unless it is enrolled. -/
theorem unreserved_run [IpAddress] {op : Operation} (hrun : HasRun db)
    (hop : ∀ args, op = .enroll args → normaliseMac args.mac ≠ mac)
    (hmachine : db.machine mac = none) (h : db.reservationsOf mac = []) :
    (op.run now db).db.reservationsOf mac = [] := by
  cases op with
  | enroll args =>
    rw [Operation.run, Outcome.db_map]
    have hcases := enroll_cases now args db
    generalize enroll now args db = out at hcases
    cases hcases with
    | refused | again | orphan => exact h
    | new _ _ hinserted =>
      rw [reservationsOf_eq_nil_iff, hinserted.rows]
      intro r hr
      rcases List.mem_append.mp hr with hr | hr
      · exact reservationsOf_eq_nil_iff.mp h r hr
      · rw [List.mem_singleton.mp hr]
        exact hop args rfl
  | remove mac' =>
    rw [reservationsOf_eq_nil_iff] at h ⊢
    exact fun r hr => h r (List.mem_filter.mp hr).1
  | reserve req =>
    have hfree : mac ∉ reserveCandidates now req db := by
      intro hmem
      obtain ⟨-, m, hm⟩ := mem_reserveCandidates hmem
      rw [hmachine] at hm
      cases hm
    rw [Operation.run, Outcome.db_map, reservationsOf_reserve hfree, h]
  | renew mac' ttlSeconds =>
    rw [Operation.run, Outcome.db_map]
    rcases renew_cases now mac' ttlSeconds db with ⟨err, hrenew, -⟩ | ⟨-, hrenew⟩
    · rw [hrenew]
      exact h
    · rw [hrenew]
      exact (unreserved_setExpiry _ _).mpr h
  | release macs holder => exact (unreserved_releaseTargets _ db).mpr h
  | pin req =>
    rw [Operation.run, Outcome.db_map]
    exact (unreserved_pin hmachine).mpr h
  | releaseToPool mac' => exact (unreserved_releaseReservations _).mpr h
  | reapExpired =>
    rw [Operation.run, Outcome.db_map]
    exact unreserved_reapExpired.mpr h
  | _ =>
    unfold Database.reservationsOf
    rw [reservations_run hrun rfl]
    exact h

end Reservations

/-! ## All of it -/

/-- No machine, session or reservation of a MAC is left. -/
structure Gone (db : Database) (mac : String) : Prop where
  machine : db.machine mac = none
  reservations : db.reservationsOf mac = []
  sessions : mac ∉ db.sessionMacs

/-- Some boot event of a MAC is left. -/
def Database.Logged (db : Database) (mac : String) : Prop :=
  ∃ event ∈ db.bootEvents.rows, event.mac = mac

/-- The calls that bring a machine or a session of a MAC. -/
def Operation.Brings [Unicode] (op : Operation) (mac : String) : Prop :=
  match op with
  | enroll args => normaliseMac args.mac = mac
  | mint _ mac' => normaliseMac mac' = mac
  | _ => False

section All

variable [Unicode] {now : Timestamp} {db : Database} {mac : String}

theorem gone_remove (db : Database) (mac : String) :
    Gone (remove mac db).db (normaliseMac mac) := by
  refine ⟨?_, ?_, fun hmac => ?_⟩
  · rw [remove_eq, Database.machine_withoutMachine, if_pos rfl]
  · rw [remove_eq, reservationsOf_eq_nil_iff]
    intro r hr
    simpa using (List.mem_filter.mp hr).2
  · obtain ⟨row, hrow, heq⟩ := List.mem_map.mp hmac
    have hkept := (List.mem_filter.mp hrow).2
    simp [heq] at hkept

theorem logged_remove (mac' : String) : (remove mac' db).db.Logged mac ↔
    db.Logged mac ∧ normaliseMac mac' ≠ mac := by
  have h := @exists_remove _ db mac (fun _ => True) mac'
  simp only [and_true] at h
  exact h

theorem not_logged_remove (db : Database) (mac : String) :
    ¬ (remove mac db).db.Logged (normaliseMac mac) :=
  fun hlogged => ((logged_remove mac).mp hlogged).2 rfl

/-- Only an enrolment brings a machine. -/
theorem Move.row_eq_none {op : Operation} {s s' : Standing} (h : Move now mac op s s')
    (hop : ∀ args, op = .enroll args → normaliseMac args.mac ≠ mac) (hrow : s.row = none) :
    s'.row = none := by
  cases h with
  | keep => exact hrow
  | lapse | renew | release | toPool => exact hrow
  | rewrite | lease | pin => cases hrow
  | enrol henroll hmac => exact absurd hmac (hop _ henroll)
  | remove => rfl

/-- **What is gone stays gone**, until the MAC is enrolled again or gets a session. -/
theorem gone_run [IpAddress] {op : Operation} (hsound : Sound db) (hop : ¬ op.Brings mac)
    (h : Gone db mac) : Gone (op.run now db).db mac := by
  refine ⟨?_, unreserved_run hsound.hasRun ?_ h.machine h.reservations, fun hmac => ?_⟩
  · refine (move_run now hsound op mac).row_eq_none ?_ h.machine
    rintro args rfl
    exact hop
  · rintro args rfl
    exact hop
  · rcases mem_sessionMacs_run hsound.hasRun hmac with hmac | ⟨token, mac', rfl, hmac'⟩
    · exact h.sessions hmac
    · exact hop hmac'

/-- An entry in the log leaves an event of its MAC, and those there were. -/
theorem logged_logBootEvent (mac' state : String) (detail : Option String) :
    (logBootEvent now mac' state detail db).Logged mac ↔
      normaliseMac mac' = mac ∨ db.Logged mac := by
  have h := @exists_logBootEvent _ now db mac (fun _ => True) mac' state detail
  simp only [and_true] at h
  exact h

/-- The other calls leave the events of a MAC that is not removed. -/
theorem logged_run [IpAddress] {op : Operation} (hop : op.leavesEvents = true) :
    (op.run now db).db.Logged mac ↔ db.Logged mac := by
  rw [Database.Logged, bootEvents_run hop]
  rfl

end All

end Fleetboot
