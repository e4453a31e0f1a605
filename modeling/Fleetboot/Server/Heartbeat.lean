import Fleetboot.Server.Deployment
import Fleetboot.Server.Status

/-!
# Heartbeats

A booted machine repeats its last state every two minutes, and counts as online while its last
report is less than six minutes old. What counts as its last report is the newest stamp of its
sessions, and only a known state leaves a stamp.

* `seenSince_postStatus_iff`: after an accepted report the machine was seen at its time exactly
  when the state is a known one, or the machine had already been seen in that second.
* `heartbeats_keep_online`: a machine whose reports are all of this kind is online.
-/

set_option autoImplicit false

namespace Fleetboot

open Python Relational Transition

/-! ## Stamps -/

/-- A session of the MAC carries a stamp that is not before the time. -/
def SeenSince (db : Database) (mac : String) (time : Timestamp) : Prop :=
  ∃ stamp ∈ stampsOf db mac, time ≤ stamp

theorem mem_stampsOf {db : Database} {mac : String} {stamp : Timestamp} :
    stamp ∈ stampsOf db mac ↔
      ∃ row ∈ db.bootSessions.rows, row.mac = mac ∧ row.latestStateAt = some stamp := by
  unfold stampsOf
  simp [List.mem_filterMap, and_assoc]

theorem seenSince_iff_lastSeen {db : Database} {mac : String} {time : Timestamp} :
    SeenSince db mac time ↔ ∃ seen, lastSeenByMac db mac = some seen ∧ time ≤ seen := by
  unfold SeenSince lastSeenByMac
  constructor
  · rintro ⟨stamp, hstamp, hle⟩
    cases hmax : (stampsOf db mac).max? with
    | none =>
      rw [List.max?_eq_none_iff] at hmax
      rw [hmax] at hstamp
      cases hstamp
    | some seen =>
      exact ⟨seen, rfl, hle.trans ((List.max?_eq_some_iff.mp hmax).2 stamp hstamp)⟩
  · rintro ⟨seen, hseen, hle⟩
    exact ⟨seen, (List.max?_eq_some_iff.mp hseen).1, hle⟩

/-- Who was seen less than six minutes ago is online. -/
theorem online_of_seenSince {db : Database} {mac : String} {time now : Timestamp}
    (h : SeenSince db mac time) (hnow : now < time + staleAfterSeconds) :
    (livenessOf now db mac).online = true := by
  obtain ⟨seen, hseen, hle⟩ := seenSince_iff_lastSeen.mp h
  have hrecent : now - seen < staleAfterSeconds := by
    unfold staleAfterSeconds Timestamp at *
    omega
  unfold livenessOf
  rw [hseen]
  simp [hrecent]

theorem seenSince_congr {db db' : Database} (h : db'.bootSessions = db.bootSessions)
    (mac : String) (time : Timestamp) : SeenSince db' mac time ↔ SeenSince db mac time := by
  unfold SeenSince stampsOf
  rw [h]

/-! ## What recording a state does to the stamps -/

section Record

variable {now : Timestamp} {token : String} {state : BootState} {db recorded : Database}
  {session : BootSession}

/-- Recording a state stamps the rows with the token. -/
theorem mem_recordState (h : recordState now token state db = some (session, recorded))
    {row : SessionRow} (hrow : row ∈ db.bootSessions.rows) :
    ∃ row' ∈ recorded.bootSessions.rows, row'.mac = row.mac ∧
      row'.latestStateAt = if row.token = token then some now else row.latestStateAt := by
  obtain ⟨found, -, heq⟩ := Option.map_eq_some_iff.mp h
  cases heq
  refine ⟨_, List.mem_map.mpr ⟨row, hrow, rfl⟩, ?_⟩
  split <;> exact ⟨rfl, rfl⟩

theorem seenSince_recordState (h : recordState now token state db = some (session, recorded)) :
    SeenSince recorded session.mac now := by
  obtain ⟨row, hrow, heq⟩ := Option.map_eq_some_iff.mp h
  obtain ⟨hmem, -, htoken⟩ := Table.lookup_eq_some_iff.mp hrow
  obtain ⟨row', hmem', hmac, hat⟩ := mem_recordState h hmem
  rw [if_pos htoken] at hat
  cases heq
  exact ⟨now, mem_stampsOf.mpr ⟨row', hmem', hmac, hat⟩, Nat.le_refl _⟩

/-- No stamp moves back behind a time that has passed. -/
theorem SeenSince.of_recordState {mac : String} {time : Timestamp} (hseen : SeenSince db mac time)
    (hle : time ≤ now) (h : recordState now token state db = some (session, recorded)) :
    SeenSince recorded mac time := by
  obtain ⟨stamp, hstamp, hstampLe⟩ := hseen
  obtain ⟨row, hmem, hmac, hat⟩ := mem_stampsOf.mp hstamp
  obtain ⟨row', hmem', hmac', hat'⟩ := mem_recordState h hmem
  have hmac'' : row'.mac = mac := hmac'.trans hmac
  split at hat'
  · exact ⟨now, mem_stampsOf.mpr ⟨row', hmem', hmac'', hat'⟩, hle⟩
  · exact ⟨stamp, mem_stampsOf.mpr ⟨row', hmem', hmac'', hat'.trans hat⟩, hstampLe⟩

end Record

section Steps

variable [Unicode] {now : Timestamp} {db : Database} {mac : String} {time : Timestamp}

theorem SeenSince.of_mint (hseen : SeenSince db mac time) (token mac' : String) :
    SeenSince (mint now token mac' db).db mac time := by
  by_cases hfresh : db.bootSessions.lookup token = none
  · obtain ⟨stamp, hstamp, hle⟩ := hseen
    obtain ⟨row, hmem, hrow⟩ := mem_stampsOf.mp hstamp
    refine ⟨stamp, mem_stampsOf.mpr ⟨row, ?_, hrow⟩, hle⟩
    rw [(mint_fresh mac' hfresh).2]
    exact List.mem_append_left _ hmem
  · rw [mint_live mac' hfresh]
    exact hseen

theorem SeenSince.of_postStatus (hseen : SeenSince db mac time) (hle : time ≤ now)
    (req : StatusRequest) : SeenSince (postStatus now req db).1 mac time := by
  have hposted := postStatus_cases now req db
  generalize postStatus now req db = out at hposted
  cases hposted with
  | refused => exact hseen
  | accepted _ hrecord hnoted =>
    rw [seenSince_congr hnoted.bootSessions]
    unfold recordReport at hrecord
    split at hrecord
    · exact hseen.of_recordState hle hrecord
    · obtain ⟨session, -, heq⟩ := Option.map_eq_some_iff.mp hrecord
      cases heq
      exact hseen

/-- **What an accepted report leaves.** -/
theorem seenSince_postStatus_iff {req : StatusRequest} {state : String} {pending : Bool}
    (haccepted : (postStatus now req db).2 = .acknowledged mac state pending) :
    SeenSince (postStatus now req db).1 mac now ↔
      (BootState.ofValue req.report.state).isSome ∨ SeenSince db mac now := by
  have hposted := postStatus_cases now req db
  generalize postStatus now req db = out at hposted haccepted
  cases hposted with
  | refused _ hrefused => exact absurd haccepted (hrefused _ _ _)
  | accepted _ hrecord hnoted =>
    cases haccepted
    rw [seenSince_congr hnoted.bootSessions]
    unfold recordReport at hrecord
    split at hrecord
    · rename_i known hknown
      rw [hknown]
      exact iff_of_true (seenSince_recordState hrecord) (.inl rfl)
    · rename_i hcustom
      obtain ⟨session, -, heq⟩ := Option.map_eq_some_iff.mp hrecord
      cases heq
      rw [hcustom]
      simp

/-! ## Runs -/

inductive SessionAction
  | mint (token mac : String)
  | status (req : StatusRequest)

/-- A session is minted or a status is reported, with the answer to a report. -/
structure SessionEvent where
  time : Timestamp
  action : SessionAction
  answer : Option StatusAnswer

def SessionAction.run (now : Timestamp) : SessionAction → Database →
    Database × Option StatusAnswer
  | mint token mac, db => ((Fleetboot.mint now token mac db).db, none)
  | status req, db => ((postStatus now req db).1, some (postStatus now req db).2)

/-- One event, at a reading of the clock that is not before the last one. -/
structure SessionStep (s : Registry) (event : SessionEvent) (s' : Registry) : Prop where
  later : s.clock ≤ event.time
  clock : s'.clock = event.time
  run : event.action.run event.time s.db = (s'.db, event.answer)

/-- The event is a report for the MAC that was accepted. -/
def SessionEvent.Accepted (mac : String) (event : SessionEvent) : Prop :=
  ∃ state pending, event.answer = some (.acknowledged mac state pending)

/-- The reported state is a known one, or a session of the MAC has a stamp of this second. -/
def SessionEvent.Stamps (mac : String) (s : Registry) (event : SessionEvent) : Prop :=
  ∀ req, event.action = .status req →
    (BootState.ofValue req.report.state).isSome ∨ SeenSince s.db mac event.time

theorem SeenSince.of_step {s s' : Registry} {event : SessionEvent}
    (hseen : SeenSince s.db mac time) (hle : time ≤ s.clock) (hstep : SessionStep s event s') :
    SeenSince s'.db mac time := by
  obtain ⟨later, action, answer⟩ := event
  obtain ⟨clock, db'⟩ := s'
  have hrun := hstep.run
  dsimp only at hrun
  have hlater : time ≤ later := hle.trans hstep.later
  cases action with
  | mint token mac' =>
    cases hrun
    exact hseen.of_mint token mac'
  | status req =>
    cases hrun
    exact hseen.of_postStatus hlater req

theorem seenSince_step_iff {s s' : Registry} {event : SessionEvent} (hstep : SessionStep s event s')
    (haccepted : event.Accepted mac) :
    SeenSince s'.db mac event.time ↔ event.Stamps mac s := by
  obtain ⟨now, action, answer⟩ := event
  obtain ⟨clock, db'⟩ := s'
  obtain ⟨state, pending, hanswer⟩ := haccepted
  have hrun := hstep.run
  dsimp only at hrun
  cases action with
  | mint token mac' =>
    cases hrun
    cases hanswer
  | status req =>
    cases hrun
    have hiff := seenSince_postStatus_iff (Option.some.inj hanswer)
    rw [hiff]
    simp [SessionEvent.Stamps]

/-- Who was seen at every accepted report of a run was seen since each of them. -/
theorem seenSince_of_run {s₀ s : Registry} {events : List SessionEvent}
    (hrun : Run (Restrict SessionStep fun s event => event.Accepted mac → event.Stamps mac s)
      s₀ events s) :
    ∀ event ∈ events,
      event.time ≤ s.clock ∧ (event.Accepted mac → SeenSince s.db mac event.time) := by
  induction hrun with
  | nil => simp
  | @snoc events last s s' hrun hstep ih =>
    obtain ⟨hstep, hstamps⟩ := hstep
    intro event hevent
    rcases List.mem_append.mp hevent with hold | hnew
    · obtain ⟨hle, hseen⟩ := ih event hold
      refine ⟨hle.trans (hstep.later.trans hstep.clock.ge), fun haccepted => ?_⟩
      exact (hseen haccepted).of_step hle hstep
    · obtain rfl := List.mem_singleton.mp hnew
      exact ⟨hstep.clock.ge, fun haccepted =>
        (seenSince_step_iff hstep haccepted).mpr (hstamps haccepted)⟩

/-- **Heartbeats.**

* In every run in which every accepted report of a machine carries a known state, or comes in a
  second in which the machine has already left a stamp: after each of its accepted reports the
  machine was last seen no earlier than that, and it is online until six minutes later.
* After an accepted report the machine was last seen no earlier than that only then. -/
theorem heartbeats_keep_online (mac : String) :
    (∀ s₀ events s,
      Run (Restrict SessionStep fun s event => event.Accepted mac → event.Stamps mac s) s₀ events
        s →
      ∀ event ∈ events, event.Accepted mac →
        (∃ seen, lastSeenByMac s.db mac = some seen ∧ event.time ≤ seen) ∧
        ∀ now, now < event.time + staleAfterSeconds → (livenessOf now s.db mac).online = true) ∧
    ∀ s event s', SessionStep s event s' → event.Accepted mac →
      ((∃ seen, lastSeenByMac s'.db mac = some seen ∧ event.time ≤ seen) ↔ event.Stamps mac s) := by
  refine ⟨fun s₀ events s hrun event hevent haccepted => ?_, fun s event s' hstep haccepted => ?_⟩
  · have hseen := (seenSince_of_run hrun event hevent).2 haccepted
    exact ⟨seenSince_iff_lastSeen.mp hseen, fun now => online_of_seenSince hseen⟩
  · rw [← seenSince_iff_lastSeen]
    exact seenSince_step_iff hstep haccepted

end Steps

section Examples

attribute [local instance] ascii noNetworks

/-- A report under the token `t`. -/
def reportOf (state : String) : SessionAction :=
  .status ⟨some "Bearer t", some "10.0.0.7", { state }⟩

def Registry.afterSession (s : Registry) (time : Timestamp) (action : SessionAction) : Registry :=
  ⟨time, (action.run time s.db).1⟩

theorem Registry.step_afterSession {s : Registry} {time : Timestamp} (h : s.clock ≤ time)
    (action : SessionAction) : SessionStep s ⟨time, action, (action.run time s.db).2⟩
      (s.afterSession time action) :=
  ⟨h, rfl, rfl⟩

/-- A desktop that has booted and logged in. -/
def bootedDesktop : Registry :=
  ((newRegistry.after 5 (.enroll desktop)).afterSession 10 (.mint "t" desktop.mac)).afterSession 20
    (reportOf "login_console")

/-- A runner repeats its own state every five minutes and is shown offline. -/
theorem heartbeat_offline :
    ∃ events, Run SessionStep (newRegistry.after 5 (.enroll desktop)) events
      ((bootedDesktop.afterSession 320 (reportOf "runner_started")).afterSession 620
        (reportOf "runner_started")) ∧
    (∃ event ∈ events, event.time = 320 ∧ event.Accepted "52:54:00:12:34:56") ∧
    (∃ event ∈ events, event.time = 620 ∧ event.Accepted "52:54:00:12:34:56") ∧
    lastSeenByMac ((bootedDesktop.afterSession 320 (reportOf "runner_started")).afterSession 620
      (reportOf "runner_started")).db "52:54:00:12:34:56" = some 20 ∧
    (livenessOf 620 ((bootedDesktop.afterSession 320 (reportOf "runner_started")).afterSession 620
      (reportOf "runner_started")).db "52:54:00:12:34:56").online = false := by
  refine ⟨_, ((((Run.single (Registry.step_afterSession (show _ ≤ 10 by decide) _)).snoc
    (Registry.step_afterSession (show _ ≤ 20 by decide) _)).snoc
    (Registry.step_afterSession (show _ ≤ 320 by decide) _)).snoc
    (Registry.step_afterSession (show _ ≤ 620 by decide) _)), ?_, ?_, ?_, ?_⟩
  · refine ⟨_, List.mem_append_left _ (List.mem_append_right _ (List.mem_singleton_self _)), rfl,
      "runner_started", false, ?_⟩
    decide +kernel
  · refine ⟨_, List.mem_append_right _ (List.mem_singleton_self _), rfl, "runner_started", false,
      ?_⟩
    decide +kernel
  · decide +kernel
  · decide +kernel

theorem heartbeats_keep_online_desktop :
    (livenessOf 379 bootedDesktop.db "52:54:00:12:34:56").online = true := by
  let guard : Registry → SessionEvent → Prop := fun s event =>
    event.Accepted "52:54:00:12:34:56" → event.Stamps "52:54:00:12:34:56" s
  have hmint : Restrict SessionStep guard (newRegistry.after 5 (.enroll desktop)) _ _ :=
    ⟨Registry.step_afterSession (show _ ≤ 10 by decide) (.mint "t" desktop.mac),
      fun _ _ hreq => by cases hreq⟩
  have hreport : Restrict SessionStep guard _ _ bootedDesktop :=
    ⟨Registry.step_afterSession (show _ ≤ 20 by decide) (reportOf "login_console"),
      fun _ _ hreq => by
        cases hreq
        exact .inl rfl⟩
  refine ((heartbeats_keep_online "52:54:00:12:34:56").1 _ _ _ ((Run.single hmint).snoc hreport) _
    (List.mem_append_right _ (List.mem_singleton_self _)) ⟨"login_console", false, ?_⟩).2 379
    (by decide)
  decide +kernel

end Examples

end Fleetboot
