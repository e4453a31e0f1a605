import Fleetboot.Registry.Leftovers
import Fleetboot.Server.GrubEvents
import Fleetboot.Server.Status

/-!
# Removing a machine while it reports

The handlers of `POST /status` and of GRUB events find a session first and write what they were
told in later calls, each of which takes the lock by itself. Between two of them the machine can
be removed.

* `run_alone`: a request that nothing comes between is what `postStatus` and `getGrubEvent` say.
* `flight_step`: what one step leaves of a MAC.
* `remove_leavesNothing_iff`: a removal leaves nothing exactly if no request was between finding
  its session and logging its event.
-/

set_option autoImplicit false

namespace Fleetboot

open Python Relational Transition

/-! ## Handlers, call by call -/

inductive BootReport
  | status (req : StatusRequest)
  | grubEvent (token stateStr : String)

inductive BootReply
  | status (answer : StatusAnswer)
  | grubEvent (answer : GrubEventAnswer)
  deriving DecidableEq

/-- A call that a handler makes about the machine whose session it has found. -/
inductive Note
  | bootEvent (state : String) (detail : Option String)
  | lastIp (ip : String)
  | hostname (hostname : String)
  | bootVersion (bootVersion : String)
  | diagnostics (diagnostics : String)
  | hardware (hardware : Fields)

def Note.operation (mac : String) : Note → Operation
  | bootEvent state detail => .logBootEvent mac state detail
  | lastIp ip => .updateLastIp mac ip
  | hostname name => .updateHostname mac name
  | bootVersion version => .updateBootVersion mac version
  | diagnostics text => .updateDiagnostics mac text
  | hardware fields => .updateHardware mac fields

/-- How far the handling of a request has come. -/
inductive Handling
  /-- No call has been made yet. -/
  | arrived (report : BootReport)
  /-- The session is found, and these calls are still to be made. -/
  | noting (report : BootReport) (mac : String) (notes : List Note)
  | answered (reply : BootReply)

/-- The calls that the handler of a request still has to make about the machine. -/
def Handling.notes : Handling → List Note
  | noting _ _ notes => notes
  | _ => []

def Handling.isAnswered : Handling → Bool
  | answered _ => true
  | _ => false

section Handlers

variable [Unicode]

/-- The calls of `post_status` once it has its session, up to the look at `pending_reboot`. -/
def StatusRequest.notes (req : StatusRequest) : List Note :=
  let report := req.report
  .bootEvent report.state report.detail ::
    ((truthyText req.clientHost).toList.map .lastIp ++
      ((truthyText report.hostname).filter fun hostname =>
        decide (lower hostname ∉ boringHostnames)).toList.map .hostname ++
      (truthyText report.bootVersion).toList.map .bootVersion ++
      (truthyText report.diagnostics).toList.map .diagnostics ++
      match report.hardware.getD [] with
      | [] => []
      | hardware => [.hardware hardware])

/-- The first call of a handler: the session is found, or the request is refused. -/
def BootReport.find (now : Timestamp) (db : Database) : BootReport → Database × Handling
  | status req =>
    if req.report.isValid = false then (db, .answered (.status .invalid))
    else
      match recordReport now (extractBearerToken req.authorization) req.report.state db with
      | none => (db, .answered (.status .unauthorised))
      | some (session, db) => (db, .noting (.status req) session.mac req.notes)
  | grubEvent token stateStr =>
    match BootState.ofValue stateStr with
    | none => (db, .answered (.grubEvent .unknownState))
    | some state =>
      match recordState now token state db with
      | none => (db, .answered (.grubEvent .unauthorised))
      | some (session, db) =>
        (db, .noting (.grubEvent token stateStr) session.mac [.bootEvent state.value none])

/-- The answer of a handler that has made its calls. -/
def BootReport.reply (db : Database) (mac : String) : BootReport → BootReply
  | status req => .status (.acknowledged mac req.report.state
      (((db.lookup mac).map Machine.pendingReboot).getD false))
  | grubEvent _ _ => .grubEvent .recorded

variable [IpAddress]

/-- A handler makes its next call. -/
def Handling.next (now : Timestamp) (db : Database) : Handling → Database × Handling
  | arrived report => report.find now db
  | noting report mac (note :: notes) =>
    (((note.operation mac).run now db).db, .noting report mac notes)
  | noting report mac [] => (db, .answered (report.reply db mac))
  | answered reply => (db, .answered reply)

end Handlers

/-! ## Requests in flight -/

/-- The file that both stores share, and the requests that came in, in the order they came. -/
structure InFlight where
  clock : Timestamp
  db : Database
  requests : List Handling

inductive FlightAction
  | arrive (report : BootReport)
  | advance (i : Nat)
  | call (op : Operation)

structure FlightEvent where
  time : Timestamp
  action : FlightAction

/-- The calls that others make meanwhile. Boot events are logged by the two handlers only, and a
server that starts again has no request in flight. -/
def Operation.isMeanwhile : Operation → Bool
  | reopen | logBootEvent _ _ _ => false
  | _ => true

section Steps

variable [Unicode] [IpAddress]

def FlightAction.Enabled (s : InFlight) : FlightAction → Prop
  | arrive _ => True
  | advance i => i < s.requests.length
  | call op => op.isMeanwhile = true

/-- The state after a step. -/
def InFlight.after (s : InFlight) (event : FlightEvent) : InFlight :=
  match event.action with
  | .arrive report => ⟨event.time, s.db, s.requests ++ [.arrived report]⟩
  | .advance i =>
    match s.requests[i]? with
    | none => ⟨event.time, s.db, s.requests⟩
    | some handling =>
      let next := handling.next event.time s.db
      ⟨event.time, next.1, s.requests.set i next.2⟩
  | .call op => ⟨event.time, (op.run event.time s.db).db, s.requests⟩

/-- One step, at a reading of the clock that is not before the last one. -/
structure FlightStep (s : InFlight) (event : FlightEvent) (s' : InFlight) : Prop where
  later : s.clock ≤ event.time
  enabled : event.action.Enabled s
  after : s' = s.after event

/-- No request is in flight, and the file is one that calls have written since it was opened
first; the session table has been written by `mint` alone. -/
structure InFlight.Started (s : InFlight) : Prop where
  idle : s.requests = []
  reachable : Reachable ⟨s.clock, s.db⟩
  normal : NormalSessions s.db

end Steps

/-! ## A request that nothing comes between -/

section Alone

variable [Unicode] [IpAddress] {now : Timestamp}

/-- The file after the calls about a machine. -/
def noted (now : Timestamp) (mac : String) (notes : List Note) (db : Database) : Database :=
  notes.foldl (fun db note => ((note.operation mac).run now db).db) db

theorem noted_cons (mac : String) (note : Note) (notes : List Note) (db : Database) :
    noted now mac (note :: notes) db =
      noted now mac notes ((note.operation mac).run now db).db := rfl

theorem noted_append (mac : String) (notes notes' : List Note) (db : Database) :
    noted now mac (notes ++ notes') db = noted now mac notes' (noted now mac notes db) :=
  List.foldl_append

/-- An update that is made when there is a text, as a list of at most one call. -/
theorem noted_map (mac : String) (note : String → Note) (text : Option String) (db : Database) :
    noted now mac (text.toList.map note) db =
      match text with
      | none => db
      | some text => (((note text).operation mac).run now db).db := by
  cases text <;> rfl

/-- What a call about a machine writes. -/
def Note.write (now : Timestamp) (mac : String) (db : Database) : Note → Database
  | bootEvent state detail => logBootEvent now mac state detail db
  | lastIp ip => updateLastIp now mac ip db
  | hostname name => updateHostname now mac name db
  | bootVersion version => updateBootVersion now mac version db
  | diagnostics text => updateDiagnostics now mac text db
  | hardware fields => updateHardware now mac fields db

theorem Note.db_run (mac : String) (note : Note) (db : Database) :
    ((note.operation mac).run now db).db = note.write now mac db := by
  cases note <;> simp only [operation, write, Operation.run, Outcome.done]

/-- The calls of the handler are what `noteReport` does. -/
theorem noted_notes (mac : String) (req : StatusRequest) (db : Database) :
    noted now mac req.notes db = noteReport now mac req.clientHost req.report db := by
  have hupdate : ∀ (note : String → Note) (update : String → Database → Database)
      (text : Option String) (db : Database),
      (∀ text db, (note text).write now mac db = update text db) →
      noted now mac ((truthyText text).toList.map note) db = whenTruthy text update db := by
    intro note update text db hnote
    rw [noted_map, whenTruthy]
    cases truthyText text with
    | none => rfl
    | some text => exact (Note.db_run mac (note text) db).trans (hnote text db)
  have hhostname : ∀ db : Database,
      noted now mac (((truthyText req.report.hostname).filter fun hostname =>
        decide (lower hostname ∉ boringHostnames)).toList.map .hostname) db =
      whenTruthy req.report.hostname (fun hostname db =>
        if lower hostname ∈ boringHostnames then db
        else updateHostname now mac hostname db) db := by
    intro db
    rw [noted_map, whenTruthy]
    cases truthyText req.report.hostname with
    | none => rfl
    | some hostname =>
      by_cases hboring : lower hostname ∈ boringHostnames
      · rw [Option.filter_some_neg (by simpa using hboring)]
        exact (if_pos hboring).symm
      · rw [Option.filter_some_pos (by simpa using hboring)]
        exact (Note.db_run mac _ db).trans (if_neg hboring).symm
  unfold StatusRequest.notes noteReport
  dsimp only
  rw [noted_cons, Note.db_run, noted_append, noted_append, noted_append, noted_append,
    hupdate .lastIp (updateLastIp now mac) _ _ fun _ _ => rfl, hhostname,
    hupdate .bootVersion (updateBootVersion now mac) _ _ fun _ _ => rfl,
    hupdate .diagnostics (updateDiagnostics now mac) _ _ fun _ _ => rfl]
  cases req.report.hardware.getD [] with
  | nil => rfl
  | cons field fields => exact Note.db_run mac _ _

/-- The first handler of a list makes a call. -/
theorem step_advance (db : Database) (handling : Handling) :
    FlightStep ⟨now, db, [handling]⟩ ⟨now, .advance 0⟩
      ⟨now, (handling.next now db).1, [(handling.next now db).2]⟩ :=
  ⟨Nat.le_refl _, Nat.one_pos, rfl⟩

theorem run_notes (report : BootReport) (mac : String) (notes : List Note) (db : Database) :
    Run FlightStep ⟨now, db, [.noting report mac notes]⟩
      (List.replicate (notes.length + 1) ⟨now, .advance 0⟩)
      ⟨now, noted now mac notes db, [.answered (report.reply (noted now mac notes db) mac)]⟩ := by
  induction notes generalizing db with
  | nil => exact .single (step_advance db _)
  | cons note notes ih =>
    exact (Run.single (step_advance db (.noting report mac (note :: notes)))).append (ih _)

/-- The answer of the two handlers, and what they leave. -/
def BootReport.handle (now : Timestamp) (db : Database) : BootReport → Database × BootReply
  | status req => ((postStatus now req db).1, .status (postStatus now req db).2)
  | grubEvent token stateStr =>
    ((getGrubEvent now token stateStr db).1, .grubEvent (getGrubEvent now token stateStr db).2)

/-- **A request that nothing comes between** leaves and answers what its handler does. -/
theorem run_alone (report : BootReport) (db : Database) :
    ∃ calls, Run FlightStep ⟨now, db, [.arrived report]⟩ (List.replicate calls ⟨now, .advance 0⟩)
      ⟨now, (report.handle now db).1, [.answered (report.handle now db).2]⟩ := by
  have hfind := Run.single (@step_advance _ _ now db (.arrived report))
  -- The session is found: the notes and the answer follow.
  have hfound : ∀ mac notes db',
      report.find now db = (db', .noting report mac notes) →
      report.handle now db = (noted now mac notes db', report.reply (noted now mac notes db') mac) →
      ∃ calls, Run FlightStep ⟨now, db, [.arrived report]⟩
        (List.replicate calls ⟨now, .advance 0⟩)
        ⟨now, (report.handle now db).1, [.answered (report.handle now db).2]⟩ := by
    intro mac notes db' hnext hhandle
    have hfirst : (Handling.arrived report).next now db = (db', .noting report mac notes) := hnext
    rw [hfirst] at hfind
    rw [hhandle]
    exact ⟨notes.length + 2, hfind.append (run_notes report mac notes db')⟩
  have hrefused : ∀ reply, report.find now db = (db, .answered reply) →
      report.handle now db = (db, reply) →
      ∃ calls, Run FlightStep ⟨now, db, [.arrived report]⟩
        (List.replicate calls ⟨now, .advance 0⟩)
        ⟨now, (report.handle now db).1, [.answered (report.handle now db).2]⟩ := by
    intro reply hnext hhandle
    have hfirst : (Handling.arrived report).next now db = (db, .answered reply) := hnext
    rw [hfirst] at hfind
    rw [hhandle]
    exact ⟨1, hfind⟩
  cases report with
  | status req =>
    by_cases hinvalid : req.report.isValid = false
    · refine hrefused (.status .invalid) (if_pos hinvalid) ?_
      simp only [BootReport.handle, postStatus, if_pos hinvalid]
    · cases hrecord :
          recordReport now (extractBearerToken req.authorization) req.report.state db with
      | none =>
        refine hrefused (.status .unauthorised) ?_ ?_
        · simp only [BootReport.find, if_neg hinvalid, hrecord]
        · simp only [BootReport.handle, postStatus, if_neg hinvalid, hrecord]
      | some found =>
        refine hfound found.1.mac req.notes found.2 ?_ ?_
        · simp only [BootReport.find, if_neg hinvalid, hrecord]
        · simp only [BootReport.handle, postStatus, if_neg hinvalid, hrecord, noted_notes,
            BootReport.reply]
  | grubEvent token stateStr =>
    cases hstate : BootState.ofValue stateStr with
    | none =>
      refine hrefused (.grubEvent .unknownState) ?_ ?_
      · simp only [BootReport.find, hstate]
      · simp only [BootReport.handle, getGrubEvent, hstate]
    | some state =>
      cases hrecord : recordState now token state db with
      | none =>
        refine hrefused (.grubEvent .unauthorised) ?_ ?_
        · simp only [BootReport.find, hstate, hrecord]
        · simp only [BootReport.handle, getGrubEvent, hstate, hrecord]
      | some found =>
        refine hfound found.1.mac [.bootEvent state.value none] found.2 ?_ ?_
        · simp only [BootReport.find, hstate, hrecord]
        · simp only [BootReport.handle, getGrubEvent, hstate, hrecord]
          rfl

end Alone

/-! ## What a step leaves of a MAC -/

/-- The handler has found a session of the MAC and has not logged its event yet. -/
def Handling.Owes [Unicode] (handling : Handling) (mac : String) : Prop :=
  ∃ report mac' notes, handling = .noting report mac' notes ∧ normaliseMac mac' = mac ∧
    ∃ state detail, .bootEvent state detail ∈ notes

/-- An event of the MAC is in the log or about to be. -/
def InFlight.Leaves [Unicode] (s : InFlight) (mac : String) : Prop :=
  s.db.Logged mac ∨ ∃ handling ∈ s.requests, handling.Owes mac

/-- The step enrols the MAC, opens a session for it, or removes it once more. -/
def FlightAction.Readmits [Unicode] (action : FlightAction) (mac : String) : Prop :=
  match action with
  | call op => op.Brings mac ∨ ∃ mac', op = .remove mac' ∧ normaliseMac mac' = mac
  | _ => False

section Handlers

variable [Unicode] {now : Timestamp} {db : Database} {mac : String}

theorem not_owes_arrived (report : BootReport) : ¬ (Handling.arrived report).Owes mac := by
  rintro ⟨_, _, _, heq, -⟩
  cases heq

theorem not_owes_answered (reply : BootReply) : ¬ (Handling.answered reply).Owes mac := by
  rintro ⟨_, _, _, heq, -⟩
  cases heq

theorem owes_noting_iff {report : BootReport} {mac' : String} {notes : List Note} :
    (Handling.noting report mac' notes).Owes mac ↔
      normaliseMac mac' = mac ∧ ∃ state detail, .bootEvent state detail ∈ notes := by
  constructor
  · rintro ⟨report, mac', notes, heq, howes⟩
    cases heq
    exact howes
  · exact fun howes => ⟨report, mac', notes, rfl, howes⟩

/-- The first call of a handler is `record_state`, or writes nothing; the session that it finds
is one of the table. -/
inductive Found (now : Timestamp) (db : Database) : Database × Handling → Prop
  | refused (reply : BootReply) : Found now db (db, .answered reply)
  | looked {report : BootReport} {mac : String} {notes : List Note} :
      mac ∈ db.sessionMacs → Found now db (db, .noting report mac notes)
  | recorded {report : BootReport} {token : String} {state : BootState} {session : BootSession}
      {recorded : Database} {notes : List Note} :
      recordState now token state db = some (session, recorded) → session.mac ∈ db.sessionMacs →
      Found now db (recorded, .noting report session.mac notes)

omit [Unicode] in
theorem mem_sessionMacs_of_recordState {token : String} {state : BootState}
    {session : BootSession} {recorded : Database}
    (h : recordState now token state db = some (session, recorded)) :
    session.mac ∈ db.sessionMacs := by
  obtain ⟨row, hrow, heq⟩ := Option.map_eq_some_iff.mp h
  cases heq
  exact List.mem_map_of_mem (Table.mem_of_lookup hrow)

theorem found_find (report : BootReport) : Found now db (report.find now db) := by
  cases report with
  | status req =>
    by_cases hinvalid : req.report.isValid = false
    · rw [BootReport.find, if_pos hinvalid]
      exact .refused _
    · rw [BootReport.find, if_neg hinvalid]
      unfold recordReport
      cases BootState.ofValue req.report.state with
      | some state =>
        cases hrecord : recordState now (extractBearerToken req.authorization) state db with
        | none =>
          simp only [hrecord]
          exact .refused _
        | some found =>
          simp only [hrecord]
          exact .recorded hrecord (mem_sessionMacs_of_recordState hrecord)
      | none =>
        cases hlookup : lookupSession db (extractBearerToken req.authorization) with
        | none => exact .refused _
        | some session =>
          obtain ⟨row, hrow, rfl⟩ := Option.map_eq_some_iff.mp hlookup
          exact .looked (List.mem_map_of_mem (Table.mem_of_lookup hrow))
  | grubEvent token stateStr =>
    cases hstate : BootState.ofValue stateStr with
    | none =>
      simp only [BootReport.find, hstate]
      exact .refused _
    | some state =>
      cases hrecord : recordState now token state db with
      | none =>
        simp only [BootReport.find, hstate, hrecord]
        exact .refused _
      | some found =>
        simp only [BootReport.find, hstate, hrecord]
        exact .recorded hrecord (mem_sessionMacs_of_recordState hrecord)

variable [IpAddress]

omit [Unicode] [IpAddress] in
theorem Note.isMeanwhile_operation {note : Note} (mac : String)
    (hnote : ∀ state detail, note ≠ .bootEvent state detail) :
    (note.operation mac).leavesEvents = true := by
  cases note with
  | bootEvent state detail => exact absurd rfl (hnote state detail)
  | _ => rfl

/-- A handler makes at most one call a step, and none that brings a machine or a session. -/
theorem next_call (handling : Handling) : (handling.next now db).1 = db ∨
    ∃ op : Operation, (∀ mac, ¬ op.Brings mac) ∧ (handling.next now db).1 = (op.run now db).db := by
  cases handling with
  | arrived report =>
    have hfound := @found_find _ now db report
    change (report.find now db).1 = db ∨ ∃ op : Operation, _ ∧ (report.find now db).1 = _
    generalize report.find now db = next at hfound
    cases hfound with
    | refused | looked => exact .inl rfl
    | @recorded report token state session recorded notes hrecord =>
      refine .inr ⟨.recordState token state, fun _ => id, ?_⟩
      simp only [Operation.run, hrecord]
  | noting report mac notes =>
    cases notes with
    | nil => exact .inl rfl
    | cons note notes =>
      refine .inr ⟨note.operation mac, fun _ => ?_, rfl⟩
      cases note <;> exact id
  | answered reply => exact .inl rfl

/-- **A handler's step**: what it owed it has logged, and without a session of the MAC it comes to
owe nothing new. -/
theorem leaves_next (handling : Handling) (hnormal : NormalSessions db)
    (hsessions : mac ∉ db.sessionMacs) :
    ((handling.next now db).1.Logged mac ∨ (handling.next now db).2.Owes mac) ↔
      (db.Logged mac ∨ handling.Owes mac) := by
  cases handling with
  | arrived report =>
    have hfound := @found_find _ now db report
    have hother : ∀ {report mac' notes}, mac' ∈ db.sessionMacs →
        ¬ (Handling.noting report mac' notes).Owes mac := by
      intro report mac' notes hmac' howes
      have hmac := (owes_noting_iff.mp howes).1
      rw [hnormal mac' hmac'] at hmac
      exact hsessions (hmac ▸ hmac')
    change ((report.find now db).1.Logged mac ∨ (report.find now db).2.Owes mac) ↔ _
    rw [or_iff_left (not_owes_arrived report)]
    generalize report.find now db = next at hfound
    cases hfound with
    | refused reply => exact or_iff_left (not_owes_answered reply)
    | looked hmac' => exact or_iff_left (hother hmac')
    | recorded hrecord hmac' =>
      rw [or_iff_left (hother hmac')]
      obtain ⟨row, -, heq⟩ := Option.map_eq_some_iff.mp hrecord
      cases heq
      rfl
  | noting report mac' notes =>
    cases notes with
    | nil =>
      refine or_congr_right (iff_of_false (not_owes_answered _) fun howes => ?_)
      obtain ⟨-, _, _, hmem⟩ := owes_noting_iff.mp howes
      cases hmem
    | cons note notes =>
      change (((note.operation mac').run now db).db.Logged mac ∨
        (Handling.noting report mac' notes).Owes mac) ↔ _
      rw [owes_noting_iff, owes_noting_iff]
      by_cases hnote : ∃ state detail, note = .bootEvent state detail
      · obtain ⟨state, detail, rfl⟩ := hnote
        have hlogged : ((Note.operation mac' (.bootEvent state detail)).run now db).db.Logged mac ↔
            normaliseMac mac' = mac ∨ db.Logged mac := logged_logBootEvent mac' state detail
        have howed : (∃ state' detail', Note.bootEvent state' detail' ∈
            Note.bootEvent state detail :: notes) := ⟨state, detail, List.mem_cons_self⟩
        rw [hlogged, and_iff_left howed]
        constructor
        · rintro ((hmac | hold) | ⟨hmac, -⟩)
          · exact .inr hmac
          · exact .inl hold
          · exact .inr hmac
        · rintro (hold | hmac)
          · exact .inl (.inr hold)
          · exact .inl (.inl hmac)
      · simp only [not_exists] at hnote
        rw [logged_run (Note.isMeanwhile_operation mac' hnote)]
        refine or_congr_right (and_congr_right fun _ => exists_congr fun state =>
          exists_congr fun detail => ?_)
        rw [List.mem_cons, or_iff_right fun heq => hnote state detail heq.symm]
  | answered reply => rfl

end Handlers

/-! ## Runs -/

/-- One entry of a list is replaced, and what that takes away is gained elsewhere. -/
theorem exists_mem_set {α : Type} {l : List α} {i : Nat} {a b : α} {P : α → Prop} {A B : Prop}
    (hat : l[i]? = some a) (hsame : (B ∨ P b) ↔ (A ∨ P a)) :
    (B ∨ ∃ x ∈ l.set i b, P x) ↔ (A ∨ ∃ x ∈ l, P x) := by
  obtain ⟨hlt, rfl⟩ := List.getElem?_eq_some_iff.mp hat
  obtain ⟨before, after, hl, -, hset⟩ := @List.exists_of_set _ i b l hlt
  generalize l[i] = a at hl hsame
  rw [hset, hl]
  simp only [List.mem_append, List.mem_cons, or_and_right, exists_or, exists_eq_left]
  constructor
  · rintro (hb | hbefore | hb | hafter)
    · exact (hsame.mp (.inl hb)).imp_right fun ha => .inr (.inl ha)
    · exact .inr (.inl hbefore)
    · exact (hsame.mp (.inr hb)).imp_right fun ha => .inr (.inl ha)
    · exact .inr (.inr (.inr hafter))
  · rintro (ha | hbefore | ha | hafter)
    · exact (hsame.mpr (.inl ha)).imp_right fun hb => .inr (.inl hb)
    · exact .inr (.inl hbefore)
    · exact (hsame.mpr (.inr ha)).imp_right fun hb => .inr (.inl hb)
    · exact .inr (.inr (.inr hafter))

section Runs

variable [Unicode] [IpAddress] {s s' : InFlight} {event : FlightEvent} {mac : String}

/-- What holds before and after every step. -/
structure InFlight.Kept (s : InFlight) : Prop where
  sound : Sound s.db
  normal : NormalSessions s.db

theorem InFlight.Started.kept (h : s.Started) : s.Kept := ⟨h.reachable.sound, h.normal⟩

/-- A step makes at most one call. -/
theorem step_call (hstep : FlightStep s event s') : s'.db = s.db ∨
    ∃ op : Operation, (∀ mac, op.Brings mac → event.action.Readmits mac) ∧
      s'.db = (op.run event.time s.db).db := by
  obtain ⟨time, action⟩ := event
  obtain ⟨-, -, rfl⟩ := hstep
  cases action with
  | arrive report => exact .inl rfl
  | advance i =>
    unfold InFlight.after
    dsimp only
    cases s.requests[i]? with
    | none => exact .inl rfl
    | some handling =>
      rcases @next_call _ time s.db _ handling with hsame | ⟨op, hbrings, hcall⟩
      · exact .inl hsame
      · exact .inr ⟨op, fun mac hop => absurd hop (hbrings mac), hcall⟩
  | call op => exact .inr ⟨op, fun _ => .inl, rfl⟩

theorem kept_step (hstep : FlightStep s event s') (h : s.Kept) : s'.Kept := by
  rcases step_call hstep with hsame | ⟨op, -, hcall⟩
  · exact ⟨hsame ▸ h.sound, hsame ▸ h.normal⟩
  · refine ⟨?_, ?_⟩
    · rw [hcall]
      exact sound_run event.time h.sound op
    · rw [hcall]
      exact normalSessions_run h.sound.hasRun h.normal

theorem gone_step (hstep : FlightStep s event s') (hkept : s.Kept)
    (hquiet : ¬ event.action.Readmits mac) (h : Gone s.db mac) : Gone s'.db mac := by
  rcases step_call hstep with hsame | ⟨op, hbrings, hcall⟩
  · rw [hsame]
    exact h
  · rw [hcall]
    exact gone_run hkept.sound (fun hop => hquiet (hbrings mac hop)) h

/-- **What is left of a MAC that is gone**: no step adds to it or takes from it. -/
theorem leaves_step (hstep : FlightStep s event s') (hkept : s.Kept)
    (hquiet : ¬ event.action.Readmits mac) (hgone : Gone s.db mac) :
    s'.Leaves mac ↔ s.Leaves mac := by
  obtain ⟨time, action⟩ := event
  obtain ⟨-, henabled, rfl⟩ := hstep
  cases action with
  | arrive report =>
    refine or_congr_right ?_
    simp only [InFlight.after, List.mem_append, List.mem_singleton, or_and_right, exists_or,
      exists_eq_left, or_iff_left (not_owes_arrived report)]
  | advance i =>
    have hi : i < s.requests.length := henabled
    have hat : s.requests[i]? = some s.requests[i] := List.getElem?_eq_getElem hi
    unfold InFlight.after InFlight.Leaves
    simp only [hat]
    exact exists_mem_set hat (leaves_next _ hkept.normal hgone.sessions)
  | call op =>
    refine or_congr_left ?_
    by_cases hremove : ∃ mac', op = .remove mac'
    · obtain ⟨mac', rfl⟩ := hremove
      have hother : normaliseMac mac' ≠ mac := fun hmac => hquiet (.inr ⟨mac', rfl, hmac⟩)
      exact (logged_remove mac').trans (and_iff_left hother)
    · refine logged_run ?_
      cases op with
      | remove mac' => exact absurd ⟨mac', rfl⟩ hremove
      | reopen | logBootEvent => cases henabled
      | _ => rfl

/-- The same over a run. -/
theorem leaves_run {events : List FlightEvent} (hrun : Run FlightStep s events s')
    (hkept : s.Kept) (hgone : Gone s.db mac)
    (hquiet : ∀ event ∈ events, ¬ event.action.Readmits mac) :
    Gone s'.db mac ∧ (s'.Leaves mac ↔ s.Leaves mac) := by
  have hkeep : ∀ s₁ event s₂, (s₁.Kept ∧ Gone s₁.db mac ∧ (s₁.Leaves mac ↔ s.Leaves mac)) →
      FlightStep s₁ event s₂ → ¬ event.action.Readmits mac →
      s₂.Kept ∧ Gone s₂.db mac ∧ (s₂.Leaves mac ↔ s.Leaves mac) :=
    fun s₁ event s₂ hs₁ hstep hgood => ⟨kept_step hstep hs₁.1,
      gone_step hstep hs₁.1 hgood hs₁.2.1,
      (leaves_step hstep hs₁.1 hgood hs₁.2.1).trans hs₁.2.2⟩
  exact (hrun.invariant_of_good hkeep ⟨hkept, hgone, Iff.rfl⟩ hquiet).2

/-- Nothing of a MAC is left in the four tables that `remove` deletes from. -/
def NothingLeft (db : Database) (mac : String) : Prop := Gone db mac ∧ ¬ db.Logged mac

/-- **Removing a machine** while requests are in flight. Afterwards the MAC is not enrolled, opened
a session for or removed once more, and all requests are answered. Nothing is left of the MAC
exactly if at the removal no handler had found a session of it without having logged its event. -/
theorem remove_leavesNothing_iff {s₀ s₁ s₂ s₃ : InFlight} {before after : List FlightEvent}
    {time : Timestamp} {mac : String} (hstart : s₀.Started)
    (hbefore : Run FlightStep s₀ before s₁)
    (hremove : FlightStep s₁ ⟨time, .call (.remove mac)⟩ s₂)
    (hafter : Run FlightStep s₂ after s₃)
    (hquiet : ∀ event ∈ after, ¬ event.action.Readmits (normaliseMac mac))
    (hanswered : ∀ handling ∈ s₃.requests, handling.isAnswered = true) :
    NothingLeft s₃.db (normaliseMac mac) ↔
      ∀ handling ∈ s₁.requests, ¬ handling.Owes (normaliseMac mac) := by
  have hkept₁ : s₁.Kept :=
    hbefore.invariant (I := InFlight.Kept) (fun _ _ _ h hstep => kept_step hstep h) hstart.kept
  have hkept₂ : s₂.Kept := kept_step hremove hkept₁
  obtain rfl := hremove.after
  obtain ⟨hgone, hleaves⟩ := leaves_run hafter hkept₂ (gone_remove s₁.db mac) hquiet
  -- The removal empties the log, and at the end nobody owes an event.
  have hstarted : (s₁.after ⟨time, .call (.remove mac)⟩).Leaves (normaliseMac mac) ↔
      ∃ handling ∈ s₁.requests, handling.Owes (normaliseMac mac) :=
    or_iff_right (not_logged_remove s₁.db mac)
  have hended : s₃.Leaves (normaliseMac mac) ↔ s₃.db.Logged (normaliseMac mac) := by
    refine or_iff_left ?_
    rintro ⟨handling, hmem, report, mac', notes, rfl, -⟩
    cases hanswered _ hmem
  rw [NothingLeft, and_iff_right hgone, ← hended, hleaves, hstarted]
  simp only [not_exists, not_and]

end Runs

section Examples

attribute [local instance] ascii noNetworks

def newFlight : InFlight := ⟨0, newRegistry.db, []⟩

theorem newFlight_started : newFlight.Started :=
  ⟨rfl, ⟨newRegistry, [], newRegistry_opened, .nil⟩, by unfold NormalSessions; decide +kernel⟩

def minting : FlightEvent := ⟨1, .call (.mint "f00d" "52:54:00:12:34:56")⟩

def arrival : FlightEvent := ⟨2, .arrive (.grubEvent "f00d" "grub_running")⟩

/-- The first handler makes its next call. -/
def nextCall : FlightEvent := ⟨6, .advance 0⟩

def removal : FlightEvent := ⟨6, .call (.remove "52:54:00:12:34:56")⟩

/-- The handler of a GRUB event has found its session. -/
def reporting : InFlight := ((newFlight.after minting).after arrival).after nextCall

theorem run_reporting : ∃ events, Run FlightStep newFlight events reporting := by
  have hmint : FlightStep newFlight minting _ := ⟨by decide, rfl, rfl⟩
  have harrive : FlightStep (newFlight.after minting) arrival _ := ⟨by decide, trivial, rfl⟩
  have hfind : FlightStep ((newFlight.after minting).after arrival) nextCall reporting :=
    ⟨by decide, Nat.one_pos, rfl⟩
  exact ⟨_, ((Run.single hmint).snoc harrive).snoc hfind⟩

/-- The machine is removed before the handler logs its event. -/
theorem not_remove_leavesNothing : ¬ ∀ (s₀ s₁ s₂ s₃ : InFlight) (before after : List FlightEvent)
    (time : Timestamp) (mac : String), s₀.Started → Run FlightStep s₀ before s₁ →
    FlightStep s₁ ⟨time, .call (.remove mac)⟩ s₂ → Run FlightStep s₂ after s₃ →
    (∀ event ∈ after, ¬ event.action.Readmits (normaliseMac mac)) →
    (∀ handling ∈ s₃.requests, handling.isAnswered = true) →
    NothingLeft s₃.db (normaliseMac mac) := by
  intro hclaim
  obtain ⟨events, hrun⟩ := run_reporting
  have hremove : FlightStep reporting removal (reporting.after removal) := ⟨by decide, rfl, rfl⟩
  have hlog : FlightStep (reporting.after removal) nextCall _ := ⟨by decide, Nat.one_pos, rfl⟩
  have hreply : FlightStep ((reporting.after removal).after nextCall) nextCall _ :=
    ⟨by decide, Nat.one_pos, rfl⟩
  have hleft := hclaim _ _ _ _ _ _ _ _ newFlight_started hrun hremove
    ((Run.single hlog).snoc hreply) (by simp [nextCall, FlightAction.Readmits]) (by decide +kernel)
  refine hleft.2 ?_
  unfold Database.Logged
  decide +kernel

/-- The handler has logged its event before. -/
theorem remove_leavesNothing_reported :
    NothingLeft (((reporting.after nextCall).after removal).after nextCall).db
      "52:54:00:12:34:56" := by
  obtain ⟨events, hrun⟩ := run_reporting
  have hlog : FlightStep reporting nextCall (reporting.after nextCall) :=
    ⟨by decide, Nat.one_pos, rfl⟩
  have hremove : FlightStep (reporting.after nextCall) removal _ := ⟨by decide, rfl, rfl⟩
  have hreply : FlightStep ((reporting.after nextCall).after removal) nextCall _ :=
    ⟨by decide, Nat.one_pos, rfl⟩
  have hnormal : normaliseMac "52:54:00:12:34:56" = "52:54:00:12:34:56" := by decide +kernel
  have hleft := (remove_leavesNothing_iff newFlight_started (hrun.snoc hlog) hremove
    (.single hreply) (by simp [nextCall, FlightAction.Readmits]) (by decide +kernel)).mpr ?_
  · rwa [hnormal] at hleft
  · have hnotes : ∀ handling ∈ (reporting.after nextCall).requests,
        handling.notes.isEmpty = true := by decide +kernel
    rintro handling hmem ⟨report, mac, notes, rfl, -, state, detail, hnote⟩
    have hnil : notes = [] := List.isEmpty_iff.mp (hnotes _ hmem)
    rw [hnil] at hnote
    cases hnote

end Examples

end Fleetboot
