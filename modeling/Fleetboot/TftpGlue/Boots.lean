import Fleetboot.Registry.Tokens
import Fleetboot.Server.GrubIntercepts
import Fleetboot.Server.InFlight
import Fleetboot.Server.Keytabs
import Fleetboot.TftpGlue.Client
import Fleetboot.TftpGlue.GrubScript

/-!
# Booting machines

The whole way of a boot: tftpjail answers a request with a configuration under a fresh token, GRUB
runs it and reports by reading files, the kernel gets its command line, and the reporter in the
image reads the token off it for its own reports. Any number of machines are at any point of this
at once, every call of the server is a step, and others call the registry in between. What is on
its way may be lost: then its next step is never made.

* `BootsStep.oneCall`: a step makes at most one call of the registry.
* `untouched_next`: what the server writes for a report.
* `Boots.Kept.step`: the token in the hands of a machine is good for its own MAC only.
-/

set_option autoImplicit false

namespace Fleetboot

open Python Relational Transition Grants

/-! ## Machines and server -/

/-- The two containers: the secrets of the server, the client of tftpjail, which also has the URL
for GRUB events, and the URL for the machines. -/
structure BootSetup where
  config : RestConfig
  client : FleetbootClient
  url : UrlParts

def BootSetup.glue (setup : BootSetup) : Glue :=
  { config := setup.config, client := setup.client, base := setup.url.base }

structure Boots where
  clock : Timestamp
  db : Database
  /-- The tokens that the server has drawn. -/
  drawn : List String
  /-- What tftpjail was asked, and how far it is with it. -/
  requests : List (JailRequest × JailStage)
  /-- The machines whose kernel runs, with its command line. -/
  running : List (ClientIdentity × String)
  /-- What was sent to the server, by which machine, and how far it is with it. -/
  reports : List (ClientIdentity × Handling)

inductive BootsAction
  | ask (req : JailRequest)
  /-- The server gets the next call for a request; a mint would draw the token. -/
  | advance (i : Nat) (token : String)
  /-- GRUB reads a file of the configuration that answered a request. -/
  | source (i : Nat) (file : String)
  /-- The kernel starts. -/
  | boot (i : Nat)
  /-- The reporter of a machine sends a report. -/
  | report (j : Nat) (clientHost : Option String) (report : StatusReport)
  /-- The server makes its next call for a report. -/
  | handle (k : Nat)
  | call (op : Operation)

structure BootsEvent where
  time : Timestamp
  action : BootsAction

section Machines

variable [Unicode]

/-- What the intercept of tftpjail makes of a file that GRUB reads. -/
def forwarded (interceptUrl file : String) : Option BootReport :=
  (eventParts file).bind fun parts =>
    (routeGrubEvent (requestPath (eventUrl interceptUrl parts.1 parts.2))).map fun parts =>
      .grubEvent parts.1 parts.2

/-- `report_state`, by the command line that the reporter finds. -/
def statusRequest (cmdline : String) (clientHost : Option String) (report : StatusReport) :
    Option StatusRequest :=
  (parseCmdline (cmdline ++ "\n")).toOption.map fun settings =>
    { authorization := some ("Bearer " ++ settings.bootToken), clientHost, report }

variable [IpAddress]

def Boots.after (setup : BootSetup) (s : Boots) (event : BootsEvent) : Boots :=
  match event.action with
  | .ask req => { s with clock := event.time, requests := s.requests ++ [(req, .asked)] }
  | .advance i token =>
    match s.requests[i]? with
    | none => { s with clock := event.time }
    | some (req, stage) =>
      let next := stage.next setup.glue event.time token req s.db
      { s with
        clock := event.time
        db := next.1
        drawn := token :: s.drawn
        requests := s.requests.set i (req, next.2) }
  | .source i file =>
    match s.requests[i]? with
    | some (req, .answered (some cfg)) =>
      { s with
        clock := event.time
        reports := s.reports ++
          ((if file ∈ sourcedFiles cfg then forwarded setup.client.baseUrl file
            else none).toList.map fun report => (req.identity, .arrived report)) }
    | _ => { s with clock := event.time }
  | .boot i =>
    match s.requests[i]? with
    | some (req, .answered (some cfg)) =>
      { s with
        clock := event.time
        running := s.running ++
          (bootedCmdline cfg).toList.map fun cmdline => (req.identity, cmdline) }
    | _ => { s with clock := event.time }
  | .report j clientHost report =>
    match s.running[j]? with
    | none => { s with clock := event.time }
    | some (identity, cmdline) =>
      { s with
        clock := event.time
        reports := s.reports ++ (statusRequest cmdline clientHost report).toList.map
          fun req => (identity, .arrived (.status req)) }
  | .handle k =>
    match s.reports[k]? with
    | none => { s with clock := event.time }
    | some (identity, handling) =>
      let next := handling.next event.time s.db
      { s with
        clock := event.time
        db := next.1
        reports := s.reports.set k (identity, next.2) }
  | .call op =>
    { s with
      clock := event.time
      db := (op.run event.time s.db).db
      drawn := op.minted ++ s.drawn }

/-- Tokens are drawn at random and never twice; a client names itself in one line. -/
def BootsAction.Enabled (s : Boots) : BootsAction → Prop
  | .ask req => req.identity.OneLine
  | .advance _ token => token ∉ s.drawn ∧ IsTokenHex token
  | .call op => ∀ token ∈ op.minted, token ∉ s.drawn ∧ IsTokenHex token
  | _ => True

structure BootsStep (setup : BootSetup) (s : Boots) (event : BootsEvent) (s' : Boots) : Prop where
  later : s.clock ≤ event.time
  enabled : event.action.Enabled s
  after : s' = s.after setup event

/-- Nobody has booted yet; the tokens of older sessions were drawn before. -/
structure Boots.Started (s : Boots) : Prop where
  reachable : Reachable ⟨s.clock, s.db⟩
  ascend : EventsAscend s.db
  drawn : ∀ binding ∈ s.db.bindings, binding.1 ∈ s.drawn
  requests : s.requests = []
  running : s.running = []
  reports : s.reports = []

end Machines

/-! ## What a machine holds -/

def Boots.ledger (s : Boots) : Ledger String String := s.db.ledger s.drawn

/-- The token of a machine: drawn by the server, and good for the MAC that the machine gave. -/
structure Holds [Unicode] (ledger : Ledger String String) (identity : ClientIdentity)
    (token : String) : Prop where
  hex : IsTokenHex token
  granted : ledger.Granted token (normaliseMac identity.assertedMac)

def scratchModes : List String := ["volatile", "persistent", "off"]

section Invariant

variable [Unicode]

/-- What tftpjail has for a request. -/
def JailStage.Fits (url : UrlParts) (ledger : Ledger String String) (req : JailRequest) :
    JailStage → Prop
  | known machine => machine.scratchMode ∈ scratchModes
  | minted machine session =>
    machine.scratchMode ∈ scratchModes ∧ Holds ledger req.identity session.token
  | answered (some cfg) => ∃ token squashfs, Holds ledger req.identity token ∧
      BootsWith cfg url token squashfs
  | _ => True

/-- The token that a report bears. -/
def BootReport.token : BootReport → String
  | status req => extractBearerToken req.authorization
  | grubEvent token _ => token

/-- A report bears the token of the machine that sent it, or was found to be from its MAC. -/
def Handling.Fits (ledger : Ledger String String) (identity : ClientIdentity) : Handling → Prop
  | arrived report => Holds ledger identity report.token
  | noting _ mac _ => mac = normaliseMac identity.assertedMac
  | answered (.status (.acknowledged mac _ _)) => mac = normaliseMac identity.assertedMac
  | answered _ => True

/-- The invariant. -/
structure Boots.Kept (url : UrlParts) (s : Boots) : Prop where
  sound : Sound s.db
  ascend : EventsAscend s.db
  ledger : s.ledger.Sound
  requests : ∀ entry ∈ s.requests, entry.1.identity.OneLine ∧ entry.2.Fits url s.ledger entry.1
  running : ∀ entry ∈ s.running, ∃ token, Holds s.ledger entry.1 token ∧
    parseCmdline (entry.2 ++ "\n") =
      .ok { serverUrl := withoutSlashes url.text ++ "/", bootToken := token }
  reports : ∀ entry ∈ s.reports, entry.2.Fits s.ledger entry.1

variable {ledger ledger' : Ledger String String} {identity : ClientIdentity} {token : String}

theorem Holds.change (h : Holds ledger identity token) (hchange : ledger.Change ledger') :
    Holds ledger' identity token := ⟨h.hex, hchange.granted h.granted⟩

theorem JailStage.Fits.change {url : UrlParts} {req : JailRequest} {stage : JailStage}
    (h : stage.Fits url ledger req) (hchange : ledger.Change ledger') :
    stage.Fits url ledger' req := by
  cases stage with
  | known machine => exact h
  | minted machine session => exact ⟨h.1, h.2.change hchange⟩
  | answered cfg =>
    cases cfg with
    | none => trivial
    | some cfg =>
      obtain ⟨token, squashfs, hholds, hboots⟩ := h
      exact ⟨token, squashfs, hholds.change hchange, hboots⟩
  | asked | unknown | matched => trivial

theorem Handling.Fits.change {handling : Handling} (h : handling.Fits ledger identity)
    (hchange : ledger.Change ledger') : handling.Fits ledger' identity := by
  cases handling with
  | arrived report => exact Holds.change h hchange
  | noting report mac notes => exact h
  | answered reply =>
    cases reply with
    | status answer => cases answer <;> exact h
    | grubEvent answer => trivial

omit [Unicode] in
theorem not_isSpace_of_hex (htoken : IsTokenHex token) : ∀ c ∈ token.toList, isSpace c = false :=
  have hdigits : ∀ c ∈ "0123456789abcdef".toList, isSpace c = false :=
    forall_mem_of_all (by decide)
  fun c hc => hdigits c (htoken.2 c hc)

/-- The header of the reporter bears its token. -/
theorem extractBearerToken_bearer (htoken : IsTokenHex token) :
    extractBearerToken (some ("Bearer " ++ token)) = token := by
  have hclean := not_isSpace_of_hex htoken
  have hword : ∀ c ∈ "Bearer".toList, isSpace c = false := forall_mem_of_all (by decide)
  have hlower : lower "Bearer" = "bearer" := by
    rw [lower, Unicode.lower_ascii _ (forall_mem_of_all (by decide))]
    decide
  have hstripped : stripChars token.toList = token.toList :=
    stripChars_eq_self (fun c hc => hclean c (List.mem_of_head? hc))
      fun c hc => hclean c (List.mem_of_getLast? hc)
  have hbears : Bears ("Bearer " ++ token).toList [] "Bearer".toList [' '] token.toList [] :=
    { spelled := by simp
      lead_space := List.forall_mem_nil _
      word := hword
      bearer := hlower
      gap_space := forall_mem_of_all (by decide)
      gap_nonempty := by decide
      token_nonempty := by simpa using htoken.1
      stripped := hstripped
      tail_space := List.forall_mem_nil _ }
  have hextract := hbears.extractBearerToken_eq
  rwa [String.ofList_toList, String.ofList_toList] at hextract

end Invariant

/-! ## One call for a request -/

section Requests

variable [Unicode] {now : Timestamp} {token : String} {db : Database}

/-- What `/sessions` leaves is what the mint leaves. -/
theorem db_of_beginMint {mintSecret : Option String} {req : MintRequest} {session : BootSession}
    {db' : Database} (h : beginMint mintSecret now token req db = (db', .ok session)) :
    db' = (mint now token req.mac db).db := by
  rcases beginMint_cases mintSecret now token req db with
    ⟨answer, hrefused, -⟩ | ⟨rows, hinsert, hminted⟩
  · rw [hrefused] at h
    cases h
  · rw [hminted] at h
    cases h
    unfold mint
    unfold mintedRow at hinsert
    dsimp only
    rw [hinsert]

variable [IpAddress] {glue : Glue} {req : JailRequest}

/-- A request makes at most one call a step, which mints nothing but the token and ends no
session. -/
theorem JailStage.next_call (stage : JailStage) :
    (stage.next glue now token req db).1 = db ∨
      ∃ op : Operation, op.minted ⊆ [token] ∧ (∀ token mac, ¬ op.Revokes token mac) ∧
        (stage.next glue now token req db).1 = (op.run now db).db := by
  cases stage with
  | asked =>
    left
    unfold JailStage.next
    cases requireSecret glue.config.mintSecret "resolve not configured"
        (some glue.client.authHeader) with
    | error failure => rfl
    | ok _ => cases db.lookup req.identity.assertedMac <;> rfl
  | unknown =>
    left
    unfold JailStage.next
    dsimp only
    split <;> rfl
  | matched rule =>
    refine .inr ⟨.enroll (rule.enrolment (req.lookup glue.client).mac
      (req.lookup glue.client).platform), List.nil_subset _, fun _ _ => id, ?_⟩
    rw [Operation.run, Outcome.db_map]
    rfl
  | known machine =>
    unfold JailStage.next
    rcases hbegin : beginMint glue.config.mintSecret now token (req.mint glue.client) db with
      ⟨db', answer | session⟩
    · exact .inl (beginMint_error hbegin).1
    · refine .inr ⟨.mint token (req.mint glue.client).mac, List.Subset.refl _, fun _ _ => id, ?_⟩
      rw [Operation.run, Outcome.db_map]
      exact db_of_beginMint hbegin
  | minted machine session =>
    exact .inr ⟨.setPendingReboot session.mac false, List.nil_subset _, fun _ _ => id, rfl⟩
  | answered cfg => exact .inl rfl

omit [Unicode] [IpAddress] in
theorem scratchModes_of_row (m : Machine) :
    (MachineRecord.fromMachine m).registered.scratchMode ∈ scratchModes := by
  change m.scratchMode.text ∈ scratchModes
  cases m.scratchMode <;> decide

/-- **What a request has** after its next call. -/
theorem JailStage.Fits.next {setup : BootSetup} {drawn : List String} {stage : JailStage}
    (hsound : (db.ledger drawn).Sound) (hfresh : token ∉ drawn) (hhex : IsTokenHex token)
    (honeLine : req.identity.OneLine) (h : stage.Fits setup.url (db.ledger drawn) req)
    (hchange : (db.ledger drawn).Change
      ((stage.next setup.glue now token req db).1.ledger (token :: drawn))) :
    (stage.next setup.glue now token req db).2.Fits setup.url
      ((stage.next setup.glue now token req db).1.ledger (token :: drawn)) req := by
  cases stage with
  | asked =>
    unfold JailStage.next
    cases requireSecret setup.glue.config.mintSecret "resolve not configured"
        (some setup.glue.client.authHeader) with
    | error failure => trivial
    | ok _ =>
      dsimp only
      cases db.lookup req.identity.assertedMac with
      | none => trivial
      | some m => exact scratchModes_of_row m
  | unknown =>
    unfold JailStage.next
    dsimp only
    split <;> trivial
  | matched rule =>
    unfold JailStage.next
    dsimp only
    split
    · exact scratchModes_of_row _
    · trivial
  | known machine =>
    unfold JailStage.next
    rcases hbegin : beginMint setup.glue.config.mintSecret now token (req.mint setup.glue.client) db
      with ⟨db', answer | session⟩
    · trivial
    · refine ⟨h, ?_⟩
      rw [(beginMint_ok hbegin).1, db_of_beginMint hbegin]
      exact ⟨hhex, (bind_mint hfresh).granted hsound⟩
  | minted machine session =>
    obtain ⟨hmode, hholds⟩ := h
    have hafter := hholds.change hchange
    unfold JailStage.next finishMint JailRequest.rendered mintedToken
    dsimp only
    rw [if_neg hholds.hex.1]
    dsimp only
    cases hrender : render req.identity setup.glue.base session.token machine with
    | error err => trivial
    | ok cfg =>
      obtain ⟨squashfs, -, hboots⟩ :=
        bootsWith_of_render honeLine (not_isSpace_of_hex hholds.hex) hmode hrender
      exact ⟨session.token, squashfs, hafter, hboots⟩
  | answered cfg => exact JailStage.Fits.change h hchange

end Requests

/-! ## One call for a report -/

section Reports

variable [Unicode] [IpAddress] {now : Timestamp} {db : Database} {drawn : List String}
  {identity : ClientIdentity}

/-- What the server makes of a report that came in: it refuses it, or finds the session of its
token, and may have recorded the state. -/
inductive FoundByToken (now : Timestamp) (db : Database) (report : BootReport) :
    Database × Handling → Prop
  | refused {reply : BootReply} :
      (∀ mac state pending, reply ≠ .status (.acknowledged mac state pending)) →
      FoundByToken now db report (db, .answered reply)
  | looked {mac : String} {notes : List Note} : (report.token, mac) ∈ db.bindings →
      FoundByToken now db report (db, .noting report mac notes)
  | recorded {state : BootState} {session : BootSession} {recorded : Database}
      {notes : List Note} : recordState now report.token state db = some (session, recorded) →
      (report.token, session.mac) ∈ db.bindings →
      FoundByToken now db report (recorded, .noting report session.mac notes)

omit [Unicode] [IpAddress] in
theorem mac_of_recordState {token : String} {state : BootState} {session : BootSession}
    {recorded : Database} (h : recordState now token state db = some (session, recorded)) :
    (token, session.mac) ∈ db.bindings := by
  obtain ⟨row, hrow, heq⟩ := Option.map_eq_some_iff.mp h
  cases heq
  exact List.mem_map.mpr ⟨row, Table.mem_of_lookup hrow, by rw [Table.key_of_lookup hrow]⟩

omit [IpAddress] in
theorem foundByToken_find (report : BootReport) :
    FoundByToken now db report (report.find now db) := by
  cases report with
  | status req =>
    simp only [BootReport.find]
    by_cases hvalid : req.report.isValid = false
    · rw [if_pos hvalid]
      exact .refused (by simp)
    · rw [if_neg hvalid]
      unfold recordReport
      cases BootState.ofValue req.report.state with
      | some state =>
        dsimp only
        cases hrecord : recordState now (extractBearerToken req.authorization) state db with
        | none => exact .refused (by simp)
        | some found => exact .recorded hrecord (mac_of_recordState hrecord)
      | none =>
        dsimp only
        cases hlookup : lookupSession db (extractBearerToken req.authorization) with
        | none => exact .refused (by simp)
        | some session =>
          obtain ⟨row, hrow, rfl⟩ := Option.map_eq_some_iff.mp hlookup
          refine .looked (List.mem_map.mpr ⟨row, Table.mem_of_lookup hrow, ?_⟩)
          exact congrArg (·, row.mac) (Table.key_of_lookup hrow)
  | grubEvent token stateStr =>
    simp only [BootReport.find]
    cases BootState.ofValue stateStr with
    | none => exact .refused (by simp)
    | some state =>
      dsimp only
      cases hrecord : recordState now token state db with
      | none => exact .refused (by simp)
      | some found => exact .recorded hrecord (mac_of_recordState hrecord)

/-- A report makes at most one call a step, which neither mints nor ends a session. -/
theorem next_report (handling : Handling) : (handling.next now db).1 = db ∨
    ∃ op : Operation, op.minted = [] ∧ (∀ token mac, ¬ op.Revokes token mac) ∧
      (handling.next now db).1 = (op.run now db).db := by
  cases handling with
  | arrived report =>
    have hfound := @foundByToken_find _ now db report
    change (report.find now db).1 = db ∨ ∃ op : Operation, _ ∧ _ ∧ (report.find now db).1 = _
    generalize report.find now db = next at hfound
    cases hfound with
    | refused | looked => exact .inl rfl
    | @recorded state session recorded notes hrecord =>
      refine .inr ⟨.recordState report.token state, rfl, fun _ _ => id, ?_⟩
      simp only [Operation.run, hrecord]
  | noting report mac notes =>
    cases notes with
    | nil => exact .inl rfl
    | cons note notes =>
      refine .inr ⟨note.operation mac, ?_, fun _ _ => ?_, rfl⟩
      · cases note <;> rfl
      · cases note <;> exact id
  | answered reply => exact .inl rfl

/-- **What a report is found to be.** -/
theorem Handling.Fits.next {handling : Handling} (h : handling.Fits (db.ledger drawn) identity)
    (drawn' : List String) :
    (handling.next now db).2.Fits ((handling.next now db).1.ledger drawn') identity := by
  cases handling with
  | arrived report =>
    have hfound := @foundByToken_find _ now db report
    change (report.find now db).2.Fits _ identity
    generalize report.find now db = next at hfound
    cases hfound with
    | @refused reply hreply =>
      cases reply with
      | grubEvent answer => trivial
      | status answer =>
        cases answer with
        | acknowledged mac state pending => exact absurd rfl (hreply mac state pending)
        | invalid | unauthorised => trivial
    | looked hbound => exact h.granted.only _ hbound
    | recorded _ hbound => exact h.granted.only _ hbound
  | noting report mac notes =>
    cases notes with
    | cons note notes => exact h
    | nil =>
      cases report with
      | status req => exact h
      | grubEvent token stateStr => trivial
  | answered reply =>
    cases reply with
    | status answer => cases answer <;> exact h
    | grubEvent answer => trivial

omit [IpAddress] in
theorem machine_note_of_ne {mac mac' : String} (hne : normaliseMac mac' ≠ mac) (note : Note) :
    (note.write now mac' db).machine mac = db.machine mac := by
  have hupdate : ∀ f : Machine → Machine, ∀ hmac : ∀ m, (f m).mac = m.mac,
      (db.updateMachine (normaliseMac mac') f hmac).machine mac = db.machine mac := fun f hmac => by
    rw [Database.machine_updateMachine, if_neg (Ne.symm hne)]
  cases note with
  | bootEvent state detail =>
    unfold Note.write logBootEvent
    dsimp only
    split
    · rfl
    · split <;> rfl
  | lastIp ip =>
    unfold Note.write updateLastIp
    dsimp only
    split
    · rfl
    · exact hupdate _ _
  | hostname hostname =>
    unfold Note.write updateHostname
    dsimp only
    split
    · rfl
    · exact hupdate _ _
  | bootVersion bootVersion =>
    unfold Note.write updateBootVersion
    dsimp only
    split
    · rfl
    · exact hupdate _ _
  | diagnostics diagnostics =>
    unfold Note.write updateDiagnostics
    dsimp only
    split
    · rfl
    · exact hupdate _ _
  | hardware hardware =>
    unfold Note.write updateHardware
    exact hupdate _ _

/-- **What a call for a report leaves alone**: every MAC but that of the machine that sent it. -/
theorem untouched_next {mac : String} {handling : Handling} (hascend : EventsAscend db)
    (h : handling.Fits (db.ledger drawn) identity) (hne : mac ≠ normaliseMac identity.assertedMac) :
    Untouched mac db (handling.next now db).1 := by
  cases handling with
  | arrived report =>
    have hfound := @foundByToken_find _ now db report
    change Untouched mac db (report.find now db).1
    generalize report.find now db = next at hfound
    cases hfound with
    | refused | looked => exact .refl mac db
    | recorded hrecord _ =>
      exact untouched_recordState hrecord fun hbound => hne (h.granted.only mac hbound)
  | noting report mac' notes =>
    cases notes with
    | nil => exact .refl mac db
    | cons note notes =>
      have hother : normaliseMac mac' ≠ mac := by
        rw [show mac' = normaliseMac identity.assertedMac from h, normaliseMac_normaliseMac]
        exact hne.symm
      have hmachine := @machine_note_of_ne _ now db mac mac' hother note
      change Untouched mac db ((note.operation mac').run now db).db
      cases hwrites : (note.operation mac').writesColumns with
      | true =>
        have hwritten := columnsWritten_run now db hwrites
        rw [Note.db_run] at hwritten ⊢
        exact .of_machine hwritten hmachine
      | false =>
        rw [Note.db_run]
        cases note with
        | bootEvent state detail => exact untouched_logBootEvent hascend hother state detail
        | _ => cases hwrites
  | answered reply => exact .refl mac db

end Reports

/-! ## The events of GRUB -/

/-- The stages that a configuration reports. -/
def grubStages : List String := ["grub_running", "kernel_loaded", "initrd_loaded", "booting_kernel"]

/-- A file of an event is split into token and stage. -/
theorem eventParts_of_event {token stage : String} (htoken : '/' ∉ token.toList)
    (hstage : '/' ∉ stage.toList) :
    eventParts ("/grub-event/" ++ token ++ "/" ++ stage) = some (token, stage) := by
  have hwords := @splitOn_join '/' ["grub-event", token, stage] (List.cons_ne_nil _ _)
    (by simp [htoken, hstage])
  have htext : ("/grub-event/" ++ token ++ "/" ++ stage).toList.dropWhile (· == '/') =
      ((String.singleton '/').intercalate ["grub-event", token, stage]).toList := by
    rw [String.toList_intercalate]
    simp [List.intercalate]
  unfold eventParts
  rw [htext, hwords]
  simp

/-- **The files of a configuration** report the stages under its token. -/
theorem forwarded_of_sourced {interceptUrl token cfg file : String}
    (hbare : IsBareServer interceptUrl) (hhex : IsTokenHex token)
    (hsourced : sourcedFiles cfg = grubStages.map fun stage =>
      "/grub-event/" ++ token ++ "/" ++ stage) (hfile : file ∈ sourcedFiles cfg) :
    ∃ stage ∈ grubStages, forwarded interceptUrl file = some (.grubEvent token stage) := by
  rw [hsourced] at hfile
  obtain ⟨stage, hstage, rfl⟩ := List.mem_map.mp hfile
  have hdigits : ∀ c ∈ "0123456789abcdef".toList, isPlain c = true := forall_mem_of_all (by decide)
  have htoken : ∀ c ∈ token.toList, isPlain c = true := fun c hc => hdigits c (hhex.2 c hc)
  have hplain : ∀ c ∈ stage.toList, isPlain c = true := by
    simp only [grubStages, List.mem_cons, List.not_mem_nil, or_false] at hstage
    rcases hstage with rfl | rfl | rfl | rfl <;> exact forall_mem_of_all (by decide)
  have hne : stage ≠ "" := by
    rintro rfl
    exact absurd hstage (by decide)
  have hslash : ∀ {text : String}, (∀ c ∈ text.toList, isPlain c = true) → '/' ∉ text.toList :=
    fun h hmem => absurd (h '/' hmem) (by decide)
  refine ⟨stage, hstage, ?_⟩
  unfold forwarded
  rw [eventParts_of_event (hslash htoken) (hslash hplain), Option.bind_some,
    requestPath_eventUrl hbare, eventPath_of_plain htoken hplain,
    routeGrubEvent_eq_some_iff.mpr ⟨rfl, hhex.1, hne, hslash htoken, hslash hplain⟩]
  rfl

/-! ## Steps -/

section Steps

variable [Unicode] [IpAddress] {setup : BootSetup} {s s' : Boots} {event : BootsEvent}

/-- The action ends the session of a token, or all those of its MAC. -/
def BootsAction.Revokes (token mac : String) : BootsAction → Prop
  | call op => op.Revokes token mac
  | _ => False

/-- **What a step does to the registry**: nothing, or it is one call, which mints only what is drawn
then. -/
inductive OneCall (s : Boots) (event : BootsEvent) (s' : Boots) : Prop
  | nothing : s'.db = s.db → (∀ token mac, ¬ event.action.Revokes token mac) → OneCall s event s'
  | made (op : Operation) : s'.db = (op.run event.time s.db).db →
      (∀ token ∈ op.minted, token ∉ s.drawn ∧ token ∈ s'.drawn) →
      (∀ token mac, op.Revokes token mac ↔ event.action.Revokes token mac) → OneCall s event s'

theorem BootsStep.oneCall (h : BootsStep setup s event s') :
    s.drawn ⊆ s'.drawn ∧ OneCall s event s' := by
  obtain ⟨time, action⟩ := event
  have henabled := h.enabled
  rw [h.after]
  cases action with
  | ask req => exact ⟨List.Subset.refl _, .nothing rfl fun _ _ => id⟩
  | advance i token =>
    unfold Boots.after
    dsimp only
    split
    · exact ⟨List.Subset.refl _, .nothing rfl fun _ _ => id⟩
    · rename_i req stage _
      refine ⟨List.subset_cons_self _ _, ?_⟩
      rcases @JailStage.next_call _ time token s.db _ setup.glue req stage with
        hsame | ⟨op, hminted, hrevokes, hdb⟩
      · exact .nothing hsame fun _ _ => id
      · refine .made op hdb (fun minted hmem => ?_)
          fun token mac => iff_of_false (hrevokes token mac) id
        rw [List.mem_singleton.mp (hminted hmem)]
        exact ⟨henabled.1, List.mem_cons_self⟩
  | source i file =>
    unfold Boots.after
    dsimp only
    split <;> exact ⟨List.Subset.refl _, .nothing rfl fun _ _ => id⟩
  | boot i =>
    unfold Boots.after
    dsimp only
    split <;> exact ⟨List.Subset.refl _, .nothing rfl fun _ _ => id⟩
  | report j clientHost report =>
    unfold Boots.after
    dsimp only
    split <;> exact ⟨List.Subset.refl _, .nothing rfl fun _ _ => id⟩
  | handle k =>
    unfold Boots.after
    dsimp only
    split
    · exact ⟨List.Subset.refl _, .nothing rfl fun _ _ => id⟩
    · rename_i identity handling _
      refine ⟨List.Subset.refl _, ?_⟩
      rcases @next_report _ _ time s.db handling with hsame | ⟨op, hminted, hrevokes, hdb⟩
      · exact .nothing hsame fun _ _ => id
      · refine .made op hdb (fun token hmem => ?_)
          fun token mac => iff_of_false (hrevokes token mac) id
        rw [hminted] at hmem
        cases hmem
  | call op =>
    exact ⟨List.subset_append_right _ _, .made op rfl
      (fun token htoken => ⟨(henabled token htoken).1, List.mem_append_left _ htoken⟩)
      fun _ _ => .rfl⟩

/-- To the ledger a step is a change. -/
theorem BootsStep.change (h : BootsStep setup s event s') (hrun : HasRun s.db) :
    s.ledger.Change s'.ledger := by
  obtain ⟨hdrawn, hcall⟩ := h.oneCall
  unfold Boots.ledger
  cases hcall with
  | nothing hsame =>
    rw [hsame]
    exact change_drawn hdrawn
  | made op hdb hminted =>
    rw [hdb]
    exact change_run hrun (fun token htoken => (hminted token htoken).1)
      (fun token htoken => (hminted token htoken).2) hdrawn

theorem BootsStep.sound (h : BootsStep setup s event s') (hsound : Sound s.db) : Sound s'.db := by
  cases h.oneCall.2 with
  | nothing hsame => exact hsame.symm ▸ hsound
  | made op hdb => exact hdb.symm ▸ sound_run event.time hsound op

theorem BootsStep.ascend (h : BootsStep setup s event s') (hrun : HasRun s.db)
    (hascend : EventsAscend s.db) : EventsAscend s'.db := by
  cases h.oneCall.2 with
  | nothing hsame => exact hsame.symm ▸ hascend
  | made op hdb => exact hdb.symm ▸ eventsAscend_run hrun hascend

/-- A session lasts while no step ends it. -/
theorem BootsStep.bound_iff {token mac : String} (h : BootsStep setup s event s')
    (hrun : HasRun s.db) (hdrawn : token ∈ s.drawn) : (token, mac) ∈ s'.db.bindings ↔
      (token, mac) ∈ s.db.bindings ∧ ¬ event.action.Revokes token mac := by
  cases h.oneCall.2 with
  | nothing hsame hnot =>
    rw [hsame]
    exact (and_iff_left (hnot token mac)).symm
  | made op hdb hminted hrevokes =>
    rw [hdb, mem_bindings_run_iff hrun fun hmem => (hminted token hmem).1 hdrawn, hrevokes]

omit [Unicode] [IpAddress] in
/-- A list in which one entry is replaced. -/
theorem forall_mem_set {α : Type} {P : α → Prop} {l : List α} {i : Nat} {b : α}
    (h : ∀ a ∈ l, P a) (hb : P b) : ∀ a ∈ l.set i b, P a := by
  intro a ha
  rcases List.mem_or_eq_of_mem_set ha with hold | rfl
  · exact h a hold
  · exact hb

omit [Unicode] [IpAddress] in
theorem forall_mem_append {α : Type} {P : α → Prop} {l l' : List α} (h : ∀ a ∈ l, P a)
    (h' : ∀ a ∈ l', P a) : ∀ a ∈ l ++ l', P a := fun a ha =>
  (List.mem_append.mp ha).elim (h a) (h' a)

/-- **Every step** leaves the tokens with the machines for which they were drawn. -/
theorem Boots.Kept.step (hbare : IsBareServer setup.client.baseUrl) (hkept : s.Kept setup.url)
    (h : BootsStep setup s event s') : s'.Kept setup.url := by
  have hchange := h.change hkept.sound.hasRun
  have hrequests : ∀ entry ∈ s.requests,
      entry.1.identity.OneLine ∧ entry.2.Fits setup.url s'.ledger entry.1 := fun entry hentry =>
    ⟨(hkept.requests entry hentry).1, (hkept.requests entry hentry).2.change hchange⟩
  have hrunning : ∀ entry ∈ s.running, ∃ token, Holds s'.ledger entry.1 token ∧
      parseCmdline (entry.2 ++ "\n") =
        .ok { serverUrl := withoutSlashes setup.url.text ++ "/", bootToken := token } := by
    intro entry hentry
    obtain ⟨token, hholds, hparsed⟩ := hkept.running entry hentry
    exact ⟨token, hholds.change hchange, hparsed⟩
  have hreports : ∀ entry ∈ s.reports, entry.2.Fits s'.ledger entry.1 := fun entry hentry =>
    (hkept.reports entry hentry).change hchange
  have hledger := hchange.sound hkept.ledger
  have hsound := h.sound hkept.sound
  have hascend := h.ascend hkept.sound.hasRun hkept.ascend
  obtain ⟨time, action⟩ := event
  have henabled := h.enabled
  have hafter := h.after
  cases action with
  | ask req =>
    subst hafter
    refine ⟨hsound, hascend, hledger, forall_mem_append hrequests ?_, hrunning, hreports⟩
    rintro entry hentry
    rw [List.mem_singleton.mp hentry]
    exact ⟨henabled, trivial⟩
  | advance i token =>
    unfold Boots.after at hafter
    dsimp only at hafter
    split at hafter
    · subst hafter
      exact ⟨hsound, hascend, hledger, hrequests, hrunning, hreports⟩
    · rename_i req stage hat
      have hmem := hkept.requests _ (List.mem_of_getElem? hat)
      subst hafter
      refine ⟨hsound, hascend, hledger, forall_mem_set hrequests ⟨hmem.1, ?_⟩, hrunning, hreports⟩
      exact hmem.2.next hkept.ledger henabled.1 henabled.2 hmem.1 hchange
  | source i file =>
    unfold Boots.after at hafter
    dsimp only at hafter
    split at hafter
    · rename_i req cfg hat
      obtain ⟨-, token, squashfs, hholds, hboots⟩ := hkept.requests _ (List.mem_of_getElem? hat)
      subst hafter
      refine ⟨hsound, hascend, hledger, hrequests, hrunning, forall_mem_append hreports ?_⟩
      intro entry hentry
      split at hentry
      · rename_i hfile
        obtain ⟨stage, -, hforwarded⟩ :=
          forwarded_of_sourced hbare hholds.hex hboots.sourced hfile
        rw [hforwarded] at hentry
        rw [List.mem_singleton.mp hentry]
        exact hholds.change hchange
      · cases hentry
    · subst hafter
      exact ⟨hsound, hascend, hledger, hrequests, hrunning, hreports⟩
  | boot i =>
    unfold Boots.after at hafter
    dsimp only at hafter
    split at hafter
    · rename_i req cfg hat
      obtain ⟨-, token, squashfs, hholds, hboots⟩ := hkept.requests _ (List.mem_of_getElem? hat)
      obtain ⟨cmdline, hbooted, hparsed, -⟩ := hboots.kernel
      subst hafter
      refine ⟨hsound, hascend, hledger, hrequests, forall_mem_append hrunning ?_, hreports⟩
      intro entry hentry
      rw [hbooted] at hentry
      rw [List.mem_singleton.mp hentry]
      exact ⟨token, hholds.change hchange, hparsed⟩
    · subst hafter
      exact ⟨hsound, hascend, hledger, hrequests, hrunning, hreports⟩
  | report j clientHost report =>
    unfold Boots.after at hafter
    dsimp only at hafter
    split at hafter
    · subst hafter
      exact ⟨hsound, hascend, hledger, hrequests, hrunning, hreports⟩
    · rename_i identity cmdline hat
      obtain ⟨token, hholds, hparsed⟩ := hkept.running _ (List.mem_of_getElem? hat)
      subst hafter
      refine ⟨hsound, hascend, hledger, hrequests, hrunning, forall_mem_append hreports ?_⟩
      intro entry hentry
      unfold statusRequest at hentry
      rw [hparsed] at hentry
      rw [List.mem_singleton.mp hentry]
      have hbears := extractBearerToken_bearer hholds.hex
      have hafter := hholds.change hchange
      rw [← hbears] at hafter
      exact hafter
  | handle k =>
    unfold Boots.after at hafter
    dsimp only at hafter
    split at hafter
    · subst hafter
      exact ⟨hsound, hascend, hledger, hrequests, hrunning, hreports⟩
    · rename_i identity handling hat
      have hfits := hkept.reports _ (List.mem_of_getElem? hat)
      subst hafter
      exact ⟨hsound, hascend, hledger, hrequests, hrunning,
        forall_mem_set hreports (hfits.next _)⟩
  | call op =>
    subst hafter
    exact ⟨hsound, hascend, hledger, hrequests, hrunning, hreports⟩

theorem Boots.Started.kept (h : s.Started) : s.Kept setup.url :=
  { sound := h.reachable.sound
    ascend := h.ascend
    ledger := fun token mac hbound => h.drawn (token, mac) hbound
    requests := by rw [h.requests]; exact List.forall_mem_nil _
    running := by rw [h.running]; exact List.forall_mem_nil _
    reports := by rw [h.reports]; exact List.forall_mem_nil _ }

end Steps

end Fleetboot
