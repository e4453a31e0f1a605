import Fleetboot.Server.BugRoundTrip

/-!
# What the directories of bug reports hold

Runs of `file` and `resolve` over the bytes of the files, against a ledger of what the calls that
returned have said: which reports there are, and which are resolved.

* `store_listed`: while no write is cut short, has no UTF-8 or takes a name that is in use, both
  listings can be read and hold the reports of the ledger, each once, with its id and title.
* `not_store_listed`: a description with a surrogate leaves an empty file, and no listing can be
  read again.
-/

set_option autoImplicit false

namespace Fleetboot

open Python Relational Transition BugReports

namespace BugFiles

/-! ## Calls -/

/-- A call, with what the clock, the random digits and the disk do in it. -/
inductive BugCall
  | file (stamp : Stamp) (req : Filing) (outcome : WriteOutcome)
  | resolve (now : Timestamp) (id note : RawText) (outcome : WriteOutcome) (unlinks : Bool)

/-- A call and what it returned or raised. -/
abbrev BugEvent := BugCall × Except Raised RawReport

section Steps

variable [Unicode]

def perform (files : BugFiles) : BugCall → Except Raised RawReport × BugFiles
  | .file stamp req outcome => file stamp req outcome files
  | .resolve now id note outcome unlinks => resolve now id note outcome unlinks files

def Step (files : BugFiles) (event : BugEvent) (files' : BugFiles) : Prop :=
  perform files event.1 = (event.2, files')

/-- A call that gets to its write either fails before it has opened the file, or writes text with
UTF-8 to the end under a name that is not in use, and removes what it has to remove. -/
def SafeCall (files : BugFiles) : BugCall → Prop
  | .file stamp req outcome => ∀ report, toFile stamp req files = .ok report →
    outcome = .notOpened ∨
      (outcome = .complete ∧ EncodableFiling req ∧
        ∀ stored ∈ files.open_.rows, stored.path ≠ filingPath stamp req.title)
  | .resolve _ id note outcome unlinks => ∀ status stored report,
    toResolve id note files = .ok (status, stored, report) →
    outcome = .notOpened ∨
      (outcome = .complete ∧ unlinks = true ∧ note.encode.isSome = true ∧
        ∀ other ∈ files.resolved.rows, other.path ≠ stored.path)

def SafeStep : BugFiles → BugEvent → BugFiles → Prop :=
  Restrict Step fun files event => SafeCall files event.1

end Steps

/-! ## The ledger -/

/-- What a call that returned says of the reports: `file` names a new open one, and `resolve` one
that is resolved now. -/
def recordEvent (entries : List (String × ReportStatus)) (event : BugEvent) :
    List (String × ReportStatus) :=
  match event with
  | (.file .., .ok report) => entries ++ [(report.path, .open_)]
  | (.resolve .., .ok report) => entries.map fun entry =>
    if entry = (report.path, .open_) then (report.path, .resolved) else entry
  | (_, .error _) => entries

def ledger (events : List BugEvent) : List (String × ReportStatus) :=
  events.foldl recordEvent []

/-- The reports of a status. -/
def namesOf (status : ReportStatus) (entries : List (String × ReportStatus)) : List String :=
  (entries.filter fun entry => decide (entry.2 = status)).map Prod.fst

/-- The tokens of the filings are lines, as the roles of the tools are. -/
def OneLineTokens (events : List BugEvent) : Prop :=
  ∀ event ∈ events, ∀ stamp req outcome, event.1 = .file stamp req outcome →
    ∀ c, CodePoint.scalar c ∈ req.token → isLineEnd c = false

/-- A filing has returned with the path, the id and the title of the report. -/
def Filed (events : List BugEvent) (report : BugReport) : Prop :=
  ∃ stamp req outcome filed,
    (.file stamp req outcome, .ok (RawReport.ofReport filed)) ∈ events ∧
    filed.path = report.path ∧ filed.id = report.id ∧ filed.title = report.title

/-- The listing of a status can be read and holds the reports of the ledger, each once. A report
says its status, its id and its title itself, when no token breaks its header. -/
def Listed [Unicode] (files : BugFiles) (events : List BugEvent) : Prop :=
  ∀ status : ReportStatus, ∃ reports,
    list (RawText.ofString status.text) files = .ok reports ∧
    (reports.map BugReport.path).Perm (namesOf status (ledger events)) ∧
    (OneLineTokens events → ∀ report ∈ reports, report.status = status.text ∧ Filed events report)

section Ledger

variable {entries : List (String × ReportStatus)} {name : String}

theorem ledger_append (events : List BugEvent) (event : BugEvent) :
    ledger (events ++ [event]) = recordEvent (ledger events) event := by
  rw [ledger, List.foldl_append]
  rfl

theorem namesOf_append (status : ReportStatus) (entries entries' : List (String × ReportStatus)) :
    namesOf status (entries ++ entries') = namesOf status entries ++ namesOf status entries' := by
  rw [namesOf, List.filter_append, List.map_append]
  rfl

/-- A report that is resolved is no open one any more. -/
theorem namesOf_open_flip : namesOf .open_ (entries.map fun entry =>
      if entry = (name, .open_) then (name, ReportStatus.resolved) else entry) =
    (namesOf .open_ entries).filter fun other => decide (other ≠ name) := by
  induction entries with
  | nil => rfl
  | cons entry entries ih =>
    obtain ⟨other, status⟩ := entry
    unfold namesOf at ih ⊢
    cases status with
    | open_ =>
      by_cases heq : other = name
      · simp [heq, ih]
      · simp [heq, ih]
    | resolved => simp [ih]

/-- It is a resolved one. -/
theorem namesOf_resolved_flip : (namesOf .resolved (entries.map fun entry =>
      if entry = (name, .open_) then (name, ReportStatus.resolved) else entry)).Perm
    (namesOf .resolved entries ++
      (namesOf .open_ entries).filter fun other => decide (other = name)) := by
  induction entries with
  | nil => exact List.Perm.refl _
  | cons entry entries ih =>
    obtain ⟨other, status⟩ := entry
    unfold namesOf at ih ⊢
    cases status with
    | open_ =>
      by_cases heq : other = name
      · subst heq
        simpa using (ih.cons other).trans List.perm_middle.symm
      · simpa [heq] using ih
    | resolved => simpa using ih.cons other

end Ledger

/-! ## Safe calls -/

section Safe

variable [Unicode] {files : BugFiles}

/-- A safe filing raises and leaves the files alone, or adds one file. -/
theorem file_of_safe {stamp : Stamp} {req : Filing} {outcome : WriteOutcome}
    (hsafe : SafeCall files (.file stamp req outcome)) :
    (∃ raised, file stamp req outcome files = (.error raised, files)) ∨
    ∃ r, Accepted stamp req (RawReport.ofReport r) ∧
      (∀ stored ∈ files.open_.rows, stored.path ≠ r.path) ∧
      file stamp req outcome files = (.ok (RawReport.ofReport r),
        { files with open_ := files.open_.replace (filedFile r) }) := by
  unfold file
  cases hto : toFile stamp req files with
  | error raised => exact .inl ⟨raised, rfl⟩
  | ok report =>
    have hchecked := checked_of_toFile hto
    rcases hsafe report hto with rfl | ⟨rfl, hreq, hfresh⟩
    · exact .inl ⟨.osError, rfl⟩
    · obtain ⟨r, rfl⟩ := exists_report_of_encodable hchecked hreq
      have haccepted := Accepted.of_checked hchecked
      have hpath : r.path = filingPath stamp req.title := haccepted.path
      dsimp only
      rw [writeText_complete (by rw [rawRender_ofReport, RawText.encode_ofString])]
      refine .inr ⟨r, haccepted, ?_, rfl⟩
      rw [hpath]
      exact hfresh

/-- A safe call of `resolve` raises and leaves the files alone, or moves one file. -/
theorem resolve_of_safe {now : Timestamp} {id note : RawText} {outcome : WriteOutcome}
    {unlinks : Bool} (hsafe : SafeCall files (.resolve now id note outcome unlinks)) :
    (∃ raised, resolve now id note outcome unlinks files = (.error raised, files)) ∨
    ∃ (r : BugReport) (text : String),
      (∃ stored ∈ files.open_.rows, stored.path = r.path ∧ parseFile stored = .ok r) ∧
      (∀ other ∈ files.resolved.rows, other.path ≠ r.path) ∧
      resolve now id note outcome unlinks files =
        (.ok (RawReport.ofReport (resolvedText now text r)),
          { open_ := files.open_.delete fun other => decide (other.path = r.path)
            resolved := files.resolved.replace (filedFile (resolvedText now text r)) }) := by
  unfold resolve
  cases hto : toResolve id note files with
  | error raised => exact .inl ⟨raised, rfl⟩
  | ok found =>
    obtain ⟨status, stored, r⟩ := found
    obtain ⟨-, hfind, hparse, -⟩ := toResolve_eq_ok hto
    have hmem := mem_of_find hfind
    have hpath := parseFile_path hparse
    rcases hsafe status stored r hto with rfl | ⟨rfl, rfl, hnote, hfresh⟩
    · exact .inl ⟨.osError, rfl⟩
    · cases status with
      | resolved => exact absurd rfl (hfresh stored hmem)
      | open_ =>
        obtain ⟨text, htext⟩ := Option.isSome_iff_exists.mp hnote
        have hstrip : note.strip = RawText.ofString (strip text) := by
          rw [RawText.encode_eq_some_iff.mp htext, RawText.strip_ofString]
        dsimp only
        rw [resolvedReport_ofString hstrip, writeText_complete (by
          rw [rawRender_ofReport, RawText.encode_ofString]), ← hpath]
        refine .inr ⟨r, strip text, ⟨stored, hmem, hpath.symm, hparse⟩, ?_, rfl⟩
        rw [hpath]
        exact hfresh

end Safe

/-! ## The invariant -/

theorem rows_replace_of_fresh {dir : ReportDirectory} {new : StoredFile}
    (hfresh : ∀ stored ∈ dir.rows, stored.path ≠ new.path) :
    (dir.replace new).rows = dir.rows ++ [new] := by
  rw [Table.rows_replace, List.filter_eq_self.mpr]
  intro stored hmem
  simpa using hfresh stored hmem

theorem OneLineTokens.of_append {events : List BugEvent} {event : BugEvent}
    (h : OneLineTokens (events ++ [event])) :
    OneLineTokens events := fun event hmem => h event (List.mem_append_left _ hmem)

theorem Filed.append {events : List BugEvent} {report : BugReport} (h : Filed events report)
    (event : BugEvent) : Filed (events ++ [event]) report := by
  obtain ⟨stamp, req, outcome, filed, hfiled, hsame⟩ := h
  exact ⟨stamp, req, outcome, filed, List.mem_append_left _ hfiled, hsame⟩

section Shelved

variable [Unicode]

/-- What a file says of the report that it holds. -/
structure Tells (events : List BugEvent) (status : ReportStatus) (report : BugReport) : Prop where
  header : OneLineHeader report
  status : report.status = status.text
  title : strip report.title = report.title
  filed : Filed events report

/-- The directories hold the files of the ledger, and every file can be read. -/
structure Shelved (files : BugFiles) (events : List BugEvent) : Prop where
  names : ∀ status, ((files.directory status).rows.map StoredFile.path).Perm
    (namesOf status (ledger events))
  markdown : ∀ status, ∀ stored ∈ (files.directory status).rows, isMarkdown stored.path = true
  parsed : ∀ status, ∀ stored ∈ (files.directory status).rows, ∃ report,
    parseFile stored = .ok report ∧ (OneLineTokens events → Tells events status report)

variable {files files' : BugFiles} {events : List BugEvent} {event : BugEvent}

omit [Unicode] in
theorem Tells.append {status : ReportStatus} {report : BugReport}
    (h : Tells events status report) (event : BugEvent) : Tells (events ++ [event]) status report :=
  { h with filed := h.filed.append event }

theorem Shelved.parsed_append (h : Shelved files events) {status : ReportStatus}
    {stored : StoredFile} (hmem : stored ∈ (files.directory status).rows) (event : BugEvent) :
    ∃ report, parseFile stored = .ok report ∧
      (OneLineTokens (events ++ [event]) → Tells (events ++ [event]) status report) := by
  obtain ⟨report, hparse, htells⟩ := h.parsed status stored hmem
  exact ⟨report, hparse, fun htokens => (htells htokens.of_append).append event⟩

theorem Shelved.of_error {call : BugCall} {raised : Raised} (h : Shelved files events) :
    Shelved files (events ++ [(call, .error raised)]) := by
  have hledger : ledger (events ++ [(call, .error raised)]) = ledger events := by
    rw [ledger_append]
    cases call <;> rfl
  refine ⟨fun status => ?_, h.markdown, fun status stored hmem => h.parsed_append hmem _⟩
  rw [hledger]
  exact h.names status

/-- A file that `resolve` or `file` has written can be read, under any name. -/
theorem parseFile_filedFile (r : BugReport) : ∃ report, parseFile (filedFile r) = .ok report := by
  obtain ⟨report, hparse⟩ := parse_render_isOk r r.path
  exact ⟨report, by rw [filedFile, parseFile_toUTF8]; exact hparse⟩

/-- What it says then. -/
theorem says_filedFile {r report : BugReport} (hparse : parseFile (filedFile r) = .ok report)
    (hheader : OneLineHeader r) : OneLineHeader report ∧ report.status = r.status ∧
      report.path = r.path ∧ report.id = r.id ∧ report.title = strip r.title := by
  obtain ⟨report', hparse', hsays⟩ := parse_render_header hheader r.path
  rw [filedFile, parseFile_toUTF8] at hparse
  obtain rfl := Except.ok.inj (hparse.symm.trans hparse')
  exact hsays

theorem Tells.of_accepted {stamp : Stamp} {req : Filing} {outcome : WriteOutcome}
    {r report : BugReport} (haccepted : Accepted stamp req (RawReport.ofReport r))
    (hparse : parseFile (filedFile r) = .ok report)
    (htokens : OneLineTokens (events ++ [(.file stamp req outcome, .ok (RawReport.ofReport r))])) :
    Tells (events ++ [(.file stamp req outcome, .ok (RawReport.ofReport r))]) .open_ report := by
  have hlast : (BugCall.file stamp req outcome, Except.ok (RawReport.ofReport r)) ∈
      events ++ [(.file stamp req outcome, .ok (RawReport.ofReport r))] :=
    List.mem_append_right _ (List.mem_singleton_self _)
  have htoken : OneLine r.token := by
    have htoken : RawText.ofString r.token = req.token := haccepted.token
    intro c hc
    refine htokens _ hlast stamp req outcome rfl c ?_
    rw [← htoken]
    exact scalar_mem_ofString.mpr hc
  obtain ⟨hheader, hstatus, hpath, hid, htitle⟩ :=
    says_filedFile hparse (haccepted.oneLineHeader htoken)
  have hopen : r.status = "open" := haccepted.status
  have hsame : report.title = r.title := htitle.trans haccepted.strip_title
  exact
    { header := hheader
      status := hstatus.trans hopen
      title := by rw [hsame, haccepted.strip_title]
      filed := ⟨stamp, req, outcome, r, hlast, hpath.symm, hid.symm, hsame.symm⟩ }

/-- What `resolve` writes tells what the open report told, but for the status. -/
theorem Tells.resolved {r report : BugReport} {now : Timestamp} {text : String}
    (h : Tells events .open_ r)
    (hparse : parseFile (filedFile (resolvedText now text r)) = .ok report) :
    Tells events .resolved report := by
  obtain ⟨hheader, hstatus, hpath, hid, htitle⟩ :=
    says_filedFile hparse (oneLineHeader_resolvedText h.header)
  have hsame : report.title = r.title := htitle.trans h.title
  obtain ⟨stamp, req, outcome, filed, hfiled, hpath', hid', htitle'⟩ := h.filed
  exact
    { header := hheader
      status := hstatus
      title := by rw [hsame, h.title]
      filed := ⟨stamp, req, outcome, filed, hfiled, hpath'.trans hpath.symm, hid'.trans hid.symm,
        htitle'.trans hsame.symm⟩ }

omit [Unicode] in
/-- A name is in a directory once. -/
theorem filter_path {dir : ReportDirectory} {stored : StoredFile} (hmem : stored ∈ dir.rows) :
    ((dir.rows.map StoredFile.path).filter fun other => decide (other = stored.path)) =
      [stored.path] := by
  have hnodup : (dir.rows.map StoredFile.path).Nodup := by
    have hunique := dir.unique
    rwa [List.filter_true] at hunique
  have hcount : (dir.rows.map StoredFile.path).count stored.path = 1 :=
    List.count_eq_one_of_mem hnodup (List.mem_map_of_mem hmem)
  have hbeq : (fun other : String => decide (other = stored.path)) =
      fun other => other == stored.path := by
    funext other
    exact (Bool.beq_eq_decide_eq other stored.path).symm
  rw [hbeq, List.filter_beq, hcount]
  rfl

theorem Shelved.of_file {stamp : Stamp} {req : Filing} {outcome : WriteOutcome} {r : BugReport}
    (h : Shelved files events) (haccepted : Accepted stamp req (RawReport.ofReport r))
    (hfresh : ∀ stored ∈ files.open_.rows, stored.path ≠ r.path) :
    Shelved { files with open_ := files.open_.replace (filedFile r) }
      (events ++ [(.file stamp req outcome, .ok (RawReport.ofReport r))]) := by
  have hrows : (files.open_.replace (filedFile r)).rows = files.open_.rows ++ [filedFile r] :=
    rows_replace_of_fresh hfresh
  have hname : isMarkdown r.path = true := (Bool.and_eq_true_iff.mp haccepted.isReportFile.2).2
  refine ⟨fun status => ?_, fun status stored hmem => ?_, fun status stored hmem => ?_⟩
  · rw [ledger_append]
    change List.Perm _ (namesOf status (ledger events ++ [(r.path, .open_)]))
    rw [namesOf_append]
    cases status with
    | open_ =>
      change ((files.open_.replace (filedFile r)).rows.map StoredFile.path).Perm _
      rw [hrows, List.map_append]
      exact (h.names .open_).append (List.Perm.refl [r.path])
    | resolved =>
      have hnone : namesOf .resolved [(r.path, .open_)] = [] := rfl
      rw [hnone, List.append_nil]
      exact h.names .resolved
  · cases status with
    | open_ =>
      change stored ∈ (files.open_.replace (filedFile r)).rows at hmem
      rw [hrows, List.mem_append] at hmem
      rcases hmem with hmem | hmem
      · exact h.markdown .open_ stored hmem
      · rw [List.mem_singleton.mp hmem]
        exact hname
    | resolved => exact h.markdown .resolved stored hmem
  · cases status with
    | open_ =>
      change stored ∈ (files.open_.replace (filedFile r)).rows at hmem
      rw [hrows, List.mem_append] at hmem
      rcases hmem with hmem | hmem
      · exact h.parsed_append (show stored ∈ (files.directory .open_).rows from hmem) _
      · rw [List.mem_singleton.mp hmem]
        obtain ⟨report, hparse⟩ := parseFile_filedFile r
        exact ⟨report, hparse, fun htokens => .of_accepted haccepted hparse htokens⟩
    | resolved => exact h.parsed_append (show stored ∈ (files.directory .resolved).rows from hmem) _

theorem Shelved.of_resolve {now : Timestamp} {id note : RawText} {outcome : WriteOutcome}
    {unlinks : Bool} {r : BugReport} {text : String} (h : Shelved files events)
    (hstored : ∃ stored ∈ files.open_.rows, stored.path = r.path ∧ parseFile stored = .ok r)
    (hfresh : ∀ other ∈ files.resolved.rows, other.path ≠ r.path) :
    Shelved
      { open_ := files.open_.delete fun other => decide (other.path = r.path)
        resolved := files.resolved.replace (filedFile (resolvedText now text r)) }
      (events ++ [(.resolve now id note outcome unlinks,
        .ok (RawReport.ofReport (resolvedText now text r)))]) := by
  obtain ⟨stored, hmem, hpath, hparse⟩ := hstored
  have hrows : (files.resolved.replace (filedFile (resolvedText now text r))).rows =
      files.resolved.rows ++ [filedFile (resolvedText now text r)] :=
    rows_replace_of_fresh hfresh
  have hflip : ledger (events ++ [(.resolve now id note outcome unlinks,
      .ok (RawReport.ofReport (resolvedText now text r)))]) = (ledger events).map fun entry =>
        if entry = (r.path, .open_) then (r.path, .resolved) else entry := ledger_append _ _
  have hnames : ((files.open_.rows.map StoredFile.path).filter fun other =>
      decide (other = r.path)) = [r.path] := hpath ▸ filter_path hmem
  refine ⟨fun status => ?_, fun status other hother => ?_, fun status other hother => ?_⟩
  · rw [hflip]
    cases status with
    | open_ =>
      rw [namesOf_open_flip]
      have hfilter : ((files.open_.delete fun other => decide (other.path = r.path)).rows.map
          StoredFile.path) = (files.open_.rows.map StoredFile.path).filter fun other =>
            decide (other ≠ r.path) := by
        rw [Table.rows_delete, List.filter_map]
        refine congrArg _ (List.filter_congr fun other _ => ?_)
        simp
      change ((files.open_.delete fun other => decide (other.path = r.path)).rows.map
        StoredFile.path).Perm _
      rw [hfilter]
      exact (h.names .open_).filter _
    | resolved =>
      change ((files.resolved.replace (filedFile (resolvedText now text r))).rows.map
        StoredFile.path).Perm _
      rw [hrows, List.map_append]
      have hsingle := (h.names .open_).filter fun other => decide (other = r.path)
      change List.Perm ((files.open_.rows.map StoredFile.path).filter _) _ at hsingle
      rw [hnames] at hsingle
      exact ((h.names .resolved).append hsingle).trans namesOf_resolved_flip.symm
  · cases status with
    | open_ => exact h.markdown .open_ other (List.mem_filter.mp hother).1
    | resolved =>
      change other ∈ (files.resolved.replace (filedFile (resolvedText now text r))).rows at hother
      rw [hrows, List.mem_append] at hother
      rcases hother with hother | hother
      · exact h.markdown .resolved other hother
      · rw [List.mem_singleton.mp hother]
        change isMarkdown r.path = true
        rw [← hpath]
        exact h.markdown .open_ stored hmem
  · cases status with
    | open_ =>
      exact h.parsed_append
        (show other ∈ (files.directory .open_).rows from (List.mem_filter.mp hother).1) _
    | resolved =>
      change other ∈ (files.resolved.replace (filedFile (resolvedText now text r))).rows at hother
      rw [hrows, List.mem_append] at hother
      rcases hother with hother | hother
      · exact h.parsed_append (show other ∈ (files.directory .resolved).rows from hother) _
      · rw [List.mem_singleton.mp hother]
        obtain ⟨report, hparse'⟩ := parseFile_filedFile (resolvedText now text r)
        refine ⟨report, hparse', fun htokens => ?_⟩
        obtain ⟨r', hopen, htells⟩ := h.parsed .open_ stored hmem
        obtain rfl : r = r' := Except.ok.inj (hparse.symm.trans hopen)
        exact ((htells htokens.of_append).append _).resolved hparse'

theorem Shelved.step (h : Shelved files events) (hstep : SafeStep files event files') :
    Shelved files' (events ++ [event]) := by
  obtain ⟨call, result⟩ := event
  obtain ⟨hperform, hsafe⟩ := hstep
  cases call with
  | file stamp req outcome =>
    change file stamp req outcome files = (result, files') at hperform
    rcases file_of_safe hsafe with ⟨raised, hraised⟩ | ⟨r, haccepted, hfresh, hfiled⟩
    · rw [hraised] at hperform
      cases hperform
      exact h.of_error
    · rw [hfiled] at hperform
      cases hperform
      exact h.of_file haccepted hfresh
  | resolve now id note outcome unlinks =>
    change resolve now id note outcome unlinks files = (result, files') at hperform
    rcases resolve_of_safe hsafe with ⟨raised, hraised⟩ | ⟨r, text, hstored, hfresh, hdone⟩
    · rw [hraised] at hperform
      cases hperform
      exact h.of_error
    · rw [hdone] at hperform
      cases hperform
      exact h.of_resolve hstored hfresh

end Shelved

/-! ## The listings -/

section Listing

variable [Unicode]

/-- A listing can be read when each of its files can. -/
theorem mapM_parseFile {stored : List StoredFile}
    (h : ∀ file ∈ stored, ∃ report, parseFile file = .ok report) : ∃ reports,
    stored.mapM parseFile = .ok reports ∧ reports.map BugReport.path = stored.map StoredFile.path ∧
      ∀ report ∈ reports, ∃ file ∈ stored, parseFile file = .ok report := by
  induction stored with
  | nil => exact ⟨[], rfl, rfl, by simp⟩
  | cons file stored ih =>
    obtain ⟨report, hreport⟩ := h file (List.mem_cons_self ..)
    obtain ⟨reports, hreports, hpaths, hfiles⟩ := ih fun f hf => h f (List.mem_cons_of_mem _ hf)
    refine ⟨report :: reports, ?_, ?_, ?_⟩
    · rw [List.mapM_cons, hreport, hreports]
      rfl
    · rw [List.map_cons, List.map_cons, hpaths, parseFile_path hreport]
    · intro r hr
      rcases List.mem_cons.mp hr with rfl | hr
      · exact ⟨file, List.mem_cons_self .., hreport⟩
      · obtain ⟨f, hf, hparse⟩ := hfiles r hr
        exact ⟨f, List.mem_cons_of_mem _ hf, hparse⟩

/-- It cannot be read when one of them cannot. -/
theorem parseFile_of_mapM {stored : List StoredFile} {reports : List BugReport}
    (h : stored.mapM parseFile = .ok reports) : ∀ file ∈ stored, ∃ report,
      parseFile file = .ok report := by
  induction stored generalizing reports with
  | nil => simp
  | cons file stored ih =>
    rw [List.mapM_cons] at h
    obtain ⟨report, hreport, h⟩ := bind_eq_ok.mp h
    obtain ⟨rest, hrest, -⟩ := bind_eq_ok.mp h
    intro f hf
    rcases List.mem_cons.mp hf with rfl | hf
    · exact ⟨report, hreport⟩
    · exact ih hrest f hf

theorem list_status (status : ReportStatus) (files : BugFiles) :
    list (RawText.ofString status.text) files =
      (sortedFiles isMarkdown (files.directory status)).mapM parseFile := by
  unfold list
  cases status <;> rfl

theorem Shelved.listed {files : BugFiles} {events : List BugEvent} (h : Shelved files events) :
    Listed files events := by
  intro status
  have hall : ∀ stored ∈ sortedFiles isMarkdown (files.directory status), ∃ report,
      parseFile stored = .ok report := fun stored hmem => by
    obtain ⟨report, hparse, -⟩ := h.parsed status stored (mem_sortedFiles.mp hmem).1
    exact ⟨report, hparse⟩
  obtain ⟨reports, hreports, hpaths, hfiles⟩ := mapM_parseFile hall
  refine ⟨reports, (list_status status files).trans hreports, ?_, fun htokens report hmem => ?_⟩
  · have hsorted : (sortedFiles isMarkdown (files.directory status)).Perm
        (files.directory status).rows := by
      refine (List.perm_insertionSort _ _).trans ?_
      rw [List.filter_eq_self.mpr (h.markdown status)]
    rw [hpaths]
    exact (hsorted.map _).trans (h.names status)
  · obtain ⟨stored, hstored, hparse⟩ := hfiles report hmem
    obtain ⟨report', hparse', hreport⟩ := h.parsed status stored (mem_sortedFiles.mp hstored).1
    rw [hparse] at hparse'
    cases hparse'
    exact ⟨(hreport htokens).status, (hreport htokens).filed⟩

theorem Shelved.empty : Shelved BugFiles.empty [] := by
  have hrows : ∀ status, (BugFiles.empty.directory status).rows = [] := by
    intro status
    cases status <;> rfl
  refine ⟨fun status => ?_, fun status stored hmem => ?_, fun status stored hmem => ?_⟩
  · rw [hrows]
    exact List.Perm.refl []
  · rw [hrows] at hmem
    cases hmem
  · rw [hrows] at hmem
    cases hmem

/-- In a run of safe calls both listings can be read in every state, and hold the reports of the
ledger. -/
theorem store_listed {events : List BugEvent} {files : BugFiles}
    (h : Run SafeStep BugFiles.empty events files) : Listed files events :=
  Shelved.listed (h.history (I := Shelved) (fun _ _ _ _ => Shelved.step) Shelved.empty)

/-- An empty file has no title, and reading it raises. -/
theorem parseFile_empty (path : String) : parseFile ⟨path, .empty⟩ = .error .indexError := by
  have hempty : ByteArray.empty = "".toUTF8 := rfl
  rw [hempty, parseFile_toUTF8]
  rfl

/-- A filing whose text has no UTF-8 raises, and leaves an empty file. -/
theorem file_surrogate {stamp : Stamp} {req : Filing} {files : BugFiles} {report : RawReport}
    (hto : toFile stamp req files = .ok report) {n : Fin 2048}
    (hdescription : CodePoint.surrogate n ∈ req.description.strip) :
    file stamp req .complete files = (.error .unicodeEncodeError,
      { files with open_ := files.open_.replace ⟨report.path, .empty⟩ }) := by
  have hencode : (rawRender report).encode = none := by
    cases hencode : (rawRender report).encode with
    | none => rfl
    | some text =>
      obtain ⟨r, rfl⟩ := exists_ofReport hencode
      have hsame : RawText.ofString r.description = req.description.strip :=
        (Accepted.of_checked (checked_of_toFile hto)).description
      rw [← hsame] at hdescription
      obtain ⟨c, -, heq⟩ := List.mem_map.mp hdescription
      cases heq
  unfold file writeText
  rw [hto]
  dsimp only
  rw [hencode]

end Listing

section Examples

attribute [local instance] ascii

/-- A report is filed and then resolved. -/
theorem store_listed_filed : ∃ (report resolved : RawReport) (files : BugFiles),
    Run SafeStep BugFiles.empty
      [(.file epochStamp (filingOfRequest (shortRequest "d")) .complete, .ok report),
        (.resolve 60 (RawText.ofString report.id) (RawText.ofString "done") .complete true,
          .ok resolved)] files ∧
    Listed files
      [(.file epochStamp (filingOfRequest (shortRequest "d")) .complete, .ok report),
        (.resolve 60 (RawText.ofString report.id) (RawText.ofString "done") .complete true,
          .ok resolved)] := by
  obtain ⟨r, files₂, hfile, hresolve⟩ := exists_resolved
  have hsafe : SafeCall BugFiles.empty
      (.file epochStamp (filingOfRequest (shortRequest "d")) .complete) := by
    intro report _
    refine .inr ⟨rfl, ⟨?_, ?_, ?_, ?_, ?_⟩, ?_⟩
    · rfl
    · rfl
    · intro t ht
      cases ht
    · intro t ht
      cases ht
    · rfl
    · intro stored hmem
      cases hmem
  have hfiled : Run SafeStep BugFiles.empty
      [(.file epochStamp (filingOfRequest (shortRequest "d")) .complete,
        .ok (RawReport.ofReport r))] _ := Run.single ⟨hfile, hsafe⟩
  have hsafe' : SafeCall
      { BugFiles.empty with open_ := BugFiles.empty.open_.replace (filedFile r) }
      (.resolve 60 (RawText.ofString r.id) (RawText.ofString "done") .complete true) := by
    intro status stored report _
    refine .inr ⟨rfl, rfl, by rw [RawText.encode_ofString]; rfl, fun other hmem => ?_⟩
    cases hmem
  have hresolved : SafeStep _ (.resolve 60 (RawText.ofString r.id) (RawText.ofString "done")
      .complete true, .ok (RawReport.ofReport (resolvedText 60 "done" r))) files₂ :=
    ⟨hresolve, hsafe'⟩
  exact ⟨_, _, _, hfiled.snoc hresolved, store_listed (hfiled.snoc hresolved)⟩

/-- A report whose description is the surrogate that JSON sends as `"\ud800"`. -/
def surrogateFiling : Filing :=
  { filingOfRequest (shortRequest "d") with description := [CodePoint.surrogate ⟨0, by decide⟩] }

/-- Filing it raises, and so does every later listing of the open reports. -/
theorem not_store_listed : ¬ ∀ (events : List BugEvent) (files : BugFiles),
    Run Step BugFiles.empty events files → Listed files events := by
  intro hall
  cases hto : toFile epochStamp surrogateFiling BugFiles.empty with
  | error raised =>
    have hok : (toFile epochStamp surrogateFiling BugFiles.empty).toBool = true := by
      decide +kernel
    rw [hto] at hok
    cases hok
  | ok report =>
    have hfile := file_surrogate hto (n := ⟨0, by decide⟩) (by decide +kernel)
    have hrun : Run Step BugFiles.empty
        [(.file epochStamp surrogateFiling .complete, .error .unicodeEncodeError)] _ :=
      Run.single hfile
    obtain ⟨reports, hlist, -⟩ := hall _ _ hrun .open_
    rw [list_status] at hlist
    have hname : isMarkdown report.path = true := by
      rw [(Accepted.of_checked (checked_of_toFile hto)).path]
      exact (Bool.and_eq_true_iff.mp (isReportFile_filingPath epochStamp _)).2
    obtain ⟨report', hparse⟩ := parseFile_of_mapM hlist ⟨report.path, .empty⟩
      (mem_sortedFiles.mpr ⟨mem_replace.mpr (.inr rfl), hname⟩)
    rw [parseFile_empty] at hparse
    cases hparse

end Examples

end BugFiles

end Fleetboot
