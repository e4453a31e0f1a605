import Fleetboot.Server.BugFiles

/-!
# Bug reports come back as they were filed

A report is filed, read, resolved and read again.

* `roundTrip_iff`: every field comes back exactly when neither the description nor the note holds
  a carriage return, no line of the note is the heading of the resolution, the token is a line and
  no other report has the id.
* `not_roundTrip`: a carriage return is read as a newline, and a note with that heading loses what
  stands over it.
-/

set_option autoImplicit false

namespace Fleetboot

open Python Relational BugReports

namespace BugFiles

/-! ## The condition -/

/-- The texts of a filing that come back. -/
structure KeepsText (req : Filing) : Prop where
  description : CodePoint.scalar '\r' ∉ req.description.strip
  token : ∀ c, CodePoint.scalar c ∈ req.token → isLineEnd c = false

/-- A note that comes back. -/
structure KeepsNote (note : RawText) : Prop where
  no_return : CodePoint.scalar '\r' ∉ note.strip
  no_heading : RawText.ofString "## Resolution" ∉ note.strip.splitOn (CodePoint.scalar '\n')

section Names

variable [Unicode]

/-- No open report with the id of the filing has a smaller name. -/
def FirstOpen (stamp : Stamp) (req : Filing) (files : BugFiles) : Prop :=
  ∀ file ∈ files.open_.rows, isReportFile (reportId stamp.now stamp.tokenHex) file.path = true →
    filingPath stamp req.title ≤ file.path

/-- No other open report has the id of the filing, and no resolved one with a smaller name. -/
structure OnlyReport (stamp : Stamp) (req : Filing) (files : BugFiles) : Prop where
  open_ : ∀ file ∈ files.open_.rows,
    isReportFile (reportId stamp.now stamp.tokenHex) file.path = true →
      file.path = filingPath stamp req.title
  resolved : ∀ file ∈ files.resolved.rows,
    isReportFile (reportId stamp.now stamp.tokenHex) file.path = true →
      filingPath stamp req.title ≤ file.path

theorem OnlyReport.firstOpen {stamp : Stamp} {req : Filing} {files : BugFiles}
    (h : OnlyReport stamp req files) : FirstOpen stamp req files := fun file hfile hname =>
  (h.open_ file hfile hname).ge

end Names

/-! ## Texts -/

theorem ofReport_injective : Function.Injective RawReport.ofReport := by
  have hlabel : Function.Injective (Option.map RawText.ofString) :=
    Option.map_injective RawText.ofString_injective
  intro r r' h
  cases r
  cases r'
  simp only [RawReport.ofReport, RawReport.mk.injEq, RawText.ofString_inj, hlabel.eq_iff] at h
  simpa using h

theorem map_ofReport_eq {x : Except Raised BugReport} {r : BugReport} :
    x.map RawReport.ofReport = .ok (RawReport.ofReport r) ↔ x = .ok r := by
  cases x with
  | error raised =>
    constructor
    · intro h
      cases h
    · intro h
      cases h
  | ok r' =>
    constructor
    · intro h
      rw [ofReport_injective (Except.ok.inj h)]
    · rintro ⟨⟩
      rfl

theorem scalar_mem_ofString {c : Char} {s : String} :
    CodePoint.scalar c ∈ RawText.ofString s ↔ c ∈ s.toList := by
  constructor
  · intro h
    obtain ⟨d, hd, heq⟩ := List.mem_map.mp h
    cases heq
    exact hd
  · exact List.mem_map_of_mem

theorem heading_mem_lines {s : String} :
    RawText.ofString "## Resolution" ∈ (RawText.ofString s).splitOn (CodePoint.scalar '\n') ↔
      resolutionHeading ∈ s.toList.splitOn '\n' := by
  have hbeq : (fun c => c == CodePoint.scalar '\n') ∘ CodePoint.scalar = fun c => c == '\n' := by
    funext c
    rw [Bool.eq_iff_iff, Function.comp_apply, beq_iff_eq, beq_iff_eq, CodePoint.scalar.injEq]
  have hinjective : Function.Injective (List.map CodePoint.scalar) :=
    List.map_injective_iff.mpr fun _ _ => CodePoint.scalar.inj
  rw [List.splitOn_eq_splitOnP, List.splitOn_eq_splitOnP]
  unfold RawText.ofString
  rw [splitOnP_map, hbeq]
  exact List.mem_map_of_injective hinjective

/-! ## Filing and reading -/

section Filed

variable [Unicode] {stamp : Stamp} {req : Filing} {files files₁ : BugFiles}
  {outcome : WriteOutcome} {report : RawReport}

/-- The file that a filing leaves. -/
def filedFile (r : BugReport) : StoredFile := ⟨r.path, (render r).toUTF8⟩

/-- A filing that returns has written its report. -/
theorem file_eq_ok (h : file stamp req outcome files = (.ok report, files₁)) :
    ∃ r, report = RawReport.ofReport r ∧ Accepted stamp req (RawReport.ofReport r) ∧
      files₁ = { files with open_ := files.open_.replace (filedFile r) } := by
  unfold file at h
  cases hto : toFile stamp req files with
  | error raised =>
    rw [hto] at h
    cases h
  | ok checked =>
    rw [hto] at h
    dsimp only at h
    cases hwrite : writeText outcome checked.path (rawRender checked) files.open_ with
    | mk result dir =>
      rw [hwrite] at h
      cases result with
      | error raised => cases h
      | ok _ =>
        cases h
        obtain ⟨-, text, hencode, rfl⟩ := writeText_eq_ok hwrite
        obtain ⟨r, rfl⟩ := exists_ofReport hencode
        rw [rawRender_ofReport, RawText.encode_ofString] at hencode
        cases hencode
        exact ⟨r, rfl, .of_checked (checked_of_toFile hto), rfl⟩

variable {r : BugReport}

theorem keepsText_iff (h : Accepted stamp req (RawReport.ofReport r)) :
    KeepsText req ↔ '\r' ∉ r.description.toList ∧ OneLine r.token := by
  have hdescription : RawText.ofString r.description = req.description.strip := h.description
  have htoken : RawText.ofString r.token = req.token := h.token
  constructor
  · intro hkeeps
    refine ⟨fun hmem => hkeeps.description ?_, fun c hc => hkeeps.token c ?_⟩
    · rw [← hdescription]
      exact scalar_mem_ofString.mpr hmem
    · rw [← htoken]
      exact scalar_mem_ofString.mpr hc
  · rintro ⟨hreturn, hline⟩
    refine ⟨fun hmem => hreturn ?_, fun c hc => hline c ?_⟩
    · rw [← hdescription] at hmem
      exact scalar_mem_ofString.mp hmem
    · rw [← htoken] at hc
      exact scalar_mem_ofString.mp hc

/-- The name of its file matches the id of a report. -/
theorem Accepted.isReportFile (h : Accepted stamp req (RawReport.ofReport r)) :
    isReportId r.id = true ∧ BugFiles.isReportFile r.id r.path = true := by
  have hid : r.id = reportId stamp.now stamp.tokenHex := h.id
  have hpath : r.path = filingPath stamp req.title := h.path
  rw [hid, hpath]
  exact ⟨isReportId_reportId stamp, isReportFile_filingPath stamp req.title⟩

/-- The files of the report after its filing. -/
theorem head_filed (h : Accepted stamp req (RawReport.ofReport r)) :
    (sortedFiles (isReportFile r.id) (files.open_.replace (filedFile r))).head? =
      some (filedFile r) ↔ FirstOpen stamp req files := by
  have hid : r.id = reportId stamp.now stamp.tokenHex := h.id
  have hpath : r.path = filingPath stamp req.title := h.path
  rw [head_replace h.isReportFile.2, FirstOpen, ← hid, ← hpath]
  rfl

theorem parseFile_path {stored : StoredFile} (h : parseFile stored = .ok r) :
    r.path = stored.path := by
  unfold parseFile at h
  split at h
  · exact parse_path h
  · cases h

/-- Reading a report that was just filed. -/
theorem get_filed_iff (h : Accepted stamp req (RawReport.ofReport r)) :
    get (RawText.ofString r.id) { files with open_ := files.open_.replace (filedFile r) } =
      .ok r ↔ KeepsText req ∧ FirstOpen stamp req files := by
  obtain ⟨hid, hname⟩ := h.isReportFile
  rw [keepsText_iff h, ← head_filed h]
  constructor
  · intro hget
    unfold get at hget
    split at hget
    · cases hget
    · rename_i status stored hfind
      obtain ⟨text, hencode, -, hfound⟩ := find_eq_ok hfind
      rw [RawText.encode_ofString] at hencode
      cases hencode
      rcases hfound with ⟨-, hhead⟩ | ⟨-, hhead, -⟩
      · have hmem := (head_sortedFiles.mp hhead).1
        have hstored : stored = filedFile r := Table.eq_of_key_eq hmem
          (mem_replace.mpr (.inr rfl)) rfl rfl (parseFile_path hget).symm
        subst hstored
        rw [filedFile, parseFile_toUTF8] at hget
        obtain ⟨hreturn, -, htoken⟩ :=
          parse_clean (return_notMem_universalNewlines false _) hget
        exact ⟨⟨hreturn, htoken⟩, hhead⟩
      · have := sortedFiles_eq_nil.mp hhead (filedFile r) (mem_replace.mpr (.inr rfl))
        rw [filedFile, hname] at this
        cases this
  · rintro ⟨⟨hreturn, htoken⟩, hhead⟩
    have hstatus : r.status = "open" := h.status
    have hresolution : r.resolution = none := Option.map_eq_none_iff.mp h.resolution
    unfold get
    rw [find_open hid hhead]
    change parseFile (filedFile r) = .ok r
    rw [filedFile, parseFile_toUTF8]
    exact parse_render_open (h.oneLineHeader htoken) (by simp [hstatus]) hresolution
      h.strip_title h.strip_description hreturn r.path

end Filed

/-! ## Resolving and reading -/

/-- The first line of a resolution. -/
def resolutionLine (now : Timestamp) : String := "Resolved " ++ Calendar.isoText now ++ "."

/-- The resolution that `resolve` writes over a note. -/
def resolutionOf (now : Timestamp) (note : String) : String :=
  "Resolved " ++ Calendar.isoText now ++ ".\n\n" ++ note

def resolvedText (now : Timestamp) (note : String) (r : BugReport) : BugReport :=
  { r with status := "resolved", resolution := some (resolutionOf now note) }

section Resolution

variable {now : Timestamp} {note : String} {r : BugReport}

theorem resolutionOf_toList : (resolutionOf now note).toList =
    (resolutionLine now).toList ++ '\n' :: ([] ++ '\n' :: note.toList) := by
  have hdot : ".".toList = ['.'] := rfl
  have hend : ".\n\n".toList = ['.', '\n', '\n'] := rfl
  simp only [resolutionOf, resolutionLine, String.toList_append, hdot, hend, List.append_assoc,
    List.cons_append, List.nil_append]

theorem oneLine_resolutionLine (now : Timestamp) : OneLine (resolutionLine now) := by
  have hword : OneLine "Resolved " := forall_mem_of_all (by decide)
  have hstop : OneLine "." := forall_mem_of_all (by decide)
  exact (hword.append (oneLine_isoText now)).append hstop

theorem head_resolutionLine (now : Timestamp) :
    (resolutionLine now).toList.head? = some 'R' := by
  have hparts : ∀ a b c : String, a.toList.head? = some 'R' →
      (a ++ b ++ c).toList.head? = some 'R' := by
    intro a b c ha
    rw [String.toList_append, String.toList_append, List.append_assoc, List.head?_append, ha]
    rfl
  exact hparts _ _ _ (by simp)

/-- The lines of a resolution: the time, an empty line and the note. -/
theorem heading_mem_resolution : resolutionHeading ∈ (resolutionOf now note).toList.splitOn '\n' ↔
    resolutionHeading ∈ note.toList.splitOn '\n' := by
  have hother : resolutionHeading ≠ (resolutionLine now).toList := by
    intro heq
    have hhead := head_resolutionLine now
    rw [← heq] at hhead
    revert hhead
    decide
  have hempty : resolutionHeading ≠ [] := by decide
  have hline : ∀ c ∈ (resolutionLine now).toList, (c == '\n') = false := by
    intro c hc
    rw [beq_eq_false_iff_ne]
    rintro rfl
    exact (oneLine_resolutionLine now).no_newline hc
  rw [resolutionOf_toList, List.splitOn_eq_splitOnP, List.splitOn_eq_splitOnP,
    List.splitOnP_append_cons _ _ (by decide), List.splitOnP_append_cons _ _ (by decide),
    List.splitOnP_nil, List.splitOnP_eq_singleton hline]
  simp [hother, hempty]

theorem return_mem_resolution :
    '\r' ∈ (resolutionOf now note).toList ↔ '\r' ∈ note.toList := by
  have hline := (oneLine_resolutionLine now).no_return
  rw [resolutionOf_toList]
  simp [hline]

theorem resolutionOf_ne : resolutionOf now note ≠ "" := by
  intro heq
  have := congrArg String.toList heq
  rw [resolutionOf_toList] at this
  simp at this

theorem strip_resolutionOf (hnote : strip note = note) (hne : note ≠ "") :
    strip (resolutionOf now note) = resolutionOf now note := by
  have hlast := RawText.last_strip (RawText.ofString note)
  rw [RawText.strip_ofString, hnote] at hlast
  have hparts : RawText.ofString (resolutionOf now note) =
      RawText.ofString (resolutionLine now) ++
        CodePoint.scalar '\n' :: CodePoint.scalar '\n' :: RawText.ofString note := by
    unfold RawText.ofString
    rw [resolutionOf_toList]
    simp
  have hnote_ne : RawText.ofString note ≠ [] := fun h => hne (ofString_eq_nil.mp h)
  rw [← RawText.ofString_inj, ← RawText.strip_ofString]
  refine RawText.strip_eq_self (fun c hc => ?_) fun c hc => ?_
  · have hhead : (RawText.ofString (resolutionLine now)).head? = some (CodePoint.scalar 'R') := by
      rw [RawText.ofString, List.head?_map, head_resolutionLine]
      rfl
    rw [hparts, List.head?_append, hhead] at hc
    cases hc
    decide
  · rw [hparts, List.getLast?_append_of_ne_nil _ (List.cons_ne_nil _ _),
      List.getLast?_cons_of_ne_nil (List.cons_ne_nil _ _),
      List.getLast?_cons_of_ne_nil hnote_ne] at hc
    exact hlast c hc

theorem resolvedReport_ofString {raw : RawText} (hraw : raw.strip = RawText.ofString note) :
    resolvedReport now raw r = RawReport.ofReport (resolvedText now note r) := by
  unfold resolvedReport resolvedText RawReport.ofReport resolutionOf
  rw [hraw, Option.map_some, ← RawText.ofString_append]

/-- The note of a resolution that was written is text. -/
theorem exists_note {raw : RawText} {text : String}
    (h : (rawRender (resolvedReport now raw r)).encode = some text) :
    ∃ note, raw.strip = RawText.ofString note := by
  obtain ⟨r', hr'⟩ := exists_ofReport h
  have hresolution := congrArg RawReport.resolution hr'
  cases hvalue : r'.resolution with
  | none =>
    simp only [resolvedReport, RawReport.ofReport, hvalue] at hresolution
    cases hresolution
  | some value =>
    simp only [resolvedReport, RawReport.ofReport, hvalue, Option.map_some,
      Option.some.injEq] at hresolution
    have hencode := RawText.encode_eq_some_iff.mpr hresolution
    exact RawText.exists_ofString_of_subset hencode fun c hc => List.mem_append_right _ hc

theorem oneLineHeader_resolvedText (h : OneLineHeader r) :
    OneLineHeader (resolvedText now note r) := by
  have hresolved : OneLine "resolved" ∧ "resolved" ≠ "" :=
    ⟨forall_mem_of_all (by decide), by decide⟩
  refine ⟨h.title, fun name hname text htext => ?_, h.id, hresolved.2, h.severity, h.reportedAt,
    h.component, h.reporter⟩
  by_cases hstatus : name = "status"
  · subst hstatus
    have hvalue : fieldValue (resolvedText now note r) "status" = some "resolved" := by
      simp [fieldValue, resolvedText]
    rw [hvalue] at htext
    rw [← Option.some.inj htext]
    exact hresolved.1
  · refine h.one_line name hname text ?_
    rw [← htext]
    simp only [fieldValue, resolvedText, hstatus, if_false]

theorem keepsNote_iff {raw : RawText} (hraw : raw.strip = RawText.ofString note) :
    KeepsNote raw ↔ '\r' ∉ note.toList ∧ resolutionHeading ∉ note.toList.splitOn '\n' := by
  constructor
  · intro h
    refine ⟨fun hmem => h.no_return ?_, fun hmem => h.no_heading ?_⟩
    · rw [hraw]
      exact scalar_mem_ofString.mpr hmem
    · rw [hraw]
      exact heading_mem_lines.mpr hmem
  · rintro ⟨hreturn, hlines⟩
    refine ⟨fun hmem => hreturn ?_, fun hmem => hlines ?_⟩
    · rw [hraw] at hmem
      exact scalar_mem_ofString.mp hmem
    · rw [hraw] at hmem
      exact heading_mem_lines.mp hmem

end Resolution

section Resolved

variable [Unicode] {stamp : Stamp} {req : Filing} {files : BugFiles} {r : BugReport}
  {now : Timestamp} {note : String}

/-- A resolution heading in the note is taken for the one that was written. -/
theorem parse_resolvedText (h : OneLineHeader r) (hreturn : '\r' ∉ r.description.toList)
    (hreturn' : '\r' ∉ note.toList) (hlines : resolutionHeading ∈ note.toList.splitOn '\n')
    (path : String) :
    parse path (universalNewlines false (render (resolvedText now note r)).toList) ≠
      .ok (resolvedText now note r) := by
  have hbody : universalNewlines false (bodyText (resolvedText now note r)) =
      resolvedBody r.description.toList (resolutionOf now note).toList := by
    rw [bodyText_resolved rfl resolutionOf_ne]
    refine universalNewlines_eq_self ?_
    have hheading : '\r' ∉ resolutionHeading := by decide
    have hresolution : '\r' ∉ (resolutionOf now note).toList := fun hmem =>
      hreturn' (return_mem_resolution.mp hmem)
    simp [resolvedBody, resolvedText, hreturn, hresolution, hheading]
  have hshort : (bodyParts (some "resolved") (resolvedBody r.description.toList
      (resolutionOf now note).toList)).2.length < (resolutionOf now note).toList.length :=
    length_bodyParts_resolved (heading_mem_resolution.mpr hlines)
  rw [parse_render (oneLineHeader_resolvedText h), hbody]
  intro heq
  have hresolution := congrArg BugReport.resolution (Except.ok.inj heq)
  generalize hparts : (bodyParts (some "resolved") (resolvedBody r.description.toList
    (resolutionOf now note).toList)).2 = parts at hshort
  change (if stripChars (bodyParts (some "resolved") _).2 = [] then none else
    some (String.ofList (stripChars (bodyParts (some "resolved") _).2))) =
      some (resolutionOf now note) at hresolution
  rw [hparts] at hresolution
  by_cases hempty : stripChars parts = []
  · rw [if_pos hempty] at hresolution
    cases hresolution
  · rw [if_neg hempty] at hresolution
    have hchars := congrArg String.toList (Option.some.inj hresolution)
    have hle := (stripChars_isInfix parts).length_le
    rw [String.toList_ofList] at hchars
    rw [hchars] at hle
    omega

/-- Reading a report that was just resolved. -/
theorem get_resolved_iff (h : Accepted stamp req (RawReport.ofReport r))
    (hkeeps : KeepsText req) (hnote : strip note = note) (hne : note ≠ "") :
    get (RawText.ofString r.id)
        { open_ := (files.open_.replace (filedFile r)).delete
            fun other => decide (other.path = r.path)
          resolved := files.resolved.replace (filedFile (resolvedText now note r)) } =
      .ok (resolvedText now note r) ↔
    ('\r' ∉ note.toList ∧ resolutionHeading ∉ note.toList.splitOn '\n') ∧
      OnlyReport stamp req files := by
  obtain ⟨hid, hname⟩ := h.isReportFile
  obtain ⟨hreturn, htoken⟩ := (keepsText_iff h).mp hkeeps
  have hheader := h.oneLineHeader htoken
  have hmem_delete : ∀ other, other ∈ ((files.open_.replace (filedFile r)).delete
      fun other => decide (other.path = r.path)).rows ↔
      other ∈ files.open_.rows ∧ other.path ≠ r.path := by
    intro other
    rw [Table.rows_delete, List.mem_filter, mem_replace]
    constructor
    · rintro ⟨⟨hold, -⟩ | rfl, hpath⟩
      · exact ⟨hold, by simpa using hpath⟩
      · simp [filedFile] at hpath
    · rintro ⟨hold, hpath⟩
      exact ⟨.inl ⟨hold, hpath⟩, by simpa using hpath⟩
  have hopen : (sortedFiles (isReportFile r.id) ((files.open_.replace (filedFile r)).delete
      fun other => decide (other.path = r.path))).head? = none ↔
      ∀ file ∈ files.open_.rows, isReportFile r.id file.path = true → file.path = r.path := by
    rw [sortedFiles_eq_nil]
    constructor
    · intro hnone file hfile hmatch
      by_contra hpath
      rw [hnone file ((hmem_delete file).mpr ⟨hfile, hpath⟩)] at hmatch
      cases hmatch
    · intro honly file hfile
      obtain ⟨hold, hpath⟩ := (hmem_delete file).mp hfile
      exact Bool.eq_false_iff.mpr fun hmatch => hpath (honly file hold hmatch)
  have hresolved : (sortedFiles (isReportFile r.id)
      (files.resolved.replace (filedFile (resolvedText now note r)))).head? =
        some (filedFile (resolvedText now note r)) ↔
      ∀ file ∈ files.resolved.rows, isReportFile r.id file.path = true → r.path ≤ file.path :=
    head_replace hname
  have honly : OnlyReport stamp req files ↔
      (∀ file ∈ files.open_.rows, isReportFile r.id file.path = true → file.path = r.path) ∧
      ∀ file ∈ files.resolved.rows, isReportFile r.id file.path = true → r.path ≤ file.path := by
    have hid : r.id = reportId stamp.now stamp.tokenHex := h.id
    have hpath : r.path = filingPath stamp req.title := h.path
    rw [hid, hpath]
    exact ⟨fun h => ⟨h.open_, h.resolved⟩, fun h => ⟨h.1, h.2⟩⟩
  rw [honly, ← hopen, ← hresolved]
  constructor
  · intro hget
    unfold get at hget
    split at hget
    · cases hget
    · rename_i status stored hfind
      have hpath := parseFile_path hget
      obtain ⟨text, hencode, -, hfound⟩ := find_eq_ok hfind
      rw [RawText.encode_ofString] at hencode
      cases hencode
      rcases hfound with ⟨-, hhead⟩ | ⟨-, hnone, hhead⟩
      · have hmem := (hmem_delete stored).mp (head_sortedFiles.mp hhead).1
        exact absurd hpath.symm hmem.2
      · have hstored : stored = filedFile (resolvedText now note r) :=
          Table.eq_of_key_eq (head_sortedFiles.mp hhead).1 (mem_replace.mpr (.inr rfl)) rfl rfl
            hpath.symm
        subst hstored
        rw [filedFile, parseFile_toUTF8] at hget
        obtain ⟨-, hclean, -⟩ := parse_clean (return_notMem_universalNewlines false _) hget
        have hreturn' : '\r' ∉ note.toList := fun hmem =>
          hclean _ rfl (return_mem_resolution.mpr hmem)
        refine ⟨⟨hreturn', fun hlines => ?_⟩, hnone, hhead⟩
        exact parse_resolvedText hheader hreturn hreturn' hlines _ hget
  · rintro ⟨⟨hreturn', hlines⟩, hnone, hhead⟩
    unfold get
    rw [find_resolved hid hnone hhead]
    change parseFile (filedFile (resolvedText now note r)) = _
    rw [filedFile, parseFile_toUTF8]
    exact parse_render_resolved (oneLineHeader_resolvedText hheader) rfl rfl resolutionOf_ne
      h.strip_title h.strip_description (strip_resolutionOf hnote hne) hreturn
      (fun hmem => hreturn' (return_mem_resolution.mp hmem))
      (fun hmem => hlines (heading_mem_resolution.mp hmem)) _

/-- What `resolve` leaves when the report that it was called for was found. -/
theorem resolve_filed {note : RawText} {outcome : WriteOutcome} {unlinks : Bool}
    {resolved : RawReport} {files₂ : BugFiles}
    (hget : get (RawText.ofString r.id)
      { files with open_ := files.open_.replace (filedFile r) } = .ok r)
    (hresolve : resolve now (RawText.ofString r.id) note outcome unlinks
      { files with open_ := files.open_.replace (filedFile r) } = (.ok resolved, files₂))
    (hhead : (sortedFiles (isReportFile r.id) (files.open_.replace (filedFile r))).head? =
      some (filedFile r)) (hid : isReportId r.id = true) :
    ∃ text, note.strip = RawText.ofString text ∧ strip text = text ∧ text ≠ "" ∧
      resolved = RawReport.ofReport (resolvedText now text r) ∧
      files₂ =
        { open_ := (files.open_.replace (filedFile r)).delete
            fun other => decide (other.path = r.path)
          resolved := files.resolved.replace (filedFile (resolvedText now text r)) } := by
  obtain ⟨status, file, report, written, hto, rfl, hencode, rfl⟩ := resolve_eq_ok hresolve
  obtain ⟨hne, hfind, hparse, -⟩ := toResolve_eq_ok hto
  have hfound : find (RawText.ofString r.id)
      { files with open_ := files.open_.replace (filedFile r) } =
        .ok (.open_, filedFile r) := find_open hid hhead
  unfold get at hget
  rw [hfound] at hget hfind
  cases hfind
  rw [show parseFile (filedFile r) = .ok r from hget] at hparse
  cases hparse
  obtain ⟨text, htext⟩ := exists_note hencode
  rw [resolvedReport_ofString htext, rawRender_ofReport, RawText.encode_ofString] at hencode
  cases hencode
  have hstrip : strip text = text := by
    rw [← RawText.ofString_inj, ← RawText.strip_ofString, ← htext, RawText.strip_strip]
  refine ⟨text, htext, hstrip, fun hempty => hne ?_, resolvedReport_ofString htext, rfl⟩
  rw [htext, hempty]
  rfl

end Resolved

section Complete

variable [Unicode] {files : BugFiles} {r : BugReport} {now : Timestamp} {text : String}

/-- A report that can be read is resolved, when nothing disturbs it. -/
theorem resolve_complete {status : ReportStatus} {stored : StoredFile} {note : RawText}
    (hfind : find (RawText.ofString r.id) files = .ok (status, stored))
    (hparse : parseFile stored = .ok r) (hstatus : r.status = "open")
    (hnote : note.strip = RawText.ofString text) (hne : text ≠ "")
    (hlength : text.length ≤ maximumResolutionCharacters) : ∃ files',
      resolve now (RawText.ofString r.id) note .complete true files =
        (.ok (RawReport.ofReport (resolvedText now text r)), files') := by
  have hto : toResolve (RawText.ofString r.id) note files = .ok (status, stored, r) := by
    unfold toResolve
    rw [if_neg (by rw [hnote]; exact fun h => hne (ofString_eq_nil.mp h)),
      if_neg (by rw [hnote, RawText.length_ofString]; exact Nat.not_lt.mpr hlength), hfind]
    dsimp only
    rw [hparse]
    dsimp only
    rw [if_neg (not_not.mpr hstatus)]
  unfold resolve
  rw [hto]
  dsimp only
  rw [resolvedReport_ofString hnote, writeText_complete (by
    rw [rawRender_ofReport, RawText.encode_ofString])]
  exact ⟨_, rfl⟩

end Complete

section RoundTrip

variable [Unicode]

/-- After `file` the report comes back exactly when its texts are kept and no open report of its
id comes first. After `resolve` it comes back, with its resolution, exactly when the note is kept
too and no other report has its id. -/
theorem roundTrip_iff {stamp : Stamp} {req : Filing} {outcome : WriteOutcome}
    {files files₁ : BugFiles} {report : RawReport}
    (hfile : file stamp req outcome files = (.ok report, files₁)) :
    ((get (RawText.ofString report.id) files₁).map RawReport.ofReport = .ok report ↔
      KeepsText req ∧ FirstOpen stamp req files) ∧
    ∀ (now : Timestamp) (note : RawText) (outcome : WriteOutcome) (unlinks : Bool)
      (resolved : RawReport) (files₂ : BugFiles),
      resolve now (RawText.ofString report.id) note outcome unlinks files₁ =
        (.ok resolved, files₂) →
      resolved.resolution =
          some (RawText.ofString ("Resolved " ++ Calendar.isoText now ++ ".\n\n") ++ note.strip) ∧
      ((get (RawText.ofString report.id) files₁).map RawReport.ofReport = .ok report ∧
          (get (RawText.ofString report.id) files₂).map RawReport.ofReport =
            .ok { report with status := "resolved", resolution := resolved.resolution } ↔
        KeepsText req ∧ KeepsNote note ∧ OnlyReport stamp req files) := by
  obtain ⟨r, rfl, haccepted, rfl⟩ := file_eq_ok hfile
  have hid := haccepted.isReportFile.1
  have hiff : get (RawText.ofString r.id)
      { files with open_ := files.open_.replace (filedFile r) } = .ok r ↔
        KeepsText req ∧ FirstOpen stamp req files := get_filed_iff haccepted
  rw [map_ofReport_eq]
  refine ⟨hiff, fun now note outcome unlinks resolved files₂ hresolve => ⟨?_, ?_⟩⟩
  · obtain ⟨status, stored, found, written, -, rfl, -, -⟩ := resolve_eq_ok hresolve
    rfl
  · have hsecond : ∀ hget : get (RawText.ofString r.id)
        { files with open_ := files.open_.replace (filedFile r) } = .ok r,
        (get (RawText.ofString r.id) files₂).map RawReport.ofReport =
          .ok { RawReport.ofReport r with
            status := "resolved", resolution := resolved.resolution } ↔
        KeepsNote note ∧ OnlyReport stamp req files := by
      intro hget
      obtain ⟨hkeeps, hfirst⟩ := hiff.mp hget
      obtain ⟨text, htext, hstrip, hne, rfl, rfl⟩ := resolve_filed hget hresolve
        ((head_filed haccepted).mpr hfirst) hid
      have hsame : RawReport.ofReport (resolvedText now text r) = { RawReport.ofReport r with
          status := "resolved"
          resolution := (RawReport.ofReport (resolvedText now text r)).resolution } := rfl
      rw [keepsNote_iff htext, ← get_resolved_iff haccepted hkeeps hstrip hne, ← hsame]
      exact map_ofReport_eq
    constructor
    · rintro ⟨hget, hresolved⟩
      exact ⟨(hiff.mp hget).1, (hsecond hget).mp hresolved⟩
    · rintro ⟨hkeeps, hnote, honly⟩
      have hget := hiff.mpr ⟨hkeeps, honly.firstOpen⟩
      exact ⟨hget, (hsecond hget).mpr ⟨hnote, honly⟩⟩

end RoundTrip

section Examples

attribute [local instance] ascii

def epochStamp : Stamp := ⟨0, "000000", by decide, by decide, forall_mem_of_all (by decide)⟩

def shortRequest (description : String) : BugReportRequest :=
  ⟨"t", description, "low", .null, .null, "admin"⟩

theorem exists_filed (description : String)
    (h : (checkedReport 0 "000000" (shortRequest description)).toBool = true) : ∃ r,
      file epochStamp (filingOfRequest (shortRequest description)) .complete empty =
        (.ok (RawReport.ofReport r),
          { empty with open_ := empty.open_.replace (filedFile r) }) := by
  cases hchecked : checkedReport 0 "000000" (shortRequest description) with
  | error message =>
    rw [hchecked] at h
    cases h
  | ok r => exact ⟨r, file_complete hchecked (by decide)⟩

theorem keepsText_short : KeepsText (filingOfRequest (shortRequest "d")) := by
  refine ⟨by decide +kernel, fun c hc => ?_⟩
  have hline : ∀ c ∈ "admin".toList, isLineEnd c = false := forall_mem_of_all (by decide)
  exact hline c (scalar_mem_ofString.mp hc)

theorem onlyReport_short : OnlyReport epochStamp (filingOfRequest (shortRequest "d")) empty :=
  ⟨(by intro file hmem; cases hmem), (by intro file hmem; cases hmem)⟩

/-- A report without delimiters is filed and resolved. -/
theorem exists_resolved : ∃ r files₂,
    file epochStamp (filingOfRequest (shortRequest "d")) .complete empty =
      (.ok (RawReport.ofReport r), { empty with open_ := empty.open_.replace (filedFile r) }) ∧
    resolve 60 (RawText.ofString r.id) (RawText.ofString "done") .complete true
        { empty with open_ := empty.open_.replace (filedFile r) } =
      (.ok (RawReport.ofReport (resolvedText 60 "done" r)), files₂) := by
  obtain ⟨r, hfile⟩ := exists_filed "d" (by decide +kernel)
  obtain ⟨r', hr', haccepted, -⟩ := file_eq_ok hfile
  rw [← hr'] at haccepted
  have hget : get (RawText.ofString r.id)
      { empty with open_ := empty.open_.replace (filedFile r) } = .ok r :=
    (get_filed_iff haccepted).mpr ⟨keepsText_short, onlyReport_short.firstOpen⟩
  have hfind : find (RawText.ofString r.id)
      { empty with open_ := empty.open_.replace (filedFile r) } = .ok (.open_, filedFile r) :=
    find_open haccepted.isReportFile.1 ((head_filed haccepted).mpr onlyReport_short.firstOpen)
  have hparse : parseFile (filedFile r) = .ok r := by
    unfold get at hget
    rw [hfind] at hget
    exact hget
  have hstrip : (RawText.ofString "done").strip = RawText.ofString "done" := by decide +kernel
  obtain ⟨files₂, hresolve⟩ :=
    @resolve_complete _ { empty with open_ := empty.open_.replace (filedFile r) } r 60 "done" _ _ _
      hfind hparse haccepted.status hstrip (by decide) (by decide)
  exact ⟨r, files₂, hfile, hresolve⟩

/-- A report and a note without delimiters come back. -/
theorem roundTrip_plain : ∃ (report resolved : RawReport) (files₁ files₂ : BugFiles),
    file epochStamp (filingOfRequest (shortRequest "d")) .complete empty = (.ok report, files₁) ∧
    resolve 60 (RawText.ofString report.id) (RawText.ofString "done") .complete true files₁ =
      (.ok resolved, files₂) ∧
    (get (RawText.ofString report.id) files₁).map RawReport.ofReport = .ok report ∧
    (get (RawText.ofString report.id) files₂).map RawReport.ofReport =
      .ok { report with status := "resolved", resolution := resolved.resolution } := by
  obtain ⟨r, files₂, hfile, hresolve⟩ := exists_resolved
  have hnote : KeepsNote (RawText.ofString "done") := ⟨by decide +kernel, by decide +kernel⟩
  obtain ⟨hfirst, hsecond⟩ := roundTrip_iff hfile
  exact ⟨_, _, _, _, hfile, hresolve, hfirst.mpr ⟨keepsText_short, onlyReport_short.firstOpen⟩,
    ((hsecond _ _ _ _ _ _ hresolve).2.mpr ⟨keepsText_short, hnote, onlyReport_short⟩).2⟩

/-- The carriage return of `"a\rb"` comes back as a newline. -/
theorem not_roundTrip : ¬ ∀ (stamp : Stamp) (req : Filing) (files₁ : BugFiles)
    (report : RawReport), file stamp req .complete empty = (.ok report, files₁) →
      (get (RawText.ofString report.id) files₁).map RawReport.ofReport = .ok report := by
  intro hall
  obtain ⟨r, hfile⟩ := exists_filed "a\rb" (by decide +kernel)
  obtain ⟨r', hr', haccepted, -⟩ := file_eq_ok hfile
  rw [← hr'] at haccepted
  have hget := map_ofReport_eq.mp (hall _ _ _ _ hfile)
  exact ((get_filed_iff haccepted).mp hget).1.description (by decide +kernel)

end Examples

end BugFiles

end Fleetboot
