import Mathlib.Data.List.Sort
import Mathlib.Data.String.Basic
import Fleetboot.Library.Surrogates
import Fleetboot.Library.Transition
import Fleetboot.Server.BugFormat

/-!
# The directories of bug reports

`BugReportStore` of `bug_reports.py` over the bytes of its files. The arguments are strings of
Python, which may have no UTF-8, and a write may fail before it, in the middle of it, or when the
text is encoded: by then the file is empty. Files are UTF-8 and `\n` ends a line, as on the machine
that the server runs on. The `README.md` beside the two directories is left out.
-/

set_option autoImplicit false

namespace Fleetboot

open Python Relational

/-! ## Reports and files -/

/-- A report whose texts need not be text. -/
structure RawReport where
  id : String
  title : RawText
  status : String
  severity : String
  reportedAt : String
  component : Option RawText
  reporter : Option RawText
  token : RawText
  description : RawText
  resolution : Option RawText
  path : String
  deriving DecidableEq

def RawReport.ofReport (report : BugReport) : RawReport where
  id := report.id
  title := RawText.ofString report.title
  status := report.status
  severity := report.severity
  reportedAt := report.reportedAt
  component := report.component.map RawText.ofString
  reporter := report.reporter.map RawText.ofString
  token := RawText.ofString report.token
  description := RawText.ofString report.description
  resolution := report.resolution.map RawText.ofString
  path := report.path

/-- `component` and `reporter` as `file` gets them. -/
inductive LabelArgument
  | none
  | text (t : RawText)
  | other
  deriving DecidableEq

/-- The arguments of `file`. -/
structure Filing where
  title : RawText
  description : RawText
  severity : RawText
  component : LabelArgument
  reporter : LabelArgument
  token : RawText

/-- The clock and the random digits of `file`. A `datetime` ends with the year 9999. -/
structure Stamp where
  now : Timestamp
  tokenHex : String
  now_le : now ≤ lastTimestamp
  length_eq : tokenHex.toList.length = 6
  hex : ∀ c ∈ tokenHex.toList, c ∈ "0123456789abcdef".toList

/-- A file: its name in the directory, and its bytes. -/
structure StoredFile where
  path : String
  bytes : ByteArray

instance : DecidableEq StoredFile := fun file file' =>
  decidable_of_iff (file.path = file'.path ∧ file.bytes.data = file'.bytes.data) (by
    obtain ⟨path, ⟨data⟩⟩ := file
    obtain ⟨path', ⟨data'⟩⟩ := file'
    simp)

abbrev ReportDirectory := Table StoredFile String (fun _ => true) StoredFile.path

/-- `STATUSES`. -/
inductive ReportStatus
  | open_
  | resolved
  deriving DecidableEq

def ReportStatus.text : ReportStatus → String
  | open_ => "open"
  | resolved => "resolved"

/-- The two directories. One that does not exist yet is an empty one. -/
structure BugFiles where
  open_ : ReportDirectory
  resolved : ReportDirectory

/-- What becomes of `write_text`: it writes, it fails before it has opened the file, or after
some of the bytes. -/
inductive WriteOutcome
  | complete
  | notOpened
  | torn (written : Nat)
  deriving DecidableEq

namespace BugFiles

open BugReports

def empty : BugFiles := ⟨.empty, .empty⟩

def directory (files : BugFiles) : ReportStatus → ReportDirectory
  | .open_ => files.open_
  | .resolved => files.resolved

def setDirectory (files : BugFiles) (dir : ReportDirectory) : ReportStatus → BugFiles
  | .open_ => { files with open_ := dir }
  | .resolved => { files with resolved := dir }

/-! ## The file format -/

def rawFieldLine (name : String) (value : Option RawText) : List RawText :=
  match value with
  | some text => if text = [] then [] else [RawText.ofString ("- " ++ name ++ ": ") ++ text]
  | none => []

def rawResolution (resolution : Option RawText) : RawText :=
  match resolution with
  | some text =>
    if text = [] then []
    else
      RawText.ofString "\n## Resolution\n" ++ RawText.ofString "\n" ++ text ++
        RawText.ofString "\n"
  | none => []

/-- `_render`. -/
def rawRender (report : RawReport) : RawText :=
  (RawText.ofString "\n").intercalate
    ([RawText.ofString "# " ++ report.title, [], RawText.ofString untrustedTextWarning, []] ++
      rawFieldLine "id" (some (RawText.ofString report.id)) ++
      rawFieldLine "status" (some (RawText.ofString report.status)) ++
      rawFieldLine "severity" (some (RawText.ofString report.severity)) ++
      rawFieldLine "reported_at" (some (RawText.ofString report.reportedAt)) ++
      rawFieldLine "component" report.component ++
      rawFieldLine "reporter" report.reporter ++
      rawFieldLine "token" (some report.token) ++
      [[], RawText.ofString "## Description", [], report.description, []]) ++
    rawResolution report.resolution

/-- `path.write_text(text)`. -/
def writeText (outcome : WriteOutcome) (path : String) (text : RawText) (dir : ReportDirectory) :
    Except Raised Unit × ReportDirectory :=
  match outcome, text.encode with
  | .notOpened, _ => (.error .osError, dir)
  | _, none => (.error .unicodeEncodeError, dir.replace ⟨path, .empty⟩)
  | .complete, some text => (.ok (), dir.replace ⟨path, text.toUTF8⟩)
  | .torn written, some text =>
    (.error .osError, dir.replace ⟨path, text.toUTF8.extract 0 written⟩)

section Calls

variable [Unicode]

/-- `_parse`. -/
def parseFile (file : StoredFile) : Except Raised BugReport :=
  match String.fromUTF8? file.bytes with
  | some text => parse file.path (universalNewlines false text.toList)
  | none => .error .unicodeDecodeError

/-! ## Finding -/

/-- The order of paths in one directory. -/
def ByName (file file' : StoredFile) : Prop := file.path ≤ file'.path

instance : DecidableRel ByName := fun file file' =>
  inferInstanceAs (Decidable (file.path ≤ file'.path))

/-- `sorted(directory.glob(…))`. -/
def sortedFiles (pattern : String → Bool) (dir : ReportDirectory) : List StoredFile :=
  (dir.rows.filter fun file => pattern file.path).insertionSort ByName

/-- `*.md`. -/
def isMarkdown (name : String) : Bool := ".md".toList.isSuffixOf name.toList

/-- `{report_id}-*.md`. -/
def isReportFile (id name : String) : Bool :=
  (id ++ "-").toList.isPrefixOf name.toList && isMarkdown name

/-- `[0-9a-f]`. -/
def isHexDigit (c : Char) : Bool := "0123456789abcdef".toList.contains c

/-- `\d`. -/
def isDecimal (c : Char) : Bool := (Unicode.decimal c).isSome

/-- `_REPORT_ID_PATTERN.match`. The `$` also matches before a last newline. -/
def isReportId (text : String) : Bool :=
  let cs := if text.toList.getLast? = some '\n' then text.toList.dropLast else text.toList
  cs.length == 22 && (cs.take 8).all isDecimal && cs[8]? == some '-' &&
    ((cs.drop 9).take 6).all isDecimal && cs[15]? == some '-' && (cs.drop 16).all isHexDigit

/-- `repr` of a string. -/
def rawRepr (t : RawText) : String :=
  let quote :=
    if t.contains (.scalar '\'') && !t.contains (.scalar '"') then '"' else '\''
  let point : CodePoint → List Char
    | .scalar c => reprChar quote c
    | .surrogate n => '\\' :: 'u' :: hexDigits 4 (0xD800 + n.val)
  String.ofList (quote :: t.flatMap point ++ [quote])

def noReport (id : RawText) : Raised :=
  .bugReportError ("no bug report with id " ++ rawRepr id)

/-- `_find`: the file of a report, and the directory that it is in. -/
def find (id : RawText) (files : BugFiles) : Except Raised (ReportStatus × StoredFile) :=
  match id.encode with
  | none => .error (noReport id)
  | some text =>
    if isReportId text = false then .error (noReport id)
    else
      match (sortedFiles (isReportFile text) files.open_).head?,
        (sortedFiles (isReportFile text) files.resolved).head? with
      | some file, _ => .ok (.open_, file)
      | none, some file => .ok (.resolved, file)
      | none, none => .error (noReport id)

/-- `get`. -/
def get (id : RawText) (files : BugFiles) : Except Raised BugReport :=
  match find id files with
  | .error raised => .error raised
  | .ok (_, file) => parseFile file

/-- `list`. -/
def list (status : RawText) (files : BugFiles) : Except Raised (List BugReport) :=
  match [ReportStatus.open_, .resolved].find? fun known => RawText.ofString known.text = status with
  | some known => (sortedFiles isMarkdown (files.directory known)).mapM parseFile
  | none => .error (.bugReportError "status must be one of open, resolved")

/-! ## Filing -/

/-- `_optional_label`. -/
def rawLabel (value : LabelArgument) (name : String) : Except String (Option RawText) :=
  match value with
  | .none => .ok none
  | .other => .error (name ++ " must be a string")
  | .text t =>
    if maximumLabelCharacters < t.singleSpaced.length then
      .error (name ++ " is limited to " ++ toString maximumLabelCharacters ++ " characters")
    else .ok (if t.singleSpaced = [] then none else some t.singleSpaced)

/-- `_slug`. A surrogate has no lower case, and what is not `[a-z0-9]` becomes a dash. -/
def rawSlug (title : RawText) : String :=
  let runs := (title.splitOnP fun c => c.char?.isNone).map (List.filterMap CodePoint.char?)
  let dashed := "-".intercalate
    ((runs.flatMap fun run => pieces (fun c => !isSlugChar c) (Unicode.lower run)).map
      String.ofList)
  let cut := String.ofList ((dashed.toList.take 50).rdropWhile (· == '-'))
  if cut = "" then "report" else cut

/-- The name of the file that a filing writes. -/
def filingPath (stamp : Stamp) (title : RawText) : String :=
  reportId stamp.now stamp.tokenHex ++ "-" ++ rawSlug title.singleSpaced ++ ".md"

def rawTitle (title : RawText) : Except String RawText :=
  if title.singleSpaced = [] then .error "title must not be empty"
  else if maximumTitleCharacters < title.singleSpaced.length then
    .error ("title is limited to " ++ toString maximumTitleCharacters ++ " characters")
  else .ok title.singleSpaced

def rawDescription (description : RawText) : Except String RawText :=
  if description.strip = [] then .error "description must not be empty"
  else if maximumDescriptionCharacters < description.strip.length then
    .error ("description is limited to " ++ toString maximumDescriptionCharacters ++
      " characters")
  else .ok description.strip

def rawSeverity (severity : RawText) : Except String String :=
  match severities.find? fun known => RawText.ofString known = severity with
  | some known => .ok known
  | none => .error ("severity must be one of " ++ ", ".intercalate severities)

/-- The checks of the arguments of `file`, and the report they leave. -/
def checkedFiling (stamp : Stamp) (req : Filing) : Except String RawReport := do
  let title ← rawTitle req.title
  let description ← rawDescription req.description
  let severity ← rawSeverity req.severity
  let component ← rawLabel req.component "component"
  let reporter ← rawLabel req.reporter "reporter"
  return {
    id := reportId stamp.now stamp.tokenHex
    title
    status := "open"
    severity
    reportedAt := Calendar.isoText stamp.now
    component
    reporter
    token := req.token
    description
    resolution := none
    path := filingPath stamp req.title }

/-- `file` up to where it writes. -/
def toFile (stamp : Stamp) (req : Filing) (files : BugFiles) : Except Raised RawReport :=
  match checkedFiling stamp req with
  | .error message => .error (.bugReportError message)
  | .ok report =>
    if maximumOpenReports ≤ (sortedFiles isMarkdown files.open_).length then
      .error (.bugReportError ("there are already " ++ toString maximumOpenReports ++
        " open bug " ++ "reports; no more can be filed until some are resolved"))
    else .ok report

/-- `file`. -/
def file (stamp : Stamp) (req : Filing) (outcome : WriteOutcome) (files : BugFiles) :
    Except Raised RawReport × BugFiles :=
  match toFile stamp req files with
  | .error raised => (.error raised, files)
  | .ok report =>
    match writeText outcome report.path (rawRender report) files.open_ with
    | (.error raised, dir) => (.error raised, { files with open_ := dir })
    | (.ok (), dir) => (.ok report, { files with open_ := dir })

/-! ## Resolving -/

def maximumResolutionCharacters : Nat := 5000

/-- `resolve` up to where it writes: the report that it resolves, its file and the directory. -/
def toResolve (id note : RawText) (files : BugFiles) :
    Except Raised (ReportStatus × StoredFile × BugReport) :=
  if note.strip = [] then .error (.bugReportError "resolution must not be empty")
  else if maximumResolutionCharacters < note.strip.length then
    .error (.bugReportError ("resolution is limited to " ++
      toString maximumResolutionCharacters ++ " characters"))
  else
    match find id files with
    | .error raised => .error raised
    | .ok (status, file) =>
      match parseFile file with
      | .error raised => .error raised
      | .ok report =>
        if report.status ≠ "open" then
          .error (.bugReportError ("bug report " ++ (id.encode.getD "") ++
            " is already resolved"))
        else .ok (status, file, report)

/-- The report that `resolve` writes. -/
def resolvedReport (now : Timestamp) (note : RawText) (report : BugReport) : RawReport :=
  { RawReport.ofReport report with
    status := "resolved"
    resolution :=
      some (RawText.ofString ("Resolved " ++ Calendar.isoText now ++ ".\n\n") ++ note.strip) }

/-- `resolve`. The last argument says whether the old file can be removed. -/
def resolve (now : Timestamp) (id note : RawText) (outcome : WriteOutcome) (unlinks : Bool)
    (files : BugFiles) : Except Raised RawReport × BugFiles :=
  match toResolve id note files with
  | .error raised => (.error raised, files)
  | .ok (status, file, report) =>
    match writeText outcome file.path (rawRender (resolvedReport now note report))
        files.resolved with
    | (.error raised, dir) => (.error raised, { files with resolved := dir })
    | (.ok (), dir) =>
      let written := { files with resolved := dir }
      if unlinks then
        (.ok (resolvedReport now note report), written.setDirectory
          ((written.directory status).delete fun other => decide (other.path = file.path)) status)
      else (.error .osError, written)

end Calls

/-! ## What is written -/

theorem rawFieldLine_ofString (name : String) (value : Option String) :
    rawFieldLine name (value.map RawText.ofString) =
      (fieldLine name value).map RawText.ofString := by
  cases value with
  | none => rfl
  | some text =>
    by_cases htext : text = ""
    · subst htext
      rfl
    · have hne : RawText.ofString text ≠ [] := fun heq =>
        htext (RawText.ofString_injective heq)
      change (if RawText.ofString text = [] then [] else _) =
        (if text = "" then [] else _ : List String).map RawText.ofString
      rw [if_neg hne, if_neg htext, List.map_singleton, ← RawText.ofString_append]

theorem rawResolution_ofString (resolution : Option String) :
    rawResolution (resolution.map RawText.ofString) = RawText.ofString (match resolution with
      | some text => if text = "" then "" else "\n## Resolution\n" ++ "\n" ++ text ++ "\n"
      | none => "") := by
  cases resolution with
  | none => rfl
  | some text =>
    by_cases htext : text = ""
    · subst htext
      rfl
    · have hne : RawText.ofString text ≠ [] := fun heq =>
        htext (RawText.ofString_injective heq)
      simp only [rawResolution, Option.map_some, hne, htext, if_false, RawText.ofString_append]

theorem rawRender_ofReport (report : BugReport) :
    rawRender (RawReport.ofReport report) = RawText.ofString (render report) := by
  have hlines : ["# " ++ report.title, "", untrustedTextWarning, ""].map RawText.ofString =
      [RawText.ofString "# " ++ RawText.ofString report.title, [],
        RawText.ofString untrustedTextWarning, []] := by
    rw [← RawText.ofString_append]
    rfl
  have hfield : ∀ name text, rawFieldLine name (some (RawText.ofString text)) =
      (fieldLine name (some text)).map RawText.ofString := fun name text =>
    rawFieldLine_ofString name (some text)
  unfold render
  rw [RawText.ofString_append, RawText.ofString_intercalate]
  refine congrArg₂ _ (congrArg _ ?_) (rawResolution_ofString report.resolution)
  simp only [List.map_append, hlines, RawReport.ofReport, hfield, rawFieldLine_ofString]
  rfl

/-- What has a rendering in UTF-8 is text. -/
theorem exists_ofReport {report : RawReport} {text : String}
    (h : (rawRender report).encode = some text) : ∃ r, report = RawReport.ofReport r := by
  have hline : ∀ line ∈ [RawText.ofString "# " ++ report.title, [],
        RawText.ofString untrustedTextWarning, []] ++
      rawFieldLine "id" (some (RawText.ofString report.id)) ++
      rawFieldLine "status" (some (RawText.ofString report.status)) ++
      rawFieldLine "severity" (some (RawText.ofString report.severity)) ++
      rawFieldLine "reported_at" (some (RawText.ofString report.reportedAt)) ++
      rawFieldLine "component" report.component ++ rawFieldLine "reporter" report.reporter ++
      rawFieldLine "token" (some report.token) ++
      [[], RawText.ofString "## Description", [], report.description, []],
      line ⊆ rawRender report := by
    intro line hline c hc
    exact List.mem_append_left _ (mem_join_of_mem hline hc)
  have htext : ∀ t : RawText, t ⊆ rawRender report → ∃ s, t = RawText.ofString s := fun t ht =>
    RawText.exists_ofString_of_subset h ht
  have hfield : ∀ (name : String) (value : Option RawText),
      (∀ line ∈ rawFieldLine name value, line ⊆ rawRender report) →
      ∃ value' : Option String, value = value'.map RawText.ofString := by
    intro name value hvalue
    cases value with
    | none => exact ⟨none, rfl⟩
    | some t =>
      by_cases ht : t = []
      · exact ⟨some "", by rw [ht]; rfl⟩
      · have hmem : RawText.ofString ("- " ++ name ++ ": ") ++ t ∈ rawFieldLine name (some t) := by
          rw [rawFieldLine, if_neg ht]
          exact List.mem_singleton.mpr rfl
        obtain ⟨s, rfl⟩ := htext t fun c hc => hvalue _ hmem (List.mem_append_right _ hc)
        exact ⟨some s, rfl⟩
  obtain ⟨title, htitle⟩ := htext report.title fun c hc =>
    hline _ (by simp) (List.mem_append_right (RawText.ofString "# ") hc)
  obtain ⟨description, hdescription⟩ := htext report.description (hline _ (by simp))
  obtain ⟨component, hcomponent⟩ := hfield "component" report.component fun line hmem =>
    hline line (by simp [hmem])
  obtain ⟨reporter, hreporter⟩ := hfield "reporter" report.reporter fun line hmem =>
    hline line (by simp [hmem])
  obtain ⟨token, htoken⟩ := hfield "token" (some report.token) fun line hmem =>
    hline line (by simp [hmem])
  obtain ⟨resolution, hresolution⟩ : ∃ value : Option String,
      report.resolution = value.map RawText.ofString := by
    cases hvalue : report.resolution with
    | none => exact ⟨none, rfl⟩
    | some t =>
      by_cases ht : t = []
      · exact ⟨some "", by rw [ht]; rfl⟩
      · obtain ⟨s, rfl⟩ := htext t fun c hc => by
          unfold rawRender rawResolution
          rw [hvalue]
          simp only [ht, if_false]
          exact List.mem_append_right _ (List.mem_append_left _ (List.mem_append_right _ hc))
        exact ⟨some s, rfl⟩
  cases token with
  | none => cases htoken
  | some token =>
    have htoken := Option.some.inj htoken
    refine ⟨⟨report.id, title, report.status, report.severity, report.reportedAt, component,
      reporter, token, description, resolution, report.path⟩, ?_⟩
    unfold RawReport.ofReport
    rw [← htitle, ← hdescription, ← hcomponent, ← hreporter, ← hresolution]
    exact congrArg (fun token => { report with token := token }) htoken

/-- A write succeeds when it is not disturbed and the text has UTF-8. -/
theorem writeText_eq_ok {outcome : WriteOutcome} {path : String} {text : RawText}
    {dir dir' : ReportDirectory} (h : writeText outcome path text dir = (.ok (), dir')) :
    outcome = .complete ∧ ∃ s, text.encode = some s ∧ dir' = dir.replace ⟨path, s.toUTF8⟩ := by
  unfold writeText at h
  split at h
  · cases h
  · cases h
  · rename_i s hencode
    cases h
    exact ⟨rfl, s, hencode, rfl⟩
  · cases h

theorem writeText_complete {path : String} {text : RawText} {s : String}
    (h : text.encode = some s) (dir : ReportDirectory) :
    writeText .complete path text dir = (.ok (), dir.replace ⟨path, s.toUTF8⟩) := by
  unfold writeText
  rw [h]

theorem parseFile_toUTF8 [Unicode] (path text : String) :
    parseFile ⟨path, text.toUTF8⟩ = parse path (universalNewlines false text.toList) := by
  have hvalid : text.toUTF8.IsValidUTF8 := text.isValidUTF8
  unfold parseFile String.fromUTF8?
  rw [dif_pos hvalid]
  rfl

/-! ## What is found -/

section Sorted

variable {pattern : String → Bool} {dir : ReportDirectory} {file : StoredFile}

instance : IsTrans StoredFile ByName := ⟨fun _ _ _ => le_trans⟩

instance : Std.Total ByName := ⟨fun file file' => le_total file.path file'.path⟩

theorem mem_sortedFiles :
    file ∈ sortedFiles pattern dir ↔ file ∈ dir.rows ∧ pattern file.path = true := by
  rw [sortedFiles, List.mem_insertionSort, List.mem_filter]

/-- The first file is the one with the smallest name. -/
theorem head_sortedFiles : (sortedFiles pattern dir).head? = some file ↔
    file ∈ dir.rows ∧ pattern file.path = true ∧
      ∀ other ∈ dir.rows, pattern other.path = true → file.path ≤ other.path := by
  have hsorted : (sortedFiles pattern dir).Pairwise ByName :=
    List.pairwise_insertionSort ByName _
  have hhead : ∀ first, (sortedFiles pattern dir).head? = some first →
      first ∈ dir.rows ∧ pattern first.path = true ∧
        ∀ other ∈ dir.rows, pattern other.path = true → first.path ≤ other.path := by
    intro first hfirst
    obtain ⟨rest, hrest⟩ := List.head?_eq_some_iff.mp hfirst
    have hmem := mem_sortedFiles.mp (List.mem_of_mem_head? hfirst)
    refine ⟨hmem.1, hmem.2, fun other hother hpattern => ?_⟩
    have hother := mem_sortedFiles.mpr ⟨hother, hpattern⟩
    rw [hrest] at hother hsorted
    rcases List.mem_cons.mp hother with rfl | hother
    · exact le_refl _
    · exact (List.pairwise_cons.mp hsorted).1 other hother
  constructor
  · exact hhead file
  · rintro ⟨hmem, hpattern, hle⟩
    cases hfirst : (sortedFiles pattern dir).head? with
    | none =>
      rw [List.head?_eq_none_iff] at hfirst
      have := mem_sortedFiles.mpr ⟨hmem, hpattern⟩
      rw [hfirst] at this
      cases this
    | some first =>
      obtain ⟨hmem', hpattern', hle'⟩ := hhead first hfirst
      have hpath : first.path = file.path :=
        le_antisymm (hle' file hmem hpattern) (hle first hmem' hpattern')
      rw [Table.eq_of_key_eq hmem' hmem rfl rfl hpath]

theorem sortedFiles_eq_nil : (sortedFiles pattern dir).head? = none ↔
    ∀ file ∈ dir.rows, pattern file.path = false := by
  rw [List.head?_eq_none_iff, List.eq_nil_iff_forall_not_mem]
  constructor
  · intro h file hmem
    exact Bool.eq_false_iff.mpr fun hpattern => h file (mem_sortedFiles.mpr ⟨hmem, hpattern⟩)
  · intro h file hmem
    obtain ⟨hrow, hpattern⟩ := mem_sortedFiles.mp hmem
    rw [h file hrow] at hpattern
    cases hpattern

theorem mem_replace {new : StoredFile} : file ∈ (dir.replace new).rows ↔
    (file ∈ dir.rows ∧ file.path ≠ new.path) ∨ file = new := by
  simp

/-- A file that was written comes first when no other file that matches has a smaller name. -/
theorem head_replace {new : StoredFile} (hname : pattern new.path = true) :
    (sortedFiles pattern (dir.replace new)).head? = some new ↔
      ∀ other ∈ dir.rows, pattern other.path = true → new.path ≤ other.path := by
  rw [head_sortedFiles]
  constructor
  · rintro ⟨-, -, hle⟩ other hother hmatch
    by_cases heq : other.path = new.path
    · exact heq.ge
    · exact hle other (mem_replace.mpr (.inl ⟨hother, heq⟩)) hmatch
  · intro hfirst
    refine ⟨mem_replace.mpr (.inr rfl), hname, fun other hother hmatch => ?_⟩
    rcases mem_replace.mp hother with ⟨hold, -⟩ | rfl
    · exact hfirst other hold hmatch
    · exact le_refl _

end Sorted

section Find

variable [Unicode] {files : BugFiles} {status : ReportStatus} {file : StoredFile}

/-- A report is found in the first directory that has a file of it. -/
theorem find_eq_ok {id : RawText} (h : find id files = .ok (status, file)) :
    ∃ text, id.encode = some text ∧ isReportId text = true ∧
      ((status = .open_ ∧ (sortedFiles (isReportFile text) files.open_).head? = some file) ∨
        (status = .resolved ∧ (sortedFiles (isReportFile text) files.open_).head? = none ∧
          (sortedFiles (isReportFile text) files.resolved).head? = some file)) := by
  unfold find at h
  split at h
  · cases h
  · rename_i text hencode
    split at h
    · cases h
    · rename_i hid
      refine ⟨text, hencode, by simpa using hid, ?_⟩
      split at h
      · rename_i hopen
        cases h
        exact .inl ⟨rfl, hopen⟩
      · rename_i hopen hresolved
        cases h
        exact .inr ⟨rfl, hopen, hresolved⟩
      · cases h

theorem find_open {id : String} (hid : isReportId id = true)
    (h : (sortedFiles (isReportFile id) files.open_).head? = some file) :
    find (RawText.ofString id) files = .ok (.open_, file) := by
  unfold find
  rw [RawText.encode_ofString]
  simp only [hid, h, Bool.true_eq_false, if_false]

theorem find_resolved {id : String} (hid : isReportId id = true)
    (hopen : (sortedFiles (isReportFile id) files.open_).head? = none)
    (h : (sortedFiles (isReportFile id) files.resolved).head? = some file) :
    find (RawText.ofString id) files = .ok (.resolved, file) := by
  unfold find
  rw [RawText.encode_ofString]
  simp only [hid, hopen, h, Bool.true_eq_false, if_false]

/-- What `resolve` has found before it writes. -/
theorem toResolve_eq_ok {id note : RawText} {report : BugReport}
    (h : toResolve id note files = .ok (status, file, report)) :
    note.strip ≠ [] ∧ find id files = .ok (status, file) ∧ parseFile file = .ok report ∧
      report.status = "open" := by
  unfold toResolve at h
  split at h
  · cases h
  · rename_i hnote
    split at h
    · cases h
    · split at h
      · cases h
      · rename_i hfind
        split at h
        · cases h
        · rename_i hparse
          split at h
          · cases h
          · rename_i hstatus
            cases h
            exact ⟨hnote, hfind, hparse, not_not.mp hstatus⟩

/-- A call of `resolve` that returns has written the report and removed its old file. -/
theorem resolve_eq_ok {now : Timestamp} {id note : RawText} {outcome : WriteOutcome}
    {unlinks : Bool} {resolved : RawReport} {files' : BugFiles}
    (h : resolve now id note outcome unlinks files = (.ok resolved, files')) :
    ∃ status file report text, toResolve id note files = .ok (status, file, report) ∧
      resolved = resolvedReport now note report ∧
      (rawRender resolved).encode = some text ∧
      files' = BugFiles.setDirectory
        { files with resolved := files.resolved.replace ⟨file.path, text.toUTF8⟩ }
        ((BugFiles.directory
          { files with resolved := files.resolved.replace ⟨file.path, text.toUTF8⟩ } status).delete
            fun other => decide (other.path = file.path)) status := by
  unfold resolve at h
  cases hto : toResolve id note files with
  | error raised =>
    rw [hto] at h
    cases h
  | ok found =>
    obtain ⟨status, file, report⟩ := found
    rw [hto] at h
    dsimp only at h
    cases hwrite : writeText outcome file.path (rawRender (resolvedReport now note report))
        files.resolved with
    | mk result dir =>
      rw [hwrite] at h
      cases result with
      | error raised => cases h
      | ok _ =>
        dsimp only at h
        split at h
        · cases h
          obtain ⟨-, text, hencode, rfl⟩ := writeText_eq_ok hwrite
          exact ⟨status, file, report, text, rfl, rfl, hencode, rfl⟩
        · cases h

theorem mem_of_find {id : RawText} (h : find id files = .ok (status, file)) :
    file ∈ (files.directory status).rows := by
  obtain ⟨text, -, -, ⟨rfl, hhead⟩ | ⟨rfl, -, hhead⟩⟩ := find_eq_ok h
  · exact (head_sortedFiles.mp hhead).1
  · exact (head_sortedFiles.mp hhead).1

end Find

/-! ## What is accepted -/

/-- The report that passes the checks of `file`. -/
structure Accepted [Unicode] (stamp : Stamp) (req : Filing) (report : RawReport) : Prop where
  id : report.id = reportId stamp.now stamp.tokenHex
  title : report.title = req.title.singleSpaced
  status : report.status = "open"
  severity : report.severity ∈ severities
  reportedAt : report.reportedAt = Calendar.isoText stamp.now
  component : ∀ t, report.component = some t → t ≠ [] ∧ ∃ u, t = RawText.singleSpaced u
  reporter : ∀ t, report.reporter = some t → t ≠ [] ∧ ∃ u, t = RawText.singleSpaced u
  token : report.token = req.token
  description : report.description = req.description.strip
  resolution : report.resolution = none
  path : report.path = filingPath stamp req.title

theorem isLineEnd_eq_false {c : Char} (hlow : 32 ≤ c.toNat) (hhigh : c.toNat < 127) :
    isLineEnd c = false := by
  simp only [isLineEnd, Bool.or_eq_false_iff, Bool.and_eq_false_iff, decide_eq_false_iff_not,
    beq_eq_false_iff_ne]
  omega

theorem isSpace_of_isLineEnd {c : Char} (h : isLineEnd c = true) : isSpace c = true := by
  simp only [isLineEnd, isSpace, Bool.or_eq_true, Bool.and_eq_true, decide_eq_true_eq,
    beq_iff_eq] at h ⊢
  omega

theorem oneLine_of_singleSpaced {s : String} {t : RawText}
    (h : RawText.ofString s = t.singleSpaced) : OneLine s := by
  intro c hc
  rw [← Bool.not_eq_true]
  intro hend
  have hmem : CodePoint.scalar c ∈ t.singleSpaced := by
    rw [← h]
    exact List.mem_map_of_mem hc
  have hspace := RawText.eq_space_of_mem_singleSpaced hmem (isSpace_of_isLineEnd hend)
  cases hspace
  revert hend
  decide

theorem toNat_of_isDigit {c : Char} (h : c.isDigit = true) : 48 ≤ c.toNat ∧ c.toNat ≤ 57 := by
  simp only [Char.isDigit, Bool.and_eq_true, decide_eq_true_eq] at h
  exact h

/-- The parts of a report id. -/
theorem reportId_parts (stamp : Stamp) : ∃ date time : List Char,
    (reportId stamp.now stamp.tokenHex).toList =
      date ++ '-' :: (time ++ '-' :: stamp.tokenHex.toList) ∧
    date.length = 8 ∧ time.length = 6 ∧ (∀ c ∈ date, c.isDigit = true) ∧
      ∀ c ∈ time, c.isDigit = true := by
  obtain ⟨date, time, hparts, hdate, htime, hdigits, hdigits'⟩ :=
    Calendar.compactText_parts stamp.now_le
  refine ⟨date, time, ?_, hdate, htime, hdigits, hdigits'⟩
  rw [reportId, String.toList_append, String.toList_append, hparts]
  simp

theorem oneLine_reportId (stamp : Stamp) : OneLine (reportId stamp.now stamp.tokenHex) := by
  obtain ⟨date, time, hparts, -, -, hdigits, hdigits'⟩ := reportId_parts stamp
  have hdigit : ∀ c : Char, c.isDigit = true → isLineEnd c = false := by
    intro c hc
    have := toNat_of_isDigit hc
    exact isLineEnd_eq_false (by omega) (by omega)
  have hhex : ∀ c ∈ "0123456789abcdef".toList, isLineEnd c = false :=
    forall_mem_of_all (by decide)
  intro c hc
  rw [hparts] at hc
  simp only [List.mem_append, List.mem_cons] at hc
  rcases hc with hc | rfl | hc | rfl | hc
  · exact hdigit c (hdigits c hc)
  · decide
  · exact hdigit c (hdigits' c hc)
  · decide
  · exact hhex c (stamp.hex c hc)

theorem oneLine_isoText (seconds : Timestamp) : OneLine (Calendar.isoText seconds) := by
  intro c hc
  rcases Calendar.isoText_chars hc with hdigit | hmark
  · have := toNat_of_isDigit hdigit
    exact isLineEnd_eq_false (by omega) (by omega)
  · have hmarks : ∀ c ∈ ['-', 'T', ':', 'Z'], isLineEnd c = false :=
      forall_mem_of_all (by decide)
    exact hmarks c hmark

section Accepted

theorem rawLabel_ok {value : LabelArgument} {name : String} {label : Option RawText}
    (h : rawLabel value name = .ok label) :
    ∀ t, label = some t → t ≠ [] ∧ ∃ u, t = RawText.singleSpaced u := by
  unfold rawLabel at h
  split at h
  · cases h
    intro t ht
    cases ht
  · cases h
  · rename_i u
    split at h
    · cases h
    · cases h
      intro t ht
      split at ht
      · cases ht
      · rename_i hne
        cases ht
        exact ⟨hne, u, rfl⟩

variable [Unicode] {stamp : Stamp} {req : Filing} {report : RawReport}

theorem Accepted.of_checked (h : checkedFiling stamp req = .ok report) :
    Accepted stamp req report := by
  unfold checkedFiling at h
  obtain ⟨title, htitle, h⟩ := bind_eq_ok.mp h
  obtain ⟨description, hdescription, h⟩ := bind_eq_ok.mp h
  obtain ⟨severity, hseverity, h⟩ := bind_eq_ok.mp h
  obtain ⟨component, hcomponent, h⟩ := bind_eq_ok.mp h
  obtain ⟨reporter, hreporter, h⟩ := bind_eq_ok.mp h
  obtain rfl := Except.ok.inj h
  have htitle : title = req.title.singleSpaced := by
    unfold rawTitle at htitle
    split at htitle
    · cases htitle
    · split at htitle
      · cases htitle
      · cases htitle
        rfl
  have hdescription : description = req.description.strip := by
    unfold rawDescription at hdescription
    split at hdescription
    · cases hdescription
    · split at hdescription
      · cases hdescription
      · cases hdescription
        rfl
  have hseverity : severity ∈ severities := by
    unfold rawSeverity at hseverity
    split at hseverity
    · rename_i hfound
      cases hseverity
      exact List.mem_of_find?_eq_some hfound
    · cases hseverity
  exact ⟨rfl, htitle, rfl, hseverity, rfl, rawLabel_ok hcomponent, rawLabel_ok hreporter, rfl,
    hdescription, rfl, rfl⟩

theorem checked_of_toFile {files : BugFiles} (h : toFile stamp req files = .ok report) :
    checkedFiling stamp req = .ok report := by
  unfold toFile at h
  split at h
  · cases h
  · rename_i hchecked
    split at h
    · cases h
    · cases h
      exact hchecked

/-- The header of an accepted report has one line for each field, when its token has one. -/
theorem Accepted.oneLineHeader {r : BugReport}
    (haccepted : Accepted stamp req (RawReport.ofReport r)) (htoken : OneLine r.token) :
    OneLineHeader r := by
  have hid : r.id = reportId stamp.now stamp.tokenHex := haccepted.id
  have hreported : r.reportedAt = Calendar.isoText stamp.now := haccepted.reportedAt
  have hstatus : r.status = "open" := haccepted.status
  have hseverity : ∀ severity ∈ severities, severity ≠ "" ∧ OneLine severity := by
    intro severity hmem
    have hwords : ∀ c ∈ severities.flatMap String.toList, isLineEnd c = false :=
      forall_mem_of_all (by decide)
    refine ⟨?_, fun c hc => hwords c (List.mem_flatMap_of_mem hmem hc)⟩
    rintro rfl
    revert hmem
    decide
  have hopen : OneLine "open" := forall_mem_of_all (by decide)
  have hlabel : ∀ label : Option String, (∀ t, label.map RawText.ofString = some t →
      t ≠ [] ∧ ∃ u, t = RawText.singleSpaced u) →
      label ≠ some "" ∧ ∀ text, label = some text → OneLine text := by
    intro label hlabel
    constructor
    · rintro rfl
      exact (hlabel _ rfl).1 rfl
    · rintro text rfl
      obtain ⟨-, u, hu⟩ := hlabel _ rfl
      exact oneLine_of_singleSpaced hu
  have hcomponent := hlabel r.component haccepted.component
  have hreporter := hlabel r.reporter haccepted.reporter
  refine ⟨oneLine_of_singleSpaced haccepted.title, fun name _ text htext => ?_, ?_, ?_,
    (hseverity _ haccepted.severity).1, ?_, hcomponent.1, hreporter.1⟩
  · rcases fieldValue_eq_some htext with h | h | h | h | h | h | h
    · rw [h, hid]
      exact oneLine_reportId stamp
    · rw [h, hstatus]
      exact hopen
    · rw [h]
      exact (hseverity _ haccepted.severity).2
    · rw [h, hreported]
      exact oneLine_isoText stamp.now
    · exact hcomponent.2 text h
    · exact hreporter.2 text h
    · rw [h]
      exact htoken
  · rw [hid]
    intro hempty
    obtain ⟨date, time, hparts, -⟩ := reportId_parts stamp
    rw [hempty] at hparts
    simp at hparts
  · rw [hstatus]
    decide
  · rw [hreported]
    intro hempty
    have hzone : 'Z' ∈ (Calendar.isoText stamp.now).toList := by
      rw [Calendar.isoText, String.toList_append, List.mem_append]
      exact .inr (by decide)
    rw [hempty] at hzone
    cases hzone

theorem Accepted.strip_title {r : BugReport} (h : Accepted stamp req (RawReport.ofReport r)) :
    strip r.title = r.title := by
  have htitle : RawText.ofString r.title = req.title.singleSpaced := h.title
  rw [← RawText.ofString_inj, ← RawText.strip_ofString, htitle, RawText.strip_singleSpaced]

theorem Accepted.strip_description {r : BugReport}
    (h : Accepted stamp req (RawReport.ofReport r)) : strip r.description = r.description := by
  have hdescription : RawText.ofString r.description = req.description.strip := h.description
  rw [← RawText.ofString_inj, ← RawText.strip_ofString, hdescription, RawText.strip_strip]

/-! ### The id is well formed -/

theorem isReportId_reportId (stamp : Stamp) :
    isReportId (reportId stamp.now stamp.tokenHex) = true := by
  obtain ⟨date, time, hparts, hdate, htime, hdigits, hdigits'⟩ := reportId_parts stamp
  have hdecimal : ∀ cs : List Char, (∀ c ∈ cs, c.isDigit = true) → cs.all isDecimal = true := by
    intro cs hcs
    rw [List.all_eq_true]
    intro c hc
    have hlt : c.toNat < 128 := by
      have := toNat_of_isDigit (hcs c hc)
      omega
    rw [isDecimal, Unicode.decimal_ascii c hlt, if_pos (hcs c hc)]
    rfl
  have hhex : stamp.tokenHex.toList.all isHexDigit = true := by
    rw [List.all_eq_true]
    intro c hc
    exact List.contains_iff_mem.mpr (stamp.hex c hc)
  have hlast : (reportId stamp.now stamp.tokenHex).toList.getLast? ≠ some '\n' := by
    have hne : stamp.tokenHex.toList ≠ [] := by
      intro hempty
      have := stamp.length_eq
      rw [hempty] at this
      cases this
    have hmem : ∀ c ∈ stamp.tokenHex.toList, c ≠ '\n' := by
      have hdigits : ∀ c ∈ "0123456789abcdef".toList, c ≠ '\n' := forall_mem_of_all (by decide)
      exact fun c hc => hdigits c (stamp.hex c hc)
    rw [hparts, List.getLast?_append_of_ne_nil _ (List.cons_ne_nil _ _),
      List.getLast?_cons_of_ne_nil (by simp), List.getLast?_append_of_ne_nil _ (by simp),
      List.getLast?_cons_of_ne_nil hne]
    intro heq
    exact hmem '\n' (List.mem_of_mem_getLast? heq) rfl
  have hhexlen := stamp.length_eq
  unfold isReportId
  rw [if_neg hlast, hparts]
  have htake : (date ++ '-' :: (time ++ '-' :: stamp.tokenHex.toList)).take 8 = date :=
    List.take_left' hdate
  have hdrop : (date ++ '-' :: (time ++ '-' :: stamp.tokenHex.toList)).drop 9 =
      time ++ '-' :: stamp.tokenHex.toList := by
    rw [List.append_cons, List.drop_left' (by simp [hdate])]
  have hdrop' : (date ++ '-' :: (time ++ '-' :: stamp.tokenHex.toList)).drop 16 =
      stamp.tokenHex.toList := by
    rw [show 16 = 9 + 7 from rfl, ← List.drop_drop, hdrop, List.append_cons,
      List.drop_left' (by simp [htime])]
  have hfirst : (date ++ '-' :: (time ++ '-' :: stamp.tokenHex.toList))[8]? = some '-' := by
    rw [List.getElem?_append_right (by omega), hdate]
    rfl
  have hsecond : (date ++ '-' :: (time ++ '-' :: stamp.tokenHex.toList))[15]? = some '-' := by
    rw [List.append_cons, ← List.append_assoc, List.getElem?_append_right (by simp; omega)]
    simp [hdate, htime]
  have hlength : (date ++ '-' :: (time ++ '-' :: stamp.tokenHex.toList)).length = 22 := by
    simp [hdate, htime, hhexlen]
  simp only [htake, hdrop, hdrop', hfirst, hsecond, hlength, List.take_left' htime,
    hdecimal date hdigits, hdecimal time hdigits', hhex, beq_self_eq_true, Bool.and_self]

theorem isReportFile_filingPath (stamp : Stamp) (title : RawText) :
    isReportFile (reportId stamp.now stamp.tokenHex) (filingPath stamp title) = true := by
  unfold isReportFile isMarkdown filingPath
  rw [Bool.and_eq_true, List.isPrefixOf_iff_prefix, List.isSuffixOf_iff_suffix]
  constructor
  · simp only [String.toList_append, List.append_assoc]
    rw [← List.append_assoc]
    exact List.prefix_append _ _
  · rw [String.toList_append]
    exact List.suffix_append _ _

end Accepted

/-! ## Text as arguments -/

def labelOfJson : Json → LabelArgument
  | .null => .none
  | .str text => .text (RawText.ofString text)
  | _ => .other

/-- A request whose arguments are text. -/
def filingOfRequest (req : BugReportRequest) : Filing where
  title := RawText.ofString req.title
  description := RawText.ofString req.description
  severity := RawText.ofString req.severity
  component := labelOfJson req.component
  reporter := labelOfJson req.reporter
  token := RawText.ofString req.token

def encodeFile (file : ReportFile) : StoredFile := ⟨file.path, file.text.toUTF8⟩

/-- The files hold the bytes of the texts of a store. -/
structure Encodes (store : BugReportStore) (files : BugFiles) : Prop where
  open_ : files.open_.rows = store.open_.rows.map encodeFile
  resolved : files.resolved.rows = store.resolved.rows.map encodeFile
  markdown : ∀ file ∈ store.open_.rows, isMarkdown file.path = true

section Request

theorem ofString_eq_nil {s : String} : RawText.ofString s = [] ↔ s = "" := by
  have hempty : RawText.ofString "" = [] := rfl
  rw [← hempty, RawText.ofString_inj]

theorem rawTitle_ofString (title : String) :
    rawTitle (RawText.ofString title) = (checkTitle title).map RawText.ofString := by
  unfold rawTitle checkTitle
  simp only [RawText.singleSpaced_ofString, ofString_eq_nil, RawText.length_ofString]
  split
  · rfl
  · split <;> rfl

theorem rawDescription_ofString (description : String) :
    rawDescription (RawText.ofString description) =
      (checkDescription description).map RawText.ofString := by
  unfold rawDescription checkDescription
  simp only [RawText.strip_ofString, ofString_eq_nil, RawText.length_ofString]
  split
  · rfl
  · split <;> rfl

theorem rawSeverity_ofString (severity : String) :
    rawSeverity (RawText.ofString severity) = checkSeverity severity := by
  unfold rawSeverity checkSeverity
  simp only [RawText.ofString_inj]
  cases hfound : severities.find? fun known => decide (known = severity) with
  | none =>
    have hnot : severity ∉ severities := by
      intro hmem
      have := List.find?_eq_none.mp hfound severity hmem
      simp at this
    rw [if_neg hnot]
  | some known =>
    have heq : known = severity := by simpa using List.find?_some hfound
    subst heq
    rw [if_pos (List.mem_of_find?_eq_some hfound)]

theorem rawLabel_ofJson (value : Json) (name : String) :
    rawLabel (labelOfJson value) name =
      (optionalLabel value name).map (Option.map RawText.ofString) := by
  cases value with
  | str text =>
    unfold labelOfJson rawLabel optionalLabel
    simp only [RawText.singleSpaced_ofString, ofString_eq_nil, RawText.length_ofString]
    split
    · rfl
    · split <;> rfl
  | _ => rfl

variable [Unicode]

theorem rawSlug_ofString (title : String) : rawSlug (RawText.ofString title) = slug title := by
  have hsplit : ((RawText.ofString title).splitOnP fun c => c.char?.isNone) =
      [RawText.ofString title] := by
    refine List.splitOnP_eq_singleton fun c hc => ?_
    obtain ⟨d, -, rfl⟩ := List.mem_map.mp hc
    rfl
  have hchars : (RawText.ofString title).filterMap CodePoint.char? = title.toList := by
    rw [RawText.ofString, List.filterMap_map]
    have hsome : CodePoint.char? ∘ CodePoint.scalar = some := rfl
    rw [hsome, List.filterMap_some]
  unfold rawSlug slug
  rw [hsplit, List.map_singleton, hchars]
  simp only [List.flatMap_singleton, lower, String.toList_ofList]

theorem checkedFiling_ofRequest (stamp : Stamp) (req : BugReportRequest) :
    checkedFiling stamp (filingOfRequest req) =
      (checkedReport stamp.now stamp.tokenHex req).map RawReport.ofReport := by
  have hpath : filingPath stamp (RawText.ofString req.title) =
      reportPath stamp.now stamp.tokenHex req.title := by
    rw [filingPath, RawText.singleSpaced_ofString, rawSlug_ofString]
    rfl
  unfold checkedFiling checkedReport filingOfRequest
  simp only [rawTitle_ofString, rawDescription_ofString, rawSeverity_ofString, rawLabel_ofJson,
    hpath]
  cases checkTitle req.title with
  | error message => rfl
  | ok title =>
    cases checkDescription req.description with
    | error message => rfl
    | ok description =>
      cases checkSeverity req.severity with
      | error message => rfl
      | ok severity =>
        cases optionalLabel req.component "component" with
        | error message => rfl
        | ok component => cases optionalLabel req.reporter "reporter" <;> rfl

/-- On text the filing of files of bytes is the filing of texts. -/
theorem Encodes.file {store : BugReportStore} {files : BugFiles} (h : Encodes store files)
    (stamp : Stamp) (req : BugReportRequest) :
    (BugFiles.file stamp (filingOfRequest req) .complete files).1 =
      ((BugReports.file stamp.now stamp.tokenHex req store).1.map RawReport.ofReport).mapError
        Raised.bugReportError ∧
    Encodes (BugReports.file stamp.now stamp.tokenHex req store).2
      (BugFiles.file stamp (filingOfRequest req) .complete files).2 := by
  have hcount : (sortedFiles isMarkdown files.open_).length = store.open_.rows.length := by
    rw [sortedFiles, List.length_insertionSort, h.open_, List.filter_map, List.length_map]
    exact congrArg List.length (List.filter_eq_self.mpr h.markdown)
  unfold BugFiles.file BugReports.file toFile
  rw [checkedFiling_ofRequest, hcount]
  cases hchecked : checkedReport stamp.now stamp.tokenHex req with
  | error message => exact ⟨rfl, h⟩
  | ok report =>
    dsimp only [Except.map]
    by_cases hfull : maximumOpenReports ≤ store.open_.rows.length
    · rw [if_pos hfull, if_pos hfull]
      exact ⟨rfl, h⟩
    · rw [if_neg hfull, if_neg hfull]
      dsimp only
      rw [writeText_complete (by rw [rawRender_ofReport, RawText.encode_ofString])]
      refine ⟨rfl, ?_, h.resolved, fun file hfile => ?_⟩
      · rw [Table.rows_replace, Table.rows_replace, h.open_, List.filter_map, List.map_append]
        rfl
      · rw [Table.rows_replace] at hfile
        rcases List.mem_append.mp hfile with hfile | hfile
        · exact h.markdown file (List.mem_filter.mp hfile).1
        · obtain rfl := List.mem_singleton.mp hfile
          have hraw : checkedFiling stamp (filingOfRequest req) =
              .ok (RawReport.ofReport report) := by
            rw [checkedFiling_ofRequest, hchecked]
            rfl
          have hname := isReportFile_filingPath stamp (filingOfRequest req).title
          rw [← (Accepted.of_checked hraw).path] at hname
          exact (Bool.and_eq_true_iff.mp hname).2

/-- A request that passes the checks is filed, when there is room and nothing disturbs it. -/
theorem file_complete {stamp : Stamp} {req : BugReportRequest} {files : BugFiles} {r : BugReport}
    (h : checkedReport stamp.now stamp.tokenHex req = .ok r)
    (hroom : (sortedFiles isMarkdown files.open_).length < maximumOpenReports) :
    file stamp (filingOfRequest req) .complete files = (.ok (RawReport.ofReport r),
      { files with open_ := files.open_.replace ⟨r.path, (render r).toUTF8⟩ }) := by
  unfold file toFile
  rw [checkedFiling_ofRequest, h]
  dsimp only [Except.map]
  rw [if_neg (Nat.not_le.mpr hroom)]
  dsimp only
  rw [writeText_complete (by rw [rawRender_ofReport, RawText.encode_ofString])]
  rfl

/-- The arguments of a filing have UTF-8. -/
structure EncodableFiling (req : Filing) : Prop where
  title : req.title.encode.isSome = true
  description : req.description.encode.isSome = true
  component : ∀ t, req.component = .text t → t.encode.isSome = true
  reporter : ∀ t, req.reporter = .text t → t.encode.isSome = true
  token : req.token.encode.isSome = true

theorem exists_report_of_encodable {stamp : Stamp} {req : Filing} {report : RawReport}
    (h : checkedFiling stamp req = .ok report) (hreq : EncodableFiling req) :
    ∃ r, report = RawReport.ofReport r := by
  have htext : ∀ t : RawText, t.encode.isSome = true → ∃ s, t = RawText.ofString s := by
    intro t ht
    obtain ⟨s, hs⟩ := Option.isSome_iff_exists.mp ht
    exact ⟨s, RawText.encode_eq_some_iff.mp hs⟩
  have hlabel : ∀ value : LabelArgument, (∀ t, value = .text t → t.encode.isSome = true) →
      ∃ json, value = labelOfJson json := by
    intro value hvalue
    cases value with
    | none => exact ⟨.null, rfl⟩
    | text t =>
      obtain ⟨s, rfl⟩ := htext t (hvalue t rfl)
      exact ⟨.str s, rfl⟩
    | other => exact ⟨.bool true, rfl⟩
  obtain ⟨title, htitle⟩ := htext _ hreq.title
  obtain ⟨description, hdescription⟩ := htext _ hreq.description
  obtain ⟨token, htoken⟩ := htext _ hreq.token
  obtain ⟨component, hcomponent⟩ := hlabel _ hreq.component
  obtain ⟨reporter, hreporter⟩ := hlabel _ hreq.reporter
  obtain ⟨severity, hseverity⟩ : ∃ severity, req.severity = RawText.ofString severity := by
    unfold checkedFiling at h
    obtain ⟨_, -, h⟩ := bind_eq_ok.mp h
    obtain ⟨_, -, h⟩ := bind_eq_ok.mp h
    obtain ⟨severity, hseverity, -⟩ := bind_eq_ok.mp h
    unfold rawSeverity at hseverity
    split at hseverity
    · rename_i known hfound
      exact ⟨known, by simpa [eq_comm] using List.find?_some hfound⟩
    · cases hseverity
  have hrequest : req = filingOfRequest ⟨title, description, severity, component, reporter,
      token⟩ := by
    unfold filingOfRequest
    rw [← htitle, ← hdescription, ← htoken, ← hcomponent, ← hreporter, ← hseverity]
  rw [hrequest, checkedFiling_ofRequest] at h
  cases hchecked : checkedReport stamp.now stamp.tokenHex
      ⟨title, description, severity, component, reporter, token⟩ with
  | error message =>
    rw [hchecked] at h
    cases h
  | ok r =>
    rw [hchecked] at h
    exact ⟨r, (Except.ok.inj h).symm⟩

end Request

end BugFiles

end Fleetboot
