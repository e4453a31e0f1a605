import Fleetboot.Library.Partition
import Fleetboot.Library.Words
import Fleetboot.Server.Deployment

/-!
# The file format of bug reports

`_render` and `_parse` of `bug_reports.py`. The delimiters of the format are two headings and the
lines between the first heading and the title; the text of a report may hold all of them.

* `parse_render`: what reading a rendered report gives, when every field of its header is one line.
* `parse_render_eq`: the report comes back when no text of it holds a carriage return, and its
  resolution no resolution heading.
* `parse_clean`, `parse_resolution_ne`: otherwise another report comes back.
-/

set_option autoImplicit false

namespace Fleetboot

open Python

/-- What a call on the store raises. -/
inductive Raised
  | bugReportError (message : String)
  | unicodeEncodeError
  | unicodeDecodeError
  | indexError
  | osError
  deriving DecidableEq

namespace BugReports

/-- `_FIELDS`. -/
def fieldNames : List String :=
  ["id", "status", "severity", "reported_at", "component", "reporter", "token"]

def descriptionHeading : List Char := "## Description".toList

def resolutionHeading : List Char := "## Resolution".toList

/-- Reading a file in text mode: `\r\n` and `\r` become `\n`. The flag says that the last
character was a `\r`. -/
def universalNewlines : Bool → List Char → List Char
  | _, [] => []
  | afterReturn, c :: cs =>
    if c = '\r' then '\n' :: universalNewlines true cs
    else if c = '\n' ∧ afterReturn = true then universalNewlines false cs
    else c :: universalNewlines false cs

section Parse

variable [Unicode]

/-- `\w`. -/
def isWordChar (c : Char) : Bool := Unicode.isAlnum c || c == '_'

/-- `^- (\w+): (.*)$` against a line: its two groups. -/
def fieldMatch (line : String) : Option (String × String) :=
  match line.toList with
  | '-' :: ' ' :: rest =>
    match rest.takeWhile isWordChar, rest.dropWhile isWordChar with
    | [], _ => none
    | word, ':' :: ' ' :: value => some (String.ofList word, String.ofList value)
    | _, _ => none
  | _ => none

/-- The fields of the header. A later line for a field replaces an earlier one. -/
def headerFields (lines : List String) : List (String × String) :=
  ((lines.filterMap fieldMatch).filter fun found => fieldNames.contains found.1).reverse

def removePrefix (start text : List Char) : List Char :=
  if start <+: text then text.drop start.length else text

/-- The description and the resolution of a body. The resolution heading counts in a resolved
report, and then the last one counts. -/
def bodyParts (status : Option String) (body : List Char) : List Char × List Char :=
  match Delimiter.rpartition ('\n' :: (resolutionHeading ++ ['\n'])) body with
  | some parts => if status = some "resolved" then parts else (body, [])
  | none => (body, [])

/-- The report of a first line, the fields of a header and a body. -/
def parsedReport (path first : String) (fields : List (String × String)) (body : List Char) :
    BugReport :=
  let parts := bodyParts (fields.lookup "status") body
  { id := (fields.lookup "id").getD ""
    title := strip (String.ofList (removePrefix "# ".toList first.toList))
    status := (fields.lookup "status").getD "open"
    severity := (fields.lookup "severity").getD defaultSeverity
    reportedAt := (fields.lookup "reported_at").getD ""
    component := fields.lookup "component"
    reporter := fields.lookup "reporter"
    token := (fields.lookup "token").getD ""
    description := String.ofList (stripChars parts.1)
    resolution :=
      if stripChars parts.2 = [] then none else some (String.ofList (stripChars parts.2))
    path }

/-- `text.partition("\n## Description\n")` without the delimiter. -/
def headAndBody (text : List Char) : List Char × List Char :=
  (Delimiter.partition ('\n' :: (descriptionHeading ++ ['\n'])) text).getD (text, [])

/-- `_parse` of the text that was read. A head without a line has no title to read. -/
def parse (path : String) (text : List Char) : Except Raised BugReport :=
  match splitLines (String.ofList (headAndBody text).1) with
  | [] => .error .indexError
  | first :: rest =>
    .ok (parsedReport path first (headerFields (first :: rest)) (headAndBody text).2)

end Parse

/-! ## Line ends -/

theorem universalNewlines_append {cs : List Char} (hcs : '\r' ∉ cs) (ds : List Char) :
    universalNewlines false (cs ++ ds) = cs ++ universalNewlines false ds := by
  induction cs with
  | nil => rfl
  | cons c cs ih =>
    have hc : c ≠ '\r' := fun h => hcs (h ▸ List.mem_cons_self ..)
    rw [List.cons_append, universalNewlines, if_neg hc, if_neg (by simp),
      ih fun h => hcs (List.mem_cons_of_mem _ h), List.cons_append]

theorem universalNewlines_eq_self {cs : List Char} (hcs : '\r' ∉ cs) :
    universalNewlines false cs = cs := by
  have := universalNewlines_append hcs []
  rwa [List.append_nil, universalNewlines, List.append_nil] at this

theorem return_notMem_universalNewlines (flag : Bool) (cs : List Char) :
    '\r' ∉ universalNewlines flag cs := by
  induction cs generalizing flag with
  | nil => simp [universalNewlines]
  | cons c cs ih =>
    unfold universalNewlines
    split
    · simpa using ih true
    · rename_i hc
      split
      · exact ih false
      · intro h
        rcases List.mem_cons.mp h with h | h
        · exact hc h.symm
        · exact ih false h

/-! ## The header -/

/-- `getattr(report, field_name)` for a field of the header. -/
def fieldValue (report : BugReport) (name : String) : Option String :=
  if name = "id" then some report.id
  else if name = "status" then some report.status
  else if name = "severity" then some report.severity
  else if name = "reported_at" then some report.reportedAt
  else if name = "component" then report.component
  else if name = "reporter" then report.reporter
  else if name = "token" then some report.token
  else none

theorem fieldValue_eq_some {report : BugReport} {name text : String}
    (h : fieldValue report name = some text) :
    text = report.id ∨ text = report.status ∨ text = report.severity ∨
      text = report.reportedAt ∨ report.component = some text ∨ report.reporter = some text ∨
        text = report.token := by
  unfold fieldValue at h
  split at h
  · exact .inl (Option.some.inj h).symm
  split at h
  · exact .inr (.inl (Option.some.inj h).symm)
  split at h
  · exact .inr (.inr (.inl (Option.some.inj h).symm))
  split at h
  · exact .inr (.inr (.inr (.inl (Option.some.inj h).symm)))
  split at h
  · exact .inr (.inr (.inr (.inr (.inl h))))
  split at h
  · exact .inr (.inr (.inr (.inr (.inr (.inl h)))))
  split at h
  · exact .inr (.inr (.inr (.inr (.inr (.inr (Option.some.inj h).symm)))))
  · cases h

/-- The lines of `_render` over the description heading, but for the empty one. -/
def headLines (report : BugReport) : List String :=
  ["# " ++ report.title, "", untrustedTextWarning, ""] ++
    fieldNames.flatMap fun name => fieldLine name (fieldValue report name)

def resolutionText (report : BugReport) : List Char :=
  match report.resolution with
  | some text =>
    if text = "" then []
    else '\n' :: (resolutionHeading ++ '\n' :: '\n' :: (text.toList ++ ['\n']))
  | none => []

/-- What stands behind the description heading. -/
def bodyText (report : BugReport) : List Char :=
  '\n' :: (report.description.toList ++ '\n' :: resolutionText report)

theorem render_eq (report : BugReport) :
    render report =
      "\n".intercalate ((headLines report ++ [""]) ++
        ["## Description", "", report.description, ""]) ++
        String.ofList (resolutionText report) := by
  have hfields : fieldNames.flatMap (fun name => fieldLine name (fieldValue report name)) =
      fieldLine "id" (some report.id) ++ fieldLine "status" (some report.status) ++
      fieldLine "severity" (some report.severity) ++
      fieldLine "reported_at" (some report.reportedAt) ++
      fieldLine "component" report.component ++ fieldLine "reporter" report.reporter ++
      fieldLine "token" (some report.token) := by
    simp [fieldNames, fieldValue]
  have hlines : (headLines report ++ [""]) ++ ["## Description", "", report.description, ""] =
      ["# " ++ report.title, "", untrustedTextWarning, ""] ++
        fieldLine "id" (some report.id) ++ fieldLine "status" (some report.status) ++
        fieldLine "severity" (some report.severity) ++
        fieldLine "reported_at" (some report.reportedAt) ++
        fieldLine "component" report.component ++ fieldLine "reporter" report.reporter ++
        fieldLine "token" (some report.token) ++
        ["", "## Description", "", report.description, ""] := by
    rw [headLines, hfields]
    simp only [List.append_assoc, List.cons_append, List.nil_append]
  rw [hlines]
  unfold render resolutionText
  generalize hhead : "\n".intercalate _ = head
  cases report.resolution with
  | none => rfl
  | some text =>
    by_cases htext : text = ""
    · simp only [htext, if_true]
    · simp only [htext, if_false]
      have htail : "\n## Resolution\n" ++ "\n" ++ text ++ "\n" = String.ofList
          ('\n' :: (resolutionHeading ++ '\n' :: '\n' :: (text.toList ++ ['\n']))) := by
        refine String.toList_injective ?_
        rw [String.toList_ofList, String.toList_append, String.toList_append]
        rfl
      rw [htail]

/-- Lines, a heading and the text behind it. -/
theorem toList_join_append (lines : List String) (hne : lines ≠ []) (text : String) :
    ("\n".intercalate (lines ++ ["## Description", "", text, ""])).toList =
      ("\n".intercalate lines).toList ++
        '\n' :: (descriptionHeading ++ '\n' :: '\n' :: (text.toList ++ ['\n'])) := by
  have hnewline : "\n".toList = ['\n'] := rfl
  have htail : ["## Description", "", text, ""].map String.toList =
      [descriptionHeading, [], text.toList, []] := rfl
  have hne' : lines.map String.toList ≠ [] := by simpa using hne
  rw [String.toList_intercalate, String.toList_intercalate, List.map_append, hnewline, htail,
    Delimiter.join_append hne' (List.cons_ne_nil _ _)]
  generalize descriptionHeading = heading
  simp [List.intercalate_cons_cons]

theorem render_toList (report : BugReport) :
    (render report).toList =
      ("\n".intercalate (headLines report ++ [""])).toList ++
        '\n' :: (descriptionHeading ++ '\n' :: bodyText report) := by
  rw [render_eq, String.toList_append, String.toList_ofList, toList_join_append _ (by simp)]
  simp only [bodyText, List.append_assoc, List.cons_append, List.nil_append]

/-- The header of a report has one line for each field that is set. -/
structure OneLineHeader (report : BugReport) : Prop where
  title : OneLine report.title
  one_line : ∀ name ∈ fieldNames, ∀ text, fieldValue report name = some text → OneLine text
  id : report.id ≠ ""
  status : report.status ≠ ""
  severity : report.severity ≠ ""
  reportedAt : report.reportedAt ≠ ""
  component : report.component ≠ some ""
  reporter : report.reporter ≠ some ""

section Lines

variable {report : BugReport} {name : String}

theorem OneLineHeader.fieldLine (h : OneLineHeader report) (hname : name ∈ fieldNames)
    {line : String} (hline : line ∈ BugReports.fieldLine name (fieldValue report name)) :
    ∃ text, line = "- " ++ name ++ ": " ++ text ∧ OneLine line := by
  cases hvalue : fieldValue report name with
  | none =>
    rw [hvalue] at hline
    cases hline
  | some text =>
    rw [hvalue, BugReports.fieldLine] at hline
    split at hline
    · cases hline
    · obtain rfl := List.mem_singleton.mp hline
      have hnames : ∀ c ∈ fieldNames.flatMap String.toList, isLineEnd c = false :=
        forall_mem_of_all (by decide)
      have hdash : OneLine "- " := forall_mem_of_all (by decide)
      have hcolon : OneLine ": " := forall_mem_of_all (by decide)
      have hword : OneLine name := fun c hc => hnames c (List.mem_flatMap_of_mem hname hc)
      exact ⟨text, rfl, ((hdash.append hword).append hcolon).append
        (h.one_line name hname text hvalue)⟩

/-- The lines over the description heading are lines, and none of them is that heading. -/
theorem OneLineHeader.headLines (h : OneLineHeader report) :
    ∀ line ∈ BugReports.headLines report ++ [""],
      OneLine line ∧ line.toList ≠ descriptionHeading := by
  have hempty : OneLine "" ∧ "".toList ≠ descriptionHeading :=
    ⟨forall_mem_of_all (by decide), by decide⟩
  have hwarning : OneLine untrustedTextWarning := forall_mem_of_all (by decide +kernel)
  have hother : ∀ (line : String) (c : Char), line.toList[1]? = some c → c ≠ '#' →
      line.toList ≠ descriptionHeading := by
    intro line c hc hne heq
    rw [heq] at hc
    exact hne (Option.some.inj hc).symm
  intro line hline
  rcases List.mem_append.mp hline with hline | hline
  · rcases List.mem_append.mp hline with hline | hline
    · simp only [List.mem_cons, List.not_mem_nil, or_false] at hline
      rcases hline with rfl | rfl | rfl | rfl
      · have hhash : OneLine "# " := forall_mem_of_all (by decide)
        exact ⟨hhash.append h.title, hother _ ' ' (by simp) (by decide)⟩
      · exact hempty
      · refine ⟨hwarning, fun heq => ?_⟩
        have := congrArg List.length heq
        revert this
        decide +kernel
      · exact hempty
    · obtain ⟨name, hname, hline⟩ := List.mem_flatMap.mp hline
      obtain ⟨text, rfl, hone⟩ := h.fieldLine hname hline
      exact ⟨hone, hother _ ' ' (by simp) (by decide)⟩
  · rw [List.mem_singleton.mp hline]
    exact hempty

theorem headAndBody_render (h : OneLineHeader report) :
    headAndBody (universalNewlines false (render report).toList) =
      (("\n".intercalate (headLines report ++ [""])).toList,
        universalNewlines false (bodyText report)) := by
  have hreturn : '\r' ∉ ("\n".intercalate (headLines report ++ [""])).toList ++
      '\n' :: (descriptionHeading ++ ['\n']) := by
    rw [List.mem_append, String.toList_intercalate]
    rintro (hmem | hmem)
    · rcases mem_join hmem with heq | ⟨chars, hchars, hmem⟩
      · cases heq
      · obtain ⟨line, hline, rfl⟩ := List.mem_map.mp hchars
        exact (h.headLines line hline).1.no_return hmem
    · revert hmem
      decide
  have htext : universalNewlines false (render report).toList =
      ("\n".intercalate (headLines report ++ [""])).toList ++
        '\n' :: (descriptionHeading ++ '\n' :: universalNewlines false (bodyText report)) := by
    have hrender := render_toList report
    have happend := universalNewlines_append hreturn (bodyText report)
    simp only [List.append_assoc, List.cons_append, List.nil_append] at happend
    rw [hrender, happend]
  have hnewline : "\n".toList = ['\n'] := rfl
  rw [htext, headAndBody, String.toList_intercalate, hnewline, Delimiter.partition_of_lines
    (by decide) (by simp) fun chars hchars => ?_]
  · rfl
  · obtain ⟨line, hline, rfl⟩ := List.mem_map.mp hchars
    exact ⟨(h.headLines line hline).1.no_newline, (h.headLines line hline).2⟩

end Lines

/-! ## The body -/

theorem bodyParts_of_ne {status : Option String} (h : status ≠ some "resolved")
    (body : List Char) : bodyParts status body = (body, []) := by
  unfold bodyParts
  split
  · rw [if_neg h]
  · rfl

theorem bodyParts_subset (status : Option String) (body : List Char) :
    (bodyParts status body).1 ⊆ body ∧ (bodyParts status body).2 ⊆ body := by
  have hwhole : (body : List Char) ⊆ body ∧ ([] : List Char) ⊆ body :=
    ⟨List.Subset.refl _, List.nil_subset _⟩
  unfold bodyParts
  split
  · rename_i parts hcut
    split
    · rw [Delimiter.rpartition_eq_some hcut]
      exact ⟨fun c hc => by simp [hc], fun c hc => by simp [hc]⟩
    · exact hwhole
  · exact hwhole

theorem headAndBody_subset (cs : List Char) : (headAndBody cs).2 ⊆ cs := by
  unfold headAndBody
  cases hcut : Delimiter.partition ('\n' :: (descriptionHeading ++ ['\n'])) cs with
  | none => exact List.nil_subset _
  | some cut =>
    intro c hc
    rw [Delimiter.partition_eq_some hcut]
    exact List.mem_append_right _ hc

section Resolved

variable {description text : List Char}

/-- The body of a resolved report. -/
def resolvedBody (description text : List Char) : List Char :=
  '\n' :: (description ++
    '\n' :: '\n' :: (resolutionHeading ++ '\n' :: '\n' :: (text ++ ['\n'])))

/-- The last resolution heading is the one that was written over the resolution, unless a line of
the resolution is that heading. -/
theorem bodyParts_resolved (hlines : resolutionHeading ∉ text.splitOn '\n') :
    bodyParts (some "resolved") (resolvedBody description text) =
      ('\n' :: (description ++ ['\n']), '\n' :: (text ++ ['\n'])) := by
  have hrest : ∀ line ∈ [] :: (text.splitOn '\n' ++ [[]]),
      '\n' ∉ line ∧ line ≠ resolutionHeading := by
    have hempty : '\n' ∉ ([] : List Char) ∧ [] ≠ resolutionHeading := by decide
    intro line hline
    rcases List.mem_cons.mp hline with rfl | hline
    · exact hempty
    · rcases List.mem_append.mp hline with hline | hline
      · refine ⟨fun hmem => ?_, fun heq => hlines (heq ▸ hline)⟩
        rw [List.splitOn_eq_splitOnP] at hline
        have := not_of_mem_splitOnP hline '\n' hmem
        simp at this
      · rw [List.mem_singleton.mp hline]
        exact hempty
  have hheading : '\n' ∉ resolutionHeading := by decide
  have hcut := Delimiter.rpartition_of_lines hheading (List.cons_ne_nil _ _) hrest
    ('\n' :: (description ++ ['\n']))
  rw [Delimiter.join_padded] at hcut
  have hbody : resolvedBody description text = '\n' :: (description ++ ['\n']) ++
      '\n' :: (resolutionHeading ++ '\n' :: '\n' :: (text ++ ['\n'])) := by
    simp [resolvedBody]
  unfold bodyParts
  rw [hbody, hcut]
  rfl

/-- Otherwise a part of the resolution counts as the description. -/
theorem length_bodyParts_resolved (hlines : resolutionHeading ∈ text.splitOn '\n') :
    (bodyParts (some "resolved") (resolvedBody description text)).2.length < text.length := by
  obtain ⟨before, after, hpadded⟩ := Delimiter.exists_of_mem_splitOn hlines
  have hbody : resolvedBody description text =
      ('\n' :: (description ++ '\n' :: '\n' :: (resolutionHeading ++ '\n' :: before))) ++
        '\n' :: (resolutionHeading ++ ['\n']) ++ after := by
    have hcons : '\n' :: (text ++ ['\n']) =
        before ++ '\n' :: (resolutionHeading ++ ['\n']) ++ after := hpadded
    rw [resolvedBody, hcons]
    simp
  obtain ⟨first, rest, hcut, hle⟩ : ∃ first rest, Delimiter.rpartition
      ('\n' :: (resolutionHeading ++ ['\n']))
      (('\n' :: (description ++ '\n' :: '\n' :: (resolutionHeading ++ '\n' :: before))) ++
        '\n' :: (resolutionHeading ++ ['\n']) ++ after) = some (first, rest) ∧
      rest.length ≤ after.length := Delimiter.rpartition_last _ _
  have hlength := congrArg List.length hpadded
  have hheading : resolutionHeading.length = 13 := by decide
  simp only [List.length_cons, List.length_append, List.length_nil, hheading] at hlength
  unfold bodyParts
  rw [hbody, hcut]
  change rest.length < text.length
  omega

end Resolved

theorem bodyText_resolved {report : BugReport} {text : String}
    (hresolution : report.resolution = some text)
    (htext : text ≠ "") :
    bodyText report = resolvedBody report.description.toList text.toList := by
  rw [bodyText, resolutionText, hresolution]
  simp only [htext, if_false, resolvedBody]

section Header

variable [Unicode] {report : BugReport} {name value : String}

theorem isWordChar_of_mem_fieldName (hname : name ∈ fieldNames) :
    ∀ c ∈ name.toList, isWordChar c = true := by
  have hascii : ∀ c ∈ fieldNames.flatMap String.toList,
      c.toNat < 128 ∧ (c.isAlphanum || c == '_') = true :=
    forall_mem_of_all (by decide)
  intro c hc
  obtain ⟨hlt, hword⟩ := hascii c (List.mem_flatMap_of_mem hname hc)
  rw [isWordChar, Unicode.isAlnum_ascii c hlt]
  exact hword

theorem fieldMatch_line (hname : name ∈ fieldNames) (value : String) :
    fieldMatch ("- " ++ name ++ ": " ++ value) = some (name, value) := by
  have hword := isWordChar_of_mem_fieldName hname
  have hcolon : isWordChar ':' = false := by
    rw [isWordChar, Unicode.isAlnum_ascii ':' (by decide)]
    decide
  have hne : name.toList ≠ [] := by
    have : ∀ name ∈ fieldNames, name.toList ≠ [] := by decide
    exact this name hname
  have hline : ("- " ++ name ++ ": " ++ value).toList =
      '-' :: ' ' :: (name.toList ++ ':' :: ' ' :: value.toList) := by
    simp
  have htake : (name.toList ++ ':' :: ' ' :: value.toList).takeWhile isWordChar =
      name.toList := by
    rw [List.takeWhile_append_of_pos hword, List.takeWhile_cons_of_neg (by simp [hcolon]),
      List.append_nil]
  have hdrop : (name.toList ++ ':' :: ' ' :: value.toList).dropWhile isWordChar =
      ':' :: ' ' :: value.toList := by
    rw [List.dropWhile_append_of_pos hword, List.dropWhile_cons_of_neg (by simp [hcolon])]
  unfold fieldMatch
  rw [hline]
  simp only [htake, hdrop]
  cases hchars : name.toList with
  | nil => exact absurd hchars hne
  | cons c cs =>
    rw [← hchars]
    exact congrArg some (Prod.ext String.ofList_toList String.ofList_toList)

theorem fieldMatch_eq_none {line : String} (h : line.toList.head? ≠ some '-') :
    fieldMatch line = none := by
  unfold fieldMatch
  split
  · rename_i heq
    rw [heq] at h
    exact absurd rfl h
  · rfl

theorem fieldMatch_untrustedTextWarning : fieldMatch untrustedTextWarning = none := by
  have hparts : ∀ a b c : String, a.toList.head? = some '<' →
      (a ++ b ++ c).toList.head? ≠ some '-' := by
    intro a b c ha
    rw [String.toList_append, String.toList_append, List.append_assoc, List.head?_append, ha]
    simp
  exact fieldMatch_eq_none (hparts _ _ _ (by simp))

/-- The last line for a field decides. There is one at most. -/
theorem lookup_headerFields (hname : name ∈ fieldNames) :
    (headerFields (headLines report)).lookup name =
      (fieldValue report name).filter fun text => text != "" := by
  have hpairs : ∀ names ⊆ fieldNames, ∀ name : String,
      (((names.flatMap fun name => fieldLine name (fieldValue report name)).filterMap
        fieldMatch).filter fun found => fieldNames.contains found.1).reverse.lookup name =
        if name ∈ names then (fieldValue report name).filter fun text => text != ""
        else none := by
    intro names hnames name
    induction names with
    | nil => rfl
    | cons first names ih =>
      have hfirst := hnames (List.mem_cons_self ..)
      rw [List.flatMap_cons, List.filterMap_append, List.filter_append, List.reverse_append,
        List.lookup_append, ih fun n hn => hnames (List.mem_cons_of_mem _ hn)]
      have hline : (((fieldLine first (fieldValue report first)).filterMap fieldMatch).filter
          fun found => fieldNames.contains found.1).reverse.lookup name =
            if name = first then (fieldValue report first).filter fun text => text != ""
            else none := by
        cases fieldValue report first with
        | none => simp [fieldLine]
        | some text =>
          by_cases htext : text = ""
          · simp [fieldLine, htext, Option.filter]
          · rw [fieldLine, if_neg htext, List.filterMap_cons, fieldMatch_line hfirst]
            by_cases heq : name = first
            · simp [heq, hfirst, htext, Option.filter]
            · simp [hfirst, heq, List.lookup_cons, beq_eq_false_iff_ne.mpr heq]
      rw [hline]
      by_cases heq : name = first
      · subst heq
        rw [if_pos rfl, if_pos (List.mem_cons_self ..)]
        split
        · exact Option.or_self
        · exact Option.none_or
      · simp [heq]
  have hhead : ∀ lines, headerFields (["# " ++ report.title, "", untrustedTextWarning, ""] ++
      lines) = headerFields lines := by
    intro lines
    have hnone : ["# " ++ report.title, "", untrustedTextWarning, ""].filterMap fieldMatch =
        [] := by
      rw [List.filterMap_cons, fieldMatch_eq_none (by simp), List.filterMap_cons,
        fieldMatch_eq_none (by simp), List.filterMap_cons, fieldMatch_untrustedTextWarning,
        List.filterMap_cons, fieldMatch_eq_none (by simp), List.filterMap_nil]
    unfold headerFields
    rw [List.filterMap_append, hnone, List.nil_append]
  rw [headLines, hhead, headerFields, hpairs fieldNames (List.Subset.refl _) name, if_pos hname]

/-! ## Reading what was rendered -/

theorem parsedReport_header (h : OneLineHeader report) (path : String) (body : List Char) :
    parsedReport path ("# " ++ report.title) (headerFields (headLines report)) body =
      { report with
        title := strip report.title
        description := String.ofList (stripChars (bodyParts (some report.status) body).1)
        resolution :=
          if stripChars (bodyParts (some report.status) body).2 = [] then none
          else some (String.ofList (stripChars (bodyParts (some report.status) body).2))
        path := path } := by
  have hfield : ∀ name ∈ fieldNames, fieldValue report name ≠ some "" →
      (headerFields (headLines report)).lookup name = fieldValue report name := by
    intro name hname hne
    rw [lookup_headerFields hname]
    cases hvalue : fieldValue report name with
    | none => rfl
    | some text =>
      rw [hvalue] at hne
      rw [Option.filter_some_pos (by simpa using hne)]
  have hid := hfield "id" (by decide) (by simpa [fieldValue] using h.id)
  have hstatus := hfield "status" (by decide) (by simpa [fieldValue] using h.status)
  have hseverity := hfield "severity" (by decide) (by simpa [fieldValue] using h.severity)
  have hreported := hfield "reported_at" (by decide) (by simpa [fieldValue] using h.reportedAt)
  have hcomponent := hfield "component" (by decide) (by simpa [fieldValue] using h.component)
  have hreporter := hfield "reporter" (by decide) (by simpa [fieldValue] using h.reporter)
  have htoken : ((headerFields (headLines report)).lookup "token").getD "" = report.token := by
    rw [lookup_headerFields (by decide)]
    change ((some report.token).filter _).getD "" = _
    by_cases htoken : report.token = ""
    · rw [htoken]
      rfl
    · rw [Option.filter_some_pos (by simpa using htoken)]
      rfl
  have htitle : removePrefix "# ".toList ("# " ++ report.title).toList = report.title.toList := by
    rw [removePrefix, String.toList_append, if_pos (List.prefix_append _ _), List.drop_left]
  unfold parsedReport
  rw [hid, hstatus, hseverity, hreported, hcomponent, hreporter, htoken, htitle,
    String.ofList_toList]
  rfl

/-- What reading a rendered report gives. -/
theorem parse_render (h : OneLineHeader report) (path : String) :
    parse path (universalNewlines false (render report).toList) =
      .ok { report with
        title := strip report.title
        description := String.ofList (stripChars
          (bodyParts (some report.status) (universalNewlines false (bodyText report))).1)
        resolution :=
          if stripChars (bodyParts (some report.status)
              (universalNewlines false (bodyText report))).2 = [] then none
          else some (String.ofList (stripChars
            (bodyParts (some report.status) (universalNewlines false (bodyText report))).2))
        path := path } := by
  have hlines : splitLines (String.ofList
      (headAndBody (universalNewlines false (render report).toList)).1) = headLines report := by
    rw [headAndBody_render h, String.ofList_toList]
    exact splitLines_join fun line hline => (h.headLines line (List.mem_append_left _ hline)).1
  have hcons : ∃ rest, headLines report = ("# " ++ report.title) :: rest := ⟨_, rfl⟩
  obtain ⟨rest, hcons⟩ := hcons
  have hheader := parsedReport_header h path (universalNewlines false (bodyText report))
  unfold parse
  rw [hlines, hcons, headAndBody_render h]
  rw [hcons] at hheader
  exact congrArg Except.ok hheader

/-- The header of a report survives, whatever its texts are. -/
theorem parse_render_header (h : OneLineHeader report) (path : String) : ∃ r,
    parse path (universalNewlines false (render report).toList) = .ok r ∧ OneLineHeader r ∧
      r.status = report.status ∧ r.path = path ∧ r.id = report.id ∧ r.title = strip report.title :=
  ⟨_, parse_render h path, ⟨oneLine_strip h.title, h.one_line, h.id, h.status, h.severity,
    h.reportedAt, h.component, h.reporter⟩, rfl, rfl, rfl, rfl⟩

/-- Whatever was rendered can be read: it begins with the title. -/
theorem parse_render_isOk (report : BugReport) (path : String) : ∃ r,
    parse path (universalNewlines false (render report).toList) = .ok r := by
  have hhash : ∃ cs, universalNewlines false (render report).toList = '#' :: cs := by
    have hfirst : ∃ cs, (render report).toList = '#' :: cs := by
      obtain ⟨rest, hcons⟩ : ∃ rest, headLines report ++ [""] =
          ("# " ++ report.title) :: "" :: rest := ⟨_, rfl⟩
      have hstart : "# ".toList = ['#', ' '] := rfl
      rw [render_toList, hcons, String.intercalate_cons_cons]
      simp only [String.toList_append, hstart, List.cons_append]
      exact ⟨_, rfl⟩
    obtain ⟨cs, hcs⟩ := hfirst
    rw [hcs, universalNewlines, if_neg (by decide), if_neg (by decide)]
    exact ⟨_, rfl⟩
  obtain ⟨cs, hcs⟩ := hhash
  have hhead : ∃ ds, (headAndBody ('#' :: cs)).1 = '#' :: ds := by
    unfold headAndBody
    cases hcut : Delimiter.partition ('\n' :: (descriptionHeading ++ ['\n'])) ('#' :: cs) with
    | none => exact ⟨cs, rfl⟩
    | some cut =>
      obtain ⟨before, after⟩ := cut
      have htext := Delimiter.partition_eq_some hcut
      cases before with
      | nil => cases (List.cons.inj htext).1
      | cons c ds =>
        rw [List.cons_append, List.cons_append] at htext
        rw [← (List.cons.inj htext).1]
        exact ⟨ds, rfl⟩
  obtain ⟨ds, hds⟩ := hhead
  unfold parse
  rw [hcs, hds]
  cases hlines : splitLines (String.ofList ('#' :: ds)) with
  | nil => exact absurd hlines (splitLines_ne_nil (by decide))
  | cons first rest => exact ⟨_, rfl⟩

/-- An open report comes back when its description holds no carriage return. -/
theorem parse_render_open (h : OneLineHeader report) (hstatus : report.status ≠ "resolved")
    (hresolution : report.resolution = none) (htitle : strip report.title = report.title)
    (hdescription : strip report.description = report.description)
    (hreturn : '\r' ∉ report.description.toList) (path : String) :
    parse path (universalNewlines false (render report).toList) =
      .ok { report with path := path } := by
  have hbody : bodyText report = ['\n'] ++ (report.description.toList ++ ['\n']) := by
    simp [bodyText, resolutionText, hresolution]
  have hclean : universalNewlines false (bodyText report) = bodyText report := by
    refine universalNewlines_eq_self ?_
    rw [hbody]
    simpa using hreturn
  have hstrip : stripChars (bodyText report) = report.description.toList := by
    rw [hbody, stripChars_pad (forall_mem_of_all (by decide)) (forall_mem_of_all (by decide))]
    exact String.ofList_injective (hdescription.trans String.ofList_toList.symm)
  rw [parse_render h, hclean, bodyParts_of_ne (by simpa using hstatus), hstrip, htitle,
    String.ofList_toList, ← hresolution]
  rfl

/-- A resolved report comes back when nothing in it is a carriage return and no line of its
resolution is the heading. -/
theorem parse_render_resolved {text : String} (h : OneLineHeader report)
    (hstatus : report.status = "resolved") (hresolution : report.resolution = some text)
    (hne : text ≠ "") (htitle : strip report.title = report.title)
    (hdescription : strip report.description = report.description) (htext : strip text = text)
    (hreturn : '\r' ∉ report.description.toList) (hreturn' : '\r' ∉ text.toList)
    (hlines : resolutionHeading ∉ text.toList.splitOn '\n') (path : String) :
    parse path (universalNewlines false (render report).toList) =
      .ok { report with path := path } := by
  have hbody := bodyText_resolved hresolution hne
  have hclean : universalNewlines false (bodyText report) =
      resolvedBody report.description.toList text.toList := by
    rw [hbody]
    refine universalNewlines_eq_self ?_
    have hheading : '\r' ∉ resolutionHeading := by decide
    simp [resolvedBody, hreturn, hreturn', hheading]
  have hstrip : ∀ s : String, strip s = s → ∀ front back : List Char,
      (∀ c ∈ front, isSpace c = true) → (∀ c ∈ back, isSpace c = true) →
      stripChars (front ++ (s.toList ++ back)) = s.toList := by
    intro s hs front back hfront hback
    rw [stripChars_pad hfront hback]
    exact String.ofList_injective (hs.trans String.ofList_toList.symm)
  have hbreak : ∀ c ∈ ['\n'], isSpace c = true := forall_mem_of_all (by decide)
  have hfirst := hstrip report.description hdescription ['\n'] ['\n'] hbreak hbreak
  have hsecond := hstrip text htext ['\n'] ['\n'] hbreak hbreak
  rw [List.singleton_append] at hfirst hsecond
  have hchars : text.toList ≠ [] := fun heq => hne (String.toList_injective heq)
  rw [parse_render h, hclean, hstatus, bodyParts_resolved hlines]
  dsimp only
  rw [hfirst, hsecond, if_neg hchars, htitle, String.ofList_toList, String.ofList_toList,
    ← hstatus, ← hresolution]

/-! ## What reading never gives -/

section Clean

variable {cs : List Char} {path : String} {r : BugReport}

theorem oneLine_of_fieldMatch {line name value : String} (h : fieldMatch line = some (name, value))
    (hline : OneLine line) : OneLine value := by
  unfold fieldMatch at h
  split at h
  · rename_i rest hchars
    split at h
    · cases h
    · rename_i hdrop _
      cases h
      intro c hc
      rw [String.toList_ofList] at hc
      refine hline c ?_
      rw [hchars]
      have hmem : c ∈ rest.dropWhile isWordChar := by
        rw [hdrop]
        exact List.mem_cons_of_mem _ (List.mem_cons_of_mem _ hc)
      exact List.mem_cons_of_mem _ (List.mem_cons_of_mem _ ((List.dropWhile_sublist _).subset hmem))
    · cases h
  · cases h

theorem parse_path (h : parse path cs = .ok r) : r.path = path := by
  unfold parse at h
  split at h
  · cases h
  · cases h
    rfl

/-- What was read holds no carriage return, and a field of the header is a line. -/
theorem parse_clean (hcs : '\r' ∉ cs) (h : parse path cs = .ok r) :
    '\r' ∉ r.description.toList ∧ (∀ text, r.resolution = some text → '\r' ∉ text.toList) ∧
      OneLine r.token := by
  unfold parse at h
  split at h
  · cases h
  · rename_i first rest hlines
    cases h
    have hbody : '\r' ∉ (headAndBody cs).2 := fun hmem => hcs (headAndBody_subset cs hmem)
    have hstrip : ∀ ds : List Char, ds ⊆ (headAndBody cs).2 →
        '\r' ∉ (String.ofList (stripChars ds)).toList := by
      intro ds hds hmem
      rw [String.toList_ofList] at hmem
      exact hbody (hds ((stripChars_isInfix ds).subset hmem))
    refine ⟨hstrip _ (bodyParts_subset _ _).1, fun text htext => ?_, ?_⟩
    · change (if _ then _ else _) = _ at htext
      split at htext
      · cases htext
      · cases htext
        exact hstrip _ (bodyParts_subset _ _).2
    · change OneLine (((headerFields (first :: rest)).lookup "token").getD "")
      cases htoken : (headerFields (first :: rest)).lookup "token" with
      | none =>
        intro c hc
        cases hc
      | some value =>
        obtain ⟨before, after, hfields, -⟩ := List.lookup_eq_some_iff.mp htoken
        have hmem : ("token", value) ∈ headerFields (first :: rest) := by
          rw [hfields]
          exact List.mem_append_right _ (List.mem_cons_self ..)
        obtain ⟨line, hline, hmatch⟩ := List.mem_filterMap.mp
          (List.mem_filter.mp (List.mem_reverse.mp hmem)).1
        rw [← hlines] at hline
        exact oneLine_of_fieldMatch hmatch (oneLine_of_mem_splitLines hline)

end Clean

end Header

end BugReports

end Fleetboot
