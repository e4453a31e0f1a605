import Fleetboot.Library.Textarea
import Fleetboot.Server.OverlayConfinement

/-!
# Editing an overlay file

The page on which a file of an overlay is edited (`edit_overlay_file` of `dashboard.py` and
`profile_overlay_edit.html`), what a browser submits of it, and the route that the submission takes.
What path the server is asked for when a form has a certain action is up to the browser and the
HTTP server, and what the routes that are not about overlays do to the files is left open: both are
parameters.

* `editingKeepsFiles_iff`: when opening a file and saving it changes no file.
-/

set_option autoImplicit false

namespace Fleetboot

open Python Posix Html

/-! ## The page -/

/-- What a browser needs of the page: the form's action and what is in the textarea. -/
structure EditPage where
  action : List Char
  content : List Char

/-- The action of the form, before it is escaped. -/
def formAction (name relpath : String) : List Char :=
  "/dashboard/profiles/".toList ++ name.toList ++ "/overlay/".toList ++ relpath.toList

section Pages

variable [Unicode]

/-- `edit_overlay_file`, and the form of the template. A file that is not text has no form. The
route takes no path with a line end in it. -/
def editOverlayFile (profilesRoot : List (Segment String)) (name : String) (fs : Files)
    (relpath : String) : Except OverlayFailure (Option EditPage) :=
  if '\n' ∈ relpath.toList then .error (.http 404 "Not Found")
  else
    match safeProfilePath fs profilesRoot name with
    | .error err => .error err
    | .ok profileDir =>
      match safeOverlayPath fs profileDir relpath with
      | .error err => .error err
      | .ok file =>
        if fs.isFile file = false then .error (.http 404 "overlay file not found")
        else
          match fs.readFile file with
          | .error err => .error (.os err)
          | .ok bytes =>
            match String.fromUTF8? bytes with
            | none => .ok none
            | some text => .ok (some
                { action := escape (formAction name relpath)
                  content := escape (BugReports.universalNewlines false text.toList) })

/-! ## The routes -/

/-- What a path that is posted to leads to. -/
inductive PostRoute
  | delete (name relpath : String)
  | save (name relpath : String)
  | elsewhere

/-- The name and the rest of `/dashboard/profiles/{name}/overlay/…`. -/
def overlayMatch (path : List Char) : Option (List Char × List Char) :=
  let start := "/dashboard/profiles/".toList
  let name := (path.drop start.length).takeWhile (· != '/')
  let rest := (path.drop start.length).dropWhile (· != '/')
  let middle := "/overlay/".toList
  if start <+: path ∧ name ≠ [] ∧ middle <+: rest then some (name, rest.drop middle.length)
  else none

/-- Where `$` matches: at the end, or before a line end there. -/
def beforeEnd (cs : List Char) : List Char :=
  if cs.getLast? = some '\n' then cs.dropLast else cs

/-- The routes in their order: the one that deletes is tried before the one that saves. `.*` takes
no line end. -/
def postRoute (path : List Char) : PostRoute :=
  match overlayMatch path with
  | none => .elsewhere
  | some (name, rest) =>
    let relpath := beforeEnd rest
    let ending := "/delete".toList
    if '\n' ∈ relpath then .elsewhere
    else if ending <:+ relpath then
      .delete (String.ofList name) (String.ofList (relpath.take (relpath.length - ending.length)))
    else .save (String.ofList name) (String.ofList relpath)

/-- What is there after a form is posted, with this text in its field `content`. -/
def postForm (elsewhere : List Char → Files → Files) (profilesRoot : List (Segment String))
    (path content : List Char) (fs : Files) : Files :=
  match postRoute path with
  | .delete name relpath =>
    (deleteOverlayFile OverlayDisk.working profilesRoot name fs relpath).fs
  | .save name relpath =>
    (saveOverlayFile OverlayDisk.working profilesRoot name fs relpath
      (RawText.ofString (String.ofList content))).fs
  | .elsewhere => elsewhere path fs

/-- The page is submitted as it is: the server is asked for the path that the client makes of the
action, with what it submits of the textarea. -/
def submitPage (client : List Char → List Char) (elsewhere : List Char → Files → Files)
    (profilesRoot : List (Segment String)) (page : EditPage) (fs : Files) : Files :=
  postForm elsewhere profilesRoot (client (unescape page.action)) (submitted page.content) fs

end Pages

/-! ## Which texts come back as they were -/

/-- All line ends are `\r\n`, none is at the beginning, and there is no NUL. -/
structure SurvivesForm (text : String) : Prop where
  only_crlf : OnlyCrlf text.toList
  starts : text.toList.head? ≠ some '\r'
  no_nul : '\x00' ∉ text.toList

/-- The text that is saved when the page of a text is submitted. -/
def postedText (text : String) : String :=
  String.ofList (submitted (escape (BugReports.universalNewlines false text.toList)))

open BugReports (universalNewlines)

theorem universalNewlines_crlf (cs : List Char) :
    universalNewlines false ('\r' :: '\n' :: cs) = '\n' :: universalNewlines false cs := by
  simp [universalNewlines]

theorem universalNewlines_cons {c : Char} (hreturn : c ≠ '\r') (hnewline : c ≠ '\n')
    (cs : List Char) : universalNewlines false (c :: cs) = c :: universalNewlines false cs := by
  simp [universalNewlines, hreturn, hnewline]

/-- A text of lines that end with `\r\n` is read and written as it is. -/
theorem crlf_universalNewlines {cs : List Char} (h : OnlyCrlf cs) :
    crlf false (universalNewlines false cs) = cs := by
  fun_induction OnlyCrlf cs with
  | case1 => rfl
  | case2 rest ih =>
    rw [universalNewlines_crlf]
    simp only [crlf]
    rw [ih h]
    simp
  | case3 c rest hne ih =>
    obtain ⟨hreturn, hnewline, hrest⟩ := h
    rw [universalNewlines_cons hreturn hnewline]
    simp only [crlf, hreturn, hnewline, if_false]
    rw [ih hrest]

theorem mem_universalNewlines {c : Char} {flag : Bool} {cs : List Char}
    (h : c ∈ universalNewlines flag cs) : c ∈ cs ∨ c = '\n' := by
  induction cs generalizing flag with
  | nil => cases h
  | cons d cs ih =>
    unfold universalNewlines at h
    split_ifs at h
    all_goals
      simp only [List.mem_cons] at h ⊢
      grind

/-- What is submitted of a text without a NUL. -/
theorem submitted_page {cs : List Char} (hnul : '\x00' ∉ cs) :
    submitted (escape (universalNewlines false cs)) =
      crlf false (dropNewline (universalNewlines false cs)) := by
  refine submitted_escape fun hmem => ?_
  rcases mem_universalNewlines hmem with hmem | heq
  · exact hnul hmem
  · exact absurd heq (by decide)

theorem head_universalNewlines {cs : List Char} (hreturn : cs.head? ≠ some '\r')
    (hnewline : cs.head? ≠ some '\n') : (universalNewlines false cs).head? ≠ some '\n' := by
  cases cs with
  | nil => simp [universalNewlines]
  | cons c cs =>
    rw [List.head?_cons, Ne, Option.some.injEq] at hreturn hnewline
    rw [universalNewlines_cons hreturn hnewline, List.head?_cons, Ne, Option.some.injEq]
    exact hnewline

theorem submitted_page_eq_iff {cs : List Char} :
    submitted (escape (universalNewlines false cs)) = cs ↔
      OnlyCrlf cs ∧ cs.head? ≠ some '\r' ∧ '\x00' ∉ cs := by
  constructor
  · intro h
    have honly : OnlyCrlf cs := h ▸ onlyCrlf_crlf false _
    have hnul : '\x00' ∉ cs := h ▸ nul_not_mem_submitted _
    refine ⟨honly, fun hhead => ?_, hnul⟩
    obtain ⟨rest, rfl⟩ : ∃ rest, cs = '\r' :: rest := by
      cases cs with
      | nil => cases hhead
      | cons c rest => exact ⟨rest, by rw [Option.some.inj hhead]⟩
    obtain ⟨rest, rfl, hrest⟩ := honly.after_return
    -- the newline that is dropped was one of the file
    rw [submitted_page hnul, universalNewlines_crlf, dropNewline,
      crlf_universalNewlines hrest] at h
    have hlength := congrArg List.length h
    simp only [List.length_cons] at hlength
    omega
  · rintro ⟨honly, hhead, hnul⟩
    rw [submitted_page hnul, dropNewline_eq_self (head_universalNewlines hhead honly.head_ne),
      crlf_universalNewlines honly]

/-- **Which texts a form leaves as they are.** -/
theorem postedText_eq_iff {text : String} : postedText text = text ↔ SurvivesForm text := by
  unfold postedText
  rw [← String.toList_inj, String.toList_ofList, submitted_page_eq_iff]
  exact ⟨fun h => ⟨h.1, h.2.1, h.2.2⟩, fun h => ⟨h.1, h.2, h.3⟩⟩

/-! ## Opening and saving -/

section Editing

variable [Unicode] {profilesRoot : List (Segment String)} {name relpath : String} {fs : Files}
  {profileDir file : Path String} {text : String}

/-- The page of a text. -/
def pageOf (name relpath text : String) : EditPage where
  action := escape (formAction name relpath)
  content := escape (universalNewlines false text.toList)

omit [Unicode] in
theorem fromUTF8?_eq_some_iff {bytes : ByteArray} :
    String.fromUTF8? bytes = some text ↔ bytes = text.toUTF8 := by
  unfold String.fromUTF8?
  constructor
  · intro h
    split at h
    · cases h
      rfl
    · cases h
  · rintro rfl
    exact dif_pos text.isValidUTF8

/-- Which files the page offers for editing. -/
theorem editOverlayFile_eq_some_iff {page : EditPage}
    (hprofile : safeProfilePath fs profilesRoot name = .ok profileDir)
    (hfile : safeOverlayPath fs profileDir relpath = .ok file) :
    editOverlayFile profilesRoot name fs relpath = .ok (some page) ↔
      '\n' ∉ relpath.toList ∧ ∃ text : String,
        fs.lookup file = some (.file text.toUTF8) ∧ page = pageOf name relpath text := by
  have hdirect := direct_of_settled (settled_of_accepted hfile)
  unfold editOverlayFile
  by_cases hline : '\n' ∈ relpath.toList
  · simp [hline]
  · simp only [hline, if_false, not_false_eq_true, true_and, hprofile, hfile]
    by_cases hlookup : ∃ bytes, fs.lookup file = some (.file bytes)
    · obtain ⟨bytes, hlookup⟩ := hlookup
      rw [FileSystem.isFile_of_file hlookup, FileSystem.readFile_of_file hlookup, hlookup]
      simp only [Bool.true_eq_false, if_false, Option.some.injEq, Node.file.injEq]
      cases htext : String.fromUTF8? bytes with
      | none =>
        simp only [Except.ok.injEq, reduceCtorEq, false_iff]
        rintro ⟨text, hbytes, -⟩
        rw [fromUTF8?_eq_some_iff.mpr hbytes] at htext
        cases htext
      | some text =>
        simp only [Except.ok.injEq, Option.some.injEq]
        constructor
        · rintro rfl
          exact ⟨text, fromUTF8?_eq_some_iff.mp htext, rfl⟩
        · rintro ⟨text', hbytes, rfl⟩
          rw [fromUTF8?_eq_some_iff.mpr hbytes] at htext
          cases htext
          rfl
    · have hisFile : fs.isFile file = false := by
        rw [Bool.eq_false_iff]
        exact fun hisFile => hlookup (FileSystem.isFile_eq_true hdirect hisFile)
      simp only [hisFile, if_true, reduceCtorEq, false_iff]
      rintro ⟨text, htext, -⟩
      exact hlookup ⟨_, htext⟩

omit [Unicode] in
/-- A request whose two checks pass is about the one file that they give. -/
theorem forall_accepted_iff {profileDir file : Path String} {P : Path String → Prop}
    (hfile : safeOverlayPath fs profileDir relpath = .ok file) :
    (∀ dir file', (Except.ok profileDir : Except OverlayFailure (Path String)) = .ok dir →
      safeOverlayPath fs dir relpath = .ok file' → P file') ↔ P file := by
  constructor
  · intro h
    exact h profileDir file rfl hfile
  · intro h dir file' hdir hfile'
    cases hdir
    rw [hfile] at hfile'
    cases hfile'
    exact h

/-- When saving a text at a path changes no file. -/
theorem sameFiles_save_iff : SameFiles fs (saveOverlayFile OverlayDisk.working profilesRoot name fs
      relpath (RawText.ofString text)).fs ↔
    ∀ profileDir file, safeProfilePath fs profilesRoot name = .ok profileDir →
      safeOverlayPath fs profileDir relpath = .ok file → OverlayDisk.CanStore fs file →
        fs.lookup file = some (.file text.toUTF8) := by
  unfold saveOverlayFile
  cases hprofile : safeProfilePath fs profilesRoot name with
  | error err => exact ⟨fun _ _ _ h => (nomatch h), fun _ _ _ => Iff.rfl⟩
  | ok profileDir =>
    dsimp only
    cases hfile : safeOverlayPath fs profileDir relpath with
    | error err =>
      refine ⟨fun _ dir file hdir hfile' => ?_, fun _ _ _ => Iff.rfl⟩
      cases hdir
      rw [hfile] at hfile'
      cases hfile'
    | ok file =>
      dsimp only
      rw [OverlayDisk.sameFiles_store_iff (settled_of_accepted hfile)]
      exact (forall_accepted_iff (P := fun file => OverlayDisk.CanStore fs file →
        fs.lookup file = some (.file text.toUTF8)) hfile).symm

/-- When a deletion at a path changes no file. -/
theorem sameFiles_delete_iff :
    SameFiles fs (deleteOverlayFile OverlayDisk.working profilesRoot name fs relpath).fs ↔
      ∀ profileDir file, safeProfilePath fs profilesRoot name = .ok profileDir →
        safeOverlayPath fs profileDir relpath = .ok file →
        ∀ bytes, fs.lookup file ≠ some (.file bytes) := by
  unfold deleteOverlayFile
  cases hprofile : safeProfilePath fs profilesRoot name with
  | error err => exact ⟨fun _ _ _ h => (nomatch h), fun _ _ _ => Iff.rfl⟩
  | ok profileDir =>
    dsimp only
    cases hfile : safeOverlayPath fs profileDir relpath with
    | error err =>
      refine ⟨fun _ dir file hdir hfile' => ?_, fun _ _ _ => Iff.rfl⟩
      cases hdir
      rw [hfile] at hfile'
      cases hfile'
    | ok file =>
      dsimp only
      rw [OverlayDisk.sameFiles_removeFile_iff (settled_of_accepted hfile)]
      exact (forall_accepted_iff (P := fun file => ∀ bytes,
        fs.lookup file ≠ some (.file bytes)) hfile).symm

/-- For every file that the page offers, of a path at which a file may be created, opening it and
submitting the page changes no file. -/
def EditingKeepsFiles (client : List Char → List Char) (elsewhere : List Char → Files → Files)
    (profilesRoot : List (Segment String)) (name relpath : String) (fs : Files) : Prop :=
  ∀ profileDir file page, safeProfilePath fs profilesRoot name = .ok profileDir →
    strip relpath ≠ "" → safeOverlayPath fs profileDir (strip relpath) = .ok file →
    editOverlayFile profilesRoot name fs (strip relpath) = .ok (some page) →
    SameFiles fs (submitPage client elsewhere profilesRoot page fs)

/-- Where the page of `file` is submitted, nothing is lost: a deletion finds no file; a file that
is saved is the one that was opened, and its text survives, or another one that cannot be saved or
holds what is posted; another route leaves the files as they are. -/
def SubmitsSafely (client : List Char → List Char) (elsewhere : List Char → Files → Files)
    (profilesRoot : List (Segment String)) (name relpath : String) (fs : Files)
    (file : Path String) (text : String) : Prop :=
  match postRoute (client (formAction name relpath)) with
  | .delete other path => ∀ profileDir target,
      safeProfilePath fs profilesRoot other = .ok profileDir →
      safeOverlayPath fs profileDir path = .ok target →
      ∀ bytes, fs.lookup target ≠ some (.file bytes)
  | .save other path => ∀ profileDir target,
      safeProfilePath fs profilesRoot other = .ok profileDir →
      safeOverlayPath fs profileDir path = .ok target →
      (target = file → SurvivesForm text) ∧
        (target ≠ file → OverlayDisk.CanStore fs target →
          fs.lookup target = some (.file (postedText text).toUTF8))
  | .elsewhere => SameFiles fs (elsewhere (client (formAction name relpath)) fs)

omit [Unicode] in
theorem canStore_of_file {bytes : ByteArray} (h : fs.lookup file = some (.file bytes)) :
    OverlayDisk.CanStore fs file where
  parents q hq := .inr (FileSystem.lookup_of_isPrefix hq (FileSystem.lookup_dropLast h))
  no_directory := by
    rw [h]
    exact nofun
  no_link := FileSystem.links_eq_none_of_file h

/-- What a submission of the page does, route by route. -/
theorem sameFiles_submitPage_iff {client : List Char → List Char}
    {elsewhere : List Char → Files → Files} (h : fs.lookup file = some (.file text.toUTF8)) :
    SameFiles fs (submitPage client elsewhere profilesRoot (pageOf name relpath text) fs) ↔
      SubmitsSafely client elsewhere profilesRoot name relpath fs file text := by
  unfold submitPage pageOf postForm SubmitsSafely
  dsimp only
  rw [unescape_escape]
  cases postRoute (client (formAction name relpath)) with
  | delete other path => exact sameFiles_delete_iff
  | elsewhere => exact Iff.rfl
  | save other path =>
    refine sameFiles_save_iff.trans ?_
    refine forall_congr' fun profileDir => forall_congr' fun target =>
      forall_congr' fun _ => forall_congr' fun _ => ?_
    by_cases htarget : target = file
    · subst htarget
      have hcan := canStore_of_file h
      simp only [hcan, forall_const, ne_eq, not_true_eq_false, IsEmpty.forall_iff, and_true]
      rw [h, ← postedText_eq_iff, Option.some.injEq, Node.file.injEq]
      exact ⟨fun heq => (String.toByteArray_inj.mp heq).symm, fun heq => by
        rw [show String.ofList _ = text from heq]⟩
    · exact ⟨fun hsave => ⟨fun heq => absurd heq htarget, fun _ => hsave⟩,
        fun hsave => hsave.2 htarget⟩

/-- **When opening an overlay file and saving it changes no file.** -/
theorem editingKeepsFiles_iff (client : List Char → List Char)
    (elsewhere : List Char → Files → Files) (profilesRoot : List (Segment String))
    (name relpath : String) (fs : Files) :
    EditingKeepsFiles client elsewhere profilesRoot name relpath fs ↔
      ∀ profileDir file text, safeProfilePath fs profilesRoot name = .ok profileDir →
        strip relpath ≠ "" → safeOverlayPath fs profileDir (strip relpath) = .ok file →
        '\n' ∉ (strip relpath).toList → fs.lookup file = some (.file text.toUTF8) →
        SubmitsSafely client elsewhere profilesRoot name (strip relpath) fs file text := by
  constructor
  · intro h profileDir file text hprofile hstrip hfile hline htext
    refine (sameFiles_submitPage_iff htext).mp (h profileDir file _ hprofile hstrip hfile ?_)
    exact (editOverlayFile_eq_some_iff hprofile hfile).mpr ⟨hline, text, htext, rfl⟩
  · intro h profileDir file page hprofile hstrip hfile hpage
    obtain ⟨hline, text, htext, rfl⟩ := (editOverlayFile_eq_some_iff hprofile hfile).mp hpage
    exact (sameFiles_submitPage_iff htext).mpr
      (h profileDir file text hprofile hstrip hfile hline htext)

/-! ## A form that is posted to its own path -/

omit [Unicode] in
theorem overlayMatch_formAction (hname : '/' ∉ name.toList) (hne : name ≠ "") :
    overlayMatch (formAction name relpath) = some (name.toList, relpath.toList) := by
  have hall : ∀ c ∈ name.toList, (c != '/') = true := by
    intro c hc
    rw [bne_iff_ne]
    rintro rfl
    exact hname hc
  obtain ⟨tail, htail⟩ : ∃ tail, "/overlay/".toList = '/' :: tail :=
    ⟨"overlay/".toList, by decide⟩
  unfold overlayMatch formAction
  generalize "/dashboard/profiles/".toList = start
  generalize "/overlay/".toList = middle at htail ⊢
  subst htail
  have htake : (name.toList ++ '/' :: (tail ++ relpath.toList)).takeWhile (· != '/') =
      name.toList := by
    rw [List.takeWhile_append_of_pos hall]
    simp
  have hdrop : (name.toList ++ '/' :: (tail ++ relpath.toList)).dropWhile (· != '/') =
      '/' :: (tail ++ relpath.toList) := by
    rw [List.dropWhile_append_of_pos hall]
    simp
  have hnonempty : name.toList ≠ [] := by simpa using hne
  simp [htake, hdrop, hnonempty]

omit [Unicode] in
theorem postRoute_formAction (hname : '/' ∉ name.toList) (hne : name ≠ "")
    (hline : '\n' ∉ relpath.toList) (hdelete : ¬ "/delete".toList <:+ relpath.toList) :
    postRoute (formAction name relpath) = .save name relpath := by
  have hend : beforeEnd relpath.toList = relpath.toList := by
    unfold beforeEnd
    rw [if_neg]
    intro hlast
    exact hline (List.mem_of_getLast? hlast)
  unfold postRoute
  rw [overlayMatch_formAction hname hne]
  dsimp only
  rw [hend, if_neg hline, if_neg hdelete, String.ofList_toList, String.ofList_toList]

/-- A file whose form comes back to it keeps its bytes exactly when its text survives the form. -/
theorem submitsSafely_own_path_iff {client : List Char → List Char}
    {elsewhere : List Char → Files → Files}
    (hclient : client (formAction name relpath) = formAction name relpath)
    (hname : '/' ∉ name.toList) (hne : name ≠ "") (hline : '\n' ∉ relpath.toList)
    (hdelete : ¬ "/delete".toList <:+ relpath.toList)
    (hprofile : safeProfilePath fs profilesRoot name = .ok profileDir)
    (hfile : safeOverlayPath fs profileDir relpath = .ok file) :
    SubmitsSafely client elsewhere profilesRoot name relpath fs file text ↔
      SurvivesForm text := by
  unfold SubmitsSafely
  rw [hclient, postRoute_formAction hname hne hline hdelete]
  constructor
  · intro h
    exact (h profileDir file hprofile hfile).1 rfl
  · intro h dir target hdir htarget
    rw [hprofile] at hdir
    cases hdir
    rw [hfile] at htarget
    cases htarget
    exact ⟨fun _ => h, fun hne => absurd rfl hne⟩

end Editing

section Examples

attribute [local instance] ascii

/-- A file of one line in the overlay. -/
def motdFiles : Files :=
  labFiles.put ["profiles", "lab", "overlay"] "motd" (.file "hi\n".toUTF8) rfl (by decide)

/-- The line of a file that ends with `\n` ends with `\r\n` after it was saved. -/
theorem not_editingKeepsFiles :
    ¬ ∀ (profilesRoot : List (Segment String)) (name relpath : String) (fs : Files),
      EditingKeepsFiles id (fun _ fs => fs) profilesRoot name relpath fs := by
  intro h
  have hmotd : motdFiles.lookup ["profiles", "lab", "overlay", "motd"] =
      some (.file "hi\n".toUTF8) := FileSystem.lookup_put _ _ _
  have hother : ∀ p, p ≠ ["profiles", "lab", "overlay", "motd"] →
      motdFiles.lookup p = labFiles.lookup p := fun p hp =>
    (FileSystem.lookup_put _ _ p).trans (if_neg hp)
  have hoverlay : motdFiles.lookup ["profiles", "lab", "overlay"] = some .directory :=
    hother _ (by decide)
  have hlab : motdFiles.lookup ["profiles", "lab"] = some .directory := hother _ (by decide)
  have hprofiles : motdFiles.lookup ["profiles"] = some .directory := hother _ (by decide)
  have hroot : overlayRoot motdFiles ["profiles", "lab"] = ["profiles", "lab", "overlay"] :=
    realpath_of_directory hoverlay
  have hvalid : isProfileName "lab" = true := by decide +kernel
  have hprofile : safeProfilePath motdFiles [.name "profiles"] "lab" =
      .ok ["profiles", "lab"] := by
    have hcandidate : motdFiles.realpath ([.name "profiles"] ++ [.name "lab"]) =
        ["profiles", "lab"] := realpath_of_directory hlab
    have hstart : motdFiles.realpath [.name "profiles"] = ["profiles"] :=
      realpath_of_directory hprofiles
    simp only [safeProfilePath, hvalid, hcandidate, hstart]
    rfl
  have hfile : safeOverlayPath motdFiles ["profiles", "lab"] "motd" =
      .ok ["profiles", "lab", "overlay", "motd"] := by
    refine safeOverlayPath_eq_ok_iff.mpr ⟨by decide +kernel, by decide +kernel, ?_, ?_⟩
    · rw [hroot]
      decide
    · rw [hroot]
      exact realpath_of_parent hoverlay (FileSystem.links_eq_none_of_file hmotd)
  have hstrip : strip "motd" = "motd" := by decide +kernel
  have hkeeps := h [.name "profiles"] "lab" "motd" motdFiles
  have hsafe := (sameFiles_submitPage_iff hmotd).mp
    (hkeeps _ _ (pageOf "lab" "motd" "hi\n") hprofile (by rw [hstrip]; decide)
      (hstrip ▸ hfile) (hstrip.symm ▸ (editOverlayFile_eq_some_iff hprofile hfile).mpr
        ⟨by decide, "hi\n", hmotd, rfl⟩))
  have hsurvives := (submitsSafely_own_path_iff rfl (by decide) (by decide) (by decide)
    (by decide +kernel) hprofile hfile).mp hsafe
  have hchars : "hi\n".toList = ['h', 'i', '\n'] := by decide
  have honly := hsurvives.only_crlf
  rw [hchars] at honly
  simp [OnlyCrlf] at honly

end Examples

end Fleetboot
