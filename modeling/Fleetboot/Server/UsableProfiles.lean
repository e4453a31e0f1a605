import Mathlib.Data.List.Sort
import Fleetboot.Profiles.SaveSteps
import Fleetboot.Server.OverlayPaths

/-!
# Which profiles are listed, and which can be used

`_list_profile_names` and `_safe_profile_dir` of `dashboard.py`, on a directory with any entries
under any names: directories, files and links to anywhere. Enrolment asks the first, and
`edit_profile` and `trigger_build` of the dashboard and the tool `start_build` ask the second. The
server may read all of it.

* `mem_listProfileNames_iff`: what is listed.
* `listedUsable_iff`: when the two describe the same profiles.
-/

set_option autoImplicit false

namespace Fleetboot

open Python Posix

/-- The disk, with the path of the profiles on it. A name that is not UTF-8 has surrogates. -/
structure ProfilesDisk where
  fs : FileSystem RawText ByteArray
  profilesRoot : List (Segment RawText)

namespace ProfilesDisk

/-- `profiles_root / name`, for a name that is one part. -/
def profilePath (s : ProfilesDisk) (name : RawText) : List (Segment RawText) :=
  s.profilesRoot ++ [.name name]

/-- `profiles_root.iterdir()`. -/
def iterdir (s : ProfilesDisk) : Except OsError (List RawText) :=
  match s.fs.walk 40 [] s.profilesRoot with
  | .error err => .error err
  | .ok p =>
    match s.fs.lookup p with
    | some .directory => .ok (s.fs.names p)
    | some _ => .error .notDirectory
    | none => .error .notFound

/-- `_list_profile_names`. What is a directory can be listed. -/
def listProfileNames (s : ProfilesDisk) : List RawText :=
  if s.fs.isDirectoryAlong s.profilesRoot = false then []
  else
    match s.iterdir with
    | .error _ => []
    | .ok names =>
      (names.filter fun name => s.fs.isDirectoryAlong (s.profilePath name)).insertionSort
        RawText.Le

section Requests

variable [Unicode] (s : ProfilesDisk) (name : RawText)

/-- `_safe_profile_dir`. -/
def safeProfileDir : Except OverlayFailure (Path RawText) :=
  if acceptsName name = false then .error (.http 400 "invalid profile name")
  else
    let candidate := s.fs.realpath (s.profilePath name)
    if s.fs.realpath s.profilesRoot <+: candidate then .ok candidate
    else .error (.http 400 "invalid profile name")

/-- The directory that `edit_profile` shows. -/
def editProfile : Except OverlayFailure (Path RawText) :=
  match s.safeProfileDir name with
  | .error failure => .error failure
  | .ok profileDir =>
    if s.fs.isDirectory profileDir then .ok profileDir
    else .error (.http 404 "profile not found")

/-- What `trigger_build` checks before it starts a build. -/
def triggerBuild : Except OverlayFailure Unit :=
  match s.safeProfileDir name with
  | .error failure => .error failure
  | .ok _ =>
    if s.fs.isDirectoryAlong (s.profilePath name) then .ok ()
    else .error (.http 404 "profile not found")

/-- What `start_build` checks before it starts a build. A name that is accepted is text. -/
def startBuild : Except OverlayFailure Unit :=
  match s.safeProfileDir name with
  | .error failure => .error failure.ofTool
  | .ok pdir =>
    if s.fs.isDirectory pdir then .ok ()
    else .error (.toolError ("profile not found: " ++ name.encode.getD ""))

/-- A profile can be opened, saved and built: `save_profile` finds a directory to write to. -/
structure Usable : Prop where
  opened : ∃ profileDir, s.editProfile name = .ok profileDir
  saved : ∃ profileDir, s.safeProfileDir name = .ok profileDir ∧ s.fs.isDirectory profileDir = true
  triggered : s.triggerBuild name = .ok ()
  started : s.startBuild name = .ok ()

/-- What is listed is accepted and can be used, and what is accepted and is there is listed. -/
structure ListedUsable : Prop where
  accepted : ∀ name ∈ s.listProfileNames, ∃ profileDir, s.safeProfileDir name = .ok profileDir
  usable : ∀ name ∈ s.listProfileNames, s.Usable name
  listed : ∀ name profileDir, s.safeProfileDir name = .ok profileDir →
    s.fs.isDirectory profileDir = true → name ∈ s.listProfileNames

/-- The system finds a directory under a name. -/
def Leads (s : ProfilesDisk) (name : RawText) (q : Path RawText) : Prop :=
  s.fs.walk 40 [] (s.profilePath name) = .ok q ∧ s.fs.lookup q = some .directory

/-- Every directory and every link to one has a name of letters, digits and dashes, no link leads
out of the profiles, and what a path under such a name says, the system can follow. -/
structure Conventional : Prop where
  named : ∀ name q, s.Leads name q → acceptsName name = true
  inside : ∀ name q, s.Leads name q → s.fs.realpath s.profilesRoot <+: q
  followed : ∀ name, acceptsName name = true →
    s.fs.realpath s.profilesRoot <+: s.fs.realpath (s.profilePath name) →
    s.fs.lookup (s.fs.realpath (s.profilePath name)) = some .directory →
    ∃ q, s.fs.walk 40 [] (s.profilePath name) = .ok q

end Requests

section Listed

variable {s : ProfilesDisk} {name : RawText} {q : Path RawText}

/-- **What is listed** is what the system finds a directory under. -/
theorem mem_listProfileNames_iff : name ∈ s.listProfileNames ↔ ∃ q, s.Leads name q := by
  unfold listProfileNames iterdir
  constructor
  · intro h
    split at h
    · cases h
    · split at h
      · cases h
      · rw [List.mem_insertionSort, List.mem_filter] at h
        exact FileSystem.isDirectoryAlong_iff.mp h.2
  · rintro ⟨q, hwalk, hdir⟩
    obtain ⟨r, hroot, hr, hname⟩ :=
      FileSystem.mem_names_of_walk hwalk (hdir ▸ Option.some_ne_none _)
    rw [if_neg, hroot]
    · simp only [hr]
      rw [List.mem_insertionSort, List.mem_filter]
      exact ⟨hname, FileSystem.isDirectoryAlong_iff.mpr ⟨q, hwalk, hdir⟩⟩
    · rw [FileSystem.isDirectoryAlong_iff.mpr ⟨r, hroot, hr⟩]
      exact Bool.noConfusion

theorem Leads.realpath_eq (h : s.Leads name q) : s.fs.realpath (s.profilePath name) = q := by
  obtain ⟨n, hends⟩ := ends_of_walk h.1
  exact realpath_eq_of_ends hends

variable [Unicode] {profileDir : Path RawText}

theorem safeProfileDir_eq_ok_iff : s.safeProfileDir name = .ok profileDir ↔
    acceptsName name = true ∧
      s.fs.realpath s.profilesRoot <+: s.fs.realpath (s.profilePath name) ∧
      s.fs.realpath (s.profilePath name) = profileDir := by
  unfold safeProfileDir
  split
  · rename_i hname
    simp [hname]
  · rename_i hname
    dsimp only
    split
    · rename_i hinside
      simp [hname, hinside]
    · rename_i hinside
      simp [hinside]

/-- A directory that is accepted can be opened, saved and built. -/
theorem Leads.usable (h : s.Leads name q) (haccepted : s.safeProfileDir name = .ok q) :
    s.Usable name := by
  have hdir := FileSystem.isDirectory_of_directory h.2
  have halong := FileSystem.isDirectoryAlong_iff.mpr ⟨q, h⟩
  refine ⟨⟨q, ?_⟩, ⟨q, haccepted, hdir⟩, ?_, ?_⟩
  · simp only [editProfile, haccepted, hdir, if_true]
  · simp only [triggerBuild, haccepted, halong, if_true]
  · simp only [startBuild, haccepted, hdir, if_true]

end Listed

end ProfilesDisk

open ProfilesDisk

/-- **When what is listed is what can be used.** On every disk, the names that are listed are
accepted and can be opened, saved and built, and what is accepted and is there is listed, if and only if
every directory and every link to one is named as a profile, no link leads out of the profiles, and
the system can follow every path that ends in a directory when it is resolved by its text. -/
theorem listedUsable_iff [Unicode] (s : ProfilesDisk) : s.ListedUsable ↔ s.Conventional := by
  constructor
  · intro h
    have haccepted : ∀ {name q}, s.Leads name q → acceptsName name = true ∧
        s.fs.realpath s.profilesRoot <+: q := by
      intro name q hleads
      obtain ⟨profileDir, hok⟩ := h.accepted name (mem_listProfileNames_iff.mpr ⟨q, hleads⟩)
      obtain ⟨hname, hinside, -⟩ := safeProfileDir_eq_ok_iff.mp hok
      exact ⟨hname, hleads.realpath_eq ▸ hinside⟩
    refine ⟨fun name q hleads => (haccepted hleads).1, fun name q hleads => (haccepted hleads).2,
      fun name hname hinside hdir => ?_⟩
    have hlisted := h.listed name _ (safeProfileDir_eq_ok_iff.mpr ⟨hname, hinside, rfl⟩)
      (isDirectory_realpath_iff.mpr hdir)
    obtain ⟨q, hwalk, -⟩ := mem_listProfileNames_iff.mp hlisted
    exact ⟨q, hwalk⟩
  · intro h
    have haccepted : ∀ {name q}, s.Leads name q → s.safeProfileDir name = .ok q := by
      intro name q hleads
      refine safeProfileDir_eq_ok_iff.mpr ⟨h.named name q hleads, ?_, hleads.realpath_eq⟩
      rw [hleads.realpath_eq]
      exact h.inside name q hleads
    refine ⟨fun name hlisted => ?_, fun name hlisted => ?_, fun name profileDir hok hdir => ?_⟩
    · obtain ⟨q, hleads⟩ := mem_listProfileNames_iff.mp hlisted
      exact ⟨q, haccepted hleads⟩
    · obtain ⟨q, hleads⟩ := mem_listProfileNames_iff.mp hlisted
      exact hleads.usable (haccepted hleads)
    · obtain ⟨hname, hinside, rfl⟩ := safeProfileDir_eq_ok_iff.mp hok
      have hlookup := isDirectory_realpath_iff.mp hdir
      obtain ⟨q, hwalk⟩ := h.followed name hname hinside hlookup
      obtain ⟨n, hends⟩ := ends_of_walk hwalk
      have hresolved := realpath_eq_of_ends hends
      rw [hresolved] at hlookup
      exact mem_listProfileNames_iff.mpr ⟨q, hwalk, hlookup⟩

section Examples

attribute [local instance] ascii

/-- A directory whose name has an underscore. -/
def underscored : ProfilesDisk where
  fs := {
    entries := ⟨[([RawText.ofString "profiles"], .directory),
      ([RawText.ofString "profiles", RawText.ofString "trail_cam"], .directory)], by decide⟩
    root_absent := rfl
    parent_directory p x node h := by
      have hkey : (p ++ [x]).dropLast = p := List.dropLast_concat
      have hmem := Dict.mem_of_get? h
      simp only [List.mem_cons, Prod.mk.injEq, List.not_mem_nil, or_false] at hmem
      rcases hmem with ⟨heq, -⟩ | ⟨heq, -⟩
      · rw [heq] at hkey
        exact .inl hkey.symm
      · rw [heq] at hkey
        exact .inr (hkey ▸ rfl) }
  profilesRoot := [.name (RawText.ofString "profiles")]

/-- It is listed, and cannot be opened. -/
theorem not_listedUsable : underscored.listProfileNames = [RawText.ofString "trail_cam"] ∧
    ¬ underscored.ListedUsable := by
  have hlisted : underscored.listProfileNames = [RawText.ofString "trail_cam"] := by
    decide +kernel
  refine ⟨hlisted, fun h => ?_⟩
  obtain ⟨profileDir, hok⟩ := h.accepted (RawText.ofString "trail_cam") (by simp [hlisted])
  have hrefused : acceptsName (RawText.ofString "trail_cam") = false := by decide +kernel
  rw [(safeProfileDir_eq_ok_iff.mp hok).1] at hrefused
  cases hrefused

end Examples

end Fleetboot
