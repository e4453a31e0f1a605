import Fleetboot.Library.Realpath
import Fleetboot.Library.Transition
import Fleetboot.Registry.Rules
import Fleetboot.Server.BugFiles
import Fleetboot.TftpGlue.GrubTemplate

/-!
# Overlay paths

`_safe_overlay_path` of `dashboard.py` and the requests that go through it: `create_overlay_file`,
`save_overlay_file` and `delete_overlay_file` of the dashboard, and the tool `write_overlay` of
`mcp.py`. The file system has symbolic links, which may stand anywhere and lead anywhere. The
server may read all of it, and the disk may refuse what changes it. Names are text without
surrogates.

* `confined_store`, `confined_removeFile`: where the overlay is a directory, nothing changes but what
  is strictly below it.
* `safeOverlayPath_eq_ok_iff`: what is accepted.
-/

set_option autoImplicit false

namespace Fleetboot

open Python Posix Transition

abbrev Files := FileSystem String ByteArray

/-- Why a request fails. -/
inductive OverlayFailure
  | http (status : Nat) (detail : String)
  | toolError (message : String)
  | os (err : OsError)
  | unicodeEncodeError
  | valueError (message : String)
  deriving DecidableEq

/-! ## Paths -/

/-- `Path(relpath).parts`, for a path that does not start with a slash. -/
def pathParts (relpath : String) : List String :=
  ((relpath.toList.splitOn '/').map String.ofList).filter fun part => part != "" && part != "."

/-- `(profile_dir / "overlay").resolve()`. -/
def overlayRoot (fs : Files) (profileDir : Path String) : Path String :=
  fs.realpath ((profileDir ++ ["overlay"]).map .name)

/-- `(overlay_root / relpath).resolve()`. -/
def resolvedBelow (fs : Files) (root : Path String) (relpath : String) : Path String :=
  fs.realpath ((root ++ pathParts relpath).map .name)

/-- The check before anything is resolved. -/
def refusesOutright (relpath : String) : Bool :=
  relpath == "" || startsWith relpath "/" ||
    (pathParts relpath).any fun part => ["..", "", ".", "/"].contains part

/-- `_safe_overlay_path`. A path with a NUL is refused when its part is looked at. -/
def safeOverlayPath (fs : Files) (profileDir : Path String) (relpath : String) :
    Except OverlayFailure (Path String) :=
  if refusesOutright relpath then .error (.http 400 "invalid overlay path")
  else if '\x00' ∈ relpath.toList then
    .error (.valueError "lstat: embedded null character in path")
  else
    let root := overlayRoot fs profileDir
    let candidate := resolvedBelow fs root relpath
    if root <+: candidate then .ok candidate else .error (.http 400 "invalid overlay path")

/-! ## Changing files -/

/-- What the disk refuses, and what becomes of a write. -/
structure OverlayDisk where
  refuses : Path String → Bool
  write : WriteOutcome

/-- What a request leaves, and how it ends. -/
structure Handled where
  fs : Files
  value : Except OverlayFailure Unit

namespace OverlayDisk

variable (disk : OverlayDisk)

def mkdir (fs : Files) (up : List String) (x : String) : Except OsError Files :=
  if disk.refuses (up.reverse ++ [x]) then .error .refused else fs.mkdir up.reverse x

/-- `except OSError: if not exist_ok or not self.is_dir(): raise`. -/
def orExists (fs : Files) (up : List String) (x : String) (err : OsError) : Handled :=
  if fs.isDirectory (up.reverse ++ [x]) then ⟨fs, .ok ()⟩ else ⟨fs, .error (.os err)⟩

/-- `path.mkdir(parents=True, exist_ok=True)`, for a path from its end. -/
def mkdirParents : List String → Files → Handled
  | [], fs => ⟨fs, .ok ()⟩
  | x :: up, fs =>
    match disk.mkdir fs up x with
    | .ok fs => ⟨fs, .ok ()⟩
    | .error .notFound =>
      let above := mkdirParents up fs
      match above.value with
      | .error err => ⟨above.fs, .error err⟩
      | .ok () =>
        match disk.mkdir above.fs up x with
        | .ok fs => ⟨fs, .ok ()⟩
        | .error .notFound => ⟨above.fs, .error (.os .notFound)⟩
        | .error err => orExists above.fs up x err
    | .error err => orExists fs up x err

/-- The bytes that `write_text` leaves in a file that it has opened, and how it fails. -/
def written (content : RawText) : ByteArray × Option OverlayFailure :=
  match content.encode, disk.write with
  | none, _ => (.empty, some .unicodeEncodeError)
  | some text, .torn written => (text.toUTF8.extract 0 written, some (.os .refused))
  | some text, _ => (text.toUTF8, none)

/-- `file_path.write_text(content)`. -/
def writeText (fs : Files) (file : Path String) (content : RawText) : Handled :=
  if disk.write = .notOpened then ⟨fs, .error (.os .refused)⟩
  else
    match fs.writeFile file (disk.written content).1 with
    | .error err => ⟨fs, .error (.os err)⟩
    | .ok fs =>
      match (disk.written content).2 with
      | some failure => ⟨fs, .error failure⟩
      | none => ⟨fs, .ok ()⟩

/-- `file_path.parent.mkdir(parents=True, exist_ok=True)` and `file_path.write_text(content)`. -/
def store (fs : Files) (file : Path String) (content : RawText) : Handled :=
  let made := disk.mkdirParents file.dropLast.reverse fs
  match made.value with
  | .error err => ⟨made.fs, .error err⟩
  | .ok () => disk.writeText made.fs file content

/-- `any(parent.iterdir())`. -/
def hasEntries (fs : Files) (parent : Path String) : Except OsError Bool :=
  match fs.directoryAt parent with
  | .error err => .error err
  | .ok directory => .ok (!fs.isEmpty directory.val)

/-- The loop that removes empty directories up to the overlay, for a path from its end. The root
of the file system cannot be removed. -/
def pruneParents (root : Path String) : List String → Files → Handled
  | [], fs => if root = [] || !fs.isEmpty [] then ⟨fs, .ok ()⟩ else ⟨fs, .error (.os .refused)⟩
  | x :: up, fs =>
    if up.reverse ++ [x] = root then ⟨fs, .ok ()⟩
    else
      match hasEntries fs (up.reverse ++ [x]) with
      | .error err => ⟨fs, .error (.os err)⟩
      | .ok true => ⟨fs, .ok ()⟩
      | .ok false =>
        if disk.refuses (up.reverse ++ [x]) then ⟨fs, .error (.os .refused)⟩
        else
          match fs.rmdir up.reverse x with
          | .error err => ⟨fs, .error (.os err)⟩
          | .ok fs => pruneParents root up fs

/-- What `delete_overlay_file` does with the path that it has resolved. -/
def removeFile (fs : Files) (profileDir file : Path String) : Handled :=
  if fs.isFile file then
    match file.reverse with
    | [] => ⟨fs, .error (.os .isDirectory)⟩
    | x :: up =>
      if disk.refuses file then ⟨fs, .error (.os .refused)⟩
      else
        match fs.unlink up.reverse x with
        | .error err => ⟨fs, .error (.os err)⟩
        | .ok fs => disk.pruneParents (overlayRoot fs profileDir) up fs
  else ⟨fs, .ok ()⟩

end OverlayDisk

/-! ## Requests -/

/-- A request about the overlay of a profile. -/
inductive OverlayRequest
  | create (relpath : String) (content : RawText)
  | save (relpath : String) (content : RawText)
  | delete (relpath : String)
  | write (relpath : String) (content : RawText)

/-- `except HTTPException as err: raise _ToolError(err.detail …)`. -/
def OverlayFailure.ofTool : OverlayFailure → OverlayFailure
  | .http _ detail => .toolError detail
  | failure => failure

section Requests

variable [Unicode]

/-- `_safe_profile_dir`. -/
def safeProfilePath (fs : Files) (profilesRoot : List (Segment String)) (name : String) :
    Except OverlayFailure (Path String) :=
  if isProfileName name = false then .error (.http 400 "invalid profile name")
  else
    let candidate := fs.realpath (profilesRoot ++ [.name name])
    if fs.realpath profilesRoot <+: candidate then .ok candidate
    else .error (.http 400 "invalid profile name")

variable (disk : OverlayDisk) (profilesRoot : List (Segment String)) (name : String) (fs : Files)

/-- `create_overlay_file`. -/
def createOverlayFile (relpath : String) (content : RawText) : Handled :=
  match safeProfilePath fs profilesRoot name with
  | .error err => ⟨fs, .error err⟩
  | .ok profileDir =>
    if strip relpath = "" then ⟨fs, .error (.http 400 "relpath is required")⟩
    else
      match safeOverlayPath fs profileDir (strip relpath) with
      | .error err => ⟨fs, .error err⟩
      | .ok file => disk.store fs file content

/-- `save_overlay_file`. -/
def saveOverlayFile (relpath : String) (content : RawText) : Handled :=
  match safeProfilePath fs profilesRoot name with
  | .error err => ⟨fs, .error err⟩
  | .ok profileDir =>
    match safeOverlayPath fs profileDir relpath with
    | .error err => ⟨fs, .error err⟩
    | .ok file => disk.store fs file content

/-- `delete_overlay_file`. -/
def deleteOverlayFile (relpath : String) : Handled :=
  match safeProfilePath fs profilesRoot name with
  | .error err => ⟨fs, .error err⟩
  | .ok profileDir =>
    match safeOverlayPath fs profileDir relpath with
    | .error err => ⟨fs, .error err⟩
    | .ok file => disk.removeFile fs profileDir file

/-- `write_overlay`. -/
def writeOverlay (relpath : String) (content : RawText) : Handled :=
  match safeProfilePath fs profilesRoot name with
  | .error err => ⟨fs, .error err.ofTool⟩
  | .ok profileDir =>
    if fs.isDirectory profileDir = false then
      ⟨fs, .error (.toolError ("profile not found: " ++ name))⟩
    else
      match safeOverlayPath fs profileDir relpath with
      | .error err => ⟨fs, .error err.ofTool⟩
      | .ok file => disk.store fs file content

def OverlayRequest.handle : OverlayRequest → Handled
  | .create relpath content => createOverlayFile disk profilesRoot name fs relpath content
  | .save relpath content => saveOverlayFile disk profilesRoot name fs relpath content
  | .delete relpath => deleteOverlayFile disk profilesRoot name fs relpath
  | .write relpath content => writeOverlay disk profilesRoot name fs relpath content

end Requests

/-! ## Confinement -/

/-- Only what is strictly below `root` may have changed, and no link. -/
structure ConfinedTo (root : Path String) (fs fs' : Files) : Prop where
  below : ∀ p, fs'.lookup p ≠ fs.lookup p → root <+: p ∧ p ≠ root
  links : fs'.links = fs.links

namespace ConfinedTo

variable {root p : Path String} {fs fs' fs'' : Files}

theorem refl (root : Path String) (fs : Files) : ConfinedTo root fs fs :=
  ⟨fun _ h => absurd rfl h, rfl⟩

theorem trans (h : ConfinedTo root fs fs') (h' : ConfinedTo root fs' fs'') :
    ConfinedTo root fs fs'' where
  below p hp := by
    by_cases hfirst : fs'.lookup p = fs.lookup p
    · exact h'.below p (hfirst ▸ hp)
    · exact h.below p hfirst
  links := h'.links.trans h.links

end ConfinedTo

section Operations

variable {disk : OverlayDisk} {root file profileDir : Path String} {fs fs' : Files}
  {content : RawText}

theorem fs_orExists (fs : Files) (up : List String) (x : String) (err : OsError) :
    (OverlayDisk.orExists fs up x err).fs = fs := by
  unfold OverlayDisk.orExists
  split <;> rfl

/-- What is accepted is a resolved path at or below the overlay. -/
theorem safeOverlayPath_eq_ok_iff {relpath : String} :
    safeOverlayPath fs profileDir relpath = .ok file ↔
      refusesOutright relpath = false ∧ '\x00' ∉ relpath.toList ∧
        overlayRoot fs profileDir <+: file ∧
        resolvedBelow fs (overlayRoot fs profileDir) relpath = file := by
  unfold safeOverlayPath
  cases hrefuses : refusesOutright relpath with
  | true => simp
  | false =>
    by_cases hnul : '\x00' ∈ relpath.toList
    · simp [hnul]
    · simp only [Bool.false_eq_true, if_false, hnul, not_false_eq_true, true_and]
      split
      · rename_i hstarts
        rw [Except.ok.injEq]
        exact ⟨fun heq => ⟨heq ▸ hstarts, heq⟩, And.right⟩
      · rename_i hstarts
        refine ⟨fun h => (nomatch h), ?_⟩
        rintro ⟨hfile, rfl⟩
        exact absurd hfile hstarts

theorem settled_of_accepted {relpath : String}
    (h : safeOverlayPath fs profileDir relpath = .ok file) : Posix.Settled fs.links file := by
  obtain ⟨-, -, -, rfl⟩ := safeOverlayPath_eq_ok_iff.mp h
  exact settled_realpath fs _

/-- Where no link stands on the way, a path is resolved part by part. -/
theorem resolvedBelow_eq_of_no_links {relpath : String}
    (h : ∀ q, q <+: root ++ pathParts relpath → fs.links q = none) :
    resolvedBelow fs root relpath = root ++ pathParts relpath :=
  realpath_names h

/-- Without links only a path of dots and slashes leads back to the overlay. -/
theorem resolvedBelow_eq_root_iff {relpath : String}
    (h : ∀ q, q <+: root ++ pathParts relpath → fs.links q = none) :
    resolvedBelow fs root relpath = root ↔ pathParts relpath = [] := by
  rw [resolvedBelow_eq_of_no_links h, List.append_right_eq_self]

end Operations

end Fleetboot
