import Fleetboot.Library.PurePath
import Fleetboot.Registry.Leftovers
import Fleetboot.Server.BootFiles
import Fleetboot.Server.SoftReboot

/-!
# Files for booting machines

`GET /boot/{token}/{filename}` and `GET /enrol/{token}/authorized_keys` of `app.py`: a machine that
boots fetches its files under the token of its session.

* `isPart_of_allowed`: a name that is let through is the name of a file in a directory.
* `serveBootFile_eq_file_iff`, `serveAuthorizedKeys_eq_file_iff`: which files are served, and to
  whom.
-/

set_option autoImplicit false

namespace Fleetboot

open Python Relational

/-- What the routes answer: 503, 401, 404, a failure of the server, or the file. -/
inductive FileAnswer
  | notConfigured
  | unauthorised
  | notFound
  | failed (err : Exception)
  | file (path : PurePath)

/-- What a route answers that has found the session. -/
def serveFile (isFile : PurePath → Except Exception Bool) (path : PurePath) : FileAnswer :=
  match isFile path with
  | .error err => .failed err
  | .ok false => .notFound
  | .ok true => .file path

/-- `serve_boot_file`: the name is checked before the token. -/
def serveBootFile (bootDir : Option PurePath) (isFile : PurePath → Except Exception Bool)
    (token filename : String) (db : Database) : FileAnswer :=
  match bootDir with
  | none => .notConfigured
  | some bootDir =>
    if isAllowedBootFilename filename = false then .notFound
    else if lookupSession db token = none then .unauthorised
    else serveFile isFile (bootDir.join (.parse filename))

/-- `serve_authorized_keys`. -/
def serveAuthorizedKeys (authorizedKeysPath : Option PurePath)
    (isFile : PurePath → Except Exception Bool) (token : String) (db : Database) : FileAnswer :=
  match authorizedKeysPath with
  | none => .notConfigured
  | some path => if lookupSession db token = none then .unauthorised else serveFile isFile path

theorem serveFile_eq_file_iff {isFile : PurePath → Except Exception Bool} {path path' : PurePath} :
    serveFile isFile path = .file path' ↔ isFile path = .ok true ∧ path' = path := by
  unfold serveFile
  cases isFile path with
  | error err => simp
  | ok found => cases found <;> simp [eq_comm]

/-- A token has a session exactly if it is bound. -/
theorem lookupSession_ne_none_iff {db : Database} {token : String} :
    lookupSession db token ≠ none ↔ ∃ mac, (token, mac) ∈ db.bindings := by
  unfold lookupSession
  rw [Ne, Option.map_eq_none_iff]
  constructor
  · intro hlive
    obtain ⟨row, hrow⟩ := Option.ne_none_iff_exists'.mp hlive
    refine ⟨row.mac, List.mem_map.mpr ⟨row, Table.mem_of_lookup hrow, ?_⟩⟩
    rw [Table.key_of_lookup hrow]
  · rintro ⟨mac, hbound⟩ hnone
    obtain ⟨row, hrow, heq⟩ := List.mem_map.mp hbound
    have htoken : row.token = token := (Prod.mk.inj heq).1
    have hfound := Table.lookup_of_mem hrow rfl
    rw [htoken, hnone] at hfound
    cases hfound

/-- **A name that is let through** is a single part of a path, and not the parent. -/
theorem isPart_of_allowed {filename : String} (h : isAllowedBootFilename filename = true) :
    IsPart filename ∧ filename ≠ ".." := by
  unfold isAllowedBootFilename at h
  split at h
  · rename_i hstatic
    simp only [staticBootFiles, List.mem_cons, List.not_mem_nil, or_false] at hstatic
    rcases hstatic with rfl | rfl <;>
      exact ⟨⟨by decide, by decide, by decide⟩, by decide⟩
  · obtain ⟨first, rest, arch, harch, hfirst, hrest, htext⟩ := profiledSquashfs_rmatch_iff.mp h
    have hstart : '/' ∉ slugStart := by
      rw [mem_slugStart_iff]
      decide
    have harchitecture : '/' ∉ arch.toList := by
      simp only [squashfsArchitectures, List.mem_cons, List.not_mem_nil, or_false] at harch
      rcases harch with rfl | rfl | rfl <;> decide
    have hlong : ∀ {text : String}, text.toList.length < 2 + 1 → filename ≠ text := by
      rintro text hlength rfl
      rw [htext] at hlength
      simp only [List.length_append] at hlength
      have hfront : "fleetboot-".toList.length = 10 := by decide
      omega
    refine ⟨⟨hlong (by decide), hlong (by decide), ?_⟩, hlong (by decide)⟩
    rw [htext]
    simp only [List.mem_append, List.mem_cons, not_or]
    refine ⟨by decide, ⟨⟨fun heq => hstart (heq ▸ hfirst), fun hmem => ?_⟩, by decide,
      harchitecture⟩, by decide⟩
    rcases hrest '/' hmem with hslash | hslash
    · exact hstart hslash
    · exact absurd hslash (by decide)

/-- A part of a path below a directory. -/
theorem join_part {dir path : PurePath} {name : String} (hname : IsPart name) :
    path = dir.join (.parse name) ↔ path.root = dir.root ∧ path.parts = dir.parts ++ [name] := by
  have hempty : PurePath.directoryText [] = [] := rfl
  obtain ⟨hroot, hparts⟩ := @PurePath.join_append_part [] _ dir hname
  have hself : dir.join (.parse "") = dir :=
    (@PurePath.join_directory_iff [] dir List.not_mem_nil).mpr (.inl List.not_mem_nil)
  rw [hempty, String.ofList_nil, String.empty_append] at hroot hparts
  rw [hself] at hroot hparts
  constructor
  · rintro rfl
    exact ⟨hroot, hparts⟩
  · rintro ⟨hroot', hparts'⟩
    exact PurePath.ext (hroot'.trans hroot.symm) (hparts'.trans hparts.symm)

/-- **Which files are served.** Under a token and a name, exactly the file of that name directly in
the boot directory, if the token has a session and the name is the kernel, the initrd or that of an
image. -/
theorem serveBootFile_eq_file_iff {bootDir path : PurePath}
    {isFile : PurePath → Except Exception Bool} {token filename : String} {db : Database} :
    serveBootFile (some bootDir) isFile token filename db = .file path ↔
      isAllowedBootFilename filename = true ∧ (∃ mac, (token, mac) ∈ db.bindings) ∧
        isFile path = .ok true ∧ path.root = bootDir.root ∧
        path.parts = bootDir.parts ++ [filename] := by
  unfold serveBootFile
  dsimp only
  by_cases hallowed : isAllowedBootFilename filename = true
  · rw [if_neg (by simp [hallowed]), ← join_part (isPart_of_allowed hallowed).1,
      ← lookupSession_ne_none_iff]
    by_cases hlive : lookupSession db token = none
    · simp [hlive]
    · rw [if_neg hlive, serveFile_eq_file_iff]
      constructor
      · rintro ⟨hfile, rfl⟩
        exact ⟨hallowed, hlive, hfile, rfl⟩
      · rintro ⟨-, -, hfile, rfl⟩
        exact ⟨hfile, rfl⟩
  · rw [if_pos (by simpa using hallowed)]
    simp [hallowed]

/-- Under a token, exactly the configured file of keys, if the token has a session. -/
theorem serveAuthorizedKeys_eq_file_iff {keys : Option PurePath} {path : PurePath}
    {isFile : PurePath → Except Exception Bool} {token : String} {db : Database} :
    serveAuthorizedKeys keys isFile token db = .file path ↔
      keys = some path ∧ (∃ mac, (token, mac) ∈ db.bindings) ∧ isFile path = .ok true := by
  unfold serveAuthorizedKeys
  rw [← lookupSession_ne_none_iff]
  cases keys with
  | none => simp
  | some keys =>
    dsimp only
    by_cases hlive : lookupSession db token = none
    · simp [hlive]
    · rw [if_neg hlive, serveFile_eq_file_iff]
      constructor
      · rintro ⟨hfile, rfl⟩
        exact ⟨rfl, hlive, hfile⟩
      · rintro ⟨hkeys, -, hfile⟩
        exact ⟨Option.some.inj hkeys ▸ hfile, (Option.some.inj hkeys).symm⟩

end Fleetboot
