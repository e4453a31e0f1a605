import Mathlib.Data.List.Induction
import Fleetboot.Library.Dict

/-!
# A file system with symbolic links

Directories, files and symbolic links at absolute paths, over any names and any contents. A path
that the system is given is walked part by part and the links on it are followed, at most so many.

* `FileSystem.lookup_put`, `FileSystem.lookup_remove`: what stands where after a change.
* `FileSystem.locate_eq_ok`: where a path leads that meets no link.
* `FileSystem.writeFile_eq_ok`, `FileSystem.mkdir_eq_ok`, `FileSystem.unlink_eq_ok`,
  `FileSystem.rmdir_eq_ok`: what the operations do when they succeed.
-/

set_option autoImplicit false

namespace Posix

open Python

universe u v

/-- A part of a path that is not empty and not `.`. -/
inductive Segment (ν : Type u)
  | up
  | name (x : ν)

/-- What a symbolic link says. -/
structure Target (ν : Type u) where
  absolute : Bool
  segments : List (Segment ν)

/-- An absolute path without `..`. -/
abbrev Path (ν : Type u) := List ν

/-- The directory from which a target is walked, for a link in `directory`. -/
def Target.start {ν : Type u} (target : Target ν) (directory : Path ν) : Path ν :=
  if target.absolute then [] else directory

inductive Node (ν : Type u) (γ : Type v)
  | directory
  | file (content : γ)
  | link (target : Target ν)

instance {ν : Type u} {γ : Type v} (entry : Option (Node ν γ)) :
    Decidable (entry = some .directory) :=
  match entry with
  | some .directory => isTrue rfl
  | some (.file _) | some (.link _) | none => isFalse nofun

/-- Why an operation fails. -/
inductive OsError
  | notFound
  | notDirectory
  | isDirectory
  | exists_
  | notEmpty
  | loop
  | refused
  deriving DecidableEq

variable {ν : Type u} {γ : Type v} [DecidableEq ν]

/-- What is there, apart from the root, stands in a directory. -/
structure FileSystem (ν : Type u) (γ : Type v) [DecidableEq ν] where
  entries : Dict (Path ν) (Node ν γ)
  root_absent : entries.get? [] = none
  parent_directory : ∀ (p : Path ν) (x : ν) (node : Node ν γ),
    entries.get? (p ++ [x]) = some node → p = [] ∨ entries.get? p = some .directory

namespace FileSystem

/-- What stands at a path. -/
def lookup (fs : FileSystem ν γ) (p : Path ν) : Option (Node ν γ) :=
  if p = [] then some .directory else fs.entries.get? p

/-- The link that stands at a path. -/
def links (fs : FileSystem ν γ) (p : Path ν) : Option (Target ν) :=
  match fs.lookup p with
  | some (.link target) => some target
  | _ => none

variable {fs fs' : FileSystem ν γ} {p q : Path ν} {x : ν} {node : Node ν γ} {content : γ}

@[simp] theorem lookup_nil : fs.lookup [] = some .directory := rfl

theorem lookup_parent (h : fs.lookup (p ++ [x]) = some node) :
    fs.lookup p = some .directory := by
  have hentry : fs.entries.get? (p ++ [x]) = some node := by
    simpa [lookup] using h
  rcases fs.parent_directory p x node hentry with rfl | hp
  · rfl
  · unfold lookup
    rw [hp, ite_self]

/-- What leads to something is a directory. -/
theorem lookup_of_append {rest : List ν} (h : fs.lookup (p ++ rest) = some node)
    (hrest : rest ≠ []) : fs.lookup p = some .directory := by
  induction rest using List.reverseRecOn generalizing node with
  | nil => exact absurd rfl hrest
  | append_singleton rest x ih =>
    rw [← List.append_assoc] at h
    cases rest with
    | nil => simpa using lookup_parent h
    | cons y rest => exact ih (lookup_parent h) (List.cons_ne_nil _ _)

theorem lookup_of_isPrefix (hstarts : p <+: q) (h : fs.lookup q = some .directory) :
    fs.lookup p = some .directory := by
  obtain ⟨rest, rfl⟩ := hstarts
  cases rest with
  | nil => rwa [List.append_nil] at h
  | cons y rest => exact lookup_of_append h (List.cons_ne_nil _ _)

/-! ## Changes -/

/-- Something that is no directory, or a directory where nothing was, is put in a directory. -/
def put (fs : FileSystem ν γ) (p : Path ν) (x : ν) (node : Node ν γ)
    (hparent : fs.lookup p = some .directory)
    (hplace : fs.lookup (p ++ [x]) ≠ some .directory) : FileSystem ν γ where
  entries := fs.entries.set (p ++ [x]) node
  root_absent := by
    rw [Dict.get?_set, if_neg (by simp), fs.root_absent]
  parent_directory q y other hentry := by
    have hold : q = [] ∨ fs.entries.get? q = some .directory := by
      rw [Dict.get?_set] at hentry
      split at hentry
      · rename_i heq
        obtain ⟨rfl, -⟩ := List.append_inj' heq rfl
        unfold lookup at hparent
        split at hparent
        · rename_i hnil
          exact .inl hnil
        · exact .inr hparent
      · exact fs.parent_directory q y other hentry
    refine hold.imp_right fun hq => ?_
    rw [Dict.get?_set, if_neg, hq]
    rintro rfl
    exact hplace (by simpa [lookup] using hq)

/-- Something that is not a directory with entries is removed. -/
def remove (fs : FileSystem ν γ) (p : Path ν)
    (hleaf : ∀ x, fs.lookup (p ++ [x]) = none) : FileSystem ν γ where
  entries := fs.entries.pop p
  root_absent := by
    rw [Dict.get?_pop, fs.root_absent, ite_self]
  parent_directory q y other hentry := by
    rw [Dict.get?_pop] at hentry
    split at hentry
    · cases hentry
    · refine (fs.parent_directory q y other hentry).imp_right fun hq => ?_
      rw [Dict.get?_pop, if_neg, hq]
      rintro rfl
      have hnone := hleaf y
      simp [lookup, hentry] at hnone

theorem lookup_put (hparent : fs.lookup p = some .directory)
    (hplace : fs.lookup (p ++ [x]) ≠ some .directory) (q : Path ν) :
    (fs.put p x node hparent hplace).lookup q =
      if q = p ++ [x] then some node else fs.lookup q := by
  unfold lookup put
  rw [Dict.get?_set]
  by_cases hq : q = []
  · subst hq
    simp
  · simp [hq]

theorem lookup_remove (hp : p ≠ []) (hleaf : ∀ x, fs.lookup (p ++ [x]) = none) (q : Path ν) :
    (fs.remove p hleaf).lookup q = if q = p then none else fs.lookup q := by
  unfold lookup remove
  rw [Dict.get?_pop]
  by_cases hq : q = []
  · subst hq
    simp [hp.symm]
  · simp [hq]

/-- Whether nothing stands in a directory. -/
def isEmpty (fs : FileSystem ν γ) (p : Path ν) : Bool :=
  fs.entries.entries.all fun entry => entry.1.dropLast != p

theorem isEmpty_iff : fs.isEmpty p = true ↔ ∀ x, fs.lookup (p ++ [x]) = none := by
  unfold isEmpty
  rw [List.all_eq_true]
  constructor
  · intro h x
    rw [lookup, if_neg (by simp), Dict.get?_eq_none_iff]
    rintro entry hentry hkey
    have hne := h entry hentry
    rw [hkey, List.dropLast_concat] at hne
    simp at hne
  · rintro h ⟨key, node⟩ hentry
    rw [bne_iff_ne]
    rintro rfl
    have hget := Dict.get?_of_mem hentry
    cases hkey : key.getLast? with
    | none =>
      rw [List.getLast?_eq_none_iff.mp hkey, fs.root_absent] at hget
      cases hget
    | some x =>
      have hnone := h x
      rw [show (key, node).1.dropLast ++ [x] = key from
        List.dropLast_append_getLast? x hkey] at hnone
      rw [lookup, hget] at hnone
      split at hnone <;> cases hnone

/-- `os.listdir`, of a directory. -/
def names (fs : FileSystem ν γ) (p : Path ν) : List ν :=
  fs.entries.entries.filterMap fun entry =>
    if entry.1.dropLast = p then entry.1.getLast? else none

theorem mem_names_iff : x ∈ fs.names p ↔ fs.lookup (p ++ [x]) ≠ none := by
  have hlookup : fs.lookup (p ++ [x]) = fs.entries.get? (p ++ [x]) := if_neg (by simp)
  rw [hlookup, names, List.mem_filterMap]
  constructor
  · rintro ⟨⟨key, node⟩, hentry, hlast⟩
    split at hlast
    · rename_i hparent
      rw [← hparent, List.dropLast_append_getLast? x hlast, Dict.get?_of_mem hentry]
      exact Option.some_ne_none node
    · cases hlast
  · intro hsome
    obtain ⟨node, hnode⟩ := Option.ne_none_iff_exists'.mp hsome
    refine ⟨(p ++ [x], node), Dict.mem_of_get? hnode, ?_⟩
    rw [if_pos List.dropLast_concat, List.getLast?_concat]

theorem lookup_concat_of_not_directory (h : fs.lookup p ≠ some .directory) (x : ν) :
    fs.lookup (p ++ [x]) = none := by
  cases hchild : fs.lookup (p ++ [x]) with
  | none => rfl
  | some node => exact absurd (lookup_parent hchild) h

/-! ## Walking a path -/

/-- A walk from `cur`; `follow` goes on where a link leads. -/
def walkSegments (fs : FileSystem ν γ)
    (follow : Path ν → List (Segment ν) → Except OsError (Path ν)) :
    Path ν → List (Segment ν) → Except OsError (Path ν)
  | cur, [] => .ok cur
  | cur, segment :: rest =>
    match fs.lookup cur with
    | none => .error .notFound
    | some .directory =>
      match segment with
      | .up => walkSegments fs follow cur.dropLast rest
      | .name x =>
        match fs.lookup (cur ++ [x]) with
        | some (.link target) => follow (target.start cur) (target.segments ++ rest)
        | _ => walkSegments fs follow (cur ++ [x]) rest
    | some _ => .error .notDirectory

/-- A walk that follows at most so many links. -/
def walk (fs : FileSystem ν γ) : ℕ → Path ν → List (Segment ν) → Except OsError (Path ν)
  | 0 => walkSegments fs fun _ _ => .error .loop
  | budget + 1 => walkSegments fs (walk fs budget)

/-- Where a path leads. The last part need not be there. -/
def locate (fs : FileSystem ν γ) (p : Path ν) : Except OsError (Path ν) :=
  fs.walk 40 [] (p.map .name)

/-! ## Operations -/

/-- `os.path.isfile`. -/
def isFile (fs : FileSystem ν γ) (p : Path ν) : Bool :=
  match fs.locate p with
  | .error _ => false
  | .ok q =>
    match fs.lookup q with
    | some (.file _) => true
    | _ => false

/-- `os.path.isdir`. -/
def isDirectory (fs : FileSystem ν γ) (p : Path ν) : Bool :=
  match fs.locate p with
  | .error _ => false
  | .ok q =>
    match fs.lookup q with
    | some .directory => true
    | _ => false

/-- `os.path.isdir`, of a path that may go up. -/
def isDirectoryAlong (fs : FileSystem ν γ) (segments : List (Segment ν)) : Bool :=
  match fs.walk 40 [] segments with
  | .error _ => false
  | .ok q =>
    match fs.lookup q with
    | some .directory => true
    | _ => false

/-- Reading a whole file. -/
def readFile (fs : FileSystem ν γ) (p : Path ν) : Except OsError γ :=
  match fs.locate p with
  | .error err => .error err
  | .ok q =>
    match fs.lookup q with
    | some (.file content) => .ok content
    | some .directory => .error .isDirectory
    | _ => .error .notFound

/-- Writing a whole file, which is made when it is not there. -/
def writeFile (fs : FileSystem ν γ) (p : Path ν) (content : γ) :
    Except OsError (FileSystem ν γ) :=
  match fs.locate p with
  | .error err => .error err
  | .ok q =>
    match q.getLast? with
    | none => .error .isDirectory
    | some x =>
      if hparent : fs.lookup q.dropLast = some .directory then
        if hplace : fs.lookup (q.dropLast ++ [x]) ≠ some .directory then
          .ok (fs.put q.dropLast x (.file content) hparent hplace)
        else .error .isDirectory
      else .error .notFound

/-- The directory that a path leads to. -/
def directoryAt (fs : FileSystem ν γ) (p : Path ν) :
    Except OsError { q : Path ν // fs.lookup q = some .directory } :=
  match fs.locate p with
  | .error err => .error err
  | .ok q =>
    if h : fs.lookup q = some .directory then .ok ⟨q, h⟩
    else .error (if (fs.lookup q).isNone then .notFound else .notDirectory)

/-- `os.mkdir`, of an entry of the directory that a path leads to. -/
def mkdir (fs : FileSystem ν γ) (p : Path ν) (x : ν) : Except OsError (FileSystem ν γ) :=
  match fs.directoryAt p with
  | .error err => .error err
  | .ok ⟨q, hq⟩ =>
    if h : (fs.lookup (q ++ [x])).isNone then
      .ok (fs.put q x .directory hq (by simp [Option.isNone_iff_eq_none.mp h]))
    else .error .exists_

/-- `os.unlink`: a link at the end is not followed. -/
def unlink (fs : FileSystem ν γ) (p : Path ν) (x : ν) : Except OsError (FileSystem ν γ) :=
  match fs.directoryAt p with
  | .error err => .error err
  | .ok ⟨q, _⟩ =>
    if (fs.lookup (q ++ [x])).isNone then .error .notFound
    else if h : fs.lookup (q ++ [x]) = some .directory then .error .isDirectory
    else .ok (fs.remove (q ++ [x]) (lookup_concat_of_not_directory h))

/-- `os.rmdir`. -/
def rmdir (fs : FileSystem ν γ) (p : Path ν) (x : ν) : Except OsError (FileSystem ν γ) :=
  match fs.directoryAt p with
  | .error err => .error err
  | .ok ⟨q, _⟩ =>
    if (fs.lookup (q ++ [x])).isNone then .error .notFound
    else if fs.lookup (q ++ [x]) = some .directory then
      if h : fs.isEmpty (q ++ [x]) = true then .ok (fs.remove (q ++ [x]) (isEmpty_iff.mp h))
      else .error .notEmpty
    else .error .notDirectory

/-! ## What the operations do -/

/-- Where a path leads, if anywhere, is the path itself. -/
def Direct (fs : FileSystem ν γ) (p : Path ν) : Prop :=
  ∀ q, fs.locate p = .ok q → q = p ∧ fs.links p = none

/-- The entry at a path is the only one that may have changed, and it is no link. -/
structure ChangesOnly (p : Path ν) (fs fs' : FileSystem ν γ) : Prop where
  others : ∀ q, q ≠ p → fs'.lookup q = fs.lookup q
  no_link : fs.links p = none
  no_link' : fs'.links p = none

theorem isDirectoryAlong_iff {segments : List (Segment ν)} :
    fs.isDirectoryAlong segments = true ↔
      ∃ q, fs.walk 40 [] segments = .ok q ∧ fs.lookup q = some .directory := by
  unfold isDirectoryAlong
  constructor
  · intro h
    split at h
    · cases h
    · rename_i q hwalk
      split at h
      · rename_i hdir
        exact ⟨q, hwalk, hdir⟩
      · cases h
  · rintro ⟨q, hwalk, hdir⟩
    rw [hwalk]
    simp only [hdir]

/-- A walk along one more part passes the directory of the part. -/
theorem walkSegments_concat
    {follow : Path ν → List (Segment ν) → Except OsError (Path ν)}
    (hfollow : ∀ cur segments, follow cur (segments ++ [.name x]) = .ok q →
      ∃ r, follow cur segments = .ok r ∧ fs.lookup r = some .directory ∧
        (fs.links (r ++ [x]) ≠ none ∨ q = r ++ [x]))
    {segments : List (Segment ν)}
    (h : fs.walkSegments follow p (segments ++ [.name x]) = .ok q) :
    ∃ r, fs.walkSegments follow p segments = .ok r ∧ fs.lookup r = some .directory ∧
      (fs.links (r ++ [x]) ≠ none ∨ q = r ++ [x]) := by
  induction segments generalizing p with
  | nil =>
    rw [List.nil_append] at h
    unfold walkSegments at h
    split at h
    · cases h
    · rename_i hdir
      dsimp only at h
      split at h
      · rename_i target hlink
        exact ⟨p, rfl, hdir, .inl (by simp only [links, hlink]; exact Option.some_ne_none _)⟩
      · cases h
        exact ⟨p, rfl, hdir, .inr rfl⟩
    · cases h
  | cons segment rest ih =>
    rw [List.cons_append] at h
    unfold walkSegments at h ⊢
    split at h
    · cases h
    · cases segment with
      | up => exact ih h
      | name y =>
        dsimp only at h ⊢
        split at h
        · rw [← List.append_assoc] at h
          exact hfollow _ _ h
        · exact ih h
    · cases h

theorem walk_concat {budget : ℕ} {segments : List (Segment ν)}
    (h : fs.walk budget p (segments ++ [.name x]) = .ok q) :
    ∃ r, fs.walk budget p segments = .ok r ∧ fs.lookup r = some .directory ∧
      (fs.links (r ++ [x]) ≠ none ∨ q = r ++ [x]) := by
  induction budget generalizing p segments with
  | zero =>
    refine walkSegments_concat (fun cur segments hfollow => ?_) h
    cases hfollow
  | succ budget ih =>
    exact walkSegments_concat (fun cur segments hfollow => @ih cur segments hfollow) h

/-- A directory that a path leads to stands in the directory above, or a link to it does. -/
theorem mem_names_of_walk {budget : ℕ} {segments : List (Segment ν)}
    (h : fs.walk budget p (segments ++ [.name x]) = .ok q) (hdir : fs.lookup q ≠ none) :
    ∃ r, fs.walk budget p segments = .ok r ∧ fs.lookup r = some .directory ∧ x ∈ fs.names r := by
  obtain ⟨r, hwalk, hr, hentry⟩ := walk_concat h
  refine ⟨r, hwalk, hr, mem_names_iff.mpr fun hnone => ?_⟩
  rcases hentry with hlink | rfl
  · exact hlink (by simp only [links, hnone])
  · exact hdir hnone

theorem links_eq_none_of_directory (h : fs.lookup p = some .directory) : fs.links p = none := by
  simp only [links, h]

theorem links_eq_none_of_none (h : fs.lookup p = none) : fs.links p = none := by
  simp only [links, h]

theorem links_eq_none_of_file (h : fs.lookup p = some (.file content)) : fs.links p = none := by
  simp only [links, h]

/-- Links stay as they are. -/
theorem ChangesOnly.links_eq (h : ChangesOnly p fs fs') : fs'.links = fs.links := by
  funext q
  by_cases hq : q = p
  · rw [hq, h.no_link, h.no_link']
  · simp only [links, h.others q hq]

theorem directoryAt_eq_ok {directory : { q : Path ν // fs.lookup q = some .directory }}
    (hdirect : fs.Direct p) (h : fs.directoryAt p = .ok directory) :
    directory.val = p ∧ fs.lookup p = some .directory := by
  unfold directoryAt at h
  split at h
  · cases h
  · rename_i q hlocate
    obtain ⟨rfl, -⟩ := hdirect q hlocate
    split at h
    · rename_i hdir
      cases h
      exact ⟨rfl, hdir⟩
    · cases h

theorem isFile_eq_true (hdirect : fs.Direct p) (h : fs.isFile p = true) :
    ∃ content, fs.lookup p = some (.file content) := by
  unfold isFile at h
  split at h
  · cases h
  · rename_i q hlocate
    obtain ⟨rfl, -⟩ := hdirect q hlocate
    split at h
    · rename_i content hfile
      exact ⟨content, hfile⟩
    · cases h

theorem writeFile_eq_ok (hdirect : fs.Direct p) (h : fs.writeFile p content = .ok fs') :
    fs.lookup p ≠ some .directory ∧ fs.lookup p.dropLast = some .directory ∧
      fs'.lookup p = some (.file content) ∧ ChangesOnly p fs fs' := by
  unfold writeFile at h
  split at h
  · cases h
  · rename_i q hlocate
    obtain ⟨rfl, hlink⟩ := hdirect q hlocate
    split at h
    · cases h
    · rename_i x hlast
      have hq : q.dropLast ++ [x] = q := List.dropLast_append_getLast? x hlast
      split at h
      · rename_i hparent
        split at h
        · rename_i hplace
          cases h
          have hself : (fs.put q.dropLast x (.file content) hparent hplace).lookup q =
              some (.file content) := by
            rw [lookup_put, if_pos hq.symm]
          rw [hq] at hplace
          refine ⟨hplace, hparent, hself, fun other hne => ?_, hlink, links_eq_none_of_file hself⟩
          rw [lookup_put, hq, if_neg hne]
        · cases h
      · cases h

theorem mkdir_eq_ok (hdirect : fs.Direct p) (h : fs.mkdir p x = .ok fs') :
    fs.lookup (p ++ [x]) = none ∧ fs'.lookup (p ++ [x]) = some .directory ∧
      ChangesOnly (p ++ [x]) fs fs' := by
  unfold mkdir at h
  split at h
  · cases h
  · rename_i q hq hdir
    obtain ⟨rfl, -⟩ := directoryAt_eq_ok hdirect hdir
    split at h
    · rename_i hnone
      cases h
      have hold := Option.isNone_iff_eq_none.mp hnone
      have hself : (fs.put q x .directory hq (by simp [hold])).lookup (q ++ [x]) =
          some .directory := by
        rw [lookup_put, if_pos rfl]
      refine ⟨hold, hself, fun other hne => ?_, links_eq_none_of_none hold,
        links_eq_none_of_directory hself⟩
      rw [lookup_put, if_neg hne]
    · cases h

theorem unlink_eq_ok (hdirect : fs.Direct p) (h : fs.unlink p x = .ok fs') :
    fs.lookup (p ++ [x]) ≠ some .directory ∧
      ∀ q, fs'.lookup q = if q = p ++ [x] then none else fs.lookup q := by
  unfold unlink at h
  split at h
  · cases h
  · rename_i q hq hdir
    obtain ⟨rfl, -⟩ := directoryAt_eq_ok hdirect hdir
    split at h
    · cases h
    · split at h
      · cases h
      · rename_i hplace
        cases h
        exact ⟨hplace, lookup_remove (by simp) _⟩

theorem rmdir_eq_ok (hdirect : fs.Direct p) (h : fs.rmdir p x = .ok fs') :
    fs.lookup (p ++ [x]) = some .directory ∧
      ∀ q, fs'.lookup q = if q = p ++ [x] then none else fs.lookup q := by
  unfold rmdir at h
  split at h
  · cases h
  · rename_i q hq hdir
    obtain ⟨rfl, -⟩ := directoryAt_eq_ok hdirect hdir
    split at h
    · cases h
    · split at h
      · rename_i hplace
        split at h
        · cases h
          exact ⟨hplace, lookup_remove (by simp) _⟩
        · cases h
      · cases h

/-- What was no link is removed. -/
theorem changesOnly_of_removed (hlink : fs.links p = none)
    (h : ∀ q, fs'.lookup q = if q = p then none else fs.lookup q) : ChangesOnly p fs fs' where
  others q hq := by rw [h q, if_neg hq]
  no_link := hlink
  no_link' := links_eq_none_of_none (by rw [h p, if_pos rfl])

/-! ## When the operations succeed -/

/-- A walk along directories and nothing stops at what is missing. -/
theorem walkSegments_of_clear
    {follow : Path ν → List (Segment ν) → Except OsError (Path ν)} {names : List ν}
    (h : ∀ q, q <+: names → fs.lookup (p ++ q) = none ∨ fs.lookup (p ++ q) = some .directory) :
    fs.walkSegments follow p (names.map .name) = .ok (p ++ names) ∨
      fs.walkSegments follow p (names.map .name) = .error .notFound := by
  induction names generalizing p with
  | nil => exact .inl (by rw [List.append_nil]; rfl)
  | cons x names ih =>
    have hrest := @ih (p ++ [x]) fun q hq => by
      simpa using h (x :: q) (by simpa using hq)
    have hself := h [] (List.nil_prefix)
    have hnext := h [x] (by simp)
    rw [List.append_nil] at hself
    simp only [List.map_cons, walkSegments]
    rcases hself with hnone | hdir
    · rw [hnone]
      exact .inr rfl
    · rw [hdir]
      rcases hnext with hnext | hnext <;> simpa [hnext] using hrest

theorem locate_of_clear
    (h : ∀ q, q <+: p → fs.lookup q = none ∨ fs.lookup q = some .directory) :
    fs.locate p = .ok p ∨ fs.locate p = .error .notFound :=
  walkSegments_of_clear (p := []) h

/-- A walk along directories ends where the path says. -/
theorem locate_of_parent (hparent : fs.lookup p.dropLast = some .directory)
    (hlink : fs.links p = none) : fs.locate p = .ok p := by
  have hwalk : ∀ {names : List ν} {cur : Path ν}, names ≠ [] →
      fs.lookup (cur ++ names.dropLast) = some .directory → fs.links (cur ++ names) = none →
      fs.walkSegments (fs.walk 39) cur (names.map .name) = .ok (cur ++ names) := by
    intro names
    induction names with
    | nil => exact fun hne => absurd rfl hne
    | cons x names ih =>
      intro cur _ hdir hend
      have hcur : fs.lookup cur = some .directory :=
        lookup_of_isPrefix (List.prefix_append _ _) hdir
      simp only [List.map_cons, walkSegments, hcur]
      cases names with
      | nil =>
        have hnolink : ∀ target, fs.lookup (cur ++ [x]) ≠ some (.link target) := by
          intro target hlookup
          simp [links, hlookup] at hend
        split
        · rename_i target hlookup
          exact absurd hlookup (hnolink target)
        · rfl
      | cons y names =>
        have hnext : fs.lookup (cur ++ [x]) = some .directory := by
          refine lookup_of_isPrefix ?_ hdir
          exact ⟨(y :: names).dropLast, by simp⟩
        rw [hnext]
        have hrest := @ih (cur ++ [x]) (List.cons_ne_nil _ _) (by simpa using hdir)
          (by simpa using hend)
        simpa using hrest
  by_cases hp : p = []
  · subst hp
    rfl
  · exact @hwalk p [] hp hparent hlink

theorem locate_of_directory (h : fs.lookup p = some .directory) : fs.locate p = .ok p :=
  locate_of_parent (lookup_of_isPrefix (List.dropLast_prefix p) h)
    (links_eq_none_of_directory h)

theorem directoryAt_of_directory (h : fs.lookup p = some .directory) :
    fs.directoryAt p = .ok ⟨p, h⟩ := by
  unfold directoryAt
  rw [locate_of_directory h]
  exact dif_pos h

theorem isDirectory_of_directory (h : fs.lookup p = some .directory) :
    fs.isDirectory p = true := by
  simp only [isDirectory, locate_of_directory h, h]

theorem lookup_dropLast (h : fs.lookup p = some node) :
    fs.lookup p.dropLast = some .directory := by
  cases hlast : p.getLast? with
  | none =>
    rw [List.getLast?_eq_none_iff.mp hlast]
    rfl
  | some x =>
    rw [← List.dropLast_append_getLast? x hlast] at h
    exact lookup_parent h

theorem isFile_of_file (h : fs.lookup p = some (.file content)) : fs.isFile p = true := by
  have hlocate := locate_of_parent (lookup_dropLast h) (links_eq_none_of_file h)
  simp only [isFile, hlocate, h]

theorem readFile_of_file (h : fs.lookup p = some (.file content)) :
    fs.readFile p = .ok content := by
  have hlocate := locate_of_parent (lookup_dropLast h) (links_eq_none_of_file h)
  simp only [readFile, hlocate, h]

/-- On the way there are only directories and nothing. -/
def Clear (fs : FileSystem ν γ) (p : Path ν) : Prop :=
  ∀ q, q <+: p → fs.lookup q = none ∨ fs.lookup q = some .directory

theorem directoryAt_of_none (hclear : fs.Clear p) (h : fs.lookup p = none) :
    fs.directoryAt p = .error .notFound := by
  unfold directoryAt
  rcases locate_of_clear hclear with hlocate | hlocate
  · rw [hlocate]
    simp [h]
  · rw [hlocate]

theorem mkdir_of_missing_parent (hclear : fs.Clear p) (h : fs.lookup p = none) :
    fs.mkdir p x = .error .notFound := by
  simp only [mkdir, directoryAt_of_none hclear h]

theorem mkdir_of_none (hparent : fs.lookup p = some .directory)
    (h : fs.lookup (p ++ [x]) = none) : ∃ fs', fs.mkdir p x = .ok fs' := by
  simp [mkdir, directoryAt_of_directory hparent, h]

theorem mkdir_of_some (hparent : fs.lookup p = some .directory)
    (h : fs.lookup (p ++ [x]) = some node) : fs.mkdir p x = .error .exists_ := by
  simp [mkdir, directoryAt_of_directory hparent, h]

theorem writeFile_of_parent (hp : p ≠ []) (hparent : fs.lookup p.dropLast = some .directory)
    (hplace : fs.lookup p ≠ some .directory) (hlink : fs.links p = none) (content : γ) :
    ∃ fs', fs.writeFile p content = .ok fs' := by
  obtain ⟨x, hlast⟩ : ∃ x, p.getLast? = some x :=
    Option.ne_none_iff_exists'.mp fun hnone => hp (List.getLast?_eq_none_iff.mp hnone)
  have hself : p.dropLast ++ [x] = p := List.dropLast_append_getLast? x hlast
  unfold writeFile
  simp only [locate_of_parent hparent hlink, hlast]
  rw [dif_pos hparent, dif_pos (by rwa [hself])]
  exact ⟨_, rfl⟩

theorem unlink_of_file (h : fs.lookup (p ++ [x]) = some (.file content)) :
    ∃ fs', fs.unlink p x = .ok fs' := by
  simp [unlink, directoryAt_of_directory (lookup_parent h), h]

end FileSystem

end Posix
