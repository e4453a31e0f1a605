import Mathlib.Data.List.Basic
import Mathlib.Tactic.Common

/-!
# Trees of files

A directory is a list of named files and directories, over any names and any contents. `copyTree`
is `shutil.copytree` into a directory that may be there already, with `copy2` for the files: a
file that meets a directory is written into it under its own name, a directory that meets a file
is an error, and copying goes on after an error.

* `copyTree_of_agree`: where no file meets a directory, the result is the union in which the
  source comes first.
* `kindAt_copyTree_of_dir`, `kindAt_copyTree_of_source`: directories stay directories.
* `copyAll_of_compatible`: the same for a sequence of sources.
-/

set_option autoImplicit false

namespace FileTree

universe u v

/-- The entries of a directory. -/
inductive Listing (ν : Type u) (γ : Type v)
  | nil
  | file (name : ν) (content : γ) (rest : Listing ν γ)
  | dir (name : ν) (entries rest : Listing ν γ)

/-- What stands under a name. -/
inductive Node (ν : Type u) (γ : Type v)
  | file (content : γ)
  | dir (entries : Listing ν γ)

/-- What stands at a path. -/
inductive Kind (γ : Type v)
  | file (content : γ)
  | dir
  deriving DecidableEq

variable {ν : Type u} {γ : Type v}

namespace Listing

def names : Listing ν γ → List ν
  | nil => []
  | file name _ rest | dir name _ rest => name :: rest.names

/-- No directory has two entries of one name. -/
def Distinct : Listing ν γ → Prop
  | nil => True
  | file name _ rest => name ∉ rest.names ∧ rest.Distinct
  | dir name entries rest => name ∉ rest.names ∧ entries.Distinct ∧ rest.Distinct

def cons (name : ν) : Node ν γ → Listing ν γ → Listing ν γ
  | .file content, rest => file name content rest
  | .dir entries, rest => dir name entries rest

variable [DecidableEq ν]

def find? : Listing ν γ → ν → Option (Node ν γ)
  | nil, _ => none
  | file other content rest, name => if other = name then some (.file content) else rest.find? name
  | dir other entries rest, name => if other = name then some (.dir entries) else rest.find? name

/-- An entry takes the place of the one of its name. -/
def insert : Listing ν γ → ν → Node ν γ → Listing ν γ
  | nil, name, node => cons name node nil
  | file other content rest, name, node =>
    if other = name then cons name node rest else file other content (rest.insert name node)
  | dir other entries rest, name, node =>
    if other = name then cons name node rest else dir other entries (rest.insert name node)

/-- What stands at a path, of which the empty one is the directory itself. -/
def kindAt (entries : Listing ν γ) : List ν → Option (Kind γ)
  | [] => some .dir
  | name :: path =>
    match entries.find? name with
    | none => none
    | some (.file content) => if path.isEmpty then some (.file content) else none
    | some (.dir entries) => entries.kindAt path

/-- The directory under a name, empty when there is none. -/
def subdir (entries : Listing ν γ) (name : ν) : Listing ν γ :=
  match entries.find? name with
  | some (.dir sub) => sub
  | _ => nil

section Find

variable {entries : Listing ν γ} {name other : ν} {node : Node ν γ} {path : List ν}

theorem find?_cons (rest : Listing ν γ) :
    (cons name node rest).find? other = if name = other then some node else rest.find? other := by
  cases node <;> rfl

theorem find?_insert_self : (entries.insert name node).find? name = some node := by
  induction entries with
  | nil => simp [insert, find?_cons]
  | file other content rest ih =>
    unfold insert
    split
    · simp [find?_cons]
    · rename_i hne
      simp [find?, hne, ih]
  | dir other sub rest _ ih =>
    unfold insert
    split
    · simp [find?_cons]
    · rename_i hne
      simp [find?, hne, ih]

theorem find?_insert_of_ne (h : other ≠ name) :
    (entries.insert name node).find? other = entries.find? other := by
  induction entries with
  | nil => simp [insert, find?_cons, find?, h.symm]
  | file first content rest ih =>
    unfold insert
    split
    · rename_i heq
      subst heq
      simp [find?_cons, find?, h.symm]
    · simp [find?, ih]
  | dir first sub rest _ ih =>
    unfold insert
    split
    · rename_i heq
      subst heq
      simp [find?_cons, find?, h.symm]
    · simp [find?, ih]

theorem find?_of_not_mem (h : name ∉ entries.names) : entries.find? name = none := by
  induction entries with
  | nil => rfl
  | file other content rest ih =>
    obtain ⟨hne, hrest⟩ := not_or.mp (fun hor => h (List.mem_cons.mpr hor))
    simp [find?, Ne.symm hne, ih hrest]
  | dir other sub rest _ ih =>
    obtain ⟨hne, hrest⟩ := not_or.mp (fun hor => h (List.mem_cons.mpr hor))
    simp [find?, Ne.symm hne, ih hrest]

theorem kindAt_of_none (h : entries.find? name = none) :
    entries.kindAt (name :: path) = none := by
  simp only [kindAt, h]

theorem kindAt_of_file {content : γ} (h : entries.find? name = some (.file content)) :
    entries.kindAt (name :: path) = if path.isEmpty then some (.file content) else none := by
  simp only [kindAt, h]

theorem kindAt_of_dir {sub : Listing ν γ} (h : entries.find? name = some (.dir sub)) :
    entries.kindAt (name :: path) = sub.kindAt path := by
  simp only [kindAt, h]

/-- Below a name that is no file stands what stands in its directory. -/
theorem kindAt_subdir (h : ∀ content, entries.find? name ≠ some (.file content))
    (hpath : path ≠ []) : entries.kindAt (name :: path) = (entries.subdir name).kindAt path := by
  unfold subdir
  cases hfind : entries.find? name with
  | none =>
    rw [kindAt_of_none hfind]
    obtain ⟨first, rest, rfl⟩ := List.exists_cons_of_ne_nil hpath
    rfl
  | some node =>
    cases node with
    | file content => exact absurd hfind (h content)
    | dir sub => exact kindAt_of_dir hfind

/-- Two directories with the same entry under a name agree on the paths that begin with it. -/
theorem kindAt_congr {entries' : Listing ν γ} (h : entries'.find? name = entries.find? name) :
    entries'.kindAt (name :: path) = entries.kindAt (name :: path) := by
  simp only [kindAt, h]

theorem kindAt_insert_of_ne (h : other ≠ name) :
    (entries.insert name node).kindAt (other :: path) = entries.kindAt (other :: path) :=
  kindAt_congr (find?_insert_of_ne h)

theorem kindAt_insert_file {content : γ} :
    (entries.insert name (.file content)).kindAt (name :: path) =
      if path.isEmpty then some (.file content) else none :=
  kindAt_of_file find?_insert_self

theorem kindAt_insert_dir {sub : Listing ν γ} :
    (entries.insert name (.dir sub)).kindAt (name :: path) = sub.kindAt path :=
  kindAt_of_dir find?_insert_self

end Find

end Listing

/-! ## Copying -/

/-- Why an entry is not copied. -/
inductive CopyFault
  | fileExists
  | isADirectory
  deriving DecidableEq

/-- An entry that is not copied, by its path in the source. -/
structure CopyError (ν : Type u) where
  path : List ν
  why : CopyFault
  deriving DecidableEq

section Copy

variable [DecidableEq ν]

/-- `shutil.copy2` to a path: into a directory that is there, under the name of the file. -/
def copyFile (name : ν) (content : γ) (dst : Listing ν γ) : Listing ν γ × List (CopyError ν) :=
  match dst.find? name with
  | some (.dir entries) =>
    match entries.find? name with
    | some (.dir _) => (dst, [⟨[name], .isADirectory⟩])
    | _ => (dst.insert name (.dir (entries.insert name (.file content))), [])
  | _ => (dst.insert name (.file content), [])

/-- `shutil.copytree(src, dst, dirs_exist_ok=True)`, with the errors it collects. -/
def copyTree : Listing ν γ → Listing ν γ → Listing ν γ × List (CopyError ν)
  | .nil, dst => (dst, [])
  | .file name content rest, dst =>
    let (dst, errors) := copyFile name content dst
    let (dst, errors') := copyTree rest dst
    (dst, errors ++ errors')
  | .dir name entries rest, dst =>
    match dst.find? name with
    | some (.file _) =>
      let (dst, errors) := copyTree rest dst
      (dst, ⟨[name], .fileExists⟩ :: errors)
    | _ =>
      let (sub, errors) := copyTree entries (dst.subdir name)
      let (dst, errors') := copyTree rest (dst.insert name (.dir sub))
      (dst, errors.map (fun error => { error with path := name :: error.path }) ++ errors')

variable {name : ν} {content : γ} {entries rest dst : Listing ν γ}

theorem copyTree_file : copyTree (.file name content rest) dst =
    ((copyTree rest (copyFile name content dst).1).1,
      (copyFile name content dst).2 ++ (copyTree rest (copyFile name content dst).1).2) := rfl

theorem copyTree_dir_clash (h : dst.find? name = some (.file content)) :
    copyTree (.dir name entries rest) dst =
      ((copyTree rest dst).1, ⟨[name], .fileExists⟩ :: (copyTree rest dst).2) := by
  simp only [copyTree, h]

theorem copyTree_dir (h : ∀ content, dst.find? name ≠ some (.file content)) :
    copyTree (.dir name entries rest) dst =
      ((copyTree rest (dst.insert name (.dir (copyTree entries (dst.subdir name)).1))).1,
        (copyTree entries (dst.subdir name)).2.map
            (fun error => { error with path := name :: error.path }) ++
          (copyTree rest (dst.insert name (.dir (copyTree entries (dst.subdir name)).1))).2) := by
  cases hfind : dst.find? name with
  | none => simp only [copyTree, hfind]
  | some node =>
    cases node with
    | file content => exact absurd hfind (h content)
    | dir sub => simp only [copyTree, hfind]

/-! ## Directories stay -/

/-- A file does not take the place of a directory. -/
theorem kindAt_copyFile_of_dir {path : List ν} (h : dst.kindAt path = some .dir) :
    (copyFile name content dst).1.kindAt path = some .dir := by
  cases path with
  | nil => rfl
  | cons first path =>
    unfold copyFile
    by_cases hfirst : first = name
    · subst hfirst
      cases hfind : dst.find? first with
      | none =>
        rw [Listing.kindAt_of_none hfind] at h
        cases h
      | some node =>
        cases node with
        | file other =>
          rw [Listing.kindAt_of_file hfind] at h
          split at h <;> cases h
        | dir sub =>
          rw [Listing.kindAt_of_dir hfind] at h
          dsimp only
          split
          · rwa [Listing.kindAt_of_dir hfind]
          · rename_i hsub
            rw [Listing.kindAt_insert_dir]
            cases path with
            | nil => rfl
            | cons second path =>
              have hsecond : second ≠ first := by
                rintro rfl
                cases hinner : sub.find? second with
                | none =>
                  rw [Listing.kindAt_of_none hinner] at h
                  cases h
                | some node =>
                  cases node with
                  | file other =>
                    rw [Listing.kindAt_of_file hinner] at h
                    split at h <;> cases h
                  | dir deeper => exact hsub deeper hinner
              rwa [Listing.kindAt_insert_of_ne hsecond]
    · have hsame : ∀ node, (dst.insert name node).kindAt (first :: path) = some .dir :=
        fun node => (Listing.kindAt_insert_of_ne hfirst).trans h
      split
      · split
        · exact h
        · exact hsame _
      · exact hsame _

/-- **Directories of the target stay directories.** -/
theorem kindAt_copyTree_of_dir {src dst : Listing ν γ} {path : List ν}
    (h : dst.kindAt path = some .dir) : (copyTree src dst).1.kindAt path = some .dir := by
  induction src generalizing dst path with
  | nil => exact h
  | file name content rest ih =>
    rw [copyTree_file]
    exact ih (kindAt_copyFile_of_dir h)
  | dir name entries rest ihEntries ihRest =>
    by_cases hfile : ∃ content, dst.find? name = some (.file content)
    · obtain ⟨content, hfind⟩ := hfile
      rw [copyTree_dir_clash hfind]
      exact ihRest h
    · have hdir : ∀ content, dst.find? name ≠ some (.file content) := fun content hfind =>
        hfile ⟨content, hfind⟩
      rw [copyTree_dir hdir]
      refine ihRest ?_
      cases path with
      | nil => rfl
      | cons first path =>
        by_cases hfirst : first = name
        · subst hfirst
          rw [Listing.kindAt_insert_dir]
          by_cases hpath : path = []
          · subst hpath
            rfl
          · rw [Listing.kindAt_subdir hdir hpath] at h
            exact ihEntries h
        · rwa [Listing.kindAt_insert_of_ne hfirst]

/-- **Directories of the source are directories afterwards**, unless there was an error. -/
theorem kindAt_copyTree_of_source {src dst : Listing ν γ} {path : List ν}
    (herrors : (copyTree src dst).2 = []) (h : src.kindAt path = some .dir) :
    (copyTree src dst).1.kindAt path = some .dir := by
  induction src generalizing dst path with
  | nil =>
    cases path with
    | nil => rfl
    | cons first path => cases h
  | file name content rest ih =>
    rw [copyTree_file] at herrors ⊢
    obtain ⟨-, hrest⟩ := List.append_eq_nil_iff.mp herrors
    refine ih hrest ?_
    cases path with
    | nil => rfl
    | cons first path =>
      by_cases hfirst : name = first
      · have hself : (Listing.file name content rest).find? first = some (.file content) := by
          simp [Listing.find?, hfirst]
        rw [Listing.kindAt_of_file hself] at h
        split at h <;> cases h
      · have hfind : rest.find? first = (Listing.file name content rest).find? first := by
          simp [Listing.find?, hfirst]
        rwa [Listing.kindAt_congr hfind]
  | dir name entries rest ihEntries ihRest =>
    by_cases hfile : ∃ content, dst.find? name = some (.file content)
    · obtain ⟨content, hfind⟩ := hfile
      rw [copyTree_dir_clash hfind] at herrors
      cases herrors
    · have hdir : ∀ content, dst.find? name ≠ some (.file content) := fun content hfind =>
        hfile ⟨content, hfind⟩
      rw [copyTree_dir hdir] at herrors ⊢
      obtain ⟨hmap, hrest⟩ := List.append_eq_nil_iff.mp herrors
      have hentries := List.map_eq_nil_iff.mp hmap
      cases path with
      | nil => rfl
      | cons first path =>
        by_cases hfirst : name = first
        · subst hfirst
          have hself : (Listing.dir name entries rest).find? name = some (.dir entries) := by
            simp [Listing.find?]
          rw [Listing.kindAt_of_dir hself] at h
          refine kindAt_copyTree_of_dir ?_
          rw [Listing.kindAt_insert_dir]
          exact ihEntries hentries h
        · have hfind : rest.find? first = (Listing.dir name entries rest).find? first := by
            simp [Listing.find?, hfirst]
          refine ihRest hrest ?_
          rwa [Listing.kindAt_congr hfind]

/-! ## Where no file meets a directory -/

/-- No path is a file on one side and a directory on the other. -/
def Agree (src dst : Listing ν γ) : Prop :=
  ∀ path content, (src.kindAt path = some (.file content) → dst.kindAt path ≠ some .dir) ∧
    (dst.kindAt path = some (.file content) → src.kindAt path ≠ some .dir)

theorem Agree.not_file {src : Listing ν γ} (h : Agree src dst)
    (hname : src.find? name = some (.dir entries)) (content : γ) :
    dst.find? name ≠ some (.file content) := by
  intro hfind
  have hdir : src.kindAt [name] = some .dir := Listing.kindAt_of_dir hname
  have hfile : dst.kindAt [name] = some (.file content) := Listing.kindAt_of_file hfind
  exact (h [name] content).2 hfile hdir

theorem Agree.not_dir {src : Listing ν γ} (h : Agree src dst)
    (hname : src.find? name = some (.file content)) (sub : Listing ν γ) :
    dst.find? name ≠ some (.dir sub) := by
  intro hfind
  have hdir : dst.kindAt [name] = some .dir := Listing.kindAt_of_dir hfind
  have hfile : src.kindAt [name] = some (.file content) := Listing.kindAt_of_file hname
  exact (h [name] content).1 hfile hdir

/-- A file that meets no directory takes its place. -/
theorem copyFile_of_not_dir (h : ∀ sub, dst.find? name ≠ some (.dir sub)) :
    copyFile name content dst = (dst.insert name (.file content), []) := by
  unfold copyFile
  cases hfind : dst.find? name with
  | none => rfl
  | some node =>
    cases node with
    | file other => rfl
    | dir sub => exact absurd hfind (h sub)

/-- What is left to copy agrees with a target that differs under a name that was copied. -/
theorem Agree.tail {src : Listing ν γ} {node : Node ν γ} (h : Agree src dst)
    (hname : name ∉ rest.names)
    (hrest : ∀ other, other ≠ name → rest.find? other = src.find? other) :
    Agree rest (dst.insert name node) := by
  intro path content
  cases path with
  | nil => exact ⟨fun hfile => (by cases hfile), fun hfile => (by cases hfile)⟩
  | cons first path =>
    by_cases hfirst : first = name
    · subst hfirst
      rw [Listing.kindAt_of_none (Listing.find?_of_not_mem hname)]
      exact ⟨fun hfile => (by cases hfile), fun _ hdir => (by cases hdir)⟩
    · rw [Listing.kindAt_insert_of_ne hfirst, Listing.kindAt_congr (hrest first hfirst)]
      exact h (first :: path) content

/-- The directories under a name agree. -/
theorem Agree.sub {src : Listing ν γ} (h : Agree src dst)
    (hname : src.find? name = some (.dir entries)) : Agree entries (dst.subdir name) := by
  intro path content
  by_cases hpath : path = []
  · subst hpath
    exact ⟨fun hfile => (by cases hfile), fun hfile => (by cases hfile)⟩
  · have hbelow : src.kindAt (name :: path) = entries.kindAt path := Listing.kindAt_of_dir hname
    rw [← hbelow, ← Listing.kindAt_subdir (h.not_file hname) hpath]
    exact h (name :: path) content

/-- **Where no file meets a directory**, copying makes the union, in which the source comes
first. -/
theorem copyTree_of_agree {src dst : Listing ν γ} (hsrc : src.Distinct) (h : Agree src dst) :
    (copyTree src dst).2 = [] ∧
      ∀ path, (copyTree src dst).1.kindAt path = (src.kindAt path).or (dst.kindAt path) := by
  induction src generalizing dst with
  | nil =>
    refine ⟨rfl, fun path => ?_⟩
    cases path <;> rfl
  | file name content rest ih =>
    obtain ⟨hname, hdistinct⟩ := hsrc
    have hself : (Listing.file name content rest).find? name = some (.file content) := by
      simp [Listing.find?]
    have hrest : ∀ other, other ≠ name →
        rest.find? other = (Listing.file name content rest).find? other := by
      intro other hother
      simp [Listing.find?, hother.symm]
    rw [copyTree_file, copyFile_of_not_dir (h.not_dir hself)]
    have htail : Agree rest (dst.insert name (.file content)) := h.tail hname hrest
    obtain ⟨herrors, hkind⟩ := ih hdistinct htail
    refine ⟨herrors, fun path => ?_⟩
    rw [hkind]
    cases path with
    | nil => rfl
    | cons first path =>
      by_cases hfirst : first = name
      · subst hfirst
        rw [Listing.kindAt_of_none (Listing.find?_of_not_mem hname), Listing.kindAt_insert_file,
          Listing.kindAt_of_file hself, Option.none_or]
        by_cases hpath : path.isEmpty
        · rw [if_pos hpath]
          rfl
        · -- nothing of the target stands below the file
          have hnone : dst.kindAt (first :: path) = none := by
            cases hfind : dst.find? first with
            | none => exact Listing.kindAt_of_none hfind
            | some node =>
              cases node with
              | file other =>
                rw [Listing.kindAt_of_file hfind, if_neg hpath]
              | dir sub => exact absurd hfind (h.not_dir hself sub)
          rw [if_neg hpath, hnone]
          rfl
      · rw [Listing.kindAt_insert_of_ne hfirst, Listing.kindAt_congr (hrest first hfirst)]
  | dir name entries rest ihEntries ihRest =>
    obtain ⟨hname, hentries, hdistinct⟩ := hsrc
    have hself : (Listing.dir name entries rest).find? name = some (.dir entries) := by
      simp [Listing.find?]
    have hrest : ∀ other, other ≠ name →
        rest.find? other = (Listing.dir name entries rest).find? other := by
      intro other hother
      simp [Listing.find?, hother.symm]
    rw [copyTree_dir (h.not_file hself)]
    obtain ⟨hsub, hkindSub⟩ := ihEntries hentries (h.sub hself)
    have htail : Agree rest (dst.insert name (.dir (copyTree entries (dst.subdir name)).1)) :=
      h.tail hname hrest
    obtain ⟨herrors, hkind⟩ := ihRest hdistinct htail
    refine ⟨?_, fun path => ?_⟩
    · rw [hsub, herrors]
      rfl
    · rw [hkind]
      cases path with
      | nil => rfl
      | cons first path =>
        by_cases hfirst : first = name
        · subst hfirst
          rw [Listing.kindAt_of_none (Listing.find?_of_not_mem hname), Listing.kindAt_insert_dir,
            Listing.kindAt_of_dir hself, Option.none_or, hkindSub]
          by_cases hpath : path = []
          · subst hpath
            rfl
          · rw [Listing.kindAt_subdir (h.not_file hself) hpath]
        · rw [Listing.kindAt_insert_of_ne hfirst, Listing.kindAt_congr (hrest first hfirst)]

/-! ## Copying one after the other -/

/-- Sources are copied in order; one that has errors is the last. -/
def copyAll : List (Listing ν γ) → Listing ν γ → Except (List (CopyError ν)) (Listing ν γ)
  | [], dst => .ok dst
  | src :: rest, dst =>
    match copyTree src dst with
    | (dst, []) => copyAll rest dst
    | (_, errors) => .error errors

theorem copyAll_cons_ok {src : Listing ν γ} {rest : List (Listing ν γ)} {merged : Listing ν γ}
    (h : copyAll (src :: rest) dst = .ok merged) :
    (copyTree src dst).2 = [] ∧ copyAll rest (copyTree src dst).1 = .ok merged := by
  unfold copyAll at h
  split at h
  · rename_i hcopy
    rw [hcopy]
    exact ⟨rfl, h⟩
  · cases h

theorem copyAll_cons_of_nil {src : Listing ν γ} {rest : List (Listing ν γ)}
    (h : (copyTree src dst).2 = []) :
    copyAll (src :: rest) dst = copyAll rest (copyTree src dst).1 := by
  cases hcopy : copyTree src dst with
  | mk dst' errors =>
    rw [hcopy] at h
    cases h
    simp only [copyAll, hcopy]

theorem kindAt_copyAll_of_dir {srcs : List (Listing ν γ)} {merged : Listing ν γ} {path : List ν}
    (h : copyAll srcs dst = .ok merged) (hdir : dst.kindAt path = some .dir) :
    merged.kindAt path = some .dir := by
  induction srcs generalizing dst with
  | nil =>
    cases h
    exact hdir
  | cons src srcs ih =>
    obtain ⟨-, hrest⟩ := copyAll_cons_ok h
    exact ih hrest (kindAt_copyTree_of_dir hdir)

theorem kindAt_copyAll_of_source {srcs : List (Listing ν γ)} {src merged : Listing ν γ}
    {path : List ν} (h : copyAll srcs dst = .ok merged) (hsrc : src ∈ srcs)
    (hdir : src.kindAt path = some .dir) : merged.kindAt path = some .dir := by
  induction srcs generalizing dst with
  | nil => cases hsrc
  | cons first srcs ih =>
    obtain ⟨hfirst, hrest⟩ := copyAll_cons_ok h
    rcases List.mem_cons.mp hsrc with rfl | hsrc
    · exact kindAt_copyAll_of_dir hrest (kindAt_copyTree_of_source hfirst hdir)
    · exact ih hrest hsrc

/-- No path is a file in one of the directories and a directory in another. -/
def Compatible (listings : List (Listing ν γ)) : Prop :=
  ∀ a ∈ listings, ∀ b ∈ listings, ∀ path content,
    a.kindAt path = some (.file content) → b.kindAt path ≠ some .dir

/-- What stands at a path in a sequence of directories, of which later ones come first. -/
def layered (srcs : List (Listing ν γ)) (below : Option (Kind γ)) (path : List ν) :
    Option (Kind γ) :=
  srcs.foldl (fun kind src => (src.kindAt path).or kind) below

/-- **Copying compatible directories** makes the union, in which later ones come first. -/
theorem copyAll_of_compatible {srcs : List (Listing ν γ)} {dst : Listing ν γ}
    (hdistinct : ∀ src ∈ srcs, src.Distinct) (h : Compatible (dst :: srcs)) :
    ∃ merged, copyAll srcs dst = .ok merged ∧
      ∀ path, merged.kindAt path = layered srcs (dst.kindAt path) path := by
  induction srcs generalizing dst with
  | nil => exact ⟨dst, rfl, fun _ => rfl⟩
  | cons src srcs ih =>
    have hsrc : src ∈ dst :: src :: srcs := List.mem_cons_of_mem _ (List.mem_cons_self ..)
    have hdst : dst ∈ dst :: src :: srcs := List.mem_cons_self ..
    have hagree : Agree src dst := fun path content =>
      ⟨h src hsrc dst hdst path content, h dst hdst src hsrc path content⟩
    obtain ⟨herrors, hkind⟩ := copyTree_of_agree (hdistinct src (List.mem_cons_self ..)) hagree
    -- what the merged directory has, one of the two has
    have hfrom : ∀ path kind, (copyTree src dst).1.kindAt path = some kind →
        ∃ a ∈ dst :: src :: srcs, a.kindAt path = some kind := by
      intro path kind hmerged
      rw [hkind, Option.or_eq_some_iff] at hmerged
      rcases hmerged with hmerged | ⟨-, hmerged⟩
      · exact ⟨src, hsrc, hmerged⟩
      · exact ⟨dst, hdst, hmerged⟩
    have hcover : ∀ a ∈ (copyTree src dst).1 :: srcs, ∀ path kind, a.kindAt path = some kind →
        ∃ b ∈ dst :: src :: srcs, b.kindAt path = some kind := by
      intro a ha path kind hmerged
      rcases List.mem_cons.mp ha with rfl | ha
      · exact hfrom path kind hmerged
      · exact ⟨a, List.mem_cons_of_mem _ (List.mem_cons_of_mem _ ha), hmerged⟩
    have hcompatible : Compatible ((copyTree src dst).1 :: srcs) := by
      intro a ha b hb path content hfile hdir
      obtain ⟨a', ha', hfile'⟩ := hcover a ha path _ hfile
      obtain ⟨b', hb', hdir'⟩ := hcover b hb path _ hdir
      exact h a' ha' b' hb' path content hfile' hdir'
    obtain ⟨merged, hmerged, hlayered⟩ := ih
      (fun other hother => hdistinct other (List.mem_cons_of_mem _ hother)) hcompatible
    refine ⟨merged, (copyAll_cons_of_nil herrors).trans hmerged, fun path => ?_⟩
    rw [hlayered, hkind]
    rfl

end Copy

end FileTree
