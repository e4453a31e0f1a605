import Fleetboot.Library.Rewiring
import Fleetboot.Profiles.Cascade
import Fleetboot.Server.Rest
import Fleetboot.Server.Tools

/-!
# Saving a profile

The two routes that write the files of a profile: `save_profile` of `mcp.py`, which leaves alone
what its arguments do not name, and the form of `dashboard.py`. Both check the list of parents
against the profiles that there are, less the one that is saved.

* `resolvable_storeProfile_iff`: when a tree stays resolvable as one profile is stored.
* `saves_keep_resolvable`: when every accepted save of a run keeps the tree resolvable.
-/

set_option autoImplicit false

namespace Fleetboot

open Python Digraph Relational Transition

/-! ## The files of a profile -/

namespace ProfileDir

/-- The text of a file, if there is such a file. -/
def file (profile : ProfileDir) (path : String) : Option String :=
  (profile.files.find? fun file => file.1 == path).map Prod.snd

/-- `Path.is_dir()` of a path in the profile. -/
def isDirectory (profile : ProfileDir) (path : String) : Bool :=
  profile.files.any fun file => startsWith file.1 (path ++ "/")

def put (profile : ProfileDir) (path text : String) : ProfileDir :=
  { profile with files := (profile.files.filter fun file => file.1 != path) ++ [(path, text)] }

/-- `if path.is_file(): path.unlink()`. -/
def unlink (profile : ProfileDir) (path : String) : ProfileDir :=
  { profile with files := profile.files.filter fun file => file.1 != path }

end ProfileDir

/-- A step of saving a profile. -/
inductive FileOp (ε : Type)
  | write (path text : String)
  | unlink (path : String)
  | fail (failure : ε)

section Steps

variable [Unicode] {ε : Type} (raised : Exception → ε) (location : String)

/-- One step, on the profile at `location`. -/
def FileOp.apply (profile : ProfileDir) : FileOp ε → Except ε ProfileDir
  | .write path text =>
    if profile.isDirectory path then
      .error (raised (.osError ("[Errno 21] Is a directory: " ++
        Python.repr (location ++ "/" ++ path))))
    else .ok (profile.put path text)
  | .unlink path => .ok (profile.unlink path)
  | .fail failure => .error failure

/-- The steps in order, up to the first that fails. -/
def applyOps : List (FileOp ε) → ProfileDir → ProfileDir × Except ε Unit
  | [], profile => (profile, .ok ())
  | op :: ops, profile =>
    match op.apply raised location profile with
    | .error failure => (profile, .error failure)
    | .ok profile => applyOps ops profile

end Steps

/-- A profile directory takes the place of the one of its name. -/
def storeProfile (profiles : List ProfileDir) (profile : ProfileDir) : List ProfileDir :=
  if profiles.any fun other => other.name == profile.name then
    profiles.map fun other => if other.name == profile.name then profile else other
  else profiles ++ [profile]

/-- The directory of a profile, made when it is not there. -/
def madeDir (profiles : List ProfileDir) (name : String) : ProfileDir :=
  (profiles.find? fun profile => profile.name == name).getD ⟨name, []⟩

/-- `set(_list_profile_names(profiles_root)) - {name}`. -/
def knownParents (profiles : List ProfileDir) (name : String) : List String :=
  (listProfileNames profiles).filter (· != name)

/-- What a route that saves a profile leaves, and what it answers. -/
structure SaveRun (ε α : Type) where
  profiles : List ProfileDir
  value : Except ε α

/-- The directory of the profile is made, and the steps are taken in it. -/
def saveFiles [Unicode] {ε : Type} (raised : Exception → ε) (root : String)
    (profiles : List ProfileDir) (name : String) (ops : List (FileOp ε)) : SaveRun ε Unit :=
  let (profile, value) := applyOps raised (root ++ "/" ++ name) ops (madeDir profiles name)
  ⟨storeProfile profiles profile, value⟩

/-! ## The tool -/

/-- `write_text(args[key] or "")`, and an empty file for a new profile. -/
def writeArg (existed : Bool) (args : Fields) (key path : String) : List (FileOp ToolFailure) :=
  match Json.get? args key with
  | none => if existed then [] else [.write path ""]
  | some value =>
    if value.truthy then
      match value with
      | .str text => [.write path text]
      | value => [.fail (.raised (.typeError ("data must be str, not " ++ value.typeName)))]
    else [.write path ""]

/-- `args[key] or ""`, on which `strip` is called. -/
def textOrEmpty (value : Json) : Except ToolFailure String :=
  if value.truthy then
    match value with
    | .str text => .ok text
    | value => .error (.raised (.attributeError ("'" ++ value.typeName ++
        "' object has no attribute 'strip'")))
  else .ok ""

/-- `setup-chroot` is there only when the script has something in it. -/
def setupChrootOps (args : Fields) : List (FileOp ToolFailure) :=
  match Json.get? args "setup_chroot" with
  | none => []
  | some value =>
    match textOrEmpty value with
    | .error failure => [.fail failure]
    | .ok script => if strip script = "" then [.unlink "setup-chroot"]
        else [.write "setup-chroot" script]

def suiteOps (args : Fields) : List (FileOp ToolFailure) :=
  match Json.get? args "suite" with
  | none => []
  | some value =>
    match textOrEmpty value with
    | .error failure => [.fail failure]
    | .ok text => if strip text = "" then [.unlink "suite"]
        else [.write "suite" (strip text ++ "\n")]

/-- `[p for p in parents_arg if p in known]`: only strings are known, and what has no hash cannot
be looked up. -/
def cleanedParents (known : List String) : List Json → Except ToolFailure (List String)
  | [] => .ok []
  | .str parent :: rest => do
    let cleaned ← cleanedParents known rest
    return if parent ∈ known then parent :: cleaned else cleaned
  | .arr _ :: _ => .error (.raised (.typeError "unhashable type: 'list'"))
  | .obj _ :: _ => .error (.raised (.typeError "unhashable type: 'dict'"))
  | _ :: rest => cleanedParents known rest

/-- The parents that are kept of `args["parents"] or []`. -/
def parentsOfArg (known : List String) (value : Json) : Except ToolFailure (List String) :=
  if value.truthy then
    match value with
    | .arr items => cleanedParents known items
    | _ => .error (.toolError "parents must be a list of strings")
  else .ok []

def joinLines (lines : List String) : String := "\n".intercalate lines ++ "\n"

def parentsOps (known : List String) (args : Fields) : List (FileOp ToolFailure) :=
  match Json.get? args "parents" with
  | none => []
  | some value =>
    match parentsOfArg known value with
    | .error failure => [.fail failure]
    | .ok [] => [.unlink "parent"]
    | .ok cleaned => [.write "parent" (joinLines cleaned)]

/-- The steps of the tool. -/
def toolOps (existed : Bool) (known : List String) (args : Fields) :
    List (FileOp ToolFailure) :=
  writeArg existed args "extra_packages" "extra-packages.list" ++
    writeArg existed args "readme" "README.md" ++ setupChrootOps args ++
    parentsOps known args ++ suiteOps args

/-- `save_profile` of `mcp.py`. -/
def saveProfile [Unicode] (root : String) (args : Fields) (profiles : List ProfileDir) :
    SaveRun ToolFailure Json :=
  match requireStr args "name" with
  | .error message => ⟨profiles, .error (.toolError message)⟩
  | .ok name =>
    match safeProfileDir profiles name with
    | .error message => ⟨profiles, .error (.toolError message)⟩
    | .ok found =>
      let saved := saveFiles ToolFailure.raised root profiles name
        (toolOps found.isSome (knownParents profiles name) args)
      ⟨saved.profiles, saved.value.map fun _ => .obj
        [("name", .str name), ("created", .bool found.isNone)]⟩

/-! ## The form -/

/-- The fields of the form. -/
structure ProfileForm where
  extraPackages : String
  setupChroot : String
  readme : String
  parents : String
  suite : String

/-- The lines of the form that name a known profile. A line end of two characters gives a blank
line here, which names none. -/
def ProfileForm.cleanedParents (known : List String) (form : ProfileForm) : List String :=
  ((splitLines form.parents).filter fun line =>
    strip line != "" && decide (strip line ∈ known)).map strip

/-- The steps of the form. -/
def formOps (known : List String) (form : ProfileForm) : List (FileOp RestFailure) :=
  let cleaned := "\n".intercalate (form.cleanedParents known)
  let suite := strip form.suite
  [.write "extra-packages.list" form.extraPackages, .write "README.md" form.readme,
    if strip form.setupChroot = "" then .unlink "setup-chroot"
      else .write "setup-chroot" form.setupChroot,
    if cleaned = "" then .unlink "parent" else .write "parent" (cleaned ++ "\n"),
    if suite = "" then .unlink "suite" else .write "suite" (suite ++ "\n")]

/-- `save_profile` of `dashboard.py`, which answers with a redirection. -/
def saveProfileForm [Unicode] (root name : String) (form : ProfileForm)
    (profiles : List ProfileDir) : SaveRun RestFailure String :=
  match safeProfileDir profiles name with
  | .error message => ⟨profiles, .error (.http 400 message)⟩
  | .ok _ =>
    let saved := saveFiles RestFailure.raised root profiles name
      (formOps (knownParents profiles name) form)
    ⟨saved.profiles, saved.value.map fun _ => "/dashboard/profiles/" ++ name⟩

/-! ## What the steps leave -/

section Files

variable [Unicode] {ε : Type} {raised : Exception → ε} {location : String}

omit [Unicode] in
theorem file_put_self (profile : ProfileDir) (path text : String) :
    (profile.put path text).file path = some text := by
  have hnone : (profile.files.filter fun file => file.1 != path).find?
      (fun file => file.1 == path) = none := by
    rw [List.find?_eq_none]
    intro file hfile
    simpa using (List.mem_filter.mp hfile).2
  simp [ProfileDir.file, ProfileDir.put, List.find?_append, hnone]

omit [Unicode] in
theorem find?_filter_ne {files : List (String × String)} {path other : String} (h : other ≠ path) :
    (files.filter fun file => file.1 != path).find? (fun file => file.1 == other) =
      files.find? fun file => file.1 == other := by
  rw [List.find?_filter]
  refine congrArg (fun p => files.find? p) (funext fun file => ?_)
  by_cases hfile : file.1 = other
  · simp [hfile, h]
  · simp [hfile]

omit [Unicode] in
theorem file_put_of_ne {profile : ProfileDir} {path other text : String} (h : other ≠ path) :
    (profile.put path text).file other = profile.file other := by
  simp [ProfileDir.file, ProfileDir.put, List.find?_append, find?_filter_ne h, h.symm]

omit [Unicode] in
theorem file_unlink_self (profile : ProfileDir) (path : String) :
    (profile.unlink path).file path = none := by
  simp [ProfileDir.file, ProfileDir.unlink, List.find?_eq_none]

omit [Unicode] in
theorem file_unlink_of_ne {profile : ProfileDir} {path other : String} (h : other ≠ path) :
    (profile.unlink path).file other = profile.file other := by
  simp [ProfileDir.file, ProfileDir.unlink, find?_filter_ne h]

/-- What a step makes of the text of one file. -/
def FileOp.effect (path : String) (text : Option String) : FileOp ε → Option String
  | .write other written => if other = path then some written else text
  | .unlink other => if other = path then none else text
  | .fail _ => text

/-- What steps make of the text of one file. -/
def fileAfter (path : String) (ops : List (FileOp ε)) (text : Option String) : Option String :=
  ops.foldl (FileOp.effect path) text

theorem apply_ok {op : FileOp ε} {profile profile' : ProfileDir}
    (h : op.apply raised location profile = .ok profile') : profile'.name = profile.name ∧
      ∀ path, profile'.file path = op.effect path (profile.file path) := by
  cases op with
  | write other written =>
    simp only [FileOp.apply] at h
    split at h
    · cases h
    · cases h
      refine ⟨rfl, fun path => ?_⟩
      by_cases hpath : other = path
      · subst hpath
        simp [FileOp.effect, file_put_self]
      · simp [FileOp.effect, hpath, file_put_of_ne (Ne.symm hpath)]
  | unlink other =>
    cases h
    refine ⟨rfl, fun path => ?_⟩
    by_cases hpath : other = path
    · subst hpath
      simp [FileOp.effect, file_unlink_self]
    · simp [FileOp.effect, hpath, file_unlink_of_ne (Ne.symm hpath)]
  | fail failure => cases h

/-- The steps leave the name of the profile, also when one fails. -/
theorem name_applyOps (ops : List (FileOp ε)) (profile : ProfileDir) :
    (applyOps raised location ops profile).1.name = profile.name := by
  induction ops generalizing profile with
  | nil => rfl
  | cons op ops ih =>
    unfold applyOps
    split
    · rfl
    · rename_i profile' hop
      rw [ih]
      exact (apply_ok hop).1

/-- The files after steps that all succeed. -/
theorem file_applyOps {ops : List (FileOp ε)} {profile : ProfileDir}
    (h : (applyOps raised location ops profile).2 = .ok ()) (path : String) :
    (applyOps raised location ops profile).1.file path =
      fileAfter path ops (profile.file path) := by
  induction ops generalizing profile with
  | nil => rfl
  | cons op ops ih =>
    cases hop : op.apply raised location profile with
    | error failure =>
      simp only [applyOps, hop] at h
      cases h
    | ok profile' =>
      simp only [applyOps, hop] at h ⊢
      rw [ih h, (apply_ok hop).2]
      rfl

end Files

/-! ## The tree after a profile is stored -/

section Tree

variable {profiles : List ProfileDir} {profile : ProfileDir}

theorem parentText_ofDirs (name : String) : (ProfilesTree.ofDirs profiles).parentText name =
    (profiles.find? fun profile => profile.name == name).bind fun profile =>
      profile.file "parent" := rfl

theorem names_storeProfile (name : String) :
    name ∈ (storeProfile profiles profile).map ProfileDir.name ↔
      name ∈ profiles.map ProfileDir.name ∨ name = profile.name := by
  unfold storeProfile
  split
  · rename_i hany
    have hmem : profile.name ∈ profiles.map ProfileDir.name := by simpa using hany
    have hsame : (profiles.map fun other =>
        if other.name == profile.name then profile else other).map ProfileDir.name =
        profiles.map ProfileDir.name := by
      rw [List.map_map]
      refine List.map_congr_left fun other _ => ?_
      by_cases hother : other.name = profile.name
      · simp [hother]
      · simp [hother]
    rw [hsame]
    constructor
    · exact Or.inl
    · rintro (h | rfl)
      · exact h
      · exact hmem
  · simp

theorem isDir_storeProfile (name : String) :
    (ProfilesTree.ofDirs (storeProfile profiles profile)).isDir name = true ↔
      (ProfilesTree.ofDirs profiles).isDir name = true ∨ name = profile.name := by
  rw [isDir_ofDirs_iff, isDir_ofDirs_iff, names_storeProfile]

theorem find?_storeProfile_self : (storeProfile profiles profile).find?
    (fun other => other.name == profile.name) = some profile := by
  unfold storeProfile
  split
  · rename_i hany
    induction profiles with
    | nil => cases hany
    | cons other profiles ih =>
      rw [List.map_cons]
      by_cases hother : other.name = profile.name
      · rw [if_pos (beq_iff_eq.mpr hother), List.find?_cons_of_pos (by simp)]
      · rw [if_neg (by simpa using hother), List.find?_cons_of_neg (by simpa using hother)]
        rw [List.any_cons, beq_eq_false_iff_ne.mpr hother, Bool.false_or] at hany
        exact ih hany
  · rename_i hany
    have hnone : profiles.find? (fun other => other.name == profile.name) = none := by
      rw [List.find?_eq_none]
      intro other hother heq
      exact hany (List.any_eq_true.mpr ⟨other, hother, heq⟩)
    simp [List.find?_append, hnone]

theorem find?_storeProfile_of_ne {name : String} (h : name ≠ profile.name) :
    (storeProfile profiles profile).find? (fun other => other.name == name) =
      profiles.find? fun other => other.name == name := by
  unfold storeProfile
  split
  · rename_i hany
    clear hany
    induction profiles with
    | nil => rfl
    | cons other profiles ih =>
      rw [List.map_cons]
      by_cases hother : other.name = profile.name
      · rw [if_pos (beq_iff_eq.mpr hother), List.find?_cons_of_neg (by simpa using h.symm), ih,
          List.find?_cons_of_neg (by simpa [hother] using h.symm)]
      · rw [if_neg (by simpa using hother), List.find?_cons, List.find?_cons, ih]
  · simp [List.find?_append, h.symm]

/-- The parents that the `parent` file of a profile declares. -/
def ProfileDir.declared (profile : ProfileDir) : List String :=
  match profile.file "parent" with
  | some text => declaredParents text
  | none => []

theorem fileParents_storeProfile_self :
    (ProfilesTree.ofDirs (storeProfile profiles profile)).fileParents profile.name =
      profile.declared := by
  unfold ProfilesTree.fileParents ProfileDir.declared
  rw [parentText_ofDirs, find?_storeProfile_self]
  rfl

theorem fileParents_storeProfile_of_ne {name : String} (h : name ≠ profile.name) :
    (ProfilesTree.ofDirs (storeProfile profiles profile)).fileParents name =
      (ProfilesTree.ofDirs profiles).fileParents name := by
  unfold ProfilesTree.fileParents
  rw [parentText_ofDirs, find?_storeProfile_of_ne h]
  rfl

theorem mem_readParents_iff {tree : ProfilesTree} {name parent : String} :
    parent ∈ tree.readParents name ↔ parent ∈ tree.fileParents name ∨
      (parent = baseProfile ∧ name ≠ baseProfile ∧ tree.isDir baseProfile = true) := by
  unfold ProfilesTree.readParents
  dsimp only
  split
  · rename_i h
    rw [List.mem_cons, or_comm]
    exact or_congr_right ⟨fun heq => ⟨heq, h.1, h.2.2⟩, And.left⟩
  · rename_i h
    constructor
    · exact Or.inl
    · rintro (hparent | ⟨rfl, hname, hbase⟩)
      · exact hparent
      · by_contra hparent
        exact h ⟨hname, hparent, hbase⟩

theorem resolvable_iff_sound : Resolvable (.ofDirs profiles) (profiles.map ProfileDir.name) ↔
    Faultless (ProfilesTree.ofDirs profiles).readParents (ProfilesTree.ofDirs profiles).isDir := by
  unfold Resolvable Faultless
  refine forall_congr' fun name => ?_
  rw [isDir_ofDirs_iff, resolveChain_ok_iff]

/-- Where everything resolves, `base` has no parents. -/
theorem fileParents_base {tree : ProfilesTree} (hbase : tree.isDir baseProfile = true)
    (hsound : ¬ Faulty tree.readParents tree.isDir baseProfile) :
    tree.fileParents baseProfile = [] := by
  rw [List.eq_nil_iff_forall_not_mem]
  intro parent hparent
  have hread : parent ∈ tree.readParents baseProfile := mem_readParents_iff.mpr (Or.inl hparent)
  refine hsound ⟨baseProfile, .refl, .inr (onCycle_iff.mpr ⟨parent, hread, ?_⟩)⟩
  by_cases heq : parent = baseProfile
  · rw [heq]
    exact .refl
  · exact .single (base_mem_readParents tree hbase heq)

theorem resolves_without_iff {tree : ProfilesTree} {parent name : String} :
    (∃ chain, tree.resolveChain parent = .ok chain ∧ name ∉ chain) ↔
      ¬ Faulty tree.readParents tree.isDir parent ∧ ¬ Reaches tree.readParents parent name := by
  constructor
  · rintro ⟨chain, hchain, hname⟩
    have hspec := isChain_of_resolveChain hchain
    exact ⟨hspec.not_faulty, fun hreach => hname ((hspec.mem_iff name).mpr hreach)⟩
  · rintro ⟨hsound, hreach⟩
    obtain ⟨chain, hchain⟩ := (resolveChain_ok_iff tree parent).mpr hsound
    have hspec := isChain_of_resolveChain hchain
    exact ⟨chain, hchain, fun hname => hreach ((hspec.mem_iff name).mp hname)⟩

/-- Storing a profile changes its own parents only, unless it is a new `base`. -/
theorem rewired_storeProfile (hbase : profile.name = baseProfile →
    (ProfilesTree.ofDirs profiles).isDir baseProfile = true) :
    Rewired profile.name (ProfilesTree.ofDirs profiles).readParents
      (ProfilesTree.ofDirs (storeProfile profiles profile)).readParents
      (ProfilesTree.ofDirs profiles).isDir
      (ProfilesTree.ofDirs (storeProfile profiles profile)).isDir where
  agree := by
    intro name hname
    have hdir : (ProfilesTree.ofDirs (storeProfile profiles profile)).isDir baseProfile =
        (ProfilesTree.ofDirs profiles).isDir baseProfile := by
      rw [Bool.eq_iff_iff, isDir_storeProfile, or_iff_left_of_imp]
      exact fun heq => hbase heq.symm
    unfold ProfilesTree.readParents
    rw [fileParents_storeProfile_of_ne hname, hdir]
  present_iff := isDir_storeProfile

/-- The condition under which a profile may be stored. -/
def StoresSafely (profiles : List ProfileDir) (name : String) (declared : List String) : Prop :=
  (name = baseProfile → declared = []) ∧
  (name ≠ baseProfile → ∀ parent ∈ declared, ∃ chain,
    (ProfilesTree.ofDirs profiles).resolveChain parent = .ok chain ∧ name ∉ chain)

/-- `base` is new: every profile stands behind it from now on. -/
theorem faultless_new_base (hsound : Faultless (ProfilesTree.ofDirs profiles).readParents
      (ProfilesTree.ofDirs profiles).isDir)
    (hname : profile.name = baseProfile)
    (hnew : (ProfilesTree.ofDirs profiles).isDir baseProfile = false)
    (hdeclared : profile.declared = []) :
    Faultless (ProfilesTree.ofDirs (storeProfile profiles profile)).readParents
      (ProfilesTree.ofDirs (storeProfile profiles profile)).isDir := by
  have hroot : (ProfilesTree.ofDirs (storeProfile profiles profile)).readParents baseProfile =
      [] := by
    rw [List.eq_nil_iff_forall_not_mem]
    intro parent hparent
    rcases mem_readParents_iff.mp hparent with hfile | ⟨-, hne, -⟩
    · rw [← hname, fileParents_storeProfile_self, hdeclared] at hfile
      cases hfile
    · exact hne rfl
  have hpresent : ∀ name, (ProfilesTree.ofDirs (storeProfile profiles profile)).isDir name = true ↔
      (ProfilesTree.ofDirs profiles).isDir name = true ∨ name = baseProfile := by
    intro name
    rw [isDir_storeProfile, hname]
  intro name hdir
  rcases (hpresent name).mp hdir with hold | rfl
  · obtain ⟨chain, hchain⟩ := (resolveChain_ok_iff _ name).mpr (hsound name hold)
    have hspec := isChain_of_resolveChain hchain
    refine not_faulty_cons hspec hnew hroot (fun other hother parent hparent => ?_) hpresent
    have hne : other ≠ profile.name := by
      rintro rfl
      rw [← hname, hspec.present _ hother] at hnew
      cases hnew
    rcases mem_readParents_iff.mp hparent with hfile | ⟨rfl, -, -⟩
    · rw [fileParents_storeProfile_of_ne hne] at hfile
      exact .inr (mem_readParents_iff.mpr (.inl hfile))
    · exact .inl rfl
  · rintro ⟨name, hreach, hfault⟩
    rcases Relation.ReflTransGen.cases_head hreach with rfl | ⟨parent, hparent, -⟩
    · rcases hfault with hmissing | hcycle
      · rw [hdir] at hmissing
        cases hmissing
      · obtain ⟨parent, hparent, -⟩ := onCycle_iff.mp hcycle
        rw [hroot] at hparent
        cases hparent
    · rw [hroot] at hparent
      cases hparent

/-- **When a tree stays resolvable** as a profile is stored: `base` declares no parents, and no
other profile one that inherits from it. -/
theorem resolvable_storeProfile_iff
    (hresolve : Resolvable (.ofDirs profiles) (profiles.map ProfileDir.name)) :
    Resolvable (.ofDirs (storeProfile profiles profile))
        ((storeProfile profiles profile).map ProfileDir.name) ↔
      StoresSafely profiles profile.name profile.declared := by
  have hsound := resolvable_iff_sound.mp hresolve
  rw [resolvable_iff_sound]
  unfold StoresSafely
  by_cases hname : profile.name = baseProfile
  · rw [and_iff_left fun hne => absurd hname hne, forall_prop_of_true hname]
    have hdir : (ProfilesTree.ofDirs (storeProfile profiles profile)).isDir baseProfile = true :=
      (isDir_storeProfile _).mpr (.inr hname.symm)
    constructor
    · intro hafter
      rw [← @fileParents_storeProfile_self profiles profile, hname]
      exact fileParents_base hdir (hafter _ hdir)
    · intro hdeclared
      cases hbase : (ProfilesTree.ofDirs profiles).isDir baseProfile with
      | false => exact faultless_new_base hsound hname hbase hdeclared
      | true =>
        refine (faultless_rewired_iff (rewired_storeProfile fun _ => hbase) hsound).mpr ?_
        intro parent hparent
        rcases mem_readParents_iff.mp hparent with hfile | ⟨-, hne, -⟩
        · rw [fileParents_storeProfile_self, hdeclared] at hfile
          cases hfile
        · exact absurd hname hne
  · rw [and_iff_right fun heq => absurd heq hname, forall_prop_of_true hname]
    rw [faultless_rewired_iff (rewired_storeProfile fun heq => absurd heq hname) hsound]
    simp only [resolves_without_iff]
    constructor
    · intro hparents parent hdeclared
      refine hparents parent (mem_readParents_iff.mpr (.inl ?_))
      rwa [fileParents_storeProfile_self]
    · intro hdeclared parent hparent
      rcases mem_readParents_iff.mp hparent with hfile | ⟨rfl, -, hdir⟩
      · rw [fileParents_storeProfile_self] at hfile
        exact hdeclared parent hfile
      · -- `base` has no parents, so it does not inherit from the profile
        have hbase := ((isDir_storeProfile _).mp hdir).resolve_right (Ne.symm hname)
        have hnone := fileParents_base hbase (hsound _ hbase)
        refine ⟨hsound _ hbase, fun hreach => ?_⟩
        rcases Relation.ReflTransGen.cases_head hreach with heq | ⟨parent, hparent, -⟩
        · exact hname heq.symm
        · rcases mem_readParents_iff.mp hparent with hfile | ⟨-, hne, -⟩
          · rw [hnone] at hfile
            cases hfile
          · exact hne rfl

end Tree

/-! ## Accepted saves -/

/-- A request to save a profile. -/
inductive SaveRequest
  | tool (args : Fields)
  | form (name : String) (fields : ProfileForm)

section Requests

variable [Unicode] {root : String} {profiles profiles' : List ProfileDir} {request : SaveRequest}

/-- A request that is accepted, and what it leaves. -/
inductive SaveStep (root : String) (profiles : List ProfileDir) :
    SaveRequest → List ProfileDir → Prop
  | tool {args : Fields} {profiles' : List ProfileDir} {answer : Json}
      (h : saveProfile root args profiles = ⟨profiles', .ok answer⟩) :
      SaveStep root profiles (.tool args) profiles'
  | form {name : String} {fields : ProfileForm} {profiles' : List ProfileDir} {location : String}
      (h : saveProfileForm root name fields profiles = ⟨profiles', .ok location⟩) :
      SaveStep root profiles (.form name fields) profiles'

/-- The profile that a request names. -/
def SaveRequest.profileName : SaveRequest → String
  | tool args => (requireStr args "name").toOption.getD ""
  | form name _ => name

/-- The parents that the profile declares if the request is accepted: those it declared when the
request does not mention them, else what the resolver reads of those that are known. -/
def SaveRequest.declared (profiles : List ProfileDir) : SaveRequest → List String
  | tool args =>
    let name := (tool args).profileName
    match Json.get? args "parents" with
    | none => (ProfilesTree.ofDirs profiles).fileParents name
    | some value =>
      match parentsOfArg (knownParents profiles name) value with
      | .ok cleaned => declaredParents (joinLines cleaned)
      | .error _ => []
  | form name fields =>
    declaredParents (joinLines (fields.cleanedParents (knownParents profiles name)))

omit [Unicode] in
theorem fileAfter_append {ε : Type} (path : String) (ops ops' : List (FileOp ε))
    (text : Option String) :
    fileAfter path (ops ++ ops') text = fileAfter path ops' (fileAfter path ops text) :=
  List.foldl_append

omit [Unicode] in
theorem fileAfter_writeArg {existed : Bool} {args : Fields} {key path other : String}
    (h : path ≠ other) (text : Option String) :
    fileAfter other (writeArg existed args key path) text = text := by
  unfold writeArg
  repeat' split
  all_goals simp [fileAfter, FileOp.effect, h]

omit [Unicode] in
theorem fileAfter_setupChrootOps (args : Fields) (text : Option String) :
    fileAfter "parent" (setupChrootOps args) text = text := by
  unfold setupChrootOps
  repeat' split
  all_goals simp [fileAfter, FileOp.effect]

omit [Unicode] in
theorem fileAfter_suiteOps (args : Fields) (text : Option String) :
    fileAfter "parent" (suiteOps args) text = text := by
  unfold suiteOps
  repeat' split
  all_goals simp [fileAfter, FileOp.effect]

omit [Unicode] in
/-- The other files do not matter to `parent`. -/
theorem fileAfter_toolOps (existed : Bool) (known : List String) (args : Fields)
    (text : Option String) : fileAfter "parent" (toolOps existed known args) text =
      fileAfter "parent" (parentsOps known args) text := by
  unfold toolOps
  rw [fileAfter_append, fileAfter_append, fileAfter_append, fileAfter_append, fileAfter_suiteOps,
    fileAfter_setupChrootOps, fileAfter_writeArg (by decide), fileAfter_writeArg (by decide)]

/-- No step of steps that all succeed is a failure. -/
theorem not_fail_of_applyOps {ε : Type} {raised : Exception → ε} {location : String}
    {ops : List (FileOp ε)} {profile : ProfileDir} {failure : ε}
    (h : (applyOps raised location ops profile).2 = .ok ()) : .fail failure ∉ ops := by
  induction ops generalizing profile with
  | nil => exact List.not_mem_nil
  | cons op ops ih =>
    cases hop : op.apply raised location profile with
    | error failure =>
      simp only [applyOps, hop] at h
      cases h
    | ok profile' =>
      simp only [applyOps, hop] at h
      intro hmem
      rcases List.mem_cons.mp hmem with rfl | hmem
      · cases hop
      · exact ih h hmem

omit [Unicode] in
theorem name_madeDir (profiles : List ProfileDir) (name : String) :
    (madeDir profiles name).name = name := by
  unfold madeDir
  cases hfound : profiles.find? fun profile => profile.name == name with
  | none => rfl
  | some profile => simpa using List.find?_some hfound

omit [Unicode] in
theorem declared_madeDir (profiles : List ProfileDir) (name : String) :
    (madeDir profiles name).declared = (ProfilesTree.ofDirs profiles).fileParents name := by
  unfold ProfileDir.declared ProfilesTree.fileParents madeDir
  rw [parentText_ofDirs]
  cases profiles.find? fun profile => profile.name == name with
  | none => rfl
  | some profile => rfl

omit [Unicode] in
theorem declaredParents_joinLines_nil : declaredParents (joinLines []) = [] := by decide

omit [Unicode] in
theorem eq_ok_of_map {ε α : Type} {x : Except ε Unit} {f : Unit → α} {a : α}
    (h : x.map f = .ok a) : x = .ok () := by
  cases x with
  | error failure => cases h
  | ok _ => rfl

/-- What steps leave that all succeed. -/
theorem saveFiles_ok {ε : Type} {raised : Exception → ε} {name : String} {ops : List (FileOp ε)}
    (h : (saveFiles raised root profiles name ops).value = .ok ()) : ∃ profile,
      (saveFiles raised root profiles name ops).profiles = storeProfile profiles profile ∧
      profile.name = name ∧ profile.file "parent" =
        fileAfter "parent" ops ((madeDir profiles name).file "parent") ∧
      ∀ failure, .fail failure ∉ ops :=
  ⟨_, rfl, (name_applyOps ops _).trans (name_madeDir profiles name), file_applyOps h "parent",
    fun _ => not_fail_of_applyOps h⟩

omit [Unicode] in
/-- The parents after the steps of the tool. -/
theorem declared_parentsOps {name : String} {args : Fields} {profile : ProfileDir}
    (hname : (SaveRequest.tool args).profileName = name)
    (hfile : profile.file "parent" = fileAfter "parent"
      (parentsOps (knownParents profiles name) args) ((madeDir profiles name).file "parent"))
    (hops : ∀ failure, .fail failure ∉ parentsOps (knownParents profiles name) args) :
    profile.declared = (SaveRequest.tool args).declared profiles := by
  unfold SaveRequest.declared
  simp only [hname]
  unfold parentsOps at hfile hops
  cases harg : Json.get? args "parents" with
  | none =>
    simp only [harg] at hfile ⊢
    rw [← declared_madeDir]
    unfold ProfileDir.declared
    rw [hfile]
    rfl
  | some value =>
    simp only [harg] at hfile hops ⊢
    cases hparents : parentsOfArg (knownParents profiles name) value with
    | error failure =>
      simp only [hparents] at hops
      exact absurd (List.mem_singleton_self _) (hops failure)
    | ok cleaned =>
      unfold ProfileDir.declared
      simp only [hparents] at hfile ⊢
      cases cleaned with
      | nil =>
        rw [hfile, declaredParents_joinLines_nil]
        rfl
      | cons parent rest =>
        rw [hfile]
        rfl

omit [Unicode] in
/-- The parents after the steps of the form. -/
theorem declared_formOps {name : String} {fields : ProfileForm} {profile : ProfileDir}
    (hfile : profile.file "parent" = fileAfter "parent"
      (formOps (knownParents profiles name) fields) ((madeDir profiles name).file "parent")) :
    profile.declared = (SaveRequest.form name fields).declared profiles := by
  have hafter : profile.file "parent" =
      if "\n".intercalate (fields.cleanedParents (knownParents profiles name)) = "" then none
      else some (joinLines (fields.cleanedParents (knownParents profiles name))) := by
    rw [hfile]
    simp only [fileAfter, formOps, List.foldl_cons, List.foldl_nil]
    repeat' split
    all_goals simp_all [FileOp.effect, joinLines]
  have hdeclared : (SaveRequest.form name fields).declared profiles =
      declaredParents (joinLines (fields.cleanedParents (knownParents profiles name))) := rfl
  unfold ProfileDir.declared
  rw [hafter, hdeclared]
  by_cases hempty : "\n".intercalate (fields.cleanedParents (knownParents profiles name)) = ""
  · have hlines : joinLines (fields.cleanedParents (knownParents profiles name)) =
        joinLines [] := by
      unfold joinLines
      rw [hempty]
      rfl
    rw [if_pos hempty, hlines, declaredParents_joinLines_nil]
  · rw [if_neg hempty]

/-- **What an accepted save leaves**: the tree with the profile stored, which declares the
parents of the request. -/
theorem saveStep_cases (h : SaveStep root profiles request profiles') :
    ∃ profile, profiles' = storeProfile profiles profile ∧ profile.name = request.profileName ∧
      profile.declared = request.declared profiles := by
  cases h with
  | @tool args _ answer h =>
    unfold saveProfile at h
    cases hname : requireStr args "name" with
    | error message =>
      simp only [hname] at h
      cases h
    | ok name =>
      simp only [hname] at h
      split at h
      · cases h
      · rename_i found _
        have hvalue := eq_ok_of_map (congrArg SaveRun.value h)
        obtain ⟨profile, hprofiles, hstored, hfile, hops⟩ := saveFiles_ok hvalue
        have hrequest : (SaveRequest.tool args).profileName = name := by
          simp [SaveRequest.profileName, hname, Except.toOption]
        rw [fileAfter_toolOps] at hfile
        refine ⟨profile, ?_, hstored.trans hrequest.symm, declared_parentsOps hrequest hfile ?_⟩
        · rw [← hprofiles]
          exact (congrArg SaveRun.profiles h).symm
        · intro failure hfail
          refine hops failure ?_
          unfold toolOps
          exact List.mem_append_left _ (List.mem_append_right _ hfail)
  | @form name fields _ location h =>
    unfold saveProfileForm at h
    split at h
    · cases h
    · have hvalue := eq_ok_of_map (congrArg SaveRun.value h)
      obtain ⟨profile, hprofiles, hstored, hfile, -⟩ := saveFiles_ok hvalue
      refine ⟨profile, ?_, hstored, declared_formOps hfile⟩
      rw [← hprofiles]
      exact (congrArg SaveRun.profiles h).symm

/-- The condition on a request: the profile does not come to inherit from itself, nor `base` from
anything. -/
def SavesSafely (profiles : List ProfileDir) (request : SaveRequest) : Prop :=
  StoresSafely profiles request.profileName (request.declared profiles)

omit [Unicode] in
/-- Every profile of the tree resolves. -/
def AllResolve (profiles : List ProfileDir) : Prop :=
  Resolvable (.ofDirs profiles) (profiles.map ProfileDir.name)

theorem allResolve_step_iff (hresolve : AllResolve profiles)
    (h : SaveStep root profiles request profiles') :
    AllResolve profiles' ↔ SavesSafely profiles request := by
  obtain ⟨profile, rfl, hname, hdeclared⟩ := saveStep_cases h
  unfold SavesSafely
  rw [← hname, ← hdeclared]
  exact resolvable_storeProfile_iff hresolve

theorem allResolve_run {requests : List SaveRequest}
    (hrun : Run (Restrict (SaveStep root) SavesSafely) profiles requests profiles')
    (hresolve : AllResolve profiles) : AllResolve profiles' := by
  refine hrun.invariant (I := AllResolve) (fun before request after hbefore hstep => ?_) hresolve
  obtain ⟨hsave, hsafe⟩ := hstep
  exact (allResolve_step_iff hbefore hsave).mpr hsafe

/-- **Saving and resolving.**

* In every run of accepted saves, none of which lets `base` declare a parent or another profile
  one that inherits from it, every profile of the tree still resolves.
* After an accepted save in a tree in which every profile resolves, that is so only then. -/
theorem saves_keep_resolvable (root : String) :
    (∀ profiles requests profiles', AllResolve profiles →
      Run (Restrict (SaveStep root) SavesSafely) profiles requests profiles' →
      AllResolve profiles') ∧
    ∀ profiles request profiles', AllResolve profiles → SaveStep root profiles request profiles' →
      (AllResolve profiles' ↔ SavesSafely profiles request) := by
  refine ⟨fun profiles requests profiles' hresolve hrun => ?_,
    fun profiles request profiles' hresolve hstep => ?_⟩
  · exact allResolve_run hrun hresolve
  · exact allResolve_step_iff hresolve hstep

end Requests

section Examples

attribute [local instance] ascii

/-- `lab` inherits from `gpu`. -/
def labDirs : List ProfileDir := [⟨"base", []⟩, ⟨"gpu", []⟩, ⟨"lab", [("parent", "gpu\n")]⟩]

theorem allResolve_labDirs : AllResolve labDirs := by
  have hall : ∀ name ∈ labDirs.map ProfileDir.name,
      ((ProfilesTree.ofDirs labDirs).resolveChain name).toOption.isSome := by
    decide +kernel
  intro name hname
  obtain ⟨chain, hchain⟩ := Option.isSome_iff_exists.mp (hall name hname)
  exact ⟨chain, eq_ok_of_toOption hchain⟩

/-- Give a profile one parent. -/
def inheritRequest (name parent : String) : Fields :=
  [("name", .str name), ("parents", .arr [.str parent])]

/-- The tool lets `gpu` inherit from `lab`, and neither resolves any more. -/
theorem save_closes_cycle : ∃ profiles', AllResolve labDirs ∧
    SaveStep "/srv/profiles" labDirs (.tool (inheritRequest "gpu" "lab")) profiles' ∧
    ¬ AllResolve profiles' := by
  refine ⟨[⟨"base", []⟩, ⟨"gpu", [("parent", "lab\n")]⟩, ⟨"lab", [("parent", "gpu\n")]⟩],
    allResolve_labDirs, @SaveStep.tool _ _ labDirs _ _
      (.obj [("name", .str "gpu"), ("created", .bool false)]) rfl, fun hresolve => ?_⟩
  obtain ⟨chain, hchain⟩ := hresolve "gpu" (by decide)
  have hcycle : ((ProfilesTree.ofDirs [⟨"base", []⟩, ⟨"gpu", [("parent", "lab\n")]⟩,
      ⟨"lab", [("parent", "gpu\n")]⟩]).resolveChain "gpu").toOption = none := by decide +kernel
  rw [hchain] at hcycle
  cases hcycle

/-- A new profile `kiosk` inherits from `lab`. -/
theorem saves_keep_resolvable_kiosk : AllResolve
    (saveProfile "/srv/profiles" (inheritRequest "kiosk" "lab") labDirs).profiles := by
  have hstep : SaveStep "/srv/profiles" labDirs (.tool (inheritRequest "kiosk" "lab"))
      (saveProfile "/srv/profiles" (inheritRequest "kiosk" "lab") labDirs).profiles :=
    @SaveStep.tool _ _ labDirs _ _ (.obj [("name", .str "kiosk"), ("created", .bool true)]) rfl
  have hdeclared :
      (SaveRequest.tool (inheritRequest "kiosk" "lab")).declared labDirs = ["lab"] := by
    decide +kernel
  have hsafe : SavesSafely labDirs (.tool (inheritRequest "kiosk" "lab")) := by
    refine ⟨fun hname => absurd hname (by decide), fun _ parent hparent => ?_⟩
    rw [hdeclared, List.mem_singleton] at hparent
    subst hparent
    exact ⟨["base", "gpu", "lab"], eq_ok_of_toOption (by decide +kernel), by decide⟩
  exact (saves_keep_resolvable "/srv/profiles").1 labDirs [_] _ allResolve_labDirs
    (.single ⟨hstep, hsafe⟩)

end Examples

end Fleetboot
