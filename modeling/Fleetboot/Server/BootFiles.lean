import Fleetboot.Library.Pattern
import Fleetboot.Registry.Reservations
import Fleetboot.Server.Deployment
import Fleetboot.TftpGlue.GrubTemplate

/-!
# Which boot files are served

`is_allowed_boot_filename` of `app.py`, and whether it serves the image that `grub_template.py`
names for a machine. The profile names come from `_safe_profile_dir`, the architectures from
`ARCHITECTURE_ALIASES`.

* `servesImage_iff`: which names and which spellings get an image.
-/

set_option autoImplicit false

namespace Fleetboot

open Python Pattern

/-- `_STATIC_BOOT_FILES`. -/
def staticBootFiles : List String := ["vmlinuz", "initrd.img"]

/-- `[a-z0-9]`. -/
def slugStart : List Char := charRange 'a' 'z' ++ charRange '0' '9'

/-- `(amd64|arm64|i386)`. -/
def squashfsArchitectures : List String := ["amd64", "arm64", "i386"]

/-- `_PROFILED_SQUASHFS`. -/
def profiledSquashfs : RegularExpression Char :=
  literal "fleetboot-".toList * (oneOf slugStart * ((oneOf (slugStart ++ ['-'])).star *
    (literal "-".toList *
      (anyOf (squashfsArchitectures.map fun arch => literal arch.toList) *
        literal ".squashfs".toList))))

/-- `is_allowed_boot_filename`. -/
def isAllowedBootFilename (filename : String) : Bool :=
  if filename ∈ staticBootFiles then true else profiledSquashfs.rmatch filename.toList

/-- The keys of `ARCHITECTURE_ALIASES`. -/
def knownArchitectures : List String := ["amd64", "x86_64", "x64", "arm64", "aarch64"]

/-! ## What the pattern matches -/

/-- A name of lower-case letters, digits and dashes that does not begin with a dash. -/
def IsSlug (name : String) : Prop :=
  (∀ c ∈ name.toList, c.isLower = true ∨ c.isDigit = true ∨ c = '-') ∧
    name.toList.head? ≠ some '-'

theorem isLower_iff {c : Char} : c.isLower = true ↔ 'a'.toNat ≤ c.toNat ∧ c.toNat ≤ 'z'.toNat :=
  Bool.and_eq_true_iff.trans (and_congr decide_eq_true_iff decide_eq_true_iff)

theorem isDigit_iff {c : Char} : c.isDigit = true ↔ '0'.toNat ≤ c.toNat ∧ c.toNat ≤ '9'.toNat :=
  Bool.and_eq_true_iff.trans (and_congr decide_eq_true_iff decide_eq_true_iff)

theorem mem_slugStart_iff {c : Char} : c ∈ slugStart ↔ c.isLower = true ∨ c.isDigit = true := by
  unfold slugStart
  rw [List.mem_append, mem_charRange_iff (by decide), mem_charRange_iff (by decide), isLower_iff,
    isDigit_iff]

theorem not_mem_slugStart_dash : '-' ∉ slugStart := by
  rw [mem_slugStart_iff]
  decide

/-- The parts of a name that the pattern matches. -/
theorem profiledSquashfs_rmatch_iff {text : List Char} : profiledSquashfs.rmatch text = true ↔
    ∃ first rest, ∃ arch ∈ squashfsArchitectures, first ∈ slugStart ∧
      (∀ c ∈ rest, c ∈ slugStart ∨ c = '-') ∧
      text = "fleetboot-".toList ++ (first :: rest ++ ('-' :: arch.toList) ++
        ".squashfs".toList) := by
  have hmem : ∀ c, c ∈ slugStart ++ ['-'] ↔ c ∈ slugStart ∨ c = '-' := by simp
  unfold profiledSquashfs
  simp only [RegularExpression.mul_rmatch_iff, literal_rmatch_iff, oneOf_rmatch_iff,
    star_oneOf_rmatch_iff, anyOf_rmatch_iff, List.mem_map, hmem]
  constructor
  · rintro ⟨_, _, rfl, rfl, _, _, rfl, ⟨first, hfirst, rfl⟩, rest, _, rfl, hrest, _, _, rfl, rfl,
      _, _, rfl, ⟨_, ⟨arch, harch, rfl⟩, hmatch⟩, rfl⟩
    rw [literal_rmatch_iff] at hmatch
    subst hmatch
    exact ⟨first, rest, arch, harch, hfirst, hrest, by simp⟩
  · rintro ⟨first, rest, arch, harch, hfirst, hrest, rfl⟩
    refine ⟨_, _, rfl, rfl, [first], rest ++ ('-' :: arch.toList ++ ".squashfs".toList), by simp,
      ⟨first, hfirst, rfl⟩, rest, _, rfl, hrest, ['-'], _, rfl, by decide, arch.toList, _, rfl,
      ⟨_, ⟨arch, harch, rfl⟩, literal_rmatch_iff.mpr rfl⟩, rfl⟩

/-! ## The names of images -/

/-- The file name of an image. -/
def imageName (profile arch : String) : String :=
  "fleetboot-" ++ profile ++ "-" ++ arch ++ ".squashfs"

theorem toList_imageName (profile arch : String) : (imageName profile arch).toList =
    "fleetboot-".toList ++ (profile.toList ++ ('-' :: arch.toList) ++ ".squashfs".toList) := by
  simp [imageName]

/-- An architecture can be told from the end of a name. -/
theorem profile_unique {start start' : List Char} {arch arch' : String}
    (harch : arch ∈ squashfsArchitectures) (harch' : arch' ∈ squashfsArchitectures)
    (h : start ++ ('-' :: arch.toList) = start' ++ ('-' :: arch'.toList)) : start = start' := by
  by_cases hsame : arch = arch'
  · subst hsame
    exact List.append_cancel_right h
  · have hreverse := congrArg List.reverse h
    simp only [squashfsArchitectures, List.mem_cons, List.not_mem_nil, or_false] at harch harch'
    rcases harch with rfl | rfl | rfl <;> rcases harch' with rfl | rfl | rfl <;>
      first
        | exact absurd rfl hsame
        | simp at hreverse

theorem isSlug_iff {profile : String} (hprofile : profile ≠ "") : IsSlug profile ↔
    ∃ first rest, profile.toList = first :: rest ∧ first ∈ slugStart ∧
      ∀ c ∈ rest, c ∈ slugStart ∨ c = '-' := by
  unfold IsSlug
  cases hlist : profile.toList with
  | nil => exact absurd (String.toList_eq_nil_iff.mp hlist) hprofile
  | cons first rest =>
    constructor
    · rintro ⟨hall, hhead⟩
      refine ⟨first, rest, rfl, ?_, fun c hc => ?_⟩
      · rw [mem_slugStart_iff]
        rcases hall first (List.mem_cons_self ..) with h | h | rfl
        · exact .inl h
        · exact .inr h
        · exact absurd rfl hhead
      · rw [mem_slugStart_iff, or_assoc]
        exact hall c (List.mem_cons_of_mem _ hc)
    · rintro ⟨first', rest', heq, hfirst, hrest⟩
      obtain ⟨rfl, rfl⟩ := List.cons_eq_cons.mp heq
      refine ⟨fun c hc => ?_, fun hhead => ?_⟩
      · rw [← or_assoc, ← mem_slugStart_iff]
        rcases List.mem_cons.mp hc with rfl | hc
        · exact .inl hfirst
        · exact hrest c hc
      · cases hhead
        exact not_mem_slugStart_dash hfirst

/-- **An image is served** exactly if its profile is a slug. -/
theorem isAllowedBootFilename_imageName {profile arch : String} (hprofile : profile ≠ "")
    (harch : arch ∈ squashfsArchitectures) :
    isAllowedBootFilename (imageName profile arch) = true ↔ IsSlug profile := by
  have hstatic : imageName profile arch ∉ staticBootFiles := by
    intro hmem
    have hlist := List.mem_map_of_mem (f := String.toList) hmem
    rw [toList_imageName] at hlist
    simp [staticBootFiles] at hlist
  unfold isAllowedBootFilename
  rw [if_neg hstatic, profiledSquashfs_rmatch_iff, isSlug_iff hprofile, toList_imageName]
  constructor
  · rintro ⟨first, rest, arch', harch', hfirst, hrest, heq⟩
    have hmiddle := List.append_cancel_right (List.append_cancel_left heq)
    exact ⟨first, rest, profile_unique harch harch' hmiddle, hfirst, hrest⟩
  · rintro ⟨first, rest, hlist, hfirst, hrest⟩
    exact ⟨first, rest, arch, harch, hfirst, hrest, by rw [hlist]⟩

section Images

variable [Unicode] {profiles : List ProfileDir} {profile architecture : String}

theorem isProfileName_of_safeProfileDir {found : Option ProfileDir}
    (h : safeProfileDir profiles profile = .ok found) : isProfileName profile = true := by
  unfold safeProfileDir at h
  split at h
  · cases h
  · rename_i hname
    unfold isProfileName
    simpa using hname

/-- The architectures for which an image has a name. -/
theorem squashfsFilenameFor_ok_iff (hname : isProfileName profile = true) {filename : String} :
    squashfsFilenameFor architecture profile = .ok filename ↔
      ∃ arch, assoc archToDebian architecture = some arch ∧ filename = imageName profile arch := by
  unfold squashfsFilenameFor
  cases assoc archToDebian architecture with
  | none => simp
  | some arch => simp [hname, imageName, eq_comm]

omit [Unicode] in
/-- The spellings that `ARCHITECTURE_ALIASES` knows and `_ARCH_TO_DEBIAN` has. -/
theorem assoc_archToDebian_of_known (hknown : architecture ∈ knownArchitectures) {arch : String} :
    assoc archToDebian architecture = some arch ↔
      (architecture = "x86_64" ∧ arch = "amd64") ∨ (architecture = "arm64" ∧ arch = "arm64") := by
  simp only [knownArchitectures, List.mem_cons, List.not_mem_nil, or_false] at hknown
  rcases hknown with rfl | rfl | rfl | rfl | rfl <;> simp [assoc, archToDebian, eq_comm]

/-- **Names that boot.** Two spellings of one architecture both give a profile the same image, and
it is served, exactly if they are one spelling, `x86_64` or `arm64`, and the profile is a slug. -/
theorem servesImage_iff {other : String} {found : Option ProfileDir}
    (hname : safeProfileDir profiles profile = .ok found)
    (hknown : architecture ∈ knownArchitectures)
    (hother : other ∈ architectureAliases architecture) :
    (∃ filename, squashfsFilenameFor architecture profile = .ok filename ∧
      squashfsFilenameFor other profile = .ok filename ∧
      isAllowedBootFilename filename = true) ↔
    other = architecture ∧ (architecture = "x86_64" ∨ architecture = "arm64") ∧
      IsSlug profile := by
  have hvalid := isProfileName_of_safeProfileDir hname
  have hnonempty : profile ≠ "" := by
    rintro rfl
    simp [isProfileName] at hvalid
  have hotherKnown : other ∈ knownArchitectures := by
    simp only [knownArchitectures, List.mem_cons, List.not_mem_nil, or_false] at hknown
    rcases hknown with rfl | rfl | rfl | rfl | rfl <;>
      · revert other
        decide
  simp only [squashfsFilenameFor_ok_iff hvalid, assoc_archToDebian_of_known hknown,
    assoc_archToDebian_of_known hotherKnown]
  constructor
  · rintro ⟨_, ⟨arch, harch, rfl⟩, ⟨arch', harch', -⟩, hallowed⟩
    rcases harch with ⟨rfl, rfl⟩ | ⟨rfl, rfl⟩
    · refine ⟨?_, .inl rfl, (isAllowedBootFilename_imageName hnonempty (by decide)).mp hallowed⟩
      rcases harch' with ⟨rfl, -⟩ | ⟨rfl, -⟩
      · rfl
      · exact absurd hother (by decide)
    · refine ⟨?_, .inr rfl, (isAllowedBootFilename_imageName hnonempty (by decide)).mp hallowed⟩
      rcases harch' with ⟨rfl, -⟩ | ⟨rfl, -⟩
      · exact absurd hother (by decide)
      · rfl
  · rintro ⟨rfl, rfl | rfl, hslug⟩
    · have harch : ("x86_64" = "x86_64" ∧ "amd64" = "amd64") ∨
          ("x86_64" = "arm64" ∧ "amd64" = "arm64") := .inl ⟨rfl, rfl⟩
      exact ⟨_, ⟨"amd64", harch, rfl⟩, ⟨"amd64", harch, rfl⟩,
        (isAllowedBootFilename_imageName hnonempty (by decide)).mpr hslug⟩
    · have harch : ("arm64" = "x86_64" ∧ "arm64" = "amd64") ∨
          ("arm64" = "arm64" ∧ "arm64" = "arm64") := .inr ⟨rfl, rfl⟩
      exact ⟨_, ⟨"arm64", harch, rfl⟩, ⟨"arm64", harch, rfl⟩,
        (isAllowedBootFilename_imageName hnonempty (by decide)).mpr hslug⟩

end Images

section Examples

attribute [local instance] ascii

/-- A profile with a capital letter is accepted, and its image is not served; and a machine that
announced itself as `x64` has no image at all. -/
theorem servesImage_lab : safeProfileDir [] "Lab" = .ok none ∧
    squashfsFilenameFor "x86_64" "Lab" = .ok "fleetboot-Lab-amd64.squashfs" ∧
    isAllowedBootFilename "fleetboot-Lab-amd64.squashfs" = false ∧
    "x86_64" ∈ knownArchitectures ∧ "x64" ∈ knownArchitectures ∧
    squashfsFilenameFor "x64" "lab" = .error (.valueError "unsupported architecture: 'x64'") := by
  refine ⟨by decide +kernel, by decide +kernel, ?_, by decide, by decide, by decide +kernel⟩
  have hname : imageName "Lab" "amd64" = "fleetboot-Lab-amd64.squashfs" := by decide
  rw [← Bool.not_eq_true, ← hname, isAllowedBootFilename_imageName (by decide) (by decide)]
  intro hslug
  have hupper := hslug.1 'L' (by decide)
  revert hupper
  decide

theorem servesImage_iff_lab : ∃ filename, squashfsFilenameFor "arm64" "lab-2" = .ok filename ∧
    squashfsFilenameFor "arm64" "lab-2" = .ok filename ∧
    isAllowedBootFilename filename = true := by
  have hname : safeProfileDir [] "lab-2" = .ok none := by decide +kernel
  have hslug : IsSlug "lab-2" := by
    have hlist : "lab-2".toList = ['l', 'a', 'b', '-', '2'] := by decide
    refine ⟨fun c hc => ?_, by rw [hlist]; decide⟩
    rw [hlist] at hc
    simp only [List.mem_cons, List.not_mem_nil, or_false] at hc
    rcases hc with rfl | rfl | rfl | rfl | rfl <;> decide
  exact (servesImage_iff hname (by decide) (by decide)).mpr ⟨rfl, .inr rfl, hslug⟩

end Examples

end Fleetboot
