import Fleetboot.Library.Words
import Mathlib.Data.List.Induction

/-!
# The scratch disk of a booted machine

`fleetboot-scratch-setup.sh`: which mode it reads off the kernel command line, which disk it picks,
and what it does to that disk. `blkid` prints the type and the label of a filesystem, and nothing
for a partition table.

* `scratchSetup_candidate`: no disk is touched but the candidate.
* `persistentSafe_iff`: when the persistent mode keeps its promise.
-/

set_option autoImplicit false

namespace Fleetboot

open Python

/-! ## The mode -/

/-- A character of `[:space:]`. -/
def isPosixSpace (c : Char) : Bool :=
  c ∈ [' ', '\t', '\n', Char.ofNat 11, Char.ofNat 12, '\r']

/-- `awk -v RS=' ' -F= '/^fleetboot\.scratch=/{print $2}'`. -/
def awkScratch (text : List Char) : List Char :=
  ((text.splitOn ' ').filter fun record => "fleetboot.scratch=".toList.isPrefixOf record).flatMap
    fun record => (record.splitOn '=')[1]?.getD [] ++ ['\n']

/-- The mode that the script reads off the kernel command line. -/
def scratchModeOf (cmdline : String) : String :=
  let mode := (awkScratch cmdline.toList).filter fun c => !isPosixSpace c
  if mode = [] then "volatile" else String.ofList mode

/-! ## The disks -/

/-- A filesystem, as `blkid` shows it. -/
structure Filesystem where
  type : String
  label : String
  type_ne : type ≠ ""
  deriving DecidableEq

/-- A block device of `/sys/block`. The attributes are absent where they cannot be read. -/
structure BlockDevice where
  name : String
  removable : Option Bool
  /-- In sectors of 512 bytes. -/
  size : Option Nat
  filesystem : Option Filesystem
  partitionTable : Option String
  partitions : List (Option Filesystem)
  partitioned : partitions ≠ [] → partitionTable ≠ none
  deriving DecidableEq

/-- `SIGNATURE_LABEL`. -/
def signatureLabel : String := "fleetboot-scratc"

namespace BlockDevice

/-- `blkid -s TYPE -o value`. -/
def existingFs (d : BlockDevice) : String := (d.filesystem.map Filesystem.type).getD ""

/-- `blkid -s LABEL -o value`. -/
def existingLabel (d : BlockDevice) : String := (d.filesystem.map Filesystem.label).getD ""

/-- `owned`. -/
def owned (d : BlockDevice) : Bool := d.existingFs == "ext4" && d.existingLabel == signatureLabel

/-- A device that the loop passes over. -/
def skipped (d : BlockDevice) : Bool :=
  (["loop", "ram", "sr", "fd", "dm-", "zram"].any fun kind =>
    kind.toList.isPrefixOf d.name.toList) ||
    d.removable.getD true || decide (d.size.getD 0 < 2097152)

theorem existingFs_eq_empty_iff (d : BlockDevice) : d.existingFs = "" ↔ d.filesystem = none := by
  unfold existingFs
  cases h : d.filesystem with
  | none => simp
  | some fs => simp [fs.type_ne]

theorem filesystem_of_owned {d : BlockDevice} (h : d.owned = true) : d.filesystem ≠ none := by
  intro hnone
  simp [owned, existingFs, hnone] at h

end BlockDevice

/-- `candidate` and `candidate_size` after one round of the loop. -/
def considerDevice (best : Option BlockDevice × Nat) (d : BlockDevice) : Option BlockDevice × Nat :=
  if d.skipped then best
  else if best.2 < d.size.getD 0 then (some d, d.size.getD 0)
  else best

/-- `candidate`. -/
def candidate (devices : List BlockDevice) : Option BlockDevice :=
  (devices.foldl considerDevice (none, 0)).1

/-! ## The script -/

inductive ScratchAction
  | format (d : BlockDevice)
  | mount (d : BlockDevice)
  | report (state : String)
  deriving DecidableEq

/-- What the script finds installed, and how the two commands end. -/
structure ScratchTools where
  mkfsInstalled : Bool
  mkfsSucceeds : BlockDevice → Bool
  mountSucceeds : BlockDevice → Bool

/-- What the script does, and how it exits. -/
structure ScratchRun where
  actions : List ScratchAction
  exitCode : Nat
  deriving DecidableEq

/-- The mount, after what was done before. -/
def mountScratch (tools : ScratchTools) (d : BlockDevice) (before : List ScratchAction) :
    ScratchRun :=
  if tools.mountSucceeds d then
    { actions := before ++ [.mount d, .report "scratch_mounted"], exitCode := 0 }
  else { actions := before ++ [.mount d], exitCode := 1 }

/-- `mkfs.ext4`, and the mount where it succeeds. -/
def formatScratch (tools : ScratchTools) (d : BlockDevice) (after : List ScratchAction) :
    ScratchRun :=
  if tools.mkfsSucceeds d then mountScratch tools d (.format d :: after)
  else { actions := [.format d], exitCode := 1 }

/-- The script, for the mode and the devices that it finds. -/
def scratchSetup (tools : ScratchTools) (mode : String) (devices : List BlockDevice) :
    ScratchRun :=
  if mode ≠ "volatile" ∧ mode ≠ "persistent" then
    { actions := [.report "scratch_skipped"], exitCode := 0 }
  else match candidate devices with
    | none => { actions := [.report "scratch_skipped"], exitCode := 0 }
    | some d =>
      if tools.mkfsInstalled = false then { actions := [], exitCode := 1 }
      else if mode = "volatile" then formatScratch tools d [.report "scratch_wiped"]
      else if d.owned then mountScratch tools d []
      else if d.existingFs = "" then formatScratch tools d []
      else { actions := [.report "scratch_skipped"], exitCode := 0 }

/-! ## The candidate -/

/-- The first of the largest devices that the loop does not pass over. -/
def FirstLargest (devices : List BlockDevice) (d : BlockDevice) : Prop :=
  ∃ before after, devices = before ++ d :: after ∧ d.skipped = false ∧
    (∀ e ∈ before, e.skipped = false → e.size.getD 0 < d.size.getD 0) ∧
    ∀ e ∈ after, e.skipped = false → e.size.getD 0 ≤ d.size.getD 0

section Candidate

variable {devices : List BlockDevice} {best : Option BlockDevice × Nat} {d : BlockDevice} {n : Nat}

theorem size_pos (h : d.skipped = false) : 0 < d.size.getD 0 := by
  simp only [BlockDevice.skipped, Bool.or_eq_false_iff, decide_eq_false_iff_not] at h
  omega

theorem considerDevice_skipped (best : Option BlockDevice × Nat) (h : d.skipped = true) :
    considerDevice best d = best := if_pos h

theorem considerDevice_free (best : Option BlockDevice × Nat) (h : d.skipped = false) :
    considerDevice best d = if best.2 < d.size.getD 0 then (some d, d.size.getD 0) else best := by
  unfold considerDevice
  rw [h]
  exact if_neg Bool.false_ne_true

theorem foldl_size_lt (hdevices : ∀ e ∈ devices, e.skipped = false → e.size.getD 0 < n)
    (hbest : best.2 < n) : (devices.foldl considerDevice best).2 < n := by
  induction devices generalizing best with
  | nil => exact hbest
  | cons e devices ih =>
    refine ih (fun e' he' => hdevices e' (List.mem_cons_of_mem _ he')) ?_
    cases hskipped : e.skipped with
    | true => rwa [considerDevice_skipped best hskipped]
    | false =>
      rw [considerDevice_free best hskipped]
      split
      · exact hdevices e (List.mem_cons_self ..) hskipped
      · exact hbest

theorem foldl_of_le (hdevices : ∀ e ∈ devices, e.skipped = false → e.size.getD 0 ≤ best.2) :
    devices.foldl considerDevice best = best := by
  induction devices with
  | nil => rfl
  | cons e devices ih =>
    have hsame : considerDevice best e = best := by
      cases hskipped : e.skipped with
      | true => exact considerDevice_skipped best hskipped
      | false =>
        rw [considerDevice_free best hskipped]
        exact if_neg (Nat.not_lt.mpr (hdevices e (List.mem_cons_self ..) hskipped))
    rw [List.foldl_cons, hsame]
    exact ih fun e' he' => hdevices e' (List.mem_cons_of_mem _ he')

/-- The loop holds the first largest device so far, and its size. -/
theorem foldl_considerDevice (devices : List BlockDevice) :
    (devices.foldl considerDevice (none, 0) = (none, 0) ∧ ∀ e ∈ devices, e.skipped = true) ∨
      ∃ d, devices.foldl considerDevice (none, 0) = (some d, d.size.getD 0) ∧
        FirstLargest devices d := by
  induction devices using List.reverseRecOn with
  | nil => exact .inl ⟨rfl, by simp⟩
  | append_singleton devices e ih =>
    rw [List.foldl_append, List.foldl_cons, List.foldl_nil]
    cases hskipped : e.skipped with
    | true =>
      rw [considerDevice_skipped _ hskipped]
      rcases ih with ⟨hnone, hall⟩ | ⟨d, hsome, before, after, rfl, hd, hbefore, hafter⟩
      · refine .inl ⟨hnone, fun e' he' => ?_⟩
        rcases List.mem_append.mp he' with hold | hnew
        · exact hall e' hold
        · rwa [List.mem_singleton.mp hnew]
      · refine .inr ⟨d, hsome, before, after ++ [e], by simp, hd, hbefore, fun e' he' hfree => ?_⟩
        rcases List.mem_append.mp he' with hold | hnew
        · exact hafter e' hold hfree
        · rw [List.mem_singleton.mp hnew, hskipped] at hfree
          cases hfree
    | false =>
      rw [considerDevice_free _ hskipped]
      rcases ih with ⟨hnone, hall⟩ | ⟨d, hsome, before, after, rfl, hd, hbefore, hafter⟩
      · rw [hnone, if_pos (size_pos hskipped)]
        refine .inr ⟨e, rfl, devices, [], rfl, hskipped, fun e' he' hfree' => ?_, by simp⟩
        cases (hall e' he').symm.trans hfree'
      · rw [hsome]
        split
        · rename_i hlt
          refine .inr ⟨e, rfl, before ++ d :: after, [], rfl, hskipped, fun e' he' hfree' => ?_,
            by simp⟩
          rcases List.mem_append.mp he' with hold | hrest
          · exact (hbefore e' hold hfree').trans hlt
          · rcases List.mem_cons.mp hrest with rfl | hlast
            · exact hlt
            · exact (hafter e' hlast hfree').trans_lt hlt
        · rename_i hge
          refine .inr ⟨d, rfl, before, after ++ [e], by simp, hd, hbefore, fun e' he' hfree' => ?_⟩
          rcases List.mem_append.mp he' with hold | hnew
          · exact hafter e' hold hfree'
          · rw [List.mem_singleton.mp hnew]
            exact Nat.le_of_not_lt hge

theorem candidate_eq_some_iff : candidate devices = some d ↔ FirstLargest devices d := by
  constructor
  · intro h
    rcases foldl_considerDevice devices with ⟨hnone, -⟩ | ⟨d', hsome, hfirst⟩
    · rw [candidate, hnone] at h
      cases h
    · rw [candidate, hsome] at h
      obtain rfl := Option.some.inj h
      exact hfirst
  · rintro ⟨before, after, rfl, hd, hbefore, hafter⟩
    have hlt : (before.foldl considerDevice (none, 0)).2 < d.size.getD 0 :=
      foldl_size_lt hbefore (size_pos hd)
    unfold candidate
    rw [List.foldl_append, List.foldl_cons]
    have htaken : considerDevice (before.foldl considerDevice (none, 0)) d =
        (some d, d.size.getD 0) := by
      rw [considerDevice_free _ hd, if_pos hlt]
    rw [htaken, foldl_of_le hafter]

end Candidate

/-! ## What the script touches -/

def ScratchAction.formats : ScratchAction → Option BlockDevice
  | .format d => some d
  | _ => none

/-- The devices that were formatted. -/
def ScratchRun.formatted (run : ScratchRun) : List BlockDevice :=
  run.actions.filterMap ScratchAction.formats

def ScratchRun.Touches (run : ScratchRun) (d : BlockDevice) : Prop :=
  .format d ∈ run.actions ∨ .mount d ∈ run.actions

section Touched

variable {tools : ScratchTools} {mode : String} {devices : List BlockDevice} {d : BlockDevice}

theorem actions_mountScratch (tools : ScratchTools) (d : BlockDevice)
    (before : List ScratchAction) : ∃ reports : List String,
      (mountScratch tools d before).actions = before ++ .mount d :: reports.map .report := by
  unfold mountScratch
  split
  · exact ⟨["scratch_mounted"], rfl⟩
  · exact ⟨[], rfl⟩

theorem touches_mountScratch {before : List ScratchAction}
    (hbefore : ∀ e, .format e ∈ before ∨ .mount e ∈ before → e = d) {e : BlockDevice}
    (h : (mountScratch tools d before).Touches e) : e = d := by
  obtain ⟨reports, hactions⟩ := actions_mountScratch tools d before
  unfold ScratchRun.Touches at h
  rw [hactions] at h
  simp only [List.mem_append, List.mem_cons, List.mem_map, reduceCtorEq, and_false, exists_false,
    or_false, ScratchAction.mount.injEq] at h
  rcases h with hold | hold | hnew
  · exact hbefore e (.inl hold)
  · exact hbefore e (.inr hold)
  · exact hnew

/-- **No disk but the candidate is touched**, in any mode. -/
theorem scratchSetup_candidate (h : (scratchSetup tools mode devices).Touches d) :
    candidate devices = some d := by
  have hformat : ∀ {d' : BlockDevice} {after : List ScratchAction},
      (∀ e, .format e ∉ after ∧ .mount e ∉ after) →
      (formatScratch tools d' after).Touches d → d = d' := by
    intro d' after hafter htouched
    unfold formatScratch at htouched
    split at htouched
    · refine touches_mountScratch (fun e he => ?_) htouched
      simpa [hafter e] using he
    · simpa [ScratchRun.Touches] using htouched
  unfold scratchSetup at h
  split at h
  · simp [ScratchRun.Touches] at h
  · split at h
    · simp [ScratchRun.Touches] at h
    · rename_i d' hcandidate
      rw [hcandidate]
      congr 1
      symm
      split at h
      · simp [ScratchRun.Touches] at h
      · split at h
        · exact hformat (by simp) h
        · split at h
          · exact touches_mountScratch (by simp) h
          · split at h
            · exact hformat (by simp) h
            · simp [ScratchRun.Touches] at h

end Touched

/-! ## The persistent mode -/

/-- The promise of the persistent mode: at most one device is formatted, and only one without a
filesystem and a partition table; every device with the script's own label is mounted and not
formatted; nothing else is touched. -/
structure PersistentSafe (tools : ScratchTools) (devices : List BlockDevice) : Prop where
  once : (scratchSetup tools "persistent" devices).formatted.length ≤ 1
  blank : ∀ d, .format d ∈ (scratchSetup tools "persistent" devices).actions →
    d.filesystem = none ∧ d.partitionTable = none
  kept : ∀ d, d.owned = true → .format d ∉ (scratchSetup tools "persistent" devices).actions
  reused : ∀ d ∈ devices, d.owned = true →
    .mount d ∈ (scratchSetup tools "persistent" devices).actions ∧ tools.mountSucceeds d = true
  untouched : ∀ d, (scratchSetup tools "persistent" devices).Touches d →
    FirstLargest devices d ∧
      (d.owned = true ∨ .format d ∈ (scratchSetup tools "persistent" devices).actions)

/-- What the persistent mode does to the disks. -/
inductive PersistentActions (tools : ScratchTools) (devices : List BlockDevice) :
    List ScratchAction → Prop
  | quiet {reports : List String} :
      (∀ d, candidate devices = some d → d.owned = true → tools.mkfsInstalled = false) →
      PersistentActions tools devices (reports.map .report)
  | reuse {d : BlockDevice} {reports : List String} :
      candidate devices = some d → d.owned = true → tools.mkfsInstalled = true →
      PersistentActions tools devices (.mount d :: reports.map .report)
  | format {d : BlockDevice} {rest : List ScratchAction} :
      candidate devices = some d → d.filesystem = none → tools.mkfsInstalled = true →
      (rest = [] ∨ ∃ reports : List String, rest = .mount d :: reports.map .report) →
      PersistentActions tools devices (.format d :: rest)

section Persistent

variable {tools : ScratchTools} {devices : List BlockDevice} {d : BlockDevice}

theorem actions_formatScratch (tools : ScratchTools) (d : BlockDevice) :
    ∃ rest, (formatScratch tools d []).actions = .format d :: rest ∧
      (rest = [] ∨ ∃ reports : List String, rest = .mount d :: reports.map .report) := by
  unfold formatScratch
  split
  · obtain ⟨reports, hactions⟩ := actions_mountScratch tools d [.format d]
    exact ⟨_, hactions, .inr ⟨reports, rfl⟩⟩
  · exact ⟨[], rfl, .inl rfl⟩

theorem persistentActions (tools : ScratchTools) (devices : List BlockDevice) :
    PersistentActions tools devices (scratchSetup tools "persistent" devices).actions := by
  have hskipped : ∀ {states : List String}, (∀ d, candidate devices = some d →
      d.owned = true → tools.mkfsInstalled = false) →
      PersistentActions tools devices (states.map .report) := fun h => .quiet h
  unfold scratchSetup
  rw [if_neg (by decide)]
  split
  · rename_i hnone
    exact @hskipped ["scratch_skipped"] fun d hd => by
      rw [hnone] at hd
      cases hd
  · rename_i d hd
    split
    · rename_i hmissing
      exact @hskipped [] fun _ _ _ => hmissing
    · rename_i hinstalled
      rw [if_neg (by decide)]
      split
      · rename_i howned
        obtain ⟨reports, hactions⟩ := actions_mountScratch tools d []
        rw [hactions]
        exact .reuse hd howned (by simpa using hinstalled)
      · rename_i hforeign
        split
        · rename_i hempty
          obtain ⟨rest, hactions, hrest⟩ := actions_formatScratch tools d
          rw [hactions]
          exact .format hd ((d.existingFs_eq_empty_iff).mp hempty)
            (by simpa using hinstalled) hrest
        · refine @hskipped ["scratch_skipped"] fun d' hd' howned => ?_
          obtain rfl := Option.some.inj (hd.symm.trans hd')
          exact absurd howned hforeign

theorem installed_of_mount (h : .mount d ∈ (scratchSetup tools "persistent" devices).actions) :
    tools.mkfsInstalled = true := by
  have hcases := persistentActions tools devices
  generalize (scratchSetup tools "persistent" devices).actions = actions at hcases h
  cases hcases with
  | quiet _ => simp at h
  | reuse _ _ hinstalled => exact hinstalled
  | format _ _ hinstalled _ => exact hinstalled

/-- Only a candidate without a filesystem is formatted. -/
theorem candidate_of_format (h : .format d ∈ (scratchSetup tools "persistent" devices).actions) :
    candidate devices = some d ∧ d.filesystem = none ∧ tools.mkfsInstalled = true := by
  have hcases := persistentActions tools devices
  generalize (scratchSetup tools "persistent" devices).actions = actions at hcases h
  cases hcases with
  | quiet _ => simp at h
  | reuse _ _ _ => simp at h
  | @format d' rest hd hblank hinstalled hrest =>
    have hsame : d = d' := by
      rcases hrest with rfl | ⟨reports, rfl⟩ <;> simpa using h
    rw [hsame]
    exact ⟨hd, hblank, hinstalled⟩

theorem format_of_blank (hinstalled : tools.mkfsInstalled = true) (hfirst : FirstLargest devices d)
    (hblank : d.filesystem = none) :
    .format d ∈ (scratchSetup tools "persistent" devices).actions := by
  have hforeign : d.owned = false := by
    by_contra howned
    exact BlockDevice.filesystem_of_owned (by simpa using howned) hblank
  obtain ⟨rest, hactions, -⟩ := actions_formatScratch tools d
  have hrun : scratchSetup tools "persistent" devices = formatScratch tools d [] := by
    unfold scratchSetup
    rw [if_neg (by decide), candidate_eq_some_iff.mpr hfirst]
    simp [hinstalled, hforeign, (d.existingFs_eq_empty_iff).mpr hblank]
  rw [hrun, hactions]
  exact List.mem_cons_self ..

theorem mount_of_owned (hinstalled : tools.mkfsInstalled = true) (hfirst : FirstLargest devices d)
    (howned : d.owned = true) : .mount d ∈ (scratchSetup tools "persistent" devices).actions := by
  have hcandidate := candidate_eq_some_iff.mpr hfirst
  have hcases := persistentActions tools devices
  generalize (scratchSetup tools "persistent" devices).actions = actions at hcases
  cases hcases with
  | quiet hquiet => cases (hquiet d hcandidate howned).symm.trans hinstalled
  | reuse hd _ _ =>
    obtain rfl := Option.some.inj (hd.symm.trans hcandidate)
    exact List.mem_cons_self ..
  | format hd hblank _ _ =>
    obtain rfl := Option.some.inj (hd.symm.trans hcandidate)
    exact absurd hblank (BlockDevice.filesystem_of_owned howned)

theorem formatted_length_le :
    (scratchSetup tools "persistent" devices).formatted.length ≤ 1 := by
  have hcases := persistentActions tools devices
  unfold ScratchRun.formatted
  generalize (scratchSetup tools "persistent" devices).actions = actions at hcases
  have hreports : ∀ reports : List String,
      (reports.map ScratchAction.report).filterMap ScratchAction.formats = [] := by
    intro reports
    simp [ScratchAction.formats]
  cases hcases with
  | quiet _ =>
    rw [hreports]
    exact Nat.zero_le 1
  | reuse _ _ _ =>
    rw [List.filterMap_cons_none rfl, hreports]
    exact Nat.zero_le 1
  | format _ _ _ hrest =>
    rcases hrest with rfl | ⟨reports, rfl⟩
    · exact Nat.le_refl 1
    · change (_ :: (reports.map ScratchAction.report).filterMap _).length ≤ 1
      rw [hreports]
      exact Nat.le_refl 1

theorem owned_or_formatted (h : (scratchSetup tools "persistent" devices).Touches d) :
    d.owned = true ∨ .format d ∈ (scratchSetup tools "persistent" devices).actions := by
  have hcandidate := scratchSetup_candidate h
  have hcases := persistentActions tools devices
  unfold ScratchRun.Touches at h
  generalize (scratchSetup tools "persistent" devices).actions = actions at hcases h ⊢
  cases hcases with
  | quiet _ => simp at h
  | reuse hd howned _ =>
    obtain rfl := Option.some.inj (hd.symm.trans hcandidate)
    exact .inl howned
  | format hd _ _ _ =>
    obtain rfl := Option.some.inj (hd.symm.trans hcandidate)
    exact .inr (List.mem_cons_self ..)

/-- **When the persistent mode is safe**: unless `mkfs.ext4` is there and the first of the largest
disks has a partition table and no filesystem, or a disk with the script's own label is not that
disk, `mkfs.ext4` is missing, or the mount fails. -/
theorem persistentSafe_iff (tools : ScratchTools) (devices : List BlockDevice) :
    PersistentSafe tools devices ↔
      (tools.mkfsInstalled = true →
        ∀ d, FirstLargest devices d → d.filesystem = none → d.partitionTable = none) ∧
      ∀ d ∈ devices, d.owned = true → FirstLargest devices d ∧ tools.mkfsInstalled = true ∧
        tools.mountSucceeds d = true := by
  constructor
  · intro hsafe
    refine ⟨fun hinstalled d hfirst hblank => ?_, fun d hd howned => ?_⟩
    · exact (hsafe.blank d (format_of_blank hinstalled hfirst hblank)).2
    · obtain ⟨hmount, hsucceeds⟩ := hsafe.reused d hd howned
      exact ⟨(hsafe.untouched d (.inr hmount)).1, installed_of_mount hmount, hsucceeds⟩
  · rintro ⟨hblanks, howners⟩
    refine
      { once := formatted_length_le
        blank := fun d hd => ?_
        kept := fun d howned hd =>
          BlockDevice.filesystem_of_owned howned (candidate_of_format hd).2.1
        reused := fun d hd howned => ?_
        untouched := fun d hd =>
          ⟨candidate_eq_some_iff.mp (scratchSetup_candidate hd), owned_or_formatted hd⟩ }
    · obtain ⟨hcandidate, hblank, hinstalled⟩ := candidate_of_format hd
      exact ⟨hblank, hblanks hinstalled d (candidate_eq_some_iff.mp hcandidate) hblank⟩
    · obtain ⟨hfirst, hinstalled, hsucceeds⟩ := howners d hd howned
      exact ⟨mount_of_owned hinstalled hfirst howned, hsucceeds⟩

end Persistent

section Examples

/-- A disk with a partition table and one partition, on which a system is installed. -/
def installedDisk : BlockDevice :=
  { name := "nvme0n1"
    removable := some false
    size := some 1000215216
    filesystem := none
    partitionTable := some "gpt"
    partitions := [some { type := "ntfs", label := "Windows", type_ne := by decide }]
    partitioned := by simp }

def workingTools : ScratchTools :=
  { mkfsInstalled := true, mkfsSucceeds := fun _ => true, mountSucceeds := fun _ => true }

/-- The installed system is formatted away. -/
theorem not_persistentSafe : ¬ ∀ tools devices, PersistentSafe tools devices := by
  intro hsafe
  have hblank := (hsafe workingTools [installedDisk]).blank installedDisk (by decide)
  cases hblank.2

end Examples

end Fleetboot
