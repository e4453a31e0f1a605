import Fleetboot.Profiles.ExtraPackages
import Fleetboot.Profiles.Overlay
import Fleetboot.Profiles.Saving

/-!
# What a profile is resolved to

`resolve` of `resolve-profile.py` as a whole: the packages, the overlay, the setup script and the
chain of a profile, and the `suite` that `build_jobs.py` reads of it. From these an image is built.

* `resolve_congr`: they depend on the profiles of the chain only.
* `store_unaffected`, `mem_cascade_store`: a stored profile changes nothing for what is not in its
  build cascade.
* `cascade_exact`: and something for everything that is.
* `resolve_setup`: what the combined setup script runs.
-/

set_option autoImplicit false

namespace Fleetboot

open Python Digraph FileTree Repeats

variable {γ : Type}

/-! ## Setup scripts -/

/-- The part of one profile in the combined script. -/
def setupSection (ancestor : String) (lines : List String) : List String :=
  let lines := match lines with
    | first :: rest => if startsWith first "#!" then rest else lines
    | [] => []
  ("# === from profile: " ++ ancestor ++ " ===") :: lines ++ [""]

/-- `parts` of `_combine_setup_chroots`, from the lines of the scripts. -/
def setupParts (setupLines : String → Option (List String)) (chain : List String) : List String :=
  let sections := chain.filterMap fun ancestor => (setupLines ancestor).map (setupSection ancestor)
  ["#!/bin/sh", "set -eu", ""] ++ sections.flatten ++
    if sections = [] then ["# (no setup-chroot in any ancestor)"] else []

/-- `_combine_setup_chroots`. -/
def combineSetupChroots (setupChroot : String → Option String) (chain : List String) : String :=
  "\n".intercalate (setupParts (fun ancestor => (setupChroot ancestor).map splitLines) chain)

/-! ## Profiles -/

/-- The directory of profiles: the text files of each, and the overlays. -/
structure ProfileSources (γ : Type) where
  dirs : List ProfileDir
  overlay : String → Option (Overlay γ)

/-- The directory of a resolved profile. -/
structure Resolved (γ : Type) where
  extraPackages : String
  overlay : Listing String γ
  setupChroot : String
  resolvedFrom : String

/-- A `ResolutionError`, or a `shutil.Error` of copying the overlays. -/
inductive ResolveFailure
  | resolution (fault : Fault String)
  | copy (errors : List (CopyError String))

/-- The release that the `suite` file of a profile names. -/
def suiteOf (text : String) : Option String :=
  match splitLines (strip text) with
  | [] => none
  | first :: _ => if strip first = "" then none else some (strip first)

namespace ProfileSources

variable (s : ProfileSources γ)

def tree : ProfilesTree := .ofDirs s.dirs

def profile (name : String) : Option ProfileDir :=
  s.dirs.find? fun profile => profile.name == name

/-- The text of a file of a profile, if there is such a file. -/
def text (path name : String) : Option String := (s.profile name).bind fun profile =>
  profile.file path

/-- The `SUITE` that `_execute` passes to `make`. -/
def suite (name : String) : Option String := (s.text "suite" name).bind suiteOf

/-- `resolve`. -/
def resolve (name : String) : Except ResolveFailure (Resolved γ) :=
  match s.tree.resolveChain name with
  | .error fault => .error (.resolution fault)
  | .ok chain =>
    match mergeOverlays s.overlay chain .nil with
    | .error errors => .error (.copy errors)
    | .ok merged => .ok {
        extraPackages := resolvedPackages (s.text "extra-packages.list") chain
        overlay := merged
        setupChroot := combineSetupChroots (s.text "setup-chroot") chain
        resolvedFrom := " -> ".intercalate chain ++ "\n" }

/-- A profile is written: its files and its overlay take the place of those of its name. -/
def store (profile : ProfileDir) (overlay : Option (Overlay γ)) : ProfileSources γ where
  dirs := storeProfile s.dirs profile
  overlay := Function.update s.overlay profile.name overlay

end ProfileSources

/-! ## What resolving depends on -/

section Congr

variable {s s' : ProfileSources γ} {name : String} {chain : List String}

/-- Two directories have the same at a name. -/
structure SameAt (s s' : ProfileSources γ) (name : String) : Prop where
  profile : s'.profile name = s.profile name
  overlay : s'.overlay name = s.overlay name

theorem isDir_iff_profile : s.tree.isDir name = true ↔ (s.profile name).isSome = true := by
  unfold ProfileSources.tree ProfileSources.profile
  rw [isDir_ofDirs_iff, List.find?_isSome]
  simp

theorem SameAt.isDir (h : SameAt s s' name) : s'.tree.isDir name = s.tree.isDir name := by
  rw [Bool.eq_iff_iff, isDir_iff_profile, isDir_iff_profile, h.profile]

theorem SameAt.text (h : SameAt s s' name) (path : String) :
    s'.text path name = s.text path name := by
  unfold ProfileSources.text
  rw [h.profile]

theorem fileParents_congr (h : s'.text "parent" name = s.text "parent" name) :
    s'.tree.fileParents name = s.tree.fileParents name := by
  have hparent : s'.tree.parentText name = s.tree.parentText name := h
  unfold ProfilesTree.fileParents
  rw [hparent]

theorem SameAt.readParents (h : SameAt s s' name)
    (hbase : s'.tree.isDir baseProfile = s.tree.isDir baseProfile) :
    s'.tree.readParents name = s.tree.readParents name := by
  have hfile : s'.tree.fileParents name = s.tree.fileParents name :=
    fileParents_congr (h.text _)
  unfold ProfilesTree.readParents
  rw [hfile, hbase]

theorem resolveChain_congr {tree tree' : ProfilesTree}
    (hparents : ∀ y, tree.Inherits name y → tree'.readParents y = tree.readParents y)
    (hdir : ∀ y, tree.Inherits name y → tree'.isDir y = tree.isDir y) :
    tree'.resolveChain name = tree.resolveChain name :=
  postorder_congr hparents hdir (resolveChain_ne_exhausted tree name)
    (resolveChain_ne_exhausted tree' name)

theorem mergeOverlays_congr {overlay overlay' : String → Option (Overlay γ)}
    (h : ∀ name ∈ chain, overlay' name = overlay name) :
    mergeOverlays overlay' chain .nil = mergeOverlays overlay chain .nil := by
  rw [mergeOverlays_eq, mergeOverlays_eq]
  unfold overlaysOf
  rw [List.filterMap_congr h]

theorem resolvedPackages_congr {list list' : String → Option String}
    (h : ∀ name ∈ chain, list' name = list name) :
    resolvedPackages list' chain = resolvedPackages list chain := by
  have hfold : ∀ merged, chain.foldl (mergeProfile list') merged =
      chain.foldl (mergeProfile list) merged := by
    intro merged
    refine List.foldl_ext _ _ _ fun merged name hname => ?_
    unfold mergeProfile
    rw [h name hname]
  unfold resolvedPackages mergeExtraPackages
  rw [hfold]

theorem combineSetupChroots_congr {script script' : String → Option String}
    (h : ∀ name ∈ chain, script' name = script name) :
    combineSetupChroots script' chain = combineSetupChroots script chain := by
  have hsections : (chain.filterMap fun name =>
        ((script' name).map splitLines).map (setupSection name)) =
      chain.filterMap fun name => ((script name).map splitLines).map (setupSection name) :=
    List.filterMap_congr fun name hname => by rw [h name hname]
  unfold combineSetupChroots setupParts
  rw [hsections]

/-- **Resolving** sees the profiles that a profile inherits from, and whether there is a `base`. -/
theorem resolve_congr (h : ∀ y, s.tree.Inherits name y → SameAt s s' y)
    (hbase : s'.tree.isDir baseProfile = s.tree.isDir baseProfile) :
    s'.resolve name = s.resolve name := by
  have hchain : s'.tree.resolveChain name = s.tree.resolveChain name :=
    resolveChain_congr (fun y hy => (h y hy).readParents hbase) fun y hy => (h y hy).isDir
  unfold ProfileSources.resolve
  rw [hchain]
  cases hresolved : s.tree.resolveChain name with
  | error fault => rfl
  | ok chain =>
    have hsame : ∀ y ∈ chain, SameAt s s' y := fun y hy =>
      h y (((isChain_of_resolveChain hresolved).mem_iff y).mp hy)
    dsimp only
    rw [mergeOverlays_congr fun y hy => (hsame y hy).overlay,
      resolvedPackages_congr fun y hy => (hsame y hy).text "extra-packages.list",
      combineSetupChroots_congr fun y hy => (hsame y hy).text "setup-chroot"]

end Congr

/-! ## Writing one profile -/

section Store

variable {s : ProfileSources γ} {profile : ProfileDir} {overlay : Option (Overlay γ)}
  {name : String}

theorem sameAt_store (h : name ≠ profile.name) : SameAt s (s.store profile overlay) name :=
  ⟨find?_storeProfile_of_ne h, Function.update_of_ne h _ _⟩

theorem isDir_store : (s.store profile overlay).tree.isDir name = true ↔
    s.tree.isDir name = true ∨ name = profile.name := isDir_storeProfile name

/-- Whether there is a `base` changes when it is written for the first time only. -/
theorem isDir_base_store (h : profile.name = baseProfile → s.tree.isDir baseProfile = true) :
    (s.store profile overlay).tree.isDir baseProfile = s.tree.isDir baseProfile := by
  rw [Bool.eq_iff_iff, isDir_store]
  exact or_iff_left_of_imp fun heq => h heq.symm

theorem agreeOff_store (h : profile.name = baseProfile → s.tree.isDir baseProfile = true) :
    AgreeOff profile.name s.tree.readParents (s.store profile overlay).tree.readParents :=
  fun _ hne => (sameAt_store hne).readParents (isDir_base_store h)

theorem resolveChain_of_missing {tree : ProfilesTree} (h : tree.isDir name = false) :
    tree.resolveChain name = .error (.missing name) := by
  unfold ProfilesTree.resolveChain postorder visit Search.start
  rw [if_neg List.not_mem_nil, if_neg List.not_mem_nil, if_pos h]
  rfl

/-- What a profile of a tree inherits from, the cascade sees. -/
theorem inheritsFrom_of_inherits {dirs : List ProfileDir} {root : String}
    (h : (ProfilesTree.ofDirs dirs).Inherits name root) (hname : name ∈ dirs.map ProfileDir.name) :
    InheritsFrom dirs name root := by
  have hboth : (name ∈ dirs.map ProfileDir.name → InheritsFrom dirs name root) ∧
      (name ∉ dirs.map ProfileDir.name → name = root ∨
        baseProfile ∈ dirs.map ProfileDir.name ∧ InheritsFrom dirs baseProfile root) := by
    clear hname
    induction h using Relation.ReflTransGen.head_induction_on with
    | refl => exact ⟨fun _ => .refl, fun _ => .inl rfl⟩
    | @head child parent hparent _ ih =>
      refine ⟨fun hchild => ?_, fun hchild => ?_⟩
      · have hedge : ParentEdge dirs child parent :=
          ⟨hchild, by rw [readProfileParents_eq]; exact hparent⟩
        by_cases hdir : parent ∈ dirs.map ProfileDir.name
        · exact .head hedge (ih.1 hdir)
        · rcases ih.2 hdir with rfl | ⟨hbase, hreach⟩
          · exact .single hedge
          · by_cases heq : child = baseProfile
            · exact heq ▸ hreach
            · refine .head ⟨hchild, ?_⟩ hreach
              rw [readProfileParents_eq]
              exact base_mem_readParents _ (isDir_ofDirs_iff.mpr hbase) heq
      · -- A name without a directory has the implicit parent only.
        have hnone : (ProfilesTree.ofDirs dirs).fileParents child = [] := by
          have hfind : dirs.find? (fun profile => profile.name == child) = none := by
            rw [List.find?_eq_none]
            rintro profile hprofile heq
            exact hchild (List.mem_map.mpr ⟨profile, hprofile, by simpa using heq⟩)
          unfold ProfilesTree.fileParents
          rw [parentText_ofDirs, hfind]
          rfl
        rcases mem_readParents_iff.mp hparent with hfile | ⟨rfl, -, hbase⟩
        · rw [hnone] at hfile
          cases hfile
        · exact .inr ⟨isDir_ofDirs_iff.mp hbase, ih.1 (isDir_ofDirs_iff.mp hbase)⟩
  exact hboth.1 hname

theorem inherits_iff_mem_cascade {root : String} (hname : s.tree.isDir name = true) :
    s.tree.Inherits name root ↔ name ∈ computeBuildCascade (some s.dirs) root := by
  rw [mem_computeBuildCascade_iff]
  constructor
  · exact fun h => inheritsFrom_of_inherits h (isDir_ofDirs_iff.mp hname)
  · refine Relation.ReflTransGen.mono (fun child parent hedge => ?_) name root
    have hparent := hedge.2
    rw [readProfileParents_eq] at hparent
    exact hparent

/-- What the cascade of a stored profile leaves out does not inherit from it. -/
theorem apart_of_not_mem_cascade (hname : s.tree.isDir name = true) (h : name ∉
    computeBuildCascade (some (s.store profile overlay).dirs) profile.name) :
    ¬ s.tree.Inherits name profile.name ∧
      AgreeOff profile.name s.tree.readParents (s.store profile overlay).tree.readParents ∧
      (s.store profile overlay).tree.isDir baseProfile = s.tree.isDir baseProfile := by
  have hnot : ¬ (s.store profile overlay).tree.Inherits name profile.name := fun hreach =>
    h ((inherits_iff_mem_cascade (isDir_store.mpr (.inl hname))).mp hreach)
  have hbase : profile.name = baseProfile → s.tree.isDir baseProfile = true := by
    intro heq
    by_cases hsame : name = baseProfile
    · exact hsame ▸ hname
    · refine absurd (Relation.ReflTransGen.single ?_) hnot
      rw [heq]
      exact base_mem_readParents _ (isDir_store.mpr (.inr heq.symm)) hsame
  have hagree := @agreeOff_store _ s profile overlay hbase
  exact ⟨fun hreach => hnot (hagree.reaches_self hreach), hagree, isDir_base_store hbase⟩

/-- **What a profile does not matter to**: to what its build cascade leaves out, even if the
profile is new. -/
theorem store_unaffected (h : name ∉
    computeBuildCascade (some (s.store profile overlay).dirs) profile.name) :
    (s.store profile overlay).resolve name = s.resolve name ∧
      (s.store profile overlay).suite name = s.suite name := by
  have hne : name ≠ profile.name := by
    rintro rfl
    exact h (mem_computeBuildCascade_iff.mpr .refl)
  have hsuite : (s.store profile overlay).suite name = s.suite name := by
    unfold ProfileSources.suite
    rw [(sameAt_store hne).text]
  refine ⟨?_, hsuite⟩
  cases hname : s.tree.isDir name with
  | false =>
    have hdir := (@sameAt_store _ s profile overlay _ hne).isDir.trans hname
    unfold ProfileSources.resolve
    rw [resolveChain_of_missing hdir, resolveChain_of_missing hname]
  | true =>
    obtain ⟨hnot, -, hbase⟩ := apart_of_not_mem_cascade hname h
    refine resolve_congr (fun y hy => sameAt_store ?_) hbase
    rintro rfl
    exact hnot hy

/-- Nor does it come into another cascade by that, or out of one. -/
theorem mem_cascade_store {root : String} (h : name ∉
    computeBuildCascade (some (s.store profile overlay).dirs) profile.name) :
    name ∈ computeBuildCascade (some (s.store profile overlay).dirs) root ↔
      name ∈ computeBuildCascade (some s.dirs) root := by
  have hne : name ≠ profile.name := by
    rintro rfl
    exact h (mem_computeBuildCascade_iff.mpr .refl)
  cases hname : s.tree.isDir name with
  | true =>
    obtain ⟨hnot, hagree, -⟩ := apart_of_not_mem_cascade hname h
    rw [← inherits_iff_mem_cascade hname, ← inherits_iff_mem_cascade (isDir_store.mpr (.inl hname))]
    exact hagree.reaches_iff hnot
  | false =>
    have hmissing : ∀ {dirs : List ProfileDir}, (ProfilesTree.ofDirs dirs).isDir name = false →
        (name ∈ computeBuildCascade (some dirs) root ↔ name = root) := by
      intro dirs hdir
      rw [mem_computeBuildCascade_iff]
      refine ⟨fun hreach => ?_, fun heq => heq ▸ .refl⟩
      rcases Relation.ReflTransGen.cases_head hreach with heq | ⟨parent, hparent, -⟩
      · exact heq
      · rw [isDir_ofDirs_iff.mpr hparent.1] at hdir
        cases hdir
    rw [hmissing hname, hmissing ((@sameAt_store _ s profile overlay _ hne).isDir.trans hname)]

end Store

/-! ## What a profile matters to -/

section Cascade

variable {s : ProfileSources γ} {root name : String}

/-- There is a package that a list does not have. -/
theorem exists_package (packages : List String) : ∃ package, package ∉ packages ∧ package ≠ "" ∧
    OneLine package ∧ strip package = package ∧ startsWith package "#" = false := by
  let f : Nat → String := fun n => String.ofList (List.replicate (n + 1) 'x')
  have hinj : Function.Injective f := fun n m h => by
    have hlength := congrArg (fun text => text.toList.length) h
    simpa [f] using hlength
  have hfresh : ∃ n, f n ∉ packages := by
    by_contra hall
    push Not at hall
    have hsub : (List.range (packages.length + 1)).map f ⊆ packages := by
      intro package hpackage
      obtain ⟨n, -, rfl⟩ := List.mem_map.mp hpackage
      exact hall n
    have hle := (List.subperm_of_subset (List.nodup_range.map hinj) hsub).length_le
    rw [List.length_map, List.length_range] at hle
    omega
  obtain ⟨n, hn⟩ := hfresh
  have hchar : ∀ c ∈ (f n).toList, c = 'x' := fun c hc => by
    rw [String.toList_ofList] at hc
    exact List.eq_of_mem_replicate hc
  have hclean : ∀ c ∈ (f n).toList, isSpace c = false := fun c hc => by
    rw [hchar c hc]
    decide
  refine ⟨f n, hn, fun hempty => ?_, fun c hc => ?_, ?_, ?_⟩
  · have hlist := congrArg String.toList hempty
    simp [f] at hlist
  · rw [hchar c hc]
    decide
  · rw [strip, stripChars_eq_self (fun c hc => hclean c (List.mem_of_head? hc))
      fun c hc => hclean c (List.mem_of_getLast? hc), String.ofList_toList]
  · have hlist : (f n).toList = 'x' :: List.replicate n 'x' := String.toList_ofList
    rw [startsWith, hlist]
    rfl

theorem resolve_ok {out : Resolved γ} (h : s.resolve name = .ok out) :
    ∃ chain, s.tree.resolveChain name = .ok chain ∧
      mergeOverlays s.overlay chain .nil = .ok out.overlay ∧
      out.extraPackages = resolvedPackages (s.text "extra-packages.list") chain ∧
      out.setupChroot = combineSetupChroots (s.text "setup-chroot") chain := by
  unfold ProfileSources.resolve at h
  cases hchain : s.tree.resolveChain name with
  | error fault =>
    rw [hchain] at h
    cases h
  | ok chain =>
    rw [hchain] at h
    dsimp only at h
    cases hmerge : mergeOverlays s.overlay chain .nil with
    | error errors =>
      rw [hmerge] at h
      cases h
    | ok merged =>
      rw [hmerge] at h
      cases h
      exact ⟨chain, rfl, hmerge, rfl, rfl⟩

/-- A profile is written again with another list of packages. -/
theorem resolve_store_packages {profile : ProfileDir} {chain : List String} {text : String}
    {out : Resolved γ} (hprofile : s.profile profile.name = some profile)
    (hchain : s.tree.resolveChain name = .ok chain)
    (h : (s.store (profile.put "extra-packages.list" text) (s.overlay profile.name)).resolve name =
      .ok out) :
    (s.store (profile.put "extra-packages.list" text)
        (s.overlay profile.name)).text "extra-packages.list" profile.name = some text ∧
      out.extraPackages = resolvedPackages ((s.store (profile.put "extra-packages.list" text)
        (s.overlay profile.name)).text "extra-packages.list") chain := by
  let edited := profile.put "extra-packages.list" text
  have hdir : s.tree.isDir edited.name = true := by
    rw [isDir_iff_profile]
    exact Option.isSome_iff_exists.mpr ⟨profile, hprofile⟩
  have hbase : edited.name = baseProfile → s.tree.isDir baseProfile = true := fun heq => heq ▸ hdir
  have hself : (s.store edited (s.overlay profile.name)).profile profile.name = some edited :=
    @find?_storeProfile_self s.dirs edited
  have hparents : ∀ y, (s.store edited (s.overlay profile.name)).tree.readParents y =
      s.tree.readParents y := by
    intro y
    by_cases hy : y = edited.name
    · subst hy
      have hfile : (s.store edited (s.overlay profile.name)).tree.fileParents edited.name =
          s.tree.fileParents edited.name := by
        have htext : (s.store edited (s.overlay profile.name)).text "parent" edited.name =
            s.text "parent" edited.name := by
          have hname : edited.name = profile.name := rfl
          unfold ProfileSources.text
          rw [hname, hself, hprofile]
          exact file_put_of_ne (by decide)
        exact fileParents_congr htext
      unfold ProfilesTree.readParents
      rw [hfile, isDir_base_store hbase]
    · exact (sameAt_store hy).readParents (isDir_base_store hbase)
  have hisDir : ∀ y, (s.store edited (s.overlay profile.name)).tree.isDir y = s.tree.isDir y := by
    intro y
    rw [Bool.eq_iff_iff, isDir_store]
    refine or_iff_left_of_imp ?_
    rintro rfl
    exact hdir
  obtain ⟨chain', hchain', -, hpackages, -⟩ := resolve_ok h
  rw [resolveChain_congr (fun y _ => hparents y) fun y _ => hisDir y, hchain] at hchain'
  cases hchain'
  refine ⟨?_, hpackages⟩
  unfold ProfileSources.text
  rw [hself]
  exact file_put_self profile _ _

/-- **The build cascade is exact.** Of the profiles that can be built, it has those that come out
different for some way of writing the profile, and no others. -/
theorem cascade_exact {out : Resolved γ} (hroot : s.tree.isDir root = true)
    (hout : s.resolve name = .ok out) : name ∈ computeBuildCascade (some s.dirs) root ↔
      ∃ profile overlay, profile.name = root ∧
        (s.store profile overlay).resolve name ≠ s.resolve name := by
  have hname : s.tree.isDir name = true := by
    cases hmissing : s.tree.isDir name with
    | true => rfl
    | false =>
      unfold ProfileSources.resolve at hout
      rw [resolveChain_of_missing hmissing] at hout
      cases hout
  rw [← inherits_iff_mem_cascade hname]
  constructor
  · intro hinherits
    obtain ⟨profile, hprofile⟩ := Option.isSome_iff_exists.mp (isDir_iff_profile.mp hroot)
    obtain rfl : profile.name = root := by simpa using List.find?_some hprofile
    obtain ⟨chain, hchain, -, hpackages, -⟩ := resolve_ok hout
    obtain ⟨package, hfresh, hne, hline, hstrip, hcomment⟩ :=
      exists_package (mergeExtraPackages (s.text "extra-packages.list") chain)
    refine ⟨profile.put "extra-packages.list" ("\n".intercalate ([package] ++ [""])),
      s.overlay profile.name, rfl, fun hsame => hfresh ?_⟩
    obtain ⟨htext, hpackages'⟩ := resolve_store_packages hprofile hchain (hsame.trans hout)
    have hlists := congrArg declaredParents (hpackages.symm.trans hpackages')
    rw [declaredParents_resolvedPackages, declaredParents_resolvedPackages] at hlists
    rw [hlists, (firsts_mergeExtraPackages _ _).mem_iff, mem_listedAlong_iff]
    refine ⟨profile.name, ((isChain_of_resolveChain hchain).mem_iff _).mpr hinherits, _, htext,
      package, ?_, hstrip, hne, hcomment⟩
    rw [splitLines_join (by simpa using hline)]
    exact List.mem_singleton_self package
  · rintro ⟨profile, overlay, rfl, hne⟩
    have hmem : name ∈ computeBuildCascade (some (s.store profile overlay).dirs) profile.name := by
      by_contra hnot
      exact hne (store_unaffected hnot).1
    have hreach := (inherits_iff_mem_cascade (isDir_store.mpr (.inl hname))).mpr hmem
    exact (agreeOff_store fun heq => heq ▸ hroot).reaches_self_iff.mp hreach

end Cascade

/-! ## The combined setup script -/

section Setup

/-- The lines of a script as a shell reads them. -/
def scriptLines (text : String) : List String := (text.toList.splitOn '\n').map String.ofList

/-- The same without an empty one at the end. -/
def shellLines (text : String) : List String :=
  match (scriptLines text).reverse with
  | "" :: rest => rest.reverse
  | lines => lines.reverse

/-- The lines of a script behind the one that names its interpreter. -/
def scriptBody : List String → List String
  | first :: rest => if startsWith first "#!" then rest else first :: rest
  | [] => []

/-- A line that is neither empty nor a comment. -/
def isCommandLine (line : String) : Bool := line != "" && !startsWith line "#"

def commandLines (text : String) : List String := (scriptLines text).filter isCommandLine

variable {s : ProfileSources γ} {name : String} {chain : List String}

theorem startsWith_append (start rest : String) : startsWith (start ++ rest) start = true := by
  unfold startsWith
  rw [String.toList_append, List.isPrefixOf_iff_prefix]
  exact List.prefix_append _ _

theorem isCommandLine_of_interpreter {line : String} (h : startsWith line "#!" = true) :
    isCommandLine line = false := by
  have hcomment : startsWith line "#" = true := by
    unfold startsWith at h ⊢
    rw [List.isPrefixOf_iff_prefix] at h ⊢
    exact List.IsPrefix.trans (by decide) h
  unfold isCommandLine
  rw [hcomment, Bool.not_true, Bool.and_false]

theorem isCommandLine_header (ancestor : String) :
    isCommandLine ("# === from profile: " ++ ancestor ++ " ===") = false := by
  have hcomment : startsWith ("# === from profile: " ++ ancestor ++ " ===") "#" = true := by
    rw [show "# === from profile: " = "#" ++ " === from profile: " by decide +kernel,
      String.append_assoc, String.append_assoc]
    exact startsWith_append _ _
  unfold isCommandLine
  rw [hcomment, Bool.not_true, Bool.and_false]

theorem filter_shellLines (text : String) :
    (shellLines text).filter isCommandLine = commandLines text := by
  have hempty : isCommandLine "" = false := by decide
  unfold commandLines shellLines
  split
  · rename_i rest hrest
    have hlines : scriptLines text = rest.reverse ++ [""] := by
      rw [← List.reverse_reverse (scriptLines text), hrest, List.reverse_cons]
    rw [hlines, List.filter_append, List.filter_singleton, hempty]
    simp
  · rw [List.reverse_reverse]

theorem filter_scriptBody (lines : List String) :
    (scriptBody lines).filter isCommandLine = lines.filter isCommandLine := by
  unfold scriptBody
  split
  · split
    · rename_i first rest hinterpreter
      rw [List.filter_cons_of_neg (by rw [isCommandLine_of_interpreter hinterpreter]; simp)]
    · rfl
  · rfl

theorem setupSection_eq (ancestor : String) (lines : List String) :
    setupSection ancestor lines =
      ("# === from profile: " ++ ancestor ++ " ===") :: scriptBody lines ++ [""] := by
  cases lines <;> rfl

/-- The section of a profile runs what its script runs. -/
theorem filter_setupSection (ancestor : String) (lines : List String) :
    (setupSection ancestor lines).filter isCommandLine = lines.filter isCommandLine := by
  have hempty : isCommandLine "" = false := by decide
  rw [setupSection_eq, List.filter_append, List.filter_singleton, hempty,
    List.filter_cons_of_neg (by rw [isCommandLine_header]; simp), filter_scriptBody]
  simp

theorem filter_setupParts (setupLines : String → Option (List String)) :
    (setupParts setupLines chain).filter isCommandLine = "set -eu" ::
      chain.flatMap fun ancestor => ((setupLines ancestor).getD []).filter isCommandLine := by
  have hfirst : (["#!/bin/sh", "set -eu", ""] : List String).filter isCommandLine =
      ["set -eu"] := by decide +kernel
  have hnone : (["# (no setup-chroot in any ancestor)"] : List String).filter isCommandLine =
      [] := by decide +kernel
  have hsections : (chain.filterMap fun ancestor =>
        (setupLines ancestor).map (setupSection ancestor)).flatten.filter isCommandLine =
      chain.flatMap fun ancestor => ((setupLines ancestor).getD []).filter isCommandLine := by
    induction chain with
    | nil => rfl
    | cons ancestor chain ih =>
      rw [List.flatMap_cons]
      cases hlines : setupLines ancestor with
      | none =>
        rw [List.filterMap_cons_none (by rw [hlines]; rfl), ih]
        rfl
      | some lines =>
        rw [List.filterMap_cons_some (by rw [hlines]; rfl), List.flatten_cons,
          List.filter_append, filter_setupSection, ih]
        rfl
  unfold setupParts
  dsimp only
  rw [List.filter_append, List.filter_append, hfirst, hsections]
  split
  · rw [hnone, List.append_nil]
    rfl
  · rw [List.filter_nil, List.append_nil]
    rfl

/-- The script of a profile of the chain stands in the combined one as a whole. -/
theorem scriptBody_infix {setupLines : String → Option (List String)} {ancestor : String}
    {lines : List String} (hancestor : ancestor ∈ chain)
    (hlines : setupLines ancestor = some lines) :
    scriptBody lines <:+: setupParts setupLines chain := by
  have hsection : setupSection ancestor lines ∈ chain.filterMap fun ancestor =>
      (setupLines ancestor).map (setupSection ancestor) :=
    List.mem_filterMap.mpr ⟨ancestor, hancestor, by rw [hlines]; rfl⟩
  have hbody : scriptBody lines <:+: setupSection ancestor lines := by
    rw [setupSection_eq]
    exact ⟨[_], [""], rfl⟩
  refine hbody.trans ((List.infix_of_mem_flatten hsection).trans ?_)
  exact List.infix_append _ _ _

theorem splitLines_eq_shellLines {text : String}
    (h : ∀ c ∈ text.toList, isLineEnd c = true → c = '\n') : splitLines text = shellLines text := by
  have hsplit : text.toList.splitOnP isLineEnd = text.toList.splitOn '\n' := by
    generalize text.toList = cs at h
    unfold List.splitOn
    induction cs with
    | nil => rfl
    | cons c cs ih =>
      have hc : isLineEnd c = (c == '\n') := by
        rw [Bool.eq_iff_iff, beq_iff_eq]
        refine ⟨h c List.mem_cons_self, ?_⟩
        rintro rfl
        decide
      rw [List.splitOnP_cons_eq_if_modifyHead, List.splitOnP_cons_eq_if_modifyHead, hc,
        ih fun c hc => h c (List.mem_cons_of_mem _ hc)]
  unfold splitLines shellLines scriptLines
  generalize text.toList.splitOnP isLineEnd = pieces at hsplit
  subst hsplit
  rfl

theorem oneLine_of_mem_chain (hname : '\n' ∉ name.toList)
    (hchain : s.tree.resolveChain name = .ok chain) :
    ∀ ancestor ∈ chain, '\n' ∉ ancestor.toList := by
  intro ancestor hancestor
  have hinherits := ((isChain_of_resolveChain hchain).mem_iff ancestor).mp hancestor
  rcases Relation.ReflTransGen.cases_tail hinherits with rfl | ⟨child, -, hparent⟩
  · exact hname
  · rcases mem_readParents s.tree hparent with rfl | ⟨text, -, hdeclared⟩
    · decide
    · obtain ⟨line, hline, rfl, -⟩ := mem_declaredParents_iff.mp hdeclared
      exact (oneLine_strip (oneLine_of_mem_splitLines hline)).no_newline

theorem oneLine_setupSection {ancestor line : String} {lines : List String}
    (hancestor : '\n' ∉ ancestor.toList) (hlines : ∀ line ∈ lines, '\n' ∉ line.toList)
    (h : line ∈ setupSection ancestor lines) : '\n' ∉ line.toList := by
  unfold setupSection at h
  rcases List.mem_append.mp h with h | h
  · rcases List.mem_cons.mp h with rfl | h
    · simp only [String.toList_append, List.mem_append, not_or]
      exact ⟨⟨by decide +kernel, hancestor⟩, by decide +kernel⟩
    · refine hlines line ?_
      split at h
      · split at h
        · exact List.mem_cons_of_mem _ h
        · exact h
      · cases h
  · rw [List.mem_singleton.mp h]
    decide

theorem scriptLines_combineSetupChroots {setupChroot : String → Option String}
    (h : ∀ ancestor ∈ chain, '\n' ∉ ancestor.toList) :
    scriptLines (combineSetupChroots setupChroot chain) =
      setupParts (fun ancestor => (setupChroot ancestor).map splitLines) chain := by
  have hlines : ∀ line ∈ setupParts (fun ancestor => (setupChroot ancestor).map splitLines) chain,
      '\n' ∉ line.toList := by
    intro line hline
    unfold setupParts at hline
    dsimp only at hline
    rcases List.mem_append.mp hline with hline | hline
    · rcases List.mem_append.mp hline with hline | hline
      · simp only [List.mem_cons, List.not_mem_nil, or_false] at hline
        rcases hline with rfl | rfl | rfl <;> decide
      · obtain ⟨section', hsection, hline⟩ := List.mem_flatten.mp hline
        obtain ⟨ancestor, hancestor, hmap⟩ := List.mem_filterMap.mp hsection
        obtain ⟨lines, hscript, rfl⟩ := Option.map_eq_some_iff.mp hmap
        obtain ⟨text, -, rfl⟩ := Option.map_eq_some_iff.mp hscript
        exact oneLine_setupSection (h ancestor hancestor)
          (fun line hline => (oneLine_of_mem_splitLines hline).no_newline) hline
    · split at hline
      · rw [List.mem_singleton.mp hline]
        decide +kernel
      · cases hline
  have hsplit := splitOn_join (by simp [setupParts]) hlines
  unfold scriptLines combineSetupChroots
  rw [show "\n" = String.singleton '\n' from rfl, hsplit, List.map_map]
  have hid : String.ofList ∘ String.toList = id := funext fun _ => String.ofList_toList
  rw [hid, List.map_id]

/-- The lines of the combined script, from those of the scripts along the chain. -/
theorem scriptLines_of_resolve {out : Resolved γ} (hname : '\n' ∉ name.toList)
    (hchain : s.tree.resolveChain name = .ok chain)
    (hscript : out.setupChroot = combineSetupChroots (s.text "setup-chroot") chain)
    (hends : ∀ ancestor text, s.tree.Inherits name ancestor →
      s.text "setup-chroot" ancestor = some text →
      ∀ c ∈ text.toList, isLineEnd c = true → c = '\n') :
    scriptLines out.setupChroot =
      setupParts (fun ancestor => (s.text "setup-chroot" ancestor).map shellLines) chain := by
  rw [hscript, scriptLines_combineSetupChroots (oneLine_of_mem_chain hname hchain)]
  have hsections : (chain.filterMap fun ancestor =>
        ((s.text "setup-chroot" ancestor).map splitLines).map (setupSection ancestor)) =
      chain.filterMap fun ancestor =>
        ((s.text "setup-chroot" ancestor).map shellLines).map (setupSection ancestor) := by
    refine List.filterMap_congr fun ancestor hancestor => ?_
    have hinherits := ((isChain_of_resolveChain hchain).mem_iff ancestor).mp hancestor
    cases htext : s.text "setup-chroot" ancestor with
    | none => rfl
    | some text =>
      rw [Option.map_some, Option.map_some, Option.map_some, Option.map_some,
        splitLines_eq_shellLines (hends ancestor text hinherits htext)]
  unfold setupParts
  rw [hsections]

/-- **The setup script** of a resolved profile runs, after `set -eu`, the lines of the scripts
along the chain, each script after those that its profile inherits from, and has each script in
one piece, if line feeds alone end the lines of the scripts. -/
theorem resolve_setup {out : Resolved γ} (hname : '\n' ∉ name.toList)
    (hout : s.resolve name = .ok out)
    (hends : ∀ ancestor text, s.tree.Inherits name ancestor →
      s.text "setup-chroot" ancestor = some text →
      ∀ c ∈ text.toList, isLineEnd c = true → c = '\n') :
    ∃ chain, s.tree.resolveChain name = .ok chain ∧
      IsChain s.tree.readParents s.tree.isDir name chain ∧
      commandLines out.setupChroot = "set -eu" :: chain.flatMap (fun ancestor =>
        ((s.text "setup-chroot" ancestor).map commandLines).getD []) ∧
      ∀ ancestor ∈ chain, ∀ text, s.text "setup-chroot" ancestor = some text →
        scriptBody (shellLines text) <:+: scriptLines out.setupChroot := by
  obtain ⟨chain, hchain, -, -, hscript⟩ := resolve_ok hout
  have hlines := scriptLines_of_resolve hname hchain hscript hends
  refine ⟨chain, hchain, isChain_of_resolveChain hchain, ?_,
    fun ancestor hancestor text htext => ?_⟩
  · unfold commandLines
    rw [hlines, filter_setupParts]
    congr 1
    refine List.flatMap_congr fun ancestor _ => ?_
    cases s.text "setup-chroot" ancestor with
    | none => rfl
    | some text => exact filter_shellLines text
  · rw [hlines]
    exact scriptBody_infix hancestor (by rw [htext]; rfl)

end Setup

section Examples

/-- A fragment with a script, and a profile that lists it. -/
def setupSources : ProfileSources Unit where
  dirs := [⟨"gpu", [("setup-chroot", "#!/bin/sh\nldconfig\n")]⟩,
    ⟨"kiosk", [("parent", "gpu\n"), ("setup-chroot", "systemctl enable kiosk")]⟩]
  overlay := fun _ => none

theorem resolve_setupSources : ∃ out, setupSources.resolve "kiosk" = .ok out := by
  have hsome : (setupSources.resolve "kiosk").toOption.isSome = true := by decide +kernel
  cases hout : setupSources.resolve "kiosk" with
  | ok out => exact ⟨out, rfl⟩
  | error _ =>
    rw [hout] at hsome
    cases hsome

/-- The profile is built anew for its fragment. -/
theorem cascade_exact_kiosk : ∃ profile overlay, profile.name = "gpu" ∧
    (setupSources.store profile overlay).resolve "kiosk" ≠ setupSources.resolve "kiosk" := by
  obtain ⟨out, hout⟩ := resolve_setupSources
  exact (cascade_exact (by decide +kernel) hout).mp (by decide +kernel)

theorem resolve_setup_kiosk : ∃ out, setupSources.resolve "kiosk" = .ok out ∧
    commandLines out.setupChroot = ["set -eu", "ldconfig", "systemctl enable kiosk"] ∧
    ["ldconfig"] <:+: scriptLines out.setupChroot := by
  obtain ⟨out, hout⟩ := resolve_setupSources
  have hresolved : setupSources.tree.resolveChain "kiosk" = .ok ["gpu", "kiosk"] := by
    decide +kernel
  have htexts : ∀ ancestor ∈ ["gpu", "kiosk"],
      ((setupSources.text "setup-chroot" ancestor).getD "").toList.all
        (fun c => !isLineEnd c || c == '\n') = true := by
    decide +kernel
  obtain ⟨chain, hchain, -, hcommands, hwhole⟩ := resolve_setup (by decide) hout
    fun ancestor text hancestor htext c hc hend => by
      have hmem := ((isChain_of_resolveChain hresolved).mem_iff ancestor).mpr hancestor
      have hall := htexts ancestor hmem
      rw [htext] at hall
      simpa [hend] using List.all_eq_true.mp hall c hc
  obtain rfl : ["gpu", "kiosk"] = chain := Except.ok.inj (hresolved.symm.trans hchain)
  refine ⟨out, hout, hcommands.trans (by decide +kernel), ?_⟩
  have hgpu := hwhole "gpu" (List.mem_cons_self ..) "#!/bin/sh\nldconfig\n" (by decide +kernel)
  rwa [show scriptBody (shellLines "#!/bin/sh\nldconfig\n") = ["ldconfig"] by decide +kernel]
    at hgpu

end Examples

end Fleetboot
