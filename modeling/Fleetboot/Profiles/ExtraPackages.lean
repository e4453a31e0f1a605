import Fleetboot.Library.FirstOccurrences
import Fleetboot.Profiles.Resolver

/-!
# Merging packages

`_merge_extra_packages` of `resolve-profile.py`, and the `extra-packages.list` that `resolve`
writes. The script sees the lists of the profiles through one question: what is in the file
`extra-packages.list` of a profile, if there is such a file.

* `mergeExtraPackages_correct`: the merge is the union of the lists, in the order of their first
  occurrence, and grows at its end with the chain.
* `mergeExtraPackages_subset`, `mergeExtraPackages_firstParent`: a profile has the packages of all
  it inherits from, and begins with those of its first parent.
* `mergeExtraPackages_resolved`: the merged list is read back from the file that is written.
-/

set_option autoImplicit false

namespace Fleetboot

open Python Digraph Repeats

section Merge

variable (extraPackages : String → Option String)

/-- One line of a list. -/
def mergeLine (merged : Uniques String) (line : String) : Uniques String :=
  let stripped := strip line
  if stripped = "" ∨ startsWith stripped "#" then merged else merged.add stripped

/-- The list of one profile of the chain. -/
def mergeProfile (merged : Uniques String) (ancestor : String) : Uniques String :=
  match extraPackages ancestor with
  | none => merged
  | some text => (splitLines text).foldl mergeLine merged

/-- `_merge_extra_packages`. -/
def mergeExtraPackages (chain : List String) : List String :=
  (chain.foldl (mergeProfile extraPackages) .empty).out

/-- The `extra-packages.list` of the resolved profile. -/
def resolvedPackages (chain : List String) : String :=
  let packages := mergeExtraPackages extraPackages chain
  "\n".intercalate packages ++ if packages = [] then "" else "\n"

/-! ## What a profile lists -/

/-- A profile lists a package: it stands on a line of the list of the profile, with nothing but
white space around it. -/
def ListsPackage (name package : String) : Prop :=
  ∃ text, extraPackages name = some text ∧ ∃ line ∈ splitLines text,
    strip line = package ∧ package ≠ "" ∧ startsWith package "#" = false

/-- What a profile lists, line by line: a list has the grammar of a `parent` file. -/
def listedPackages (name : String) : List String :=
  match extraPackages name with
  | none => []
  | some text => declaredParents text

/-- What the profiles of a chain list, one after the other. -/
def listedAlong (chain : List String) : List String := chain.flatMap (listedPackages extraPackages)

variable {extraPackages} {chain : List String} {name package : String}

theorem mem_listedPackages_iff :
    package ∈ listedPackages extraPackages name ↔ ListsPackage extraPackages name package := by
  unfold listedPackages ListsPackage
  split
  · rename_i hnone
    simp [hnone]
  · rename_i text htext
    rw [mem_declaredParents_iff]
    constructor
    · intro h
      exact ⟨text, htext, h⟩
    · rintro ⟨text', htext', h⟩
      obtain rfl := Option.some.inj (htext.symm.trans htext')
      exact h

theorem mem_listedAlong_iff : package ∈ listedAlong extraPackages chain ↔
    ∃ name ∈ chain, ListsPackage extraPackages name package := by
  unfold listedAlong
  rw [List.mem_flatMap]
  simp only [mem_listedPackages_iff]

/-! ## The merge -/

theorem foldl_mergeLine (text : String) (merged : Uniques String) :
    (splitLines text).foldl mergeLine merged =
      (declaredParents text).foldl Uniques.add merged := by
  unfold declaredParents
  rw [List.foldl_filterMap]
  congr 1
  funext merged line
  unfold mergeLine
  dsimp only
  split
  · rfl
  · rfl

theorem mergeProfile_eq (merged : Uniques String) (name : String) :
    mergeProfile extraPackages merged name =
      (listedPackages extraPackages name).foldl Uniques.add merged := by
  unfold mergeProfile listedPackages
  cases extraPackages name with
  | none => rfl
  | some text => exact foldl_mergeLine text merged

theorem foldl_mergeProfile (merged : Uniques String) (chain : List String) :
    chain.foldl (mergeProfile extraPackages) merged =
      (listedAlong extraPackages chain).foldl Uniques.add merged := by
  unfold listedAlong
  rw [List.foldl_flatMap]
  congr 1
  funext merged name
  exact mergeProfile_eq merged name

theorem firsts_mergeExtraPackages (extraPackages : String → Option String) (chain : List String) :
    Firsts (listedAlong extraPackages chain) (mergeExtraPackages extraPackages chain) := by
  have hstart : Firsts [] (Uniques.empty : Uniques String).out := Firsts.nil
  unfold mergeExtraPackages
  rw [foldl_mergeProfile]
  exact hstart.foldl_add (listedAlong extraPackages chain)

theorem prefix_mergeExtraPackages (extraPackages : String → Option String)
    (chain more : List String) : mergeExtraPackages extraPackages chain <+:
      mergeExtraPackages extraPackages (chain ++ more) := by
  unfold mergeExtraPackages
  rw [List.foldl_append, foldl_mergeProfile _ more]
  exact Uniques.prefix_foldl_add _ _

/-- **Merging packages.** Along any chain the merge holds exactly the packages that some profile
lists, each once, in the order in which they are listed first; and what the chain goes on with is
added behind them. -/
theorem mergeExtraPackages_correct (extraPackages : String → Option String)
    (chain : List String) :
    (∀ package, package ∈ mergeExtraPackages extraPackages chain ↔
      ∃ name ∈ chain, ListsPackage extraPackages name package) ∧
    (mergeExtraPackages extraPackages chain).Nodup ∧
    (mergeExtraPackages extraPackages chain).Pairwise (fun first second =>
      (listedAlong extraPackages chain).idxOf first <
        (listedAlong extraPackages chain).idxOf second) ∧
    ∀ more, mergeExtraPackages extraPackages chain <+:
      mergeExtraPackages extraPackages (chain ++ more) := by
  have hfirsts := firsts_mergeExtraPackages extraPackages chain
  refine ⟨fun package => ?_, hfirsts.nodup, hfirsts.order, fun more => ?_⟩
  · rw [hfirsts.mem_iff, mem_listedAlong_iff]
  · exact prefix_mergeExtraPackages extraPackages chain more

/-- What a profile installs, all that inherit from it install. -/
theorem mergeExtraPackages_subset {tree : ProfilesTree} {child parent : String}
    {chain chain' : List String} (hchain : tree.resolveChain child = .ok chain)
    (hchain' : tree.resolveChain parent = .ok chain') (h : tree.Inherits child parent) :
    mergeExtraPackages extraPackages chain' ⊆ mergeExtraPackages extraPackages chain := by
  intro package hpackage
  rw [(firsts_mergeExtraPackages _ _).mem_iff, mem_listedAlong_iff] at hpackage ⊢
  obtain ⟨name, hname, hlists⟩ := hpackage
  have hinherits := ((isChain_of_resolveChain hchain').mem_iff name).mp hname
  exact ⟨name, ((isChain_of_resolveChain hchain).mem_iff name).mpr (h.trans hinherits), hlists⟩

/-- The packages of a profile begin with those of its first parent. -/
theorem mergeExtraPackages_firstParent {tree : ProfilesTree} {child parent : String}
    {chain chain' : List String} (hchain : tree.resolveChain child = .ok chain)
    (hchain' : tree.resolveChain parent = .ok chain')
    (h : (tree.fileParents child).head? = some parent) :
    mergeExtraPackages extraPackages chain' <+: mergeExtraPackages extraPackages chain := by
  obtain ⟨more, rfl⟩ := resolveChain_prefix hchain hchain' h
  exact prefix_mergeExtraPackages extraPackages chain' more

/-! ## The file that is written -/

theorem resolvedPackages_eq (extraPackages : String → Option String) (chain : List String) :
    resolvedPackages extraPackages chain =
      "\n".intercalate (mergeExtraPackages extraPackages chain ++ [""]) := by
  unfold resolvedPackages
  dsimp only
  split
  · rename_i hempty
    rw [hempty]
    rfl
  · rename_i hne
    rw [String.intercalate_append_of_ne_nil hne (by simp), String.intercalate_singleton,
      String.append_empty]

/-- Packages that profiles list are read back from a file with one on each line. -/
theorem declaredParents_join {packages : List String}
    (h : ∀ package ∈ packages, ∃ name, ListsPackage extraPackages name package) :
    declaredParents ("\n".intercalate (packages ++ [""])) = packages := by
  have hline : ∀ package ∈ packages, OneLine package := by
    intro package hpackage
    obtain ⟨name, text, -, line, hmem, rfl, -⟩ := h package hpackage
    exact oneLine_strip (oneLine_of_mem_splitLines hmem)
  unfold declaredParents
  rw [splitLines_join hline]
  calc
    _ = packages.filterMap some := by
      apply List.filterMap_congr
      intro package hpackage
      obtain ⟨name, text, -, line, -, rfl, hne, hcomment⟩ := h package hpackage
      dsimp only
      rw [strip_strip, if_neg (not_or.mpr ⟨hne, Bool.eq_false_iff.mp hcomment⟩)]
    _ = packages := List.filterMap_some

theorem declaredParents_resolvedPackages (extraPackages : String → Option String)
    (chain : List String) :
    declaredParents (resolvedPackages extraPackages chain) =
      mergeExtraPackages extraPackages chain := by
  rw [resolvedPackages_eq]
  refine @declaredParents_join extraPackages _ ?_
  intro package hpackage
  rw [(firsts_mergeExtraPackages _ _).mem_iff, mem_listedAlong_iff] at hpackage
  obtain ⟨name, -, hlists⟩ := hpackage
  exact ⟨name, hlists⟩

/-- The resolved profile alone has the packages of its chain. -/
theorem mergeExtraPackages_resolved {resolved : String → Option String}
    (h : resolved name = some (resolvedPackages extraPackages chain)) :
    mergeExtraPackages resolved [name] = mergeExtraPackages extraPackages chain := by
  have hfirsts := firsts_mergeExtraPackages resolved [name]
  have hlisted : listedAlong resolved [name] = mergeExtraPackages extraPackages chain := by
    unfold listedAlong listedPackages
    rw [List.flatMap_singleton, h]
    exact declaredParents_resolvedPackages extraPackages chain
  rw [hlisted] at hfirsts
  exact hfirsts.unique (Firsts.of_nodup (firsts_mergeExtraPackages extraPackages chain).nodup)

end Merge

section Examples

/-- A comment, white space and repetitions, within a list and across the two. -/
def editorLists : String → Option String
  | "base" => some "# editors\n\n  vim \ngit\nvim\n"
  | "lab" => some "git\ncurl\t\n#nano\n"
  | _ => none

example : mergeExtraPackages editorLists ["base", "lab", "kiosk"] = ["vim", "git", "curl"] := by
  decide +kernel

end Examples

end Fleetboot
