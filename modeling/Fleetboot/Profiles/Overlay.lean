import Fleetboot.Library.FileTree
import Fleetboot.Profiles.Resolver

/-!
# Merging overlays

`_merge_overlays` of `resolve-profile.py`: the overlays of a chain are copied one over the other,
the root of the chain first. What a file holds is left open.

* `mergeOverlays_correct_iff`: the merged tree holds what the chain defines, each file as the last
  profile that has it, exactly if no path is a file in one overlay and a directory in another.
-/

set_option autoImplicit false

namespace Fleetboot

open Python Digraph FileTree

universe u

variable {γ : Type u}

/-- The directory `overlay` of a profile. -/
structure Overlay (γ : Type u) where
  entries : Listing String γ
  distinct : entries.Distinct

/-- `_merge_overlays`, into a directory. -/
def mergeOverlays (overlay : String → Option (Overlay γ)) : List String → Listing String γ →
    Except (List (CopyError String)) (Listing String γ)
  | [], dest => .ok dest
  | ancestor :: chain, dest =>
    match overlay ancestor with
    | none => mergeOverlays overlay chain dest
    | some src =>
      match copyTree src.entries dest with
      | (dest, []) => mergeOverlays overlay chain dest
      | (_, errors) => .error errors

section Merge

variable (overlay : String → Option (Overlay γ))

/-- What a profile has at a path of its overlay. -/
def overlayKind (name : String) (path : List String) : Option (Kind γ) :=
  (overlay name).bind fun src => src.entries.kindAt path

/-- The last profile of the chain that has a file at the path has it with this content. -/
def LastDefines (chain : List String) (path : List String) (content : γ) : Prop :=
  ∃ before name after, chain = before ++ name :: after ∧
    overlayKind overlay name path = some (.file content) ∧
    ∀ later ∈ after, ∀ content', overlayKind overlay later path ≠ some (.file content')

/-- The merge of a chain succeeds, every file of an overlay holds what its last definition gives,
and nothing is there that no overlay has. -/
def MergesRight (chain : List String) : Prop :=
  ∃ merged, mergeOverlays overlay chain .nil = .ok merged ∧
    (∀ path content, LastDefines overlay chain path content →
      merged.kindAt path = some (.file content)) ∧
    ∀ path, path ≠ [] → merged.kindAt path ≠ none →
      ∃ name ∈ chain, overlayKind overlay name path ≠ none

/-- A path is a file in one overlay of the chain and a directory in another. -/
def Clash (chain : List String) : Prop :=
  ∃ path content, (∃ name ∈ chain, overlayKind overlay name path = some (.file content)) ∧
    ∃ name ∈ chain, overlayKind overlay name path = some .dir

variable {overlay} {chain : List String} {path : List String}

/-- The overlays that the profiles of a chain have. -/
def overlaysOf (overlay : String → Option (Overlay γ)) (chain : List String) :
    List (Listing String γ) :=
  (chain.filterMap overlay).map Overlay.entries

theorem mergeOverlays_eq (dest : Listing String γ) :
    mergeOverlays overlay chain dest = copyAll (overlaysOf overlay chain) dest := by
  induction chain generalizing dest with
  | nil => rfl
  | cons ancestor chain ih =>
    unfold mergeOverlays overlaysOf
    cases hsrc : overlay ancestor with
    | none =>
      rw [List.filterMap_cons_none hsrc]
      exact ih dest
    | some src =>
      rw [List.filterMap_cons_some hsrc, List.map_cons]
      cases hcopy : copyTree src.entries dest with
      | mk dest' errors =>
        cases errors with
        | nil =>
          simp only [copyAll, hcopy]
          exact ih dest'
        | cons error errors => simp only [copyAll, hcopy]

theorem mem_overlaysOf_iff {kind : Kind γ} :
    (∃ src ∈ overlaysOf overlay chain, src.kindAt path = some kind) ↔
      ∃ name ∈ chain, overlayKind overlay name path = some kind := by
  simp only [overlaysOf, overlayKind, List.mem_map, List.mem_filterMap, Option.bind_eq_some_iff]
  constructor
  · rintro ⟨_, ⟨src, ⟨name, hname, hsrc⟩, rfl⟩, hkind⟩
    exact ⟨name, hname, src, hsrc, hkind⟩
  · rintro ⟨name, hname, src, hsrc, hkind⟩
    exact ⟨src.entries, ⟨src, ⟨name, hname, hsrc⟩, rfl⟩, hkind⟩

theorem layered_overlaysOf (below : Option (Kind γ)) :
    layered (overlaysOf overlay chain) below path =
      chain.foldl (fun kind name => (overlayKind overlay name path).or kind) below := by
  induction chain generalizing below with
  | nil => rfl
  | cons name chain ih =>
    unfold overlaysOf
    rw [List.foldl_cons]
    cases hsrc : overlay name with
    | none =>
      rw [List.filterMap_cons_none hsrc]
      have hkind : overlayKind overlay name path = none := by simp [overlayKind, hsrc]
      rw [hkind, Option.none_or]
      exact ih below
    | some src =>
      rw [List.filterMap_cons_some hsrc]
      have hkind : overlayKind overlay name path = src.entries.kindAt path := by
        simp [overlayKind, hsrc]
      rw [hkind]
      exact ih _

/-- Profiles that have nothing at a path do not matter to it. -/
theorem foldl_none {after : List String} {below : Option (Kind γ)}
    (h : ∀ later ∈ after, overlayKind overlay later path = none) :
    after.foldl (fun kind name => (overlayKind overlay name path).or kind) below = below := by
  induction after generalizing below with
  | nil => rfl
  | cons later after ih =>
    rw [List.foldl_cons, h later (List.mem_cons_self ..), Option.none_or]
    exact ih fun other hother => h other (List.mem_cons_of_mem _ hother)

/-- What is there comes from below or from a profile. -/
theorem of_foldl_ne_none {below : Option (Kind γ)}
    (h : chain.foldl (fun kind name => (overlayKind overlay name path).or kind) below ≠ none) :
    below ≠ none ∨ ∃ name ∈ chain, overlayKind overlay name path ≠ none := by
  induction chain generalizing below with
  | nil => exact .inl h
  | cons name chain ih =>
    rw [List.foldl_cons] at h
    rcases ih h with hbelow | ⟨later, hlater, hkind⟩
    · cases hname : overlayKind overlay name path with
      | none =>
        rw [hname, Option.none_or] at hbelow
        exact .inl hbelow
      | some kind =>
        exact .inr ⟨name, List.mem_cons_self .., by rw [hname]; exact Option.some_ne_none kind⟩
    · exact .inr ⟨later, List.mem_cons_of_mem _ hlater, hkind⟩

/-- A file that some profile has is one that a last profile has. -/
theorem exists_lastDefines
    (h : ∃ name ∈ chain, ∃ content, overlayKind overlay name path = some (.file content)) :
    ∃ content, LastDefines overlay chain path content := by
  induction chain with
  | nil =>
    obtain ⟨name, hname, -⟩ := h
    cases hname
  | cons first chain ih =>
    by_cases hlater : ∃ name ∈ chain, ∃ content,
        overlayKind overlay name path = some (.file content)
    · obtain ⟨content, before, name, after, rfl, hname, hafter⟩ := ih hlater
      exact ⟨content, first :: before, name, after, rfl, hname, hafter⟩
    · obtain ⟨name, hname, content, hkind⟩ := h
      rcases List.mem_cons.mp hname with rfl | hname
      · exact ⟨content, [], name, chain, rfl, hkind,
          fun later hin content' heq => hlater ⟨later, hin, content', heq⟩⟩
      · exact absurd ⟨name, hname, content, hkind⟩ hlater

theorem compatible_of_not_clash (h : ¬ Clash overlay chain) :
    Compatible (.nil :: overlaysOf overlay chain) := by
  have hempty : ∀ {path : List String} {kind : Kind γ},
      (Listing.nil : Listing String γ).kindAt path = some kind → path = [] := by
    intro path kind hkind
    cases path with
    | nil => rfl
    | cons first path => cases hkind
  intro a ha b hb path content hfile hdir
  have hpath : path ≠ [] := by
    rintro rfl
    cases hfile
  have ha' := (List.mem_cons.mp ha).resolve_left fun heq => hpath (hempty (heq ▸ hfile))
  have hb' := (List.mem_cons.mp hb).resolve_left fun heq => hpath (hempty (heq ▸ hdir))
  exact h ⟨path, content, mem_overlaysOf_iff.mp ⟨a, ha', hfile⟩,
    mem_overlaysOf_iff.mp ⟨b, hb', hdir⟩⟩

/-- Without a clash the merge is the union, in which the last profile comes first. -/
theorem mergesRight_of_not_clash (h : ¬ Clash overlay chain) : MergesRight overlay chain := by
  have hdistinct : ∀ src ∈ overlaysOf overlay chain, src.Distinct := by
    intro src hsrc
    obtain ⟨o, -, rfl⟩ := List.mem_map.mp hsrc
    exact o.distinct
  obtain ⟨merged, hmerged, hkind⟩ :=
    copyAll_of_compatible hdistinct (compatible_of_not_clash h)
  refine ⟨merged, (mergeOverlays_eq _).trans hmerged, ?_, fun path hpath hsome => ?_⟩
  · rintro path content ⟨before, name, after, rfl, hname, hafter⟩
    have hnone : ∀ later ∈ after, overlayKind overlay later path = none := by
      intro later hlater
      cases hlaterKind : overlayKind overlay later path with
      | none => rfl
      | some kind =>
        cases kind with
        | file content' => exact absurd hlaterKind (hafter later hlater content')
        | dir =>
          have hfile : ∃ other ∈ before ++ name :: after,
              overlayKind overlay other path = some (.file content) := ⟨name, by simp, hname⟩
          have hdir : ∃ other ∈ before ++ name :: after,
              overlayKind overlay other path = some .dir := ⟨later, by simp [hlater], hlaterKind⟩
          exact absurd ⟨path, content, hfile, hdir⟩ h
    rw [hkind, layered_overlaysOf, List.foldl_append, List.foldl_cons, foldl_none hnone, hname]
    rfl
  · rw [hkind, layered_overlaysOf] at hsome
    refine (of_foldl_ne_none hsome).resolve_left fun hbelow => hbelow ?_
    obtain ⟨first, rest, rfl⟩ := List.exists_cons_of_ne_nil hpath
    rfl

/-- With a clash the directory is in the way: it stays one, whichever came first. -/
theorem not_mergesRight_of_clash (h : Clash overlay chain) : ¬ MergesRight overlay chain := by
  rintro ⟨merged, hmerged, hlast, -⟩
  obtain ⟨path, content, ⟨name, hname, hfile⟩, hdir⟩ := h
  obtain ⟨content', hdefines⟩ := exists_lastDefines ⟨name, hname, content, hfile⟩
  obtain ⟨src, hsrc, hsrcDir⟩ := mem_overlaysOf_iff.mpr hdir
  rw [mergeOverlays_eq] at hmerged
  have hmergedDir := kindAt_copyAll_of_source hmerged hsrc hsrcDir
  rw [hlast path content' hdefines] at hmergedDir
  cases hmergedDir

/-- **Merging overlays.** The merge of a chain succeeds, with every file as the last profile that
has it gives it and with nothing else, exactly if no path is a file in one overlay of the chain
and a directory in another. -/
theorem mergeOverlays_correct_iff {γ : Type u} (overlay : String → Option (Overlay γ))
    (chain : List String) : MergesRight overlay chain ↔ ¬ Clash overlay chain := by
  constructor
  · intro hright hclash
    exact not_mergesRight_of_clash hclash hright
  · exact mergesRight_of_not_clash

end Merge

section Examples

/-- `base` and a profile of its own. -/
def motdTree : ProfilesTree := .ofDirs [⟨"base", []⟩, ⟨"lab", []⟩]

/-- `base` has a directory where `lab` has a file. -/
def motdOverlay : String → Option (Overlay String)
  | "base" => some ⟨.dir "motd" (.file "10-base" "welcome" .nil) .nil,
      by simp [Listing.Distinct, Listing.names]⟩
  | "lab" => some ⟨.file "motd" "closed today" .nil, by simp [Listing.Distinct, Listing.names]⟩
  | _ => none

/-- The file of `lab` is written into the directory of `base`, and nothing fails. -/
theorem mergeOverlays_motd : ∃ chain, motdTree.resolveChain "lab" = .ok chain ∧
    mergeOverlays motdOverlay chain .nil =
      .ok (.dir "motd" (.file "10-base" "welcome" (.file "motd" "closed today" .nil)) .nil) ∧
    ¬ MergesRight motdOverlay chain := by
  have hmerge : mergeOverlays motdOverlay ["base", "lab"] .nil =
      .ok (.dir "motd" (.file "10-base" "welcome" (.file "motd" "closed today" .nil)) .nil) := rfl
  refine ⟨["base", "lab"], eq_ok_of_toOption (by decide +kernel), hmerge, ?_⟩
  rintro ⟨merged, hmerged, hlast, -⟩
  have hdefines : LastDefines motdOverlay ["base", "lab"] ["motd"] "closed today" :=
    ⟨["base"], "lab", [], rfl, rfl, fun _ hlater => absurd hlater List.not_mem_nil⟩
  have hkind := hlast _ _ hdefines
  obtain rfl := Except.ok.inj (hmerge.symm.trans hmerged)
  cases hkind

end Examples

end Fleetboot
