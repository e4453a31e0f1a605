import Fleetboot.Library.Layers
import Fleetboot.Profiles.Resolver
import Mathlib.Algebra.Order.BigOperators.Group.Finset

/-!
# The build cascade

`compute_build_cascade` of `build_jobs.py`: a profile and everything that inherits from it, in the
order in which they have to be rebuilt. It reads the parent files by itself and knows nothing of
the resolver.

* `readProfileParents_eq`: the two readings of a parent file agree.
* `cascadeEnds`, `mem_computeBuildCascade_iff`, `nodup_computeBuildCascade`: the cascade of any
  tree, with cycles or without.
* `head?_computeBuildCascade_iff`: when the profile comes first in it.
* `buildCascade_correct`: the cascade is what the resolver says inherits from the profile.
-/

set_option autoImplicit false

namespace Fleetboot

open Python Digraph

/-- `_read_profile_parents`. -/
def readProfileParents (tree : ProfilesTree) (name : String) : List String :=
  let parents := match tree.parentText name with
    | none => []
    | some text => ((splitLines text).map strip).filter fun stripped =>
      stripped != "" && !startsWith stripped "#"
  if name ≠ baseProfile ∧ baseProfile ∉ parents ∧ tree.isDir baseProfile then
    baseProfile :: parents
  else parents

/-- `children.get(parent, [])`: the profiles that list a parent, once for each time. -/
def buildChildren (tree : ProfilesTree) (profiles : List String) (parent : String) :
    List String :=
  profiles.flatMap fun profile =>
    ((readProfileParents tree profile).filter (· == parent)).map fun _ => profile

/-- The profile and its descendants, as the stack finds them. -/
def cascadeSet (tree : ProfilesTree) (profiles : List String) (root : String) : List String :=
  let children := buildChildren tree profiles
  collect children ((children root).length + ∑ x ∈ profiles.toFinset, (children x).length + 1)
    (children root).reverse [root]

/-- `compute_build_cascade`. -/
def computeBuildCascade (profilesRoot : Option (List ProfileDir)) (root : String) :
    List String :=
  match profilesRoot with
  | none => [root]
  | some dirs =>
    let tree := ProfilesTree.ofDirs dirs
    let inSet := cascadeSet tree (dirs.map ProfileDir.name) root
    layers (List.insertionSort (· ≤ ·)) inSet.length
      (inSet.map fun node => (node, (readProfileParents tree node).filter (· ∈ inSet))) []

/-- **The two readings agree.** -/
theorem readProfileParents_eq (tree : ProfilesTree) (name : String) :
    readProfileParents tree name = tree.readParents name := by
  have hlines : ∀ text, ((splitLines text).map strip).filter (fun stripped =>
      stripped != "" && !startsWith stripped "#") = declaredParents text := by
    intro text
    unfold declaredParents
    induction splitLines text with
    | nil => rfl
    | cons line lines ih =>
      rw [List.map_cons, List.filter_cons, List.filterMap_cons, ih]
      by_cases hempty : strip line = ""
      · simp [hempty]
      · by_cases hcomment : startsWith (strip line) "#" = true
        · simp [hcomment]
        · simp [hempty, hcomment]
  unfold readProfileParents ProfilesTree.readParents ProfilesTree.fileParents
  cases tree.parentText name with
  | none => rfl
  | some text => simp only [hlines]

section Cascade

variable {dirs : List ProfileDir}

/-- Every profile resolves. -/
def Resolvable (tree : ProfilesTree) (profiles : List String) : Prop :=
  ∀ name ∈ profiles, ∃ chain, tree.resolveChain name = .ok chain

theorem isDir_ofDirs_iff {name : String} :
    (ProfilesTree.ofDirs dirs).isDir name = true ↔ name ∈ dirs.map ProfileDir.name := by
  simp [ProfilesTree.ofDirs]

theorem mem_buildChildren_iff {tree : ProfilesTree} {profiles : List String}
    {parent child : String} : child ∈ buildChildren tree profiles parent ↔
      child ∈ profiles ∧ parent ∈ tree.readParents child := by
  simp only [buildChildren, readProfileParents_eq, List.mem_flatMap, List.mem_map, List.mem_filter,
    beq_iff_eq]
  constructor
  · rintro ⟨profile, hprofile, _, ⟨hparent, rfl⟩, rfl⟩
    exact ⟨hprofile, hparent⟩
  · rintro ⟨hchild, hparent⟩
    exact ⟨child, hchild, parent, ⟨hparent, rfl⟩, rfl⟩

/-- The children of profiles are profiles, and there is time to push them all. -/
theorem cascadeSet_fuel (tree : ProfilesTree) (profiles : List String) (root : String) :
    (∀ x ∈ insert root profiles.toFinset, ∀ y ∈ buildChildren tree profiles x,
      y ∈ insert root profiles.toFinset) ∧
    (∀ x ∈ (buildChildren tree profiles root).reverse, x ∈ insert root profiles.toFinset) ∧
    (buildChildren tree profiles root).reverse.length +
        pushesLeft (buildChildren tree profiles) (insert root profiles.toFinset) [root] <
      (buildChildren tree profiles root).length +
        ∑ x ∈ profiles.toFinset, (buildChildren tree profiles x).length + 1 := by
  have hnodes : ∀ x ∈ insert root profiles.toFinset, ∀ y ∈ buildChildren tree profiles x,
      y ∈ insert root profiles.toFinset := by
    intro x _ y hy
    exact Finset.mem_insert_of_mem (List.mem_toFinset.mpr (mem_buildChildren_iff.mp hy).1)
  refine ⟨hnodes, fun x hx => ?_, ?_⟩
  · exact hnodes root (Finset.mem_insert_self ..) x (List.mem_reverse.mp hx)
  · have hsub : insert root profiles.toFinset \ [root].toFinset ⊆ profiles.toFinset := by
      intro x hx
      simp only [Finset.mem_sdiff, Finset.mem_insert, List.toFinset_cons, List.toFinset_nil,
        insert_empty_eq, Finset.mem_singleton] at hx
      exact hx.1.resolve_left hx.2
    have hle : ∑ x ∈ insert root profiles.toFinset \ [root].toFinset,
        (buildChildren tree profiles x).length ≤
        ∑ x ∈ profiles.toFinset, (buildChildren tree profiles x).length :=
      Finset.sum_le_sum_of_subset hsub
    rw [List.length_reverse]
    unfold pushesLeft
    omega

theorem mem_cascadeSet_iff {tree : ProfilesTree} {profiles : List String} {root name : String} :
    name ∈ cascadeSet tree profiles root ↔ Reaches (buildChildren tree profiles) root name := by
  obtain ⟨hnodes, -, hfuel⟩ := cascadeSet_fuel tree profiles root
  rw [List.length_reverse] at hfuel
  exact mem_collect_iff hnodes (Finset.mem_insert_self ..) hfuel name

/-- The parents of a profile that are in the cascade. -/
def cascadeParents (tree : ProfilesTree) (profiles : List String) (root node : String) :
    List String :=
  (readProfileParents tree node).filter (· ∈ cascadeSet tree profiles root)

theorem mem_cascadeParents_iff {tree : ProfilesTree} {profiles : List String}
    {root node parent : String} : parent ∈ cascadeParents tree profiles root node ↔
      parent ∈ tree.readParents node ∧ parent ∈ cascadeSet tree profiles root := by
  rw [cascadeParents, readProfileParents_eq, List.mem_filter, decide_eq_true_eq]

/-! ### Any tree -/

/-- `child` is a profile, and `parent` one of its parents. -/
def ParentEdge (dirs : List ProfileDir) (child parent : String) : Prop :=
  child ∈ dirs.map ProfileDir.name ∧ parent ∈ readProfileParents (.ofDirs dirs) child

/-- `name` reaches `root` through parents. -/
def InheritsFrom (dirs : List ProfileDir) : String → String → Prop :=
  Relation.ReflTransGen (ParentEdge dirs)

theorem reaches_iff_inheritsFrom {root name : String} :
    Reaches (buildChildren (.ofDirs dirs) (dirs.map ProfileDir.name)) root name ↔
      InheritsFrom dirs name root := by
  have hedge : ∀ parent child,
      child ∈ buildChildren (.ofDirs dirs) (dirs.map ProfileDir.name) parent ↔
        ParentEdge dirs child parent := by
    intro parent child
    rw [mem_buildChildren_iff, ParentEdge, readProfileParents_eq]
  constructor
  · intro hreach
    induction hreach with
    | refl => exact .refl
    | tail _ hchild ih => exact .head ((hedge _ _).mp hchild) ih
  · intro hreach
    induction hreach using Relation.ReflTransGen.head_induction_on with
    | refl => exact .refl
    | head hparent _ ih => exact ih.tail ((hedge _ _).mpr hparent)

theorem mem_cascadeSet_iff_inheritsFrom {root name : String} :
    name ∈ cascadeSet (.ofDirs dirs) (dirs.map ProfileDir.name) root ↔
      InheritsFrom dirs name root :=
  mem_cascadeSet_iff.trans reaches_iff_inheritsFrom

/-- The layers that the cascade consists of. -/
theorem computeBuildCascade_eq_layers (root : String) :
    computeBuildCascade (some dirs) root = layers (List.insertionSort (· ≤ ·))
      (cascadeSet (.ofDirs dirs) (dirs.map ProfileDir.name) root).length
      (leftover (cascadeParents (.ofDirs dirs) (dirs.map ProfileDir.name) root) []
        (cascadeSet (.ofDirs dirs) (dirs.map ProfileDir.name) root)) [] := by
  simp [computeBuildCascade, leftover, cascadeParents]

/-- `compute_build_cascade` with its two loops as they run, without a bound. -/
def CascadeEnds (dirs : List ProfileDir) (root : String) (result : List String) : Prop :=
  let children := buildChildren (.ofDirs dirs) (dirs.map ProfileDir.name)
  ∃ inSet, CollectLoop children (children root).reverse [root] inSet ∧
    LayerLoop (List.insertionSort (· ≤ ·))
      (inSet.map fun node => (node, (readProfileParents (.ofDirs dirs) node).filter (· ∈ inSet)))
      [] result

/-- **The loops end** on every tree, with the cascade. -/
theorem cascadeEnds (root : String) :
    CascadeEnds dirs root (computeBuildCascade (some dirs) root) := by
  refine ⟨cascadeSet (.ofDirs dirs) (dirs.map ProfileDir.name) root, ?_, ?_⟩
  · have hspec := cascadeSet_fuel (.ofDirs dirs) (dirs.map ProfileDir.name) root
    exact collectLoop_collect hspec.1 hspec.2.1 hspec.2.2
  · have hloop : LayerLoop (List.insertionSort (· ≤ ·))
        (leftover (cascadeParents (.ofDirs dirs) (dirs.map ProfileDir.name) root) []
          (cascadeSet (.ofDirs dirs) (dirs.map ProfileDir.name) root)) [] _ :=
      layerLoop_layers (fun l => List.perm_insertionSort (· ≤ ·) l) (Nat.le_refl _)
    rw [computeBuildCascade_eq_layers]
    simpa [leftover, cascadeParents] using hloop

/-- A repository without profiles is as good as an empty directory of them. -/
theorem computeBuildCascade_none (root : String) :
    computeBuildCascade none root = computeBuildCascade (some []) root := by
  have hset : cascadeSet (.ofDirs []) [] root = [root] := by
    simp [cascadeSet, buildChildren, collect]
  have hparents : readProfileParents (.ofDirs []) root = [] := by
    simp [readProfileParents, ProfilesTree.ofDirs]
  simp [computeBuildCascade, hset, hparents, layers]

theorem perm_computeBuildCascade (root : String) :
    (computeBuildCascade (some dirs) root).Perm
      (cascadeSet (.ofDirs dirs) (dirs.map ProfileDir.name) root) := by
  rw [computeBuildCascade_eq_layers]
  exact layers_perm (fun l => List.perm_insertionSort (· ≤ ·) l) (Nat.le_refl _)

theorem nodup_computeBuildCascade (root : String) :
    (computeBuildCascade (some dirs) root).Nodup :=
  (perm_computeBuildCascade root).nodup_iff.mpr (nodup_collect (List.nodup_singleton root))

theorem mem_computeBuildCascade_iff {root name : String} :
    name ∈ computeBuildCascade (some dirs) root ↔ InheritsFrom dirs name root :=
  (perm_computeBuildCascade root).mem_iff.trans mem_cascadeSet_iff_inheritsFrom

/-- Everything else in the cascade has a parent in it. -/
theorem cascadeParents_ne_nil {root name : String}
    (hname : name ∈ cascadeSet (.ofDirs dirs) (dirs.map ProfileDir.name) root)
    (hne : name ≠ root) :
    cascadeParents (.ofDirs dirs) (dirs.map ProfileDir.name) root name ≠ [] := by
  have hreach := mem_cascadeSet_iff_inheritsFrom.mp hname
  rcases Relation.ReflTransGen.cases_head hreach with rfl | ⟨parent, hparent, hrest⟩
  · exact absurd rfl hne
  · have hlisted : parent ∈ (ProfilesTree.ofDirs dirs).readParents name :=
      readProfileParents_eq (.ofDirs dirs) name ▸ hparent.2
    exact List.ne_nil_of_mem (mem_cascadeParents_iff.mpr
      ⟨hlisted, mem_cascadeSet_iff_inheritsFrom.mpr hrest⟩)

/-- **When the profile comes first**: when none of its parents inherits from it, or else when no
profile that inherits from it has a lesser name. -/
theorem head?_computeBuildCascade_iff {root : String} :
    (computeBuildCascade (some dirs) root).head? = some root ↔
      (∀ parent ∈ readProfileParents (.ofDirs dirs) root, ¬ InheritsFrom dirs parent root) ∨
        ∀ name, InheritsFrom dirs name root → root ≤ name := by
  have hroot : root ∈ cascadeSet (.ofDirs dirs) (dirs.map ProfileDir.name) root :=
    mem_cascadeSet_iff_inheritsFrom.mpr .refl
  rw [computeBuildCascade_eq_layers, head?_layers_iff hroot
    (nodup_collect (List.nodup_singleton root)) (fun _ => cascadeParents_ne_nil) (Nat.le_refl _)]
  refine or_congr ?_ (forall_congr' fun name => by rw [mem_cascadeSet_iff_inheritsFrom])
  rw [cascadeParents, List.filter_eq_nil_iff]
  refine forall₂_congr fun parent _ => ?_
  rw [decide_eq_true_eq, mem_cascadeSet_iff_inheritsFrom]

/-! ### Trees that resolve -/

/-- Where every profile resolves, the descendants of a profile are the profiles whose chain it is
in. -/
theorem reaches_buildChildren_iff (hresolve : Resolvable (.ofDirs dirs) (dirs.map ProfileDir.name))
    {root name : String} (hroot : root ∈ dirs.map ProfileDir.name) :
    Reaches (buildChildren (.ofDirs dirs) (dirs.map ProfileDir.name)) root name ↔
      name ∈ dirs.map ProfileDir.name ∧ (ProfilesTree.ofDirs dirs).Inherits name root := by
  constructor
  · intro hreach
    induction hreach with
    | refl => exact ⟨hroot, .refl⟩
    | tail _ hchild ih =>
      obtain ⟨hname, hparent⟩ := mem_buildChildren_iff.mp hchild
      exact ⟨hname, .head hparent ih.2⟩
  · rintro ⟨hname, hinherits⟩
    induction hinherits using Relation.ReflTransGen.head_induction_on with
    | refl => exact .refl
    | head hparent _ ih =>
      obtain ⟨chain, hchain⟩ := hresolve _ hname
      have hspec := isChain_of_resolveChain hchain
      have hmem := (hspec.mem_iff _).mpr (.single hparent)
      have hdir := isDir_ofDirs_iff.mp (hspec.present _ hmem)
      exact (ih hdir).tail (mem_buildChildren_iff.mpr ⟨hname, hparent⟩)

/-- The length of the chain of a profile. -/
def chainLength (tree : ProfilesTree) (name : String) : Nat :=
  match tree.resolveChain name with
  | .ok chain => chain.length
  | .error _ => 0

/-- A parent has the shorter chain. -/
theorem chainLength_lt {tree : ProfilesTree} {name parent : String} {chain chain' : List String}
    (hchain : tree.resolveChain name = .ok chain) (hparent : parent ∈ tree.readParents name)
    (hchain' : tree.resolveChain parent = .ok chain') :
    chainLength tree parent < chainLength tree name := by
  have hspec := isChain_of_resolveChain hchain
  have hspec' := isChain_of_resolveChain hchain'
  have hself : name ∉ chain' := by
    intro hmem
    have hcycle := Relation.TransGen.head' hparent ((hspec'.mem_iff name).mp hmem)
    exact hspec.order.not_onCycle hspec.nodup ((hspec.mem_iff name).mpr .refl) hcycle
  have hsub : name :: chain' ⊆ chain := by
    intro x hx
    rcases List.mem_cons.mp hx with rfl | hx
    · exact (hspec.mem_iff x).mpr .refl
    · exact (hspec.mem_iff x).mpr (.head hparent ((hspec'.mem_iff x).mp hx))
  have hlength := (List.subperm_of_subset (hspec'.nodup.cons hself) hsub).length_le
  simp only [chainLength, hchain, hchain']
  exact hlength

/-- The order of the cascade. -/
theorem computeBuildCascade_order
    (hresolve : Resolvable (.ofDirs dirs) (dirs.map ProfileDir.name)) {root : String}
    (hroot : root ∈ dirs.map ProfileDir.name) :
    ParentsFirst (cascadeParents (.ofDirs dirs) (dirs.map ProfileDir.name) root)
      (computeBuildCascade (some dirs) root) ∧
    (computeBuildCascade (some dirs) root).Perm
      (cascadeSet (.ofDirs dirs) (dirs.map ProfileDir.name) root) := by
  have hshorter : ∀ name ∈ cascadeSet (.ofDirs dirs) (dirs.map ProfileDir.name) root,
      ∀ parent ∈ cascadeParents (.ofDirs dirs) (dirs.map ProfileDir.name) root name,
        parent ∈ ([] : List String) ∨
        (parent ∈ cascadeSet (.ofDirs dirs) (dirs.map ProfileDir.name) root ∧
          chainLength (.ofDirs dirs) parent < chainLength (.ofDirs dirs) name) := by
    intro name hname parent hparent
    obtain ⟨hparent, hmem⟩ := mem_cascadeParents_iff.mp hparent
    have hprofile := (reaches_buildChildren_iff hresolve hroot).mp (mem_cascadeSet_iff.mp hname)
    have hprofile' := (reaches_buildChildren_iff hresolve hroot).mp (mem_cascadeSet_iff.mp hmem)
    obtain ⟨chain, hchain⟩ := hresolve name hprofile.1
    obtain ⟨chain', hchain'⟩ := hresolve parent hprofile'.1
    exact .inr ⟨hmem, chainLength_lt hchain hparent hchain'⟩
  rw [computeBuildCascade_eq_layers]
  exact layers_spec (fun l => List.perm_insertionSort (· ≤ ·) l) .nil hshorter (Nat.le_refl _)

/-- **The cascade agrees with the resolver.** Where every profile resolves, the cascade of a
profile consists of the profiles whose chain it is in, each once, the profile first, and each
after those of its parents that are in it. -/
theorem buildCascade_correct (hresolve : Resolvable (.ofDirs dirs) (dirs.map ProfileDir.name))
    {root : String} (hroot : root ∈ dirs.map ProfileDir.name) :
    (∀ name, name ∈ computeBuildCascade (some dirs) root ↔ name ∈ dirs.map ProfileDir.name ∧
      ∃ chain, (ProfilesTree.ofDirs dirs).resolveChain name = .ok chain ∧ root ∈ chain) ∧
    (computeBuildCascade (some dirs) root).Nodup ∧
    (computeBuildCascade (some dirs) root).head? = some root ∧
    ∀ before name after, computeBuildCascade (some dirs) root = before ++ name :: after →
      ∀ parent ∈ (ProfilesTree.ofDirs dirs).readParents name,
        parent ∈ computeBuildCascade (some dirs) root → parent ∈ before := by
  obtain ⟨horder, hperm⟩ := computeBuildCascade_order hresolve hroot
  have hmem : ∀ name, name ∈ computeBuildCascade (some dirs) root ↔
      name ∈ dirs.map ProfileDir.name ∧ (ProfilesTree.ofDirs dirs).Inherits name root :=
    fun name => hperm.mem_iff.trans
      (mem_cascadeSet_iff.trans (reaches_buildChildren_iff hresolve hroot))
  have hparents : ∀ {before name after}, computeBuildCascade (some dirs) root =
      before ++ name :: after → ∀ parent ∈ (ProfilesTree.ofDirs dirs).readParents name,
        parent ∈ computeBuildCascade (some dirs) root → parent ∈ before := by
    intro before name after hsplit parent hparent hin
    rw [hsplit] at horder
    exact horder.mem_before (mem_cascadeParents_iff.mpr ⟨hparent, hperm.mem_iff.mp hin⟩)
  refine ⟨fun name => ?_, ?_, ?_, fun before name after hsplit => hparents hsplit⟩
  · rw [hmem]
    refine and_congr_right fun hname => ?_
    obtain ⟨chain, hchain⟩ := hresolve name hname
    have hroot_iff := (isChain_of_resolveChain hchain).mem_iff root
    constructor
    · exact fun hinherits => ⟨chain, hchain, hroot_iff.mpr hinherits⟩
    · rintro ⟨chain', hchain', hin⟩
      obtain rfl := Except.ok.inj (hchain.symm.trans hchain')
      exact hroot_iff.mp hin
  · exact nodup_computeBuildCascade root
  · have hrootin := (hmem root).mpr ⟨hroot, .refl⟩
    cases hcascade : computeBuildCascade (some dirs) root with
    | nil =>
      rw [hcascade] at hrootin
      cases hrootin
    | cons first rest =>
      have hfirst : first ∈ computeBuildCascade (some dirs) root := by
        rw [hcascade]
        exact List.mem_cons_self ..
      obtain ⟨hname, hinherits⟩ := (hmem first).mp hfirst
      rcases Relation.ReflTransGen.cases_head hinherits with rfl | ⟨parent, hparent, hrest⟩
      · rfl
      · obtain ⟨chain, hchain⟩ := hresolve first hname
        have hspec := isChain_of_resolveChain hchain
        have hdir := isDir_ofDirs_iff.mp (hspec.present _ ((hspec.mem_iff parent).mpr
          (.single hparent)))
        have hbefore : parent ∈ ([] : List String) :=
          hparents hcascade parent hparent ((hmem parent).mpr ⟨hdir, hrest⟩)
        cases hbefore

end Cascade

section Examples

/-- `base`, a fragment, and two profiles that list the fragment. -/
def fragmentDirs : List ProfileDir :=
  [⟨"lab", [("parent", "# graphics\n\ngpu\n")]⟩, ⟨"base", []⟩, ⟨"gpu", []⟩,
    ⟨"kiosk", [("parent", "  gpu\ngpu\nlab\n")]⟩]

theorem resolvable_fragmentDirs :
    Resolvable (.ofDirs fragmentDirs) (fragmentDirs.map ProfileDir.name) := by
  have hall : ∀ name ∈ fragmentDirs.map ProfileDir.name,
      ((ProfilesTree.ofDirs fragmentDirs).resolveChain name).toOption.isSome := by
    decide +kernel
  intro name hname
  obtain ⟨chain, hchain⟩ := Option.isSome_iff_exists.mp (hall name hname)
  exact ⟨chain, eq_ok_of_toOption hchain⟩

theorem buildCascade_correct_gpu : (computeBuildCascade (some fragmentDirs) "gpu").Nodup ∧
    (computeBuildCascade (some fragmentDirs) "gpu").head? = some "gpu" := by
  obtain ⟨-, hnodup, hhead, -⟩ := buildCascade_correct resolvable_fragmentDirs
    (show "gpu" ∈ fragmentDirs.map ProfileDir.name by decide)
  exact ⟨hnodup, hhead⟩

example : computeBuildCascade (some fragmentDirs) "gpu" = ["gpu", "lab", "kiosk"] := by
  decide +kernel

end Examples

end Fleetboot
