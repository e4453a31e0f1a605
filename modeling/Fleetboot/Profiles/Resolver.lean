import Fleetboot.Library.Traversal
import Fleetboot.Server.Deployment
import Fleetboot.Registry.Rules

/-!
# The profile resolver

`resolve-profile.py` up to the chain of a profile. The script sees the directory of profiles
through two questions, for any text at all: is `PROFILES_DIR / name` a directory, and what is in
the file `parent` in it. Whatever the answers are, there are only so many parent files.

* `resolveChain_correct`: when there is a chain, and what is in it.
* `resolveChain_extension`: the chain of a profile inside the chain of another.
* `resolveChain_prefix`: the chain of the first parent at the front of that of the child.
-/

set_option autoImplicit false

namespace Fleetboot

open Python Digraph

/-- The directory of profiles, as the resolver reads it. -/
structure ProfilesTree where
  isDir : String → Bool
  parentText : String → Option String
  /-- The texts of all parent files. -/
  texts : List String
  mem_texts : ∀ name text, parentText name = some text → text ∈ texts

/-- `BASE_PROFILE`. -/
def baseProfile : String := "base"

/-- The parents that the text of a `parent` file declares. -/
def declaredParents (text : String) : List String :=
  (splitLines text).filterMap fun line =>
    let stripped := strip line
    if stripped = "" ∨ startsWith stripped "#" then none else some stripped

theorem mem_declaredParents_iff {text parent : String} :
    parent ∈ declaredParents text ↔ ∃ line ∈ splitLines text,
      strip line = parent ∧ parent ≠ "" ∧ startsWith parent "#" = false := by
  unfold declaredParents
  rw [List.mem_filterMap]
  apply exists_congr
  intro line
  apply and_congr_right
  intro _
  constructor
  · intro h
    dsimp only at h
    split at h
    · cases h
    · rename_i hparent
      obtain rfl := Option.some.inj h
      obtain ⟨hne, hcomment⟩ := not_or.mp hparent
      exact ⟨rfl, hne, Bool.eq_false_iff.mpr hcomment⟩
  · rintro ⟨rfl, hne, hcomment⟩
    exact if_neg (not_or.mpr ⟨hne, Bool.eq_false_iff.mp hcomment⟩)

namespace ProfilesTree

variable (tree : ProfilesTree)

/-- The parents that a profile declares: none without a `parent` file. -/
def fileParents (name : String) : List String :=
  match tree.parentText name with
  | some text => declaredParents text
  | none => []

/-- `_read_parents`. -/
def readParents (name : String) : List String :=
  let parents := tree.fileParents name
  if name ≠ baseProfile ∧ baseProfile ∉ parents ∧ tree.isDir baseProfile then
    baseProfile :: parents
  else parents

/-- Every name that a search from `name` can come to. -/
def names (name : String) : Finset String :=
  (name :: baseProfile :: tree.texts.flatMap declaredParents).toFinset

/-- `resolve_chain`. -/
def resolveChain (name : String) : Except (Fault String) (List String) :=
  postorder tree.readParents tree.isDir ((tree.names name).card + 1) name

/-- `ancestor` is `name` or what it inherits from, declared or implicit, over any number of
levels. -/
def Inherits (name ancestor : String) : Prop := Reaches tree.readParents name ancestor

/-- The resolver of `p` has resolved `name` before it comes to `q`: at `p` or on the way down to
`q`, a parent inherits from `name` that is listed before the first parent that leads to `q`. -/
def ResolvedBefore (p q name : String) : Prop := VisitedBefore tree.readParents q p name

/-- The tree of some profile directories. -/
def ofDirs (profiles : List ProfileDir) : ProfilesTree where
  isDir name := profiles.any fun profile => profile.name == name
  parentText name := (profiles.find? fun profile => profile.name == name).bind fun profile =>
    (profile.files.find? fun file => file.1 == "parent").map Prod.snd
  texts := profiles.flatMap fun profile => profile.files.map Prod.snd
  mem_texts := by
    intro name text h
    obtain ⟨profile, hprofile, htext⟩ := Option.bind_eq_some_iff.mp h
    obtain ⟨file, hfile, rfl⟩ := Option.map_eq_some_iff.mp htext
    exact List.mem_flatMap.mpr ⟨profile, List.mem_of_find?_eq_some hprofile,
      List.mem_map_of_mem (List.mem_of_find?_eq_some hfile)⟩

end ProfilesTree

/-- The text of a `ResolutionError`, with the directories as the script prints them. -/
def resolutionError (directory : String → String) (target : String) : Fault String → Option String
  | .cycle name => some ("cycle detected while resolving '" ++ target ++ "': '" ++ name ++
      "' visited recursively")
  | .missing name => some ("profile not found: '" ++ name ++ "' (expected at " ++
      directory name ++ ")")
  | .exhausted => none

section Resolver

variable (tree : ProfilesTree)

theorem mem_readParents {name parent : String} (h : parent ∈ tree.readParents name) :
    parent = baseProfile ∨ ∃ text ∈ tree.texts, parent ∈ declaredParents text := by
  have hdeclared : ∀ parent ∈ tree.fileParents name,
      ∃ text ∈ tree.texts, parent ∈ declaredParents text := by
    intro parent h
    unfold ProfilesTree.fileParents at h
    split at h
    · rename_i text htext
      exact ⟨text, tree.mem_texts name text htext, h⟩
    · cases h
  unfold ProfilesTree.readParents at h
  dsimp only at h
  split at h
  · rcases List.mem_cons.mp h with rfl | h
    · exact .inl rfl
    · exact .inr (hdeclared parent h)
  · exact .inr (hdeclared parent h)

theorem names_closed (target : String) : ∀ name ∈ tree.names target,
    ∀ parent ∈ tree.readParents name, parent ∈ tree.names target := by
  intro name _ parent hparent
  unfold ProfilesTree.names
  rw [List.mem_toFinset]
  rcases mem_readParents tree hparent with rfl | ⟨text, htext, hparent⟩
  · simp
  · refine List.mem_cons_of_mem _ (List.mem_cons_of_mem _ ?_)
    exact List.mem_flatMap.mpr ⟨text, htext, hparent⟩

theorem self_mem_names (target : String) : target ∈ tree.names target := by
  simp [ProfilesTree.names]

/-- Every profile but `base` has `base` among its parents, when it exists. -/
theorem base_mem_readParents {name : String} (hbase : tree.isDir baseProfile = true)
    (hname : name ≠ baseProfile) : baseProfile ∈ tree.readParents name := by
  unfold ProfilesTree.readParents
  dsimp only
  split
  · exact List.mem_cons_self ..
  · rename_i h
    by_contra hmem
    exact h ⟨hname, hmem, hbase⟩

/-- The recursion of the resolver ends. -/
theorem resolveChain_ne_exhausted (target : String) :
    tree.resolveChain target ≠ .error .exhausted := by
  unfold ProfilesTree.resolveChain postorder
  intro h
  have hvisit : visit tree.readParents tree.isDir ((tree.names target).card + 1) target
      Search.start ≠ .error .exhausted :=
    visit_ne_exhausted (names_closed tree target) (self_mem_names tree target)
      (Nat.lt_succ_of_le (Finset.card_le_card Finset.sdiff_subset))
  cases hresult : visit tree.readParents tree.isDir ((tree.names target).card + 1) target
      Search.start with
  | ok st =>
    rw [hresult] at h
    cases h
  | error fault =>
    rw [hresult] at h
    obtain rfl : fault = .exhausted := Except.error.inj h
    exact hvisit hresult

theorem resolveChain_ok_iff (target : String) :
    (∃ chain, tree.resolveChain target = .ok chain) ↔
      ¬ Faulty tree.readParents tree.isDir target :=
  postorder_ok_iff (names_closed tree target) (Nat.lt_succ_self _) (self_mem_names tree target)

variable {tree}

theorem isChain_of_resolveChain {target : String} {chain : List String}
    (h : tree.resolveChain target = .ok chain) :
    IsChain tree.readParents tree.isDir target chain := isChain_of_postorder h

/-- `base` comes first, when it exists. -/
theorem base_first {target : String} {chain : List String}
    (h : tree.resolveChain target = .ok chain) (hbase : tree.isDir baseProfile = true) :
    chain.head? = some baseProfile := by
  have hchain := isChain_of_resolveChain h
  cases chain with
  | nil => exact absurd ((hchain.mem_iff target).mpr .refl) List.not_mem_nil
  | cons first rest =>
    rw [List.head?_cons]
    by_contra hne
    have hmem := base_mem_readParents tree hbase fun heq => hne (congrArg some heq)
    have hbefore : baseProfile ∈ ([] : List String) := ParentsFirst.mem_before hchain.order hmem
    cases hbefore

/-- **The resolver.** It raises `ResolutionError` exactly if a cycle or a missing profile is in
reach of the target; otherwise it returns the target and all it inherits from, each once, every
parent before its children, the target last, and `base` first whenever `base` exists. -/
theorem resolveChain_correct (tree : ProfilesTree) (target : String) :
    ((∃ fault, tree.resolveChain target = .error fault ∧
        ∀ directory, (resolutionError directory target fault).isSome) ↔
      ∃ name, tree.Inherits target name ∧
        (OnCycle tree.readParents name ∨ tree.isDir name = false)) ∧
    ((¬ ∃ name, tree.Inherits target name ∧
        (OnCycle tree.readParents name ∨ tree.isDir name = false)) →
      ∃ chain, tree.resolveChain target = .ok chain ∧
        (∀ name, name ∈ chain ↔ tree.Inherits target name) ∧ chain.Nodup ∧
        (∀ before name after, chain = before ++ name :: after →
          ∀ parent ∈ tree.readParents name, parent ∈ before) ∧
        chain.getLast? = some target ∧
        (tree.isDir baseProfile = true → chain.head? = some baseProfile)) := by
  have hfaulty : (∃ name, tree.Inherits target name ∧
      (OnCycle tree.readParents name ∨ tree.isDir name = false)) ↔
      Faulty tree.readParents tree.isDir target :=
    exists_congr fun name => and_congr_right fun _ => or_comm
  have hok := resolveChain_ok_iff tree target
  rw [hfaulty]
  refine ⟨⟨?_, fun h => ?_⟩, fun h => ?_⟩
  · rintro ⟨fault, herror, -⟩
    by_contra hsound
    obtain ⟨chain, hchain⟩ := hok.mpr hsound
    rw [hchain] at herror
    cases herror
  · cases hresult : tree.resolveChain target with
    | ok chain => exact absurd h (hok.mp ⟨chain, hresult⟩)
    | error fault =>
      refine ⟨fault, rfl, fun directory => ?_⟩
      cases fault with
      | cycle name => rfl
      | missing name => rfl
      | exhausted => exact absurd hresult (resolveChain_ne_exhausted tree target)
  · obtain ⟨chain, hchain⟩ := hok.mpr h
    have hspec := isChain_of_resolveChain hchain
    obtain ⟨ancestors, hlast⟩ := postorder_concat hchain
    refine ⟨chain, hchain, hspec.mem_iff, hspec.nodup, ?_, by rw [hlast]; simp,
      base_first hchain⟩
    rintro before name after rfl parent hparent
    exact hspec.order.mem_before hparent

/-- **A chain inside another.** Let `q` stand in the chain of `p`. Then `q` has a chain, all of it
in that of `p`; a profile stands behind what it inherits from in both; and what was not resolved
before the resolver came to `q` stands in the chain of `p` in the order it has in that of `q`, behind
all that was. -/
theorem resolveChain_extension {p q : String} {chain : List String}
    (hp : tree.resolveChain p = .ok chain) (hq : q ∈ chain) :
    ∃ chain', tree.resolveChain q = .ok chain' ∧ (∀ name ∈ chain', name ∈ chain) ∧
      (∀ name ∈ chain', ∀ ancestor, tree.Inherits name ancestor → ancestor ≠ name →
        [ancestor, name].Sublist chain' ∧ [ancestor, name].Sublist chain) ∧
      (∃ before after, chain = before ++ chain'.filter (· ∉ before) ++ after ∧ q ∉ before ∧
        ∀ name, name ∈ before ↔ tree.ResolvedBefore p q name) ∧
      ∀ earlier later, [earlier, later].Sublist chain' → ¬ tree.ResolvedBefore p q later →
        [earlier, later].Sublist chain := by
  have hspec := isChain_of_resolveChain hp
  have hreach := (hspec.mem_iff q).mp hq
  have hsound : ¬ Faulty tree.readParents tree.isDir q := by
    rintro ⟨name, hname, hfault⟩
    exact hspec.not_faulty ⟨name, hreach.trans hname, hfault⟩
  obtain ⟨chain', hchain'⟩ := (resolveChain_ok_iff tree q).mpr hsound
  have hspec' := isChain_of_resolveChain hchain'
  have hmem : ∀ name ∈ chain', name ∈ chain := fun name hname =>
    (hspec.mem_iff name).mpr (hreach.trans ((hspec'.mem_iff name).mp hname))
  obtain ⟨before, after, hbefore, hfresh, hsplit⟩ := postorder_split hp hq hchain'
  refine ⟨chain', hchain', hmem, fun name hname ancestor hinherits hne => ?_,
    ⟨before, after, hsplit, hfresh, hbefore⟩, fun earlier later horder hlater => ?_⟩
  · have htrans := (Relation.reflTransGen_iff_eq_or_transGen.mp hinherits).resolve_left hne
    exact ⟨hspec'.order.sublist hname htrans, hspec.order.sublist (hmem name hname) htrans⟩
  · have hlater' : later ∉ before := fun h => hlater ((hbefore later).mp h)
    have hin : [earlier, later].filter (· ∉ before) |>.Sublist (chain'.filter (· ∉ before)) :=
      horder.filter _
    rw [hsplit]
    refine List.Sublist.trans ?_ (List.sublist_append_left _ after)
    by_cases hearlier : earlier ∈ before
    · -- the first was there already
      rw [List.filter_cons_of_neg (by simpa using hearlier),
        List.filter_cons_of_pos (by simpa using hlater')] at hin
      exact (List.singleton_sublist.mpr hearlier).append hin
    · rw [List.filter_cons_of_pos (by simpa using hearlier),
        List.filter_cons_of_pos (by simpa using hlater')] at hin
      exact hin.trans (List.sublist_append_right before _)

/-- `base` inherits from nothing else. -/
theorem eq_base_of_inherits {target name : String} {chain : List String}
    (h : tree.resolveChain target = .ok chain) (hbase : tree.isDir baseProfile = true)
    (hmem : baseProfile ∈ chain) (hname : tree.Inherits baseProfile name) : name = baseProfile := by
  have hchain := isChain_of_resolveChain h
  by_contra hne
  have hcycle : OnCycle tree.readParents baseProfile := by
    have hback := base_mem_readParents tree hbase hne
    exact Relation.TransGen.tail' hname hback
  exact hchain.not_faulty ⟨baseProfile, (hchain.mem_iff _).mp hmem, .inr hcycle⟩

/-- **The first parent.** The chain of a profile goes on where the chain of the first parent that
it declares ends. -/
theorem resolveChain_prefix {child parent : String} {chain chain' : List String}
    (h : tree.resolveChain child = .ok chain) (h' : tree.resolveChain parent = .ok chain')
    (hfirst : (tree.fileParents child).head? = some parent) : chain' <+: chain := by
  obtain ⟨rest, hfile⟩ := List.head?_eq_some_iff.mp hfirst
  by_cases hprepend : child ≠ baseProfile ∧ baseProfile ∉ tree.fileParents child ∧
      tree.isDir baseProfile = true
  · have hparents : tree.readParents child = [baseProfile] ++ parent :: rest := by
      unfold ProfilesTree.readParents
      dsimp only
      rw [if_pos hprepend, hfile]
      rfl
    obtain ⟨before, after, hnodup, hbefore, rfl⟩ := postorder_parent hparents h h'
    have honly : ∀ name ∈ before, name = baseProfile := by
      intro name hname
      obtain ⟨_, hmem, hinherits⟩ := hbefore name hname
      rw [List.mem_singleton.mp hmem] at hinherits
      have hbase := List.mem_of_mem_head? (base_first h hprepend.2.2)
      exact eq_base_of_inherits h hprepend.2.2 hbase hinherits
    obtain ⟨tail, rfl⟩ := List.head?_eq_some_iff.mp (base_first h' hprepend.2.2)
    have htail : baseProfile ∉ tail := (List.nodup_cons.mp (isChain_of_resolveChain h').nodup).1
    -- `base` was visited already, and is all that was
    cases before with
    | nil => simp
    | cons name before =>
      obtain rfl := honly name (List.mem_cons_self ..)
      obtain rfl : before = [] := by
        apply List.eq_nil_iff_forall_not_mem.mpr
        intro other hother
        rw [honly other (List.mem_cons_of_mem _ hother)] at hother
        exact (List.nodup_cons.mp hnodup).1 hother
      have hrest : tail.filter (· ∉ [baseProfile]) = tail := by
        apply List.filter_eq_self.mpr
        intro other hother
        simp only [List.mem_singleton, decide_not, Bool.not_eq_eq_eq_not, Bool.not_true,
          decide_eq_false_iff_not]
        rintro rfl
        exact htail hother
      rw [List.filter_cons_of_neg (by simp), hrest]
      exact List.prefix_append _ after
  · have hparents : tree.readParents child = [] ++ parent :: rest := by
      unfold ProfilesTree.readParents
      dsimp only
      rw [if_neg hprepend, hfile]
      rfl
    obtain ⟨before, after, -, hbefore, rfl⟩ := postorder_parent hparents h h'
    obtain rfl : before = [] := by
      apply List.eq_nil_iff_forall_not_mem.mpr
      intro name hname
      obtain ⟨_, hmem, -⟩ := hbefore name hname
      cases hmem
    simp

end Resolver

section Examples

/-- Two profiles that list the same parents in different orders, and a child of both. -/
def crossedProfiles : ProfilesTree := .ofDirs
  [⟨"gpu", []⟩, ⟨"wifi", []⟩, ⟨"lab", [("parent", "gpu\nwifi\n")]⟩,
    ⟨"office", [("parent", "wifi\ngpu\n")]⟩, ⟨"shared", [("parent", "lab\noffice\n")]⟩]

theorem resolveChain_shared :
    crossedProfiles.resolveChain "shared" = .ok ["gpu", "wifi", "lab", "office", "shared"] :=
  eq_ok_of_toOption (by decide +kernel)

/-- The chain of `office` is no subsequence of that of `shared`: the two parents that it lists are
the other way round there. -/
theorem resolveChain_reordered : ∃ chain chain',
    crossedProfiles.resolveChain "shared" = .ok chain ∧ "office" ∈ chain ∧
      crossedProfiles.resolveChain "office" = .ok chain' ∧ ¬ chain'.Sublist chain := by
  have hoffice : crossedProfiles.resolveChain "office" = .ok ["wifi", "gpu", "office"] :=
    eq_ok_of_toOption (by decide +kernel)
  exact ⟨_, _, resolveChain_shared, by decide, hoffice, by decide⟩

/-- Before it comes to `office`, the resolver of `shared` has resolved what `lab` inherits from. -/
theorem resolveChain_extension_shared : ∃ chain',
    crossedProfiles.resolveChain "office" = .ok chain' ∧
      (∀ name ∈ chain', name ∈ ["gpu", "wifi", "lab", "office", "shared"]) ∧
      ∃ before after, ["gpu", "wifi", "lab", "office", "shared"] =
          before ++ chain'.filter (· ∉ before) ++ after ∧
        ∀ name, name ∈ before ↔ crossedProfiles.ResolvedBefore "shared" "office" name := by
  obtain ⟨chain', hchain', hmem, -, ⟨before, after, hsplit, -, hbefore⟩, -⟩ :=
    resolveChain_extension resolveChain_shared (q := "office") (by decide)
  exact ⟨chain', hchain', hmem, before, after, hsplit, hbefore⟩

end Examples

end Fleetboot
