import Mathlib.Data.List.DropRight
import Fleetboot.Library.Words

/-!
# Pure paths

`PurePosixPath` of Python's `pathlib`: a path as a root and its parts, which no file system is
asked about. `..` is a part like any other.

* `parse_append_part`: the part after the last slash.
* `isChild_join_iff`: which texts lead from a path to a file directly below it.
-/

set_option autoImplicit false

namespace Python

/-- What a path starts with. Two slashes are a root of their own, more are one. -/
inductive PathRoot
  | relative
  | slash
  | slashes
  deriving DecidableEq

/-- A part is not empty, not `.`, and has no slash. -/
structure IsPart (part : String) : Prop where
  not_empty : part ≠ ""
  not_dot : part ≠ "."
  no_slash : '/' ∉ part.toList

@[ext]
structure PurePath where
  root : PathRoot
  parts : List String
  proper : ∀ part ∈ parts, IsPart part

namespace PurePath

def rootOf (cs : List Char) : PathRoot :=
  match (cs.takeWhile (· == '/')).length with
  | 0 => .relative
  | 2 => .slashes
  | _ => .slash

def partsOf (cs : List Char) : List String :=
  ((cs.splitOn '/').map String.ofList).filter fun part => part != "" && part != "."

theorem isPart_of_mem_partsOf {cs : List Char} {part : String} (h : part ∈ partsOf cs) :
    IsPart part := by
  obtain ⟨hmem, hkept⟩ := List.mem_filter.mp h
  obtain ⟨piece, hpiece, rfl⟩ := List.mem_map.mp hmem
  rw [Bool.and_eq_true, bne_iff_ne, bne_iff_ne] at hkept
  refine ⟨hkept.1, hkept.2, ?_⟩
  rw [String.toList_ofList]
  intro hslash
  rw [List.splitOn_eq_splitOnP] at hpiece
  have := not_of_mem_splitOnP hpiece '/' hslash
  simp at this

/-- `PurePosixPath(text)`. -/
def parse (text : String) : PurePath :=
  ⟨rootOf text.toList, partsOf text.toList, fun _ => isPart_of_mem_partsOf⟩

/-- `path / other`: an absolute path stays what it is. -/
def join (path other : PurePath) : PurePath :=
  if other.root = .relative then
    ⟨path.root, path.parts ++ other.parts, fun part hpart =>
      (List.mem_append.mp hpart).elim (path.proper part) (other.proper part)⟩
  else other

theorem root_join (path other : PurePath) : (path.join other).root =
    if other.root = .relative then path.root else other.root := by
  unfold join
  split <;> rfl

theorem parts_join (path other : PurePath) : (path.join other).parts =
    if other.root = .relative then path.parts ++ other.parts else other.parts := by
  unfold join
  split <;> rfl

theorem rootOf_eq_relative_iff {cs : List Char} :
    rootOf cs = .relative ↔ cs.head? ≠ some '/' := by
  unfold rootOf
  cases cs with
  | nil => simp
  | cons c rest =>
    by_cases hc : c = '/'
    · subst hc
      rw [List.takeWhile_cons_of_pos (by decide), List.length_cons]
      constructor
      · intro h
        split at h <;> first | omega | cases h
      · exact fun h => absurd rfl h
    · rw [List.takeWhile_cons_of_neg (by simpa using hc)]
      simpa using hc

/-- The file of a name directly below the path. -/
def IsChild (path child : PurePath) : Prop :=
  ∃ name, name ≠ ".." ∧ child.root = path.root ∧ child.parts = path.parts ++ [name]

/-! ## The last part -/

/-- What stands up to the last slash of a text. -/
def directoryText (cs : List Char) : List Char := cs.rdropWhile (· != '/')

/-- What stands behind it. -/
def lastText (cs : List Char) : List Char := cs.rtakeWhile (· != '/')

variable {cs : List Char} {name : String}

theorem directoryText_append_lastText (cs : List Char) :
    directoryText cs ++ lastText cs = cs := List.rdropWhile_append_rtakeWhile ..

theorem not_mem_lastText (cs : List Char) : '/' ∉ lastText cs := by
  intro hmem
  have := List.mem_rtakeWhile_imp hmem
  simp at this

theorem directoryText_eq_nil_iff : directoryText cs = [] ↔ '/' ∉ cs := by
  unfold directoryText
  rw [List.rdropWhile_eq_nil_iff]
  constructor
  · intro h hmem
    simpa using h '/' hmem
  · intro h c hc
    rw [bne_iff_ne]
    rintro rfl
    exact h hc

/-- The text up to the last slash is nothing or ends there. -/
theorem directoryText_cases (cs : List Char) :
    directoryText cs = [] ∨ ∃ before, directoryText cs = before ++ ['/'] := by
  by_cases hnil : directoryText cs = []
  · exact .inl hnil
  · have hlast := List.rdropWhile_last_not (· != '/') cs hnil
    rw [bne_iff_ne, ne_eq, not_not] at hlast
    refine .inr ⟨(directoryText cs).dropLast, ?_⟩
    rw [← hlast]
    exact (List.dropLast_append_getLast hnil).symm

theorem partsOf_part (hname : IsPart name) : partsOf name.toList = [name] := by
  rw [partsOf, List.splitOn_eq_singleton hname.no_slash]
  simp [hname.not_empty, hname.not_dot]

/-- The part behind the last slash is the last one. -/
theorem partsOf_append_part (hname : IsPart name) :
    partsOf (directoryText cs ++ name.toList) = partsOf (directoryText cs) ++ [name] := by
  rcases directoryText_cases cs with hnil | ⟨before, hbefore⟩
  · rw [hnil, List.nil_append, partsOf_part hname]
    rfl
  · have hsplit : ∀ after, partsOf (before ++ '/' :: after) = partsOf before ++ partsOf after := by
      intro after
      unfold partsOf
      rw [List.splitOn_eq_splitOnP, List.splitOnP_append_cons _ _ (by decide), List.map_append,
        List.filter_append]
      rfl
    rw [hbefore, List.append_assoc, List.singleton_append, hsplit, hsplit, partsOf_part hname]
    exact (congrArg (· ++ [name]) (List.append_nil _)).symm

theorem rootOf_append_part (hname : IsPart name) :
    rootOf (directoryText cs ++ name.toList) = rootOf (directoryText cs) := by
  have hstop : name.toList.takeWhile (· == '/') = [] := by
    cases hcs : name.toList with
    | nil => rfl
    | cons c rest =>
      refine List.takeWhile_cons_of_neg fun hc => ?_
      obtain rfl := beq_iff_eq.mp hc
      exact hname.no_slash (hcs ▸ List.mem_cons_self)
  have htake : (directoryText cs ++ name.toList).takeWhile (· == '/') =
      (directoryText cs).takeWhile (· == '/') := by
    rw [List.takeWhile_append, hstop, List.append_nil]
    split
    · rename_i hlength
      exact ((List.takeWhile_prefix _).eq_of_length hlength).symm
    · rfl
  rw [rootOf, htake, rootOf]

/-- **The last part** of a text whose directory is spelled out before it. -/
theorem parse_append_part (hname : IsPart name) :
    (parse (String.ofList (directoryText cs) ++ name)).root =
        (parse (String.ofList (directoryText cs))).root ∧
      (parse (String.ofList (directoryText cs) ++ name)).parts =
        (parse (String.ofList (directoryText cs))).parts ++ [name] := by
  have htext : (String.ofList (directoryText cs) ++ name).toList =
      directoryText cs ++ name.toList := by
    rw [String.toList_append, String.toList_ofList]
  have hdirectory := String.toList_ofList (l := directoryText cs)
  constructor
  · change rootOf _ = rootOf _
    rw [htext, hdirectory, rootOf_append_part hname]
  · change partsOf _ = partsOf _ ++ _
    rw [htext, hdirectory, partsOf_append_part hname]

/-- A text without dots has a part unless it is all slashes. -/
theorem partsOf_ne_nil {c : Char} (hc : c ∈ cs) (hslash : c ≠ '/') (hdot : '.' ∉ cs) :
    partsOf cs ≠ [] := by
  intro hnil
  have hjoin : ['/'].intercalate (cs.splitOn '/') = cs := List.intercalate_splitOn '/'
  obtain hc | ⟨piece, hpiece, hmem⟩ := mem_join (hjoin.symm ▸ hc)
  · exact hslash hc
  · have hgone := List.filter_eq_nil_iff.mp hnil (String.ofList piece)
      (List.mem_map_of_mem hpiece)
    rw [Bool.and_eq_true, bne_iff_ne, bne_iff_ne, not_and_or, not_not, not_not] at hgone
    rcases hgone with hempty | hdotted
    · have hlist := congrArg String.toList hempty
      rw [String.toList_ofList] at hlist
      rw [hlist] at hmem
      cases hmem
    · have hlist := congrArg String.toList hdotted
      rw [String.toList_ofList] at hlist
      have hpart : '.' ∈ piece := hlist ▸ List.mem_singleton_self '.'
      exact hdot (hjoin ▸ mem_join_of_mem hpiece hpart)

section Join

variable {path : PurePath}

/-- Joining goes by the directory that is spelled out, the name is added. -/
theorem join_append_part (hname : IsPart name) :
    (path.join (parse (String.ofList (directoryText cs) ++ name))).root =
        (path.join (parse (String.ofList (directoryText cs)))).root ∧
      (path.join (parse (String.ofList (directoryText cs) ++ name))).parts =
        (path.join (parse (String.ofList (directoryText cs)))).parts ++ [name] := by
  obtain ⟨hroot, hparts⟩ := @parse_append_part cs _ hname
  rw [root_join, root_join, parts_join, parts_join, hroot, hparts]
  refine ⟨rfl, ?_⟩
  split
  · exact (List.append_assoc _ _ _).symm
  · rfl

/-- **Directly below.** A text leads to a file directly below a path exactly if its directory
leads to that path. -/
theorem isChild_join_iff (hname : IsPart name) (hup : name ≠ "..") :
    path.IsChild (path.join (parse (String.ofList (directoryText cs) ++ name))) ↔
      path.join (parse (String.ofList (directoryText cs))) = path := by
  obtain ⟨hroot, hparts⟩ := @join_append_part cs _ path hname
  constructor
  · rintro ⟨name', -, hroot', hparts'⟩
    rw [hroot] at hroot'
    rw [hparts] at hparts'
    exact PurePath.ext hroot' (List.append_inj_left' hparts' rfl)
  · intro hback
    rw [hback] at hroot hparts
    exact ⟨name, hup, hroot, hparts⟩

/-- **Back to the path.** A directory that has no dots in it leads from a path to that path if it
is nothing, or spells the whole path. -/
theorem join_directory_iff (hdot : '.' ∉ cs) :
    path.join (parse (String.ofList (directoryText cs))) = path ↔
      '/' ∉ cs ∨ (cs.head? = some '/' ∧ parse (String.ofList (directoryText cs)) = path) := by
  have hroot : (parse (String.ofList (directoryText cs))).root = rootOf (directoryText cs) :=
    congrArg rootOf String.toList_ofList
  have hparts : (parse (String.ofList (directoryText cs))).parts = partsOf (directoryText cs) :=
    congrArg partsOf String.toList_ofList
  have hstarts : directoryText cs <+: cs := List.rdropWhile_prefix _ cs
  by_cases hslash : '/' ∈ cs
  · have hne : directoryText cs ≠ [] := fun hnil => directoryText_eq_nil_iff.mp hnil hslash
    obtain ⟨c, rest, hcons⟩ := List.exists_cons_of_ne_nil hne
    have hhead : cs.head? = some c := by
      obtain ⟨behind, hbehind⟩ := hstarts
      rw [← hbehind, hcons]
      rfl
    rw [or_iff_right (not_not.mpr hslash), hhead, Option.some_inj]
    by_cases hc : c = '/'
    · have hrooted : (parse (String.ofList (directoryText cs))).root ≠ .relative := by
        rw [hroot, ne_eq, rootOf_eq_relative_iff, not_not, hcons, hc]
        rfl
      rw [and_iff_right hc, join, if_neg hrooted]
    · -- A relative directory adds a part.
      refine iff_of_false (fun hback => ?_) fun h => hc h.1
      have hrelative : (parse (String.ofList (directoryText cs))).root = .relative := by
        rw [hroot, rootOf_eq_relative_iff, hcons]
        simpa using hc
      have hadded := congrArg PurePath.parts hback
      rw [parts_join, if_pos hrelative, List.append_right_eq_self, hparts] at hadded
      exact partsOf_ne_nil (hcons ▸ List.mem_cons_self) hc
        (fun hmem => hdot (hstarts.subset hmem)) hadded
  · have hnil := directoryText_eq_nil_iff.mpr hslash
    refine iff_of_true ?_ (.inl hslash)
    rw [hnil] at hroot hparts ⊢
    refine PurePath.ext ?_ ?_
    · rw [root_join, hroot]
      rfl
    · rw [parts_join, hroot, hparts]
      exact List.append_nil _

end Join

end PurePath

end Python
