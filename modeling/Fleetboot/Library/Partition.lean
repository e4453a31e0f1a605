import Mathlib.Data.List.Basic
import Mathlib.Data.List.Infix

/-!
# Splitting at a delimiter

`str.partition` and `str.rpartition` over lists: a list is cut at the first, or at the last, place
where a delimiter stands. A delimiter that is a whole line between two separators stands nowhere
but where a line is equal to it.

* `partition_eq_some`, `partition_first`: what `partition` cuts, and that it cuts at the first
  place.
* `partition_of_lines`, `rpartition_of_lines`: the delimiter that no line before it, or behind it,
  is equal to.
-/

set_option autoImplicit false

namespace Delimiter

universe u

variable {α : Type u} [DecidableEq α]

/-- `xs.partition(needle)`: what lies before the first place of `needle`, and behind it. -/
def partition (needle : List α) : List α → Option (List α × List α)
  | [] => if needle.isPrefixOf [] then some ([], []) else none
  | x :: xs =>
    if needle.isPrefixOf (x :: xs) then some ([], (x :: xs).drop needle.length)
    else (partition needle xs).map fun cut => (x :: cut.1, cut.2)

/-- `xs.rpartition(needle)`: what lies before the last place of `needle`, and behind it. -/
def rpartition (needle xs : List α) : Option (List α × List α) :=
  (partition needle.reverse xs.reverse).map fun cut => (cut.2.reverse, cut.1.reverse)

variable {needle xs before after : List α}

theorem partition_of_starts (h : needle <+: xs) :
    partition needle xs = some ([], xs.drop needle.length) := by
  cases xs with
  | nil => simp [partition, List.prefix_nil.mp h]
  | cons x xs => rw [partition, if_pos (List.isPrefixOf_iff_prefix.mpr h)]

theorem partition_cons {x : α} (h : ¬ needle <+: x :: xs) :
    partition needle (x :: xs) = (partition needle xs).map fun cut => (x :: cut.1, cut.2) := by
  rw [partition, if_neg (fun hp => h (List.isPrefixOf_iff_prefix.mp hp))]

theorem partition_eq_some (h : partition needle xs = some (before, after)) :
    xs = before ++ needle ++ after := by
  induction xs generalizing before with
  | nil =>
    rw [partition] at h
    split at h
    · rename_i hstarts
      cases h
      simp [List.prefix_nil.mp (List.isPrefixOf_iff_prefix.mp hstarts)]
    · cases h
  | cons x xs ih =>
    by_cases hstarts : needle <+: x :: xs
    · rw [partition_of_starts hstarts] at h
      cases h
      rw [List.nil_append]
      exact (List.prefix_iff_eq_append.mp hstarts).symm
    · rw [partition_cons hstarts] at h
      obtain ⟨⟨before', after'⟩, hcut, heq⟩ := Option.map_eq_some_iff.mp h
      cases heq
      rw [ih hcut]
      rfl

/-- Where the delimiter stands there is a cut, and none stands before the cut. -/
theorem partition_first (before after : List α) : ∃ first rest,
    partition needle (before ++ needle ++ after) = some (first, rest) ∧
      first.length ≤ before.length := by
  induction before with
  | nil =>
    refine ⟨[], after, ?_, Nat.le_refl 0⟩
    rw [List.nil_append, partition_of_starts (List.prefix_append needle after), List.drop_left]
  | cons x before ih =>
    obtain ⟨first, rest, hcut, hle⟩ := ih
    by_cases hstarts : needle <+: x :: (before ++ needle ++ after)
    · exact ⟨[], _, partition_of_starts hstarts, Nat.zero_le _⟩
    · refine ⟨x :: first, rest, ?_, Nat.succ_le_succ hle⟩
      change partition needle (x :: (before ++ needle ++ after)) = _
      rw [partition_cons hstarts, hcut]
      rfl

theorem rpartition_eq_some (h : rpartition needle xs = some (before, after)) :
    xs = before ++ needle ++ after := by
  obtain ⟨⟨last, first⟩, hcut, heq⟩ := Option.map_eq_some_iff.mp h
  cases heq
  have := congrArg List.reverse (partition_eq_some hcut)
  simpa using this

/-- Where the delimiter stands there is a cut, and none stands behind the cut. -/
theorem rpartition_last (before after : List α) : ∃ first rest,
    rpartition needle (before ++ needle ++ after) = some (first, rest) ∧
      rest.length ≤ after.length := by
  have hreversed : ∃ last first,
      partition needle.reverse (after.reverse ++ needle.reverse ++ before.reverse) =
        some (last, first) ∧ last.length ≤ after.reverse.length :=
    partition_first after.reverse before.reverse
  obtain ⟨last, first, hcut, hle⟩ := hreversed
  refine ⟨first.reverse, last.reverse, ?_, by simpa using hle⟩
  unfold rpartition
  have hreverse : (before ++ needle ++ after).reverse =
      after.reverse ++ needle.reverse ++ before.reverse := by
    simp
  rw [hreverse, hcut]
  rfl

/-! ## Lines -/

section Lines

variable {sep : α} {line heading : List α} {lines : List (List α)}

/-- A delimiter that begins with the separator does not begin inside a line. -/
theorem partition_line (hline : sep ∉ line) (tail : List α) :
    partition (sep :: needle) (line ++ tail) =
      (partition (sep :: needle) tail).map fun cut => (line ++ cut.1, cut.2) := by
  induction line with
  | nil => simp
  | cons x line ih =>
    have hx : ¬ (sep :: needle) <+: x :: (line ++ tail) := by
      rw [List.cons_prefix_cons]
      rintro ⟨rfl, -⟩
      exact hline (List.mem_cons_self ..)
    rw [List.cons_append, partition_cons hx,
      ih fun h => hline (List.mem_cons_of_mem _ h), Option.map_map]
    rfl

omit [DecidableEq α] in
/-- Two lines with the separator behind them. -/
theorem eq_of_line_starts (hheading : sep ∉ heading) (hline : sep ∉ line) {tail : List α}
    (h : heading ++ [sep] <+: line ++ sep :: tail) : heading = line := by
  induction heading generalizing line with
  | nil =>
    cases line with
    | nil => rfl
    | cons x line =>
      rw [List.nil_append, List.cons_append, List.cons_prefix_cons] at h
      exact absurd (h.1 ▸ List.mem_cons_self ..) hline
  | cons y heading ih =>
    cases line with
    | nil =>
      rw [List.nil_append, List.cons_append, List.cons_prefix_cons] at h
      exact absurd (h.1 ▸ List.mem_cons_self ..) hheading
    | cons x line =>
      rw [List.cons_append, List.cons_append, List.cons_prefix_cons] at h
      rw [h.1, ih (fun hmem => hheading (List.mem_cons_of_mem _ hmem))
        (fun hmem => hline (List.mem_cons_of_mem _ hmem)) h.2]

/-- The heading behind lines that are not it. -/
theorem partition_of_lines (hheading : sep ∉ heading) (hne : lines ≠ [])
    (hlines : ∀ line ∈ lines, sep ∉ line ∧ line ≠ heading) (after : List α) :
    partition (sep :: (heading ++ [sep]))
      ([sep].intercalate lines ++ sep :: (heading ++ sep :: after)) =
        some ([sep].intercalate lines, after) := by
  induction lines with
  | nil => exact absurd rfl hne
  | cons line lines ih =>
    have hline := hlines line (List.mem_cons_self ..)
    cases lines with
    | nil =>
      have hstarts : sep :: (heading ++ [sep]) <+: sep :: (heading ++ sep :: after) :=
        ⟨after, by simp⟩
      rw [List.intercalate_singleton, partition_line hline.1, partition_of_starts hstarts]
      simp
    | cons next rest =>
      have hnext := hlines next (List.mem_cons_of_mem _ (List.mem_cons_self ..))
      have hrest := ih (List.cons_ne_nil _ _) fun l hl => hlines l (List.mem_cons_of_mem _ hl)
      have htail : ∃ tail, [sep].intercalate (next :: rest) ++ sep :: (heading ++ sep :: after) =
          next ++ sep :: tail := by
        cases rest with
        | nil => exact ⟨_, by rw [List.intercalate_singleton]⟩
        | cons _ _ =>
          rw [List.intercalate_cons_cons, List.append_assoc, List.append_assoc]
          exact ⟨_, rfl⟩
      have hnot : ¬ sep :: (heading ++ [sep]) <+:
          sep :: ([sep].intercalate (next :: rest) ++ sep :: (heading ++ sep :: after)) := by
        obtain ⟨tail, htail⟩ := htail
        rw [htail, List.cons_prefix_cons]
        exact fun h => hnext.2 (eq_of_line_starts hheading hnext.1 h.2).symm
      rw [List.intercalate_cons_cons, List.append_assoc, List.append_assoc,
        List.singleton_append, partition_line hline.1, partition_cons hnot, hrest]
      simp

omit [DecidableEq α] in
theorem join_append {lines' : List (List α)} (hne : lines ≠ []) (hne' : lines' ≠ []) :
    [sep].intercalate (lines ++ lines') =
      [sep].intercalate lines ++ sep :: [sep].intercalate lines' := by
  induction lines with
  | nil => exact absurd rfl hne
  | cons line lines ih =>
    cases lines with
    | nil =>
      rw [List.singleton_append, List.intercalate_cons_of_ne_nil hne', List.intercalate_singleton]
      simp
    | cons next rest =>
      rw [List.cons_append, List.intercalate_cons_of_ne_nil (by simp),
        ih (List.cons_ne_nil _ _), List.intercalate_cons_cons]
      simp

omit [DecidableEq α] in
theorem reverse_join (lines : List (List α)) :
    ([sep].intercalate lines).reverse = [sep].intercalate (lines.map List.reverse).reverse := by
  induction lines with
  | nil => rfl
  | cons line lines ih =>
    cases lines with
    | nil => simp
    | cons next rest =>
      rw [List.intercalate_cons_cons, List.map_cons, List.reverse_cons,
        join_append (by simp) (List.cons_ne_nil _ _), ← ih]
      simp

/-- The lines of a list with a separator on either side. -/
theorem join_padded (xs : List α) :
    [sep].intercalate ([] :: (xs.splitOn sep ++ [[]])) = sep :: (xs ++ [sep]) := by
  have hne : xs.splitOn sep ≠ [] := by
    rw [List.splitOn_eq_splitOnP]
    exact List.splitOnP_ne_nil _ xs
  rw [List.intercalate_cons_of_ne_nil (by simp), join_append hne (List.cons_ne_nil _ _),
    List.intercalate_splitOn]
  simp

/-- A line of a list stands in it as a delimiter, when separators stand on either side. -/
theorem exists_of_mem_splitOn (h : heading ∈ xs.splitOn sep) : ∃ before after,
    sep :: (xs ++ [sep]) = before ++ sep :: (heading ++ [sep]) ++ after := by
  obtain ⟨front, back, hlines⟩ := List.append_of_mem h
  refine ⟨[sep].intercalate ([] :: front), [sep].intercalate (back ++ [[]]), ?_⟩
  have hsplit : [] :: (xs.splitOn sep ++ [[]]) =
      ([] :: front) ++ ([heading] ++ (back ++ [[]])) := by
    rw [hlines]
    simp
  rw [← join_padded, hsplit, join_append (List.cons_ne_nil _ _) (by simp),
    join_append (List.cons_ne_nil _ _) (by simp), List.intercalate_singleton]
  simp

/-- The heading before lines that are not it. -/
theorem rpartition_of_lines (hheading : sep ∉ heading) (hne : lines ≠ [])
    (hlines : ∀ line ∈ lines, sep ∉ line ∧ line ≠ heading) (before : List α) :
    rpartition (sep :: (heading ++ [sep]))
      (before ++ sep :: (heading ++ sep :: [sep].intercalate lines)) =
        some (before, [sep].intercalate lines) := by
  have hlines' : ∀ line ∈ (lines.map List.reverse).reverse,
      sep ∉ line ∧ line ≠ heading.reverse := by
    intro line hline
    obtain ⟨original, hmem, rfl⟩ := List.mem_map.mp (List.mem_reverse.mp hline)
    obtain ⟨hsep, hother⟩ := hlines original hmem
    exact ⟨by simpa using hsep, fun h => hother (List.reverse_injective h)⟩
  have hheading' : sep ∉ heading.reverse := by simpa using hheading
  have hreversed := partition_of_lines hheading' (by simpa using hne) hlines' before.reverse
  rw [← reverse_join] at hreversed
  unfold rpartition
  have hneedle : (sep :: (heading ++ [sep])).reverse = sep :: (heading.reverse ++ [sep]) := by
    simp
  have htext : (before ++ sep :: (heading ++ sep :: [sep].intercalate lines)).reverse =
      ([sep].intercalate lines).reverse ++ sep :: (heading.reverse ++ sep :: before.reverse) := by
    simp
  rw [hneedle, htext, hreversed]
  simp

end Lines

end Delimiter
