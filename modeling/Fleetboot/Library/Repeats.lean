import Mathlib.Data.List.Destutter
import Mathlib.Data.List.Sort

/-!
# Consecutive repetitions

What a list without consecutive repetitions becomes when the list grows at its end, and the
sort of a list whose order is exactly the opposite one.

* `destutter_concat`: only an element that differs from the last one is added.
* `insertionSort_eq_reverse`: a descending sort of an ascending list.
-/

set_option autoImplicit false

namespace Repeats

universe u

variable {α : Type u}

section Destutter

variable [DecidableEq α]

theorem getLast?_destutter' (a : α) (l : List α) :
    (l.destutter' (· ≠ ·) a).getLast? = (a :: l).getLast? := by
  induction l generalizing a with
  | nil => rfl
  | cons b l ih =>
    by_cases h : a = b
    · subst h
      rw [List.destutter'_cons_neg _ (by simp), ih, List.getLast?_cons_cons]
    · have hne : l.destutter' (· ≠ ·) b ≠ [] := List.destutter'_ne_nil l _
      rw [List.destutter'_cons_pos _ h, List.getLast?_cons_cons, ← ih b,
        List.getLast?_cons_of_ne_nil hne]

/-- The last element always stays. -/
theorem getLast?_destutter (l : List α) :
    (l.destutter (· ≠ ·)).getLast? = l.getLast? := by
  cases l with
  | nil => rfl
  | cons a l => exact getLast?_destutter' a l

theorem destutter'_concat (a : α) (l : List α) (c : α) :
    (l ++ [c]).destutter' (· ≠ ·) a =
      if (a :: l).getLast? = some c then l.destutter' (· ≠ ·) a
      else l.destutter' (· ≠ ·) a ++ [c] := by
  induction l generalizing a with
  | nil => by_cases h : a = c <;> simp [List.destutter', h]
  | cons b l ih =>
    by_cases h : a = b
    · subst h
      rw [List.cons_append, List.destutter'_cons_neg _ (by simp), ih, List.getLast?_cons_cons,
        List.destutter'_cons_neg _ (by simp)]
    · rw [List.cons_append, List.destutter'_cons_pos _ h, ih, List.getLast?_cons_cons,
        List.destutter'_cons_pos _ h]
      split <;> rfl

/-- A new element is added exactly if it differs from the last one. -/
theorem destutter_concat (l : List α) (c : α) :
    (l ++ [c]).destutter (· ≠ ·) =
      if l.getLast? = some c then l.destutter (· ≠ ·) else l.destutter (· ≠ ·) ++ [c] := by
  cases l with
  | nil => simp
  | cons a l => exact destutter'_concat a l c

end Destutter

section Sorting

variable {r : α → α → Prop} [DecidableRel r]

theorem orderedInsert_eq_concat {a : α} {l : List α} (h : ∀ b ∈ l, ¬ r a b) :
    l.orderedInsert r a = l ++ [a] := by
  induction l with
  | nil => rfl
  | cons b l ih =>
    obtain ⟨hb, hl⟩ := List.forall_mem_cons.mp h
    rw [List.orderedInsert_cons, if_neg hb, ih hl, List.cons_append]

/-- An element that is never before a later one ends up behind it. -/
theorem insertionSort_eq_reverse {l : List α} (h : l.Pairwise fun a b => ¬ r a b) :
    l.insertionSort r = l.reverse := by
  induction h with
  | nil => rfl
  | @cons a l ha _ ih =>
    have hlater : ∀ b ∈ l.reverse, ¬ r a b := fun b hb => ha b (List.mem_reverse.mp hb)
    rw [List.insertionSort_cons, ih, List.reverse_cons, orderedInsert_eq_concat hlater]

end Sorting

end Repeats
