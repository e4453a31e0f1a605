import Mathlib.Data.List.Sort
import Mathlib.Order.Basic

/-!
# The first elements by their keys

* `pairwise_byKey`: elements with different keys stand in a strict order.
* `lt_of_not_mem_take`: whoever is not among the first so many comes after all of them.
-/

set_option autoImplicit false

namespace Sorting

universe u v

variable {α : Type u} {κ : Type v} [LinearOrder κ] (key : α → κ) {l : List α}

/-- The elements in the order of their keys. -/
def byKey (l : List α) : List α := l.insertionSort fun a b => key a ≤ key b

theorem perm_byKey (l : List α) : (byKey key l).Perm l := List.perm_insertionSort _ l

theorem mem_byKey {a : α} : a ∈ byKey key l ↔ a ∈ l := (perm_byKey key l).mem_iff

theorem pairwise_byKey (hnodup : (l.map key).Nodup) :
    (byKey key l).Pairwise fun a b => key a < key b := by
  have hle : (byKey key l).Pairwise fun a b => key a ≤ key b := by
    unfold byKey
    have : Std.Total fun a b : α => key a ≤ key b := ⟨fun a b => le_total (key a) (key b)⟩
    have : IsTrans α fun a b => key a ≤ key b := ⟨fun _ _ _ => le_trans⟩
    exact List.pairwise_insertionSort _ l
  have hne : (byKey key l).Pairwise fun a b => key a ≠ key b :=
    List.pairwise_map.mp (((perm_byKey key l).map key).nodup_iff.mpr hnodup)
  exact (hle.and hne).imp fun h => lt_of_le_of_ne h.1 h.2

theorem lt_of_not_mem_take (hnodup : (l.map key).Nodup) {n : Nat} {a : α} (ha : a ∈ l)
    (hnot : a ∉ (byKey key l).take n) :
    ((byKey key l).take n).length = n ∧ ∀ b ∈ (byKey key l).take n, key b < key a := by
  have hsplit := List.take_append_drop n (byKey key l)
  have hrest : a ∈ (byKey key l).drop n := by
    have hmem := (mem_byKey key).mpr ha
    rw [← hsplit, List.mem_append] at hmem
    exact hmem.resolve_left hnot
  have hordered := pairwise_byKey key hnodup
  rw [← hsplit, List.pairwise_append] at hordered
  refine ⟨?_, fun b hb => hordered.2.2 b hb a hrest⟩
  have hlt : n < (byKey key l).length := by
    have := List.length_pos_of_mem hrest
    rw [List.length_drop] at this
    omega
  rw [List.length_take, Nat.min_eq_left hlt.le]

end Sorting
