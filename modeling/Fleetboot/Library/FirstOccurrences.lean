import Mathlib.Data.Finset.Insert
import Mathlib.Data.List.Basic
import Mathlib.Data.List.Nodup
import Mathlib.Tactic.Common

/-!
# First occurrences

A list without its repetitions, each element where it came first, and the loop that makes it: a
list that grows at its end, with the set of what is in it.

* `Firsts.unique`: there is one such list.
* `Firsts.foldl_add`: the loop makes it.
* `prefix_foldl_add`: the loop only adds at the end.
-/

set_option autoImplicit false

namespace Repeats

universe u

variable {α : Type u} [DecidableEq α]

/-- `out` is what is in `xs`, in the order in which it came first. -/
structure Firsts (xs out : List α) : Prop where
  mem_iff : ∀ x, x ∈ out ↔ x ∈ xs
  order : out.Pairwise fun x y => xs.idxOf x < xs.idxOf y

namespace Firsts

variable {xs ys out out' : List α} {x : α}

theorem nil : Firsts ([] : List α) [] := ⟨fun _ => Iff.rfl, List.Pairwise.nil⟩

theorem nodup (h : Firsts xs out) : out.Nodup := by
  apply h.order.imp
  intro x y hlt heq
  rw [heq] at hlt
  exact Nat.lt_irrefl _ hlt

/-- What follows `xs` does not move what is in it. -/
theorem order_append (h : Firsts xs out) (ys : List α) :
    out.Pairwise fun x y => (xs ++ ys).idxOf x < (xs ++ ys).idxOf y := by
  apply h.order.imp_of_mem
  intro x y hx hy hlt
  rw [List.idxOf_append_of_mem ((h.mem_iff x).mp hx),
    List.idxOf_append_of_mem ((h.mem_iff y).mp hy)]
  exact hlt

theorem concat_of_mem (h : Firsts xs out) (hx : x ∈ xs) : Firsts (xs ++ [x]) out where
  mem_iff y := by
    rw [h.mem_iff, List.mem_append, List.mem_singleton]
    constructor
    · exact Or.inl
    · rintro (hy | rfl)
      · exact hy
      · exact hx
  order := h.order_append [x]

theorem concat_of_notMem (h : Firsts xs out) (hx : x ∉ xs) : Firsts (xs ++ [x]) (out ++ [x]) where
  mem_iff y := by rw [List.mem_append, List.mem_append, h.mem_iff]
  order := by
    rw [List.pairwise_append]
    refine ⟨h.order_append [x], List.pairwise_singleton _ _, fun y hy z hz => ?_⟩
    obtain rfl := List.mem_singleton.mp hz
    have hmem := (h.mem_iff y).mp hy
    have hfirst : xs.idxOf y < xs.length := List.idxOf_lt_length_of_mem hmem
    rw [List.idxOf_append_of_mem hmem, List.idxOf_append, if_neg hx]
    omega

/-- Nothing is left out of a list without repetitions. -/
theorem of_nodup (h : xs.Nodup) : Firsts xs xs := by
  induction xs using List.reverseRecOn with
  | nil => exact nil
  | append_singleton xs x ih =>
    obtain ⟨hxs, -, hdisjoint⟩ := List.nodup_append.mp h
    apply (ih hxs).concat_of_notMem
    intro hx
    exact hdisjoint x hx x (List.mem_singleton_self x) rfl

theorem unique (h : Firsts xs out) (h' : Firsts xs out') : out = out' := by
  have hperm : out.Perm out' := by
    apply (List.perm_ext_iff_of_nodup h.nodup h'.nodup).mpr
    intro x
    rw [h.mem_iff, h'.mem_iff]
  apply hperm.eq_of_pairwise _ h.order h'.order
  intro x y _ _ hxy hyx
  omega

end Firsts

/-! ## The loop -/

/-- A list, and the set of what is in it. -/
structure Uniques (α : Type u) [DecidableEq α] where
  out : List α
  seen : Finset α
  mem_seen : ∀ x, x ∈ seen ↔ x ∈ out

namespace Uniques

variable {xs : List α} {uniques : Uniques α}

def empty : Uniques α := ⟨[], ∅, by simp⟩

/-- Add what was not seen yet. -/
def add (uniques : Uniques α) (x : α) : Uniques α :=
  if x ∈ uniques.seen then uniques
  else
    { out := uniques.out ++ [x]
      seen := insert x uniques.seen
      mem_seen := fun y => by
        rw [Finset.mem_insert, List.mem_append, List.mem_singleton, uniques.mem_seen, or_comm] }

theorem out_add (uniques : Uniques α) (x : α) :
    (uniques.add x).out = if x ∈ uniques.out then uniques.out else uniques.out ++ [x] := by
  simp only [add, uniques.mem_seen]
  split <;> rfl

theorem prefix_foldl_add (uniques : Uniques α) (ys : List α) :
    uniques.out <+: (ys.foldl add uniques).out := by
  induction ys generalizing uniques with
  | nil => exact List.prefix_rfl
  | cons y ys ih =>
    have hadd : uniques.out <+: (uniques.add y).out := by
      rw [out_add]
      split
      · exact List.prefix_rfl
      · exact List.prefix_append _ _
    exact hadd.trans (ih _)

end Uniques

namespace Firsts

variable {xs : List α} {uniques : Uniques α}

theorem add (h : Firsts xs uniques.out) (x : α) : Firsts (xs ++ [x]) (uniques.add x).out := by
  rw [Uniques.out_add]
  split
  · rename_i hold
    exact h.concat_of_mem ((h.mem_iff x).mp hold)
  · rename_i hnew
    exact h.concat_of_notMem fun hx => hnew ((h.mem_iff x).mpr hx)

theorem foldl_add (h : Firsts xs uniques.out) (ys : List α) :
    Firsts (xs ++ ys) (ys.foldl Uniques.add uniques).out := by
  induction ys generalizing xs uniques with
  | nil => rwa [List.append_nil]
  | cons y ys ih =>
    rw [List.append_cons]
    exact ih (h.add y)

end Firsts

end Repeats
