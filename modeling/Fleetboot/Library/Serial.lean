import Mathlib.Data.List.Basic
import Mathlib.Data.List.Sort

/-!
# Tables with an `AUTOINCREMENT` key

Rows whose key the table hands out itself: every new row gets a key above all keys that were
ever used, and the table remembers that.

* `find_append`: the new row is found under its key, every other row as before.
* `find_update`, `find_delete_key`: what is found after the other writes.
-/

set_option autoImplicit false

namespace Relational

universe u

variable {α : Type u}

/-- Rows with the next key to hand out, which is above all keys in use. -/
structure Serial (α : Type u) (key : α → Nat) where
  rows : List α
  next : Nat
  fresh : ∀ a ∈ rows, key a < next

namespace Serial

variable {key : α → Nat}

theorem eq_of_rows {t t' : Serial α key} (hrows : t.rows = t'.rows) (hnext : t.next = t'.next) :
    t = t' := by
  cases t
  cases t'
  cases hrows
  cases hnext
  rfl

/-- The table that has handed out no key yet. -/
def empty : Serial α key := ⟨[], 1, by simp⟩

/-- `INSERT`, the key being the table's choice. -/
def append (t : Serial α key) (row : Nat → α) (hkey : ∀ id, key (row id) = id) : Serial α key :=
  ⟨t.rows ++ [row t.next], t.next + 1, by
    intro a ha
    rcases List.mem_append.mp ha with ha | ha
    · exact Nat.lt_succ_of_lt (t.fresh a ha)
    · rw [List.mem_singleton.mp ha, hkey]
      exact Nat.lt_succ_self _⟩

/-- `UPDATE`, the key column left alone. -/
def update (t : Serial α key) (f : α → α) (hkey : ∀ a, key (f a) = key a) : Serial α key :=
  ⟨t.rows.map f, t.next, by
    intro a ha
    obtain ⟨b, hb, rfl⟩ := List.mem_map.mp ha
    rw [hkey]
    exact t.fresh b hb⟩

/-- `DELETE`: the rows that satisfy `p` go. Their keys are not used again. -/
def delete (t : Serial α key) (p : α → Bool) : Serial α key :=
  ⟨t.rows.filter fun a => !p a, t.next, fun a ha => t.fresh a (List.mem_filter.mp ha).1⟩

/-- The row with the key `id`. -/
def find (t : Serial α key) (id : Nat) : Option α := t.rows.find? fun a => key a == id

/-- `ORDER BY` the key. -/
def sorted (t : Serial α key) : List α := t.rows.insertionSort fun a b => key a ≤ key b

theorem mem_of_find {t : Serial α key} {id : Nat} {a : α} (h : t.find id = some a) :
    a ∈ t.rows ∧ key a = id :=
  ⟨List.mem_of_find?_eq_some h, by simpa using List.find?_some h⟩

@[simp] theorem mem_sorted {t : Serial α key} {a : α} : a ∈ t.sorted ↔ a ∈ t.rows :=
  List.mem_insertionSort _

theorem find_append (t : Serial α key) (row : Nat → α) (hkey : ∀ id, key (row id) = id)
    (id : Nat) :
    (t.append row hkey).find id = if id = t.next then some (row t.next) else t.find id := by
  have hnew : key (row t.next) = t.next := hkey _
  unfold find append
  rw [List.find?_append]
  split
  · rename_i hid
    have hnone : (t.rows.find? fun a => key a == id) = none := by
      rw [List.find?_eq_none]
      intro a ha
      have := t.fresh a ha
      simp only [beq_iff_eq]
      omega
    rw [hnone, Option.none_or]
    simp [hnew, hid]
  · rename_i hid
    simp [hnew, Ne.symm hid]

theorem find_update (t : Serial α key) (f : α → α) (hkey : ∀ a, key (f a) = key a) (id : Nat) :
    (t.update f hkey).find id = (t.find id).map f := by
  unfold find update
  rw [List.find?_map]
  refine congrArg (fun p => (t.rows.find? p).map f) (funext fun a => ?_)
  exact congrArg (· == id) (hkey a)

/-- The rows with one key go. -/
theorem find_delete_key (t : Serial α key) (gone id : Nat) :
    (t.delete fun a => key a == gone).find id = if id = gone then none else t.find id := by
  unfold find delete
  rw [List.find?_filter]
  split
  · rename_i hid
    rw [List.find?_eq_none]
    intro a _
    simp [hid]
  · rename_i hid
    refine congrArg (t.rows.find? ·) (funext fun a => ?_)
    by_cases ha : key a = id
    · simp [ha, hid]
    · simp [ha]

/-! ## Distinct keys -/

/-- Every row is the one that is found under its key. -/
def Distinct (t : Serial α key) : Prop := ∀ a ∈ t.rows, t.find (key a) = some a

theorem distinct_empty : (empty : Serial α key).Distinct := fun _ ha => absurd ha List.not_mem_nil

theorem Distinct.append {t : Serial α key} (h : t.Distinct) (row : Nat → α)
    (hkey : ∀ id, key (row id) = id) : (t.append row hkey).Distinct := by
  intro a ha
  rw [find_append]
  rcases List.mem_append.mp ha with hold | hnew
  · have := t.fresh a hold
    rw [if_neg (by omega)]
    exact h a hold
  · rw [List.mem_singleton.mp hnew, if_pos (hkey _)]

theorem Distinct.update {t : Serial α key} (h : t.Distinct) (f : α → α)
    (hkey : ∀ a, key (f a) = key a) : (t.update f hkey).Distinct := by
  intro b hb
  obtain ⟨a, ha, rfl⟩ := List.mem_map.mp hb
  rw [find_update, hkey, h a ha, Option.map_some]

theorem Distinct.delete_key {t : Serial α key} (h : t.Distinct) (gone : Nat) :
    (t.delete fun a => key a == gone).Distinct := by
  intro a ha
  obtain ⟨hrow, hkept⟩ := List.mem_filter.mp ha
  rw [find_delete_key, if_neg (by simpa using hkept)]
  exact h a hrow

end Serial

end Relational
