import Mathlib.Data.List.Nodup

/-!
# Dictionaries that keep the order of insertion

A dictionary in the sense of Python: its entries stand in the order in which their keys were set
first, and setting a key again leaves it where it is.

* `get?_set`, `get?_pop`, `get?_modify`: what is read after a change.
* `entries_set_new`: a new key goes to the end.
-/

set_option autoImplicit false

namespace Python

universe u v

/-- Entries with distinct keys, in the order of insertion. -/
structure Dict (κ : Type u) (α : Type v) where
  entries : List (κ × α)
  nodup : (entries.map Prod.fst).Nodup

namespace Dict

variable {κ : Type u} {α : Type v} {d d' : Dict κ α} {k k' : κ} {a : α}

/-- No entry. -/
def empty : Dict κ α := ⟨[], List.nodup_nil⟩

/-- The values, in the order of their keys. -/
def values (d : Dict κ α) : List α := d.entries.map Prod.snd

variable [DecidableEq κ]

/-- `d.get(k)`. -/
def get? (d : Dict κ α) (k : κ) : Option α :=
  (d.entries.find? fun e => e.1 == k).map Prod.snd

/-- Change the value under a key, if there is one. -/
def modify (d : Dict κ α) (k : κ) (f : α → α) : Dict κ α :=
  ⟨d.entries.map fun e => if e.1 = k then (e.1, f e.2) else e, by
    rw [List.map_map]
    refine (List.map_congr_left fun e _ => ?_).symm ▸ d.nodup
    simp only [Function.comp_apply]
    split <;> rfl⟩

/-- `d.pop(k, None)`. -/
def pop (d : Dict κ α) (k : κ) : Dict κ α :=
  ⟨d.entries.filter fun e => e.1 != k, d.nodup.sublist (List.filter_sublist.map _)⟩

theorem get?_eq_none_iff : d.get? k = none ↔ ∀ e ∈ d.entries, e.1 ≠ k := by
  simp [get?]

theorem mem_of_get? (h : d.get? k = some a) : (k, a) ∈ d.entries := by
  obtain ⟨e, he, rfl⟩ := Option.map_eq_some_iff.mp h
  have hkey : e.1 = k := by simpa using List.find?_some he
  exact hkey ▸ List.mem_of_find?_eq_some he

theorem get?_of_mem (h : (k, a) ∈ d.entries) : d.get? k = some a := by
  obtain ⟨b, hb⟩ : ∃ b, d.get? k = some b :=
    Option.ne_none_iff_exists'.mp fun hnone => get?_eq_none_iff.mp hnone _ h rfl
  have hpair : (k, b) = (k, a) :=
    List.inj_on_of_nodup_map d.nodup (mem_of_get? hb) h rfl
  rw [hb, (Prod.mk.inj hpair).2]

theorem append_nodup (h : d.get? k = none) (a : α) :
    ((d.entries ++ [(k, a)]).map Prod.fst).Nodup := by
  rw [List.map_append, List.nodup_append]
  refine ⟨d.nodup, List.nodup_singleton _, fun key hkey key' hkey' => ?_⟩
  obtain ⟨e, he, rfl⟩ := List.mem_map.mp hkey
  rw [List.map_singleton, List.mem_singleton] at hkey'
  rw [hkey']
  exact get?_eq_none_iff.mp h e he

/-- `d[k] = a`. -/
def set (d : Dict κ α) (k : κ) (a : α) : Dict κ α :=
  if h : d.get? k = none then ⟨d.entries ++ [(k, a)], append_nodup h a⟩
  else d.modify k fun _ => a

@[simp] theorem get?_empty (k : κ) : (empty : Dict κ α).get? k = none := rfl

theorem get?_modify (d : Dict κ α) (k k' : κ) (f : α → α) :
    (d.modify k f).get? k' = if k' = k then (d.get? k').map f else d.get? k' := by
  have hkey : ∀ e : κ × α, ((if e.1 = k then (e.1, f e.2) else e).1 == k') = (e.1 == k') := by
    intro e
    split <;> rfl
  unfold get? modify
  rw [List.find?_map]
  simp only [Function.comp_def, hkey]
  cases hfind : d.entries.find? fun e => e.1 == k' with
  | none => simp
  | some e =>
    have he : e.1 = k' := by simpa using List.find?_some hfind
    by_cases hk : k' = k
    · simp [he, hk]
    · simp [he, hk]

theorem get?_pop (d : Dict κ α) (k k' : κ) :
    (d.pop k).get? k' = if k' = k then none else d.get? k' := by
  unfold get? pop
  rw [List.find?_filter]
  by_cases hk : k' = k
  · rw [if_pos hk, Option.map_eq_none_iff, List.find?_eq_none]
    intro e _
    simp [hk]
  · rw [if_neg hk]
    refine congrArg (Option.map Prod.snd) (congrArg (fun p => List.find? p d.entries) ?_)
    funext e
    by_cases he : e.1 = k'
    · simp [he, hk]
    · simp [he]

theorem entries_set_new (h : d.get? k = none) : (d.set k a).entries = d.entries ++ [(k, a)] := by
  rw [set, dif_pos h]

theorem get?_set (d : Dict κ α) (k k' : κ) (a : α) :
    (d.set k a).get? k' = if k' = k then some a else d.get? k' := by
  unfold set
  split
  · rename_i hnew
    simp only [get?, List.find?_append]
    by_cases hk : k' = k
    · have hnone : (d.entries.find? fun e => e.1 == k) = none := Option.map_eq_none_iff.mp hnew
      simp [hk, hnone]
    · simp [hk, Ne.symm hk]
  · rename_i hold
    rw [get?_modify]
    by_cases hk : k' = k
    · obtain ⟨b, hb⟩ := Option.ne_none_iff_exists'.mp hold
      simp [hk, hb]
    · simp [hk]

end Dict

end Python
