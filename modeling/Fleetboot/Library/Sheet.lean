import Mathlib.Data.List.Basic
import Mathlib.Logic.Function.Basic

/-!
# Tables that gain columns

A table as an old file has it: every row has its fixed part, and a value under each of the
columns that the table has so far. A column may be added, with a default for the rows that are
there; to add it again changes nothing.

* `ensureAll_resume`: a list of additions that was stopped is made good by running it again.
* `filled_ensureAll`: what the rows mean, with defaults for what is missing, stays.
* `rows_assign`: what an update does to each row.
-/

set_option autoImplicit false

universe u v w

/-- Rows with a fixed part of type `β`, and under the column `c` a value of type `ν c`. -/
structure Sheet (β : Type u) {κ : Type v} (ν : κ → Type w) where
  columns : List κ
  rows : List (β × ∀ c, Option (ν c))
  shaped : ∀ row ∈ rows, ∀ c, (row.2 c).isSome = true ↔ c ∈ columns

namespace Sheet

variable {β : Type u} {κ : Type v} {ν : κ → Type w}

variable [DecidableEq κ]

/-! ## Adding columns -/

/-- The table with the column: added with the default, or left alone where it is there. -/
def ensure (c : κ) (default : ν c) (t : Sheet β ν) : Sheet β ν :=
  if h : c ∈ t.columns then t
  else
    { columns := t.columns ++ [c]
      rows := t.rows.map fun row => (row.1, Function.update row.2 c (some default))
      shaped := by
        intro row hrow c'
        obtain ⟨old, hold, rfl⟩ := List.mem_map.mp hrow
        by_cases hc : c' = c
        · subst hc
          simp
        · show (Function.update old.2 c (some default) c').isSome = true ↔ _
          rw [Function.update_of_ne hc, t.shaped old hold]
          simp [hc] }

variable {c : κ} {default : ν c} {t : Sheet β ν}

theorem ensure_of_mem (h : c ∈ t.columns) : t.ensure c default = t := dif_pos h

theorem mem_columns_ensure {c' : κ} :
    c' ∈ (t.ensure c default).columns ↔ c' ∈ t.columns ∨ c' = c := by
  unfold ensure
  split
  · rename_i h
    constructor
    · exact .inl
    · rintro (h' | rfl)
      · exact h'
      · exact h
  · simp

/-- The value under a column, or the default. -/
def fill (defaults : ∀ c, ν c) (row : ∀ c, Option (ν c)) (c : κ) : ν c :=
  (row c).getD (defaults c)

/-- The rows with defaults for what is missing. -/
def filled (defaults : ∀ c, ν c) (t : Sheet β ν) : List (β × ∀ c, ν c) :=
  t.rows.map fun row => (row.1, fill defaults row.2)

theorem filled_ensure (defaults : ∀ c, ν c) (c : κ) (t : Sheet β ν) :
    (t.ensure c (defaults c)).filled defaults = t.filled defaults := by
  unfold ensure filled
  split
  · rfl
  · rename_i hnew
    rw [List.map_map]
    refine List.map_congr_left fun row hrow => ?_
    have hnone : row.2 c = none := by
      rw [← Option.not_isSome_iff_eq_none, t.shaped row hrow]
      exact hnew
    refine Prod.ext rfl (funext fun c' => ?_)
    by_cases hc : c' = c
    · subst hc
      simp [fill, hnone]
    · simp [fill, Function.update_of_ne hc]

/-- Several columns, one after the other. -/
def ensureAll (defaults : ∀ c, ν c) (cs : List κ) (t : Sheet β ν) : Sheet β ν :=
  cs.foldl (fun t c => t.ensure c (defaults c)) t

section EnsureAll

variable {defaults : ∀ c, ν c}

theorem mem_columns_ensureAll {c' : κ} {cs : List κ} {t : Sheet β ν} :
    c' ∈ (t.ensureAll defaults cs).columns ↔ c' ∈ t.columns ∨ c' ∈ cs := by
  induction cs generalizing t with
  | nil => simp [ensureAll]
  | cons c cs ih =>
    show c' ∈ ((t.ensure c (defaults c)).ensureAll defaults cs).columns ↔ _
    rw [ih, mem_columns_ensure, List.mem_cons, or_assoc]

theorem filled_ensureAll {cs : List κ} {t : Sheet β ν} :
    (t.ensureAll defaults cs).filled defaults = t.filled defaults := by
  induction cs generalizing t with
  | nil => rfl
  | cons c cs ih =>
    show ((t.ensure c (defaults c)).ensureAll defaults cs).filled defaults = _
    rw [ih, filled_ensure]

theorem ensureAll_of_subset {cs : List κ} {t : Sheet β ν} (h : ∀ c ∈ cs, c ∈ t.columns) :
    t.ensureAll defaults cs = t := by
  induction cs with
  | nil => rfl
  | cons c cs ih =>
    show (t.ensure c (defaults c)).ensureAll defaults cs = t
    rw [ensure_of_mem (h c (List.mem_cons_self ..))]
    exact ih fun c' hc' => h c' (List.mem_cons_of_mem _ hc')

theorem ensureAll_append {cs cs' : List κ} {t : Sheet β ν} :
    t.ensureAll defaults (cs ++ cs') = (t.ensureAll defaults cs).ensureAll defaults cs' :=
  List.foldl_append

/-- **A list of additions that was stopped** is made good by running it again. -/
theorem ensureAll_resume {cs : List κ} {t : Sheet β ν} (k : Nat) :
    (t.ensureAll defaults (cs.take k)).ensureAll defaults cs = t.ensureAll defaults cs := by
  have hdone : ∀ c ∈ cs.take k, c ∈ (t.ensureAll defaults (cs.take k)).columns :=
    fun c hc => mem_columns_ensureAll.mpr (.inr hc)
  calc
    (t.ensureAll defaults (cs.take k)).ensureAll defaults cs
    _ = (t.ensureAll defaults (cs.take k)).ensureAll defaults (cs.take k ++ cs.drop k) := by
      rw [List.take_append_drop]
    _ = (t.ensureAll defaults (cs.take k)).ensureAll defaults (cs.drop k) := by
      rw [ensureAll_append, ensureAll_of_subset hdone]
    _ = t.ensureAll defaults cs := by
      rw [← ensureAll_append, List.take_append_drop]

end EnsureAll

/-! ## Updating rows -/

/-- The value under a column of the table, in the rows that are selected. -/
def assign (selected : β → Bool) (c : κ) (value : ν c) (t : Sheet β ν) : Sheet β ν :=
  if h : c ∈ t.columns then
    { columns := t.columns
      rows := t.rows.map fun row =>
        if selected row.1 = true then (row.1, Function.update row.2 c (some value)) else row
      shaped := by
        intro row hrow c'
        obtain ⟨old, hold, rfl⟩ := List.mem_map.mp hrow
        split
        · by_cases hc : c' = c
          · subst hc
            simp [h]
          · show (Function.update old.2 c (some value) c').isSome = true ↔ _
            rw [Function.update_of_ne hc, t.shaped old hold]
        · exact t.shaped old hold c' }
  else t

@[simp] theorem columns_assign {selected : β → Bool} {value : ν c} :
    (t.assign selected c value).columns = t.columns := by
  unfold assign
  split <;> rfl

theorem rows_assign {selected : β → Bool} {value : ν c} (h : c ∈ t.columns) :
    (t.assign selected c value).rows = t.rows.map fun row =>
      if selected row.1 = true then (row.1, Function.update row.2 c (some value)) else row := by
  unfold assign
  rw [dif_pos h]

end Sheet
