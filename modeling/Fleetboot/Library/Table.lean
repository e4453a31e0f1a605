import Mathlib.Data.List.Nodup
import Mathlib.Data.List.Basic

/-!
# Tables under a unique index

A relational table with a (possibly partial) unique index: a list of rows in insertion
order, together with the fact that no two rows covered by the index share a key. A write
either keeps that fact or is refused, so a table that breaks its index cannot be built.

The index makes every statement's effect pointwise: `Table.lookup k` is the one covered
row with key `k`, and each write has one equation saying what it does to `lookup`.

* `lookup_eq_some_iff`: the covered rows are exactly the values of `lookup`.
* `lookup_insert`, `lookup_replace`, `lookup_update`, `lookup_delete`: the effect of the
  four writes on `lookup`.
* `insert_isSome_iff`: an insertion is refused exactly when the key is taken.
-/

set_option autoImplicit false

namespace Relational

universe u v

variable {α : Type u} {κ : Type v}

/-- Rows in insertion order. Among those the index covers, no key repeats. -/
structure Table (α : Type u) (κ : Type v) (covered : α → Bool) (key : α → κ) where
  rows : List α
  unique : ((rows.filter covered).map key).Nodup

namespace Table

variable {covered : α → Bool} {key : α → κ}

/-- The table without rows. -/
def empty : Table α κ covered key := ⟨[], List.nodup_nil⟩

instance : Inhabited (Table α κ covered key) := ⟨empty⟩

/-- Two covered rows with one key are the same row. -/
theorem eq_of_key_eq {t : Table α κ covered key} {a b : α} (ha : a ∈ t.rows)
    (hb : b ∈ t.rows) (hca : covered a = true) (hcb : covered b = true)
    (hk : key a = key b) : a = b :=
  List.inj_on_of_nodup_map t.unique (List.mem_filter.mpr ⟨ha, hca⟩)
    (List.mem_filter.mpr ⟨hb, hcb⟩) hk

variable [DecidableEq κ]

/-- The covered row with key `k`. -/
def lookup (t : Table α κ covered key) (k : κ) : Option α :=
  t.rows.find? fun a => covered a && decide (key a = k)

theorem lookup_eq_some_iff {t : Table α κ covered key} {k : κ} {a : α} :
    t.lookup k = some a ↔ a ∈ t.rows ∧ covered a = true ∧ key a = k := by
  constructor
  · intro h
    have hp := List.find?_some h
    simp only [Bool.and_eq_true, decide_eq_true_eq] at hp
    exact ⟨List.mem_of_find?_eq_some h, hp⟩
  · rintro ⟨hm, hc, hk⟩
    have hs : (t.lookup k).isSome := by
      rw [lookup, List.find?_isSome]
      exact ⟨a, hm, by simp [hc, hk]⟩
    obtain ⟨b, hb⟩ := Option.isSome_iff_exists.mp hs
    have hp := List.find?_some hb
    simp only [Bool.and_eq_true, decide_eq_true_eq] at hp
    rw [hb, eq_of_key_eq (List.mem_of_find?_eq_some hb) hm hp.1 hc (hp.2.trans hk.symm)]

theorem lookup_eq_none_iff {t : Table α κ covered key} {k : κ} :
    t.lookup k = none ↔ ∀ a ∈ t.rows, covered a = true → key a ≠ k := by
  simp only [lookup, List.find?_eq_none, Bool.and_eq_true, decide_eq_true_eq, not_and, ne_eq]

theorem key_of_lookup {t : Table α κ covered key} {k : κ} {a : α} (h : t.lookup k = some a) :
    key a = k :=
  (lookup_eq_some_iff.mp h).2.2

theorem covered_of_lookup {t : Table α κ covered key} {k : κ} {a : α}
    (h : t.lookup k = some a) : covered a = true :=
  (lookup_eq_some_iff.mp h).2.1

theorem mem_of_lookup {t : Table α κ covered key} {k : κ} {a : α} (h : t.lookup k = some a) :
    a ∈ t.rows :=
  (lookup_eq_some_iff.mp h).1

theorem lookup_of_mem {t : Table α κ covered key} {a : α} (hm : a ∈ t.rows)
    (hc : covered a = true) : t.lookup (key a) = some a :=
  lookup_eq_some_iff.mpr ⟨hm, hc, rfl⟩

/-- At most one covered row has the key `k`. -/
theorem length_filter_key_le_one (t : Table α κ covered key) (k : κ) :
    (t.rows.filter fun a => covered a && decide (key a = k)).length ≤ 1 := by
  have hnd : ((t.rows.filter covered).filter fun a => decide (key a = k)).Nodup :=
    (List.Nodup.of_map key t.unique).filter _
  rw [List.filter_filter] at hnd
  have hcomm : (t.rows.filter fun a => covered a && decide (key a = k)) =
      t.rows.filter fun a => decide (key a = k) && covered a :=
    List.filter_congr fun a _ => Bool.and_comm _ _
  rw [hcomm]
  match hl : t.rows.filter fun a => decide (key a = k) && covered a with
  | [] => simp
  | [_] => simp
  | a :: b :: _ =>
    rw [hl] at hnd
    have hmem : ∀ c ∈ [a, b], c ∈ t.rows ∧ key c = k ∧ covered c = true := by
      intro c hc
      have : c ∈ t.rows.filter fun a => decide (key a = k) && covered a := by
        rw [hl]
        simp only [List.mem_cons, List.not_mem_nil, or_false] at hc ⊢
        exact hc.imp_right Or.inl
      simpa using List.mem_filter.mp this
    obtain ⟨ha, hka, hca⟩ := hmem a (by simp)
    obtain ⟨hb, hkb, hcb⟩ := hmem b (by simp)
    have hab : a = b := eq_of_key_eq ha hb hca hcb (hka.trans hkb.symm)
    simp [hab] at hnd

/-! ## Inserting -/

omit [DecidableEq κ] in
theorem unique_append {rows : List α} (hu : ((rows.filter covered).map key).Nodup) {a : α}
    (hfree : covered a = true → ∀ b ∈ rows, covered b = true → key b ≠ key a) :
    (((rows ++ [a]).filter covered).map key).Nodup := by
  rw [List.filter_append, List.map_append]
  cases hc : covered a with
  | false => simpa [hc] using hu
  | true =>
    simp only [hc, List.filter_cons_of_pos, List.filter_nil, List.map_cons, List.map_nil]
    refine List.nodup_append.mpr ⟨hu, List.nodup_singleton _, ?_⟩
    intro k hk k' hk'
    rw [List.mem_singleton] at hk'
    obtain ⟨b, hb, rfl⟩ := List.mem_map.mp hk
    obtain ⟨hb, hcb⟩ := List.mem_filter.mp hb
    subst hk'
    exact hfree hc b hb hcb

/-- `INSERT`: refused when the index covers the new row and its key is taken. -/
def insert (t : Table α κ covered key) (a : α) : Option (Table α κ covered key) :=
  if h : covered a = true ∧ (t.lookup (key a)).isSome = true then none
  else some ⟨t.rows ++ [a], unique_append t.unique fun hc b hb hcb hk => h ⟨hc, by
    rw [← hk, lookup_of_mem hb hcb]
    rfl⟩⟩

theorem insert_isSome_iff {t : Table α κ covered key} {a : α} (hc : covered a = true) :
    (t.insert a).isSome = true ↔ t.lookup (key a) = none := by
  unfold insert
  split
  · rename_i h
    simp [Option.isSome_iff_ne_none.mp h.2]
  · rename_i h
    simpa [hc] using h

theorem rows_insert {t t' : Table α κ covered key} {a : α} (h : t.insert a = some t') :
    t'.rows = t.rows ++ [a] := by
  unfold insert at h
  split at h
  · cases h
  · cases h
    rfl

theorem lookup_insert {t t' : Table α κ covered key} {a : α} (h : t.insert a = some t')
    (hc : covered a = true) (k : κ) :
    t'.lookup k = if key a = k then some a else t.lookup k := by
  have hfree := (insert_isSome_iff (t := t) hc).mp (by rw [h]; rfl)
  unfold lookup
  rw [rows_insert h, List.find?_append]
  split
  · rename_i hk
    subst hk
    have : (t.rows.find? fun b => covered b && decide (key b = key a)) = none := hfree
    rw [this]
    simp [hc]
  · rename_i hk
    simp [hk]

/-! ## Updating -/

omit [DecidableEq κ] in
theorem unique_map {rows : List α} (hu : ((rows.filter covered).map key).Nodup) {f : α → α}
    (hcov : ∀ a, covered (f a) = true → covered a = true) (hkey : ∀ a, key (f a) = key a) :
    (((rows.map f).filter covered).map key).Nodup := by
  rw [List.filter_map, List.map_map]
  have hk : key ∘ f = key := funext hkey
  rw [hk]
  refine hu.sublist (List.Sublist.map key ?_)
  have hsub : rows.filter (covered ∘ f) = (rows.filter covered).filter (covered ∘ f) := by
    rw [List.filter_filter]
    refine List.filter_congr fun a _ => ?_
    cases h : covered (f a) with
    | false => simp [h]
    | true => simp [h, hcov a h]
  rw [hsub]
  exact List.filter_sublist

/-- `UPDATE`: `f` rewrites every row. It may take a row out of the index but not bring
one in, and leaves the key column alone. -/
def update (t : Table α κ covered key) (f : α → α)
    (hcov : ∀ a, covered (f a) = true → covered a = true) (hkey : ∀ a, key (f a) = key a) :
    Table α κ covered key :=
  ⟨t.rows.map f, unique_map t.unique hcov hkey⟩

omit [DecidableEq κ] in
@[simp] theorem rows_update (t : Table α κ covered key) (f : α → α)
    (hcov : ∀ a, covered (f a) = true → covered a = true) (hkey : ∀ a, key (f a) = key a) :
    (t.update f hcov hkey).rows = t.rows.map f := rfl

theorem lookup_update (t : Table α κ covered key) (f : α → α)
    (hcov : ∀ a, covered (f a) = true → covered a = true) (hkey : ∀ a, key (f a) = key a)
    (k : κ) : (t.update f hcov hkey).lookup k = ((t.lookup k).map f).filter covered := by
  cases h : t.lookup k with
  | none =>
    rw [Option.map_none, Option.filter_none, lookup_eq_none_iff]
    intro b hb hcb hkb
    obtain ⟨a, ha, rfl⟩ := List.mem_map.mp hb
    exact lookup_eq_none_iff.mp h a ha (hcov a hcb) ((hkey a).symm.trans hkb)
  | some a =>
    obtain ⟨hm, hc, hk⟩ := lookup_eq_some_iff.mp h
    rw [Option.map_some]
    cases hf : covered (f a) with
    | true =>
      rw [Option.filter_some_pos hf, lookup_eq_some_iff]
      exact ⟨List.mem_map_of_mem hm, hf, (hkey a).trans hk⟩
    | false =>
      rw [Option.filter_some_neg (by simp [hf]), lookup_eq_none_iff]
      intro b hb hcb hkb
      obtain ⟨c, hcm, rfl⟩ := List.mem_map.mp hb
      have hca : c = a :=
        eq_of_key_eq hcm hm (hcov c hcb) hc (((hkey c).symm.trans hkb).trans hk.symm)
      rw [hca, hf] at hcb
      cases hcb

/-! ## Deleting -/

/-- `DELETE`: the rows that satisfy `p` go. -/
def delete (t : Table α κ covered key) (p : α → Bool) : Table α κ covered key :=
  ⟨t.rows.filter (fun a => !p a), t.unique.sublist
    (List.Sublist.map key (List.Sublist.filter covered List.filter_sublist))⟩

omit [DecidableEq κ] in
@[simp] theorem rows_delete (t : Table α κ covered key) (p : α → Bool) :
    (t.delete p).rows = t.rows.filter (fun a => !p a) := rfl

theorem lookup_delete (t : Table α κ covered key) (p : α → Bool) (k : κ) :
    (t.delete p).lookup k = (t.lookup k).filter (fun a => !p a) := by
  cases h : t.lookup k with
  | none =>
    rw [Option.filter_none, lookup_eq_none_iff]
    intro b hb
    exact lookup_eq_none_iff.mp h b (List.mem_filter.mp hb).1
  | some a =>
    obtain ⟨hm, hc, hk⟩ := lookup_eq_some_iff.mp h
    cases hp : p a with
    | false =>
      rw [Option.filter_some_pos (by simp [hp]), lookup_eq_some_iff]
      exact ⟨List.mem_filter.mpr ⟨hm, by simp [hp]⟩, hc, hk⟩
    | true =>
      rw [Option.filter_some_neg (by simp [hp]), lookup_eq_none_iff]
      intro b hb hcb hkb
      obtain ⟨hbm, hbp⟩ := List.mem_filter.mp hb
      rw [eq_of_key_eq hbm hm hcb hc (hkb.trans hk.symm), hp] at hbp
      cases hbp

/-! ## Replacing -/

/-- `INSERT OR REPLACE`: the covered row with the new row's key goes, the new row comes. -/
def replace (t : Table α κ covered key) (a : α) : Table α κ covered key :=
  ⟨(t.delete fun b => covered b && decide (key b = key a)).rows ++ [a],
    unique_append (t.delete _).unique fun _ b hb hcb hk => by
      have := (List.mem_filter.mp hb).2
      simp [hcb, hk] at this⟩

@[simp] theorem rows_replace (t : Table α κ covered key) (a : α) :
    (t.replace a).rows = t.rows.filter (fun b => !(covered b && decide (key b = key a))) ++ [a] :=
  rfl

theorem lookup_replace (t : Table α κ covered key) {a : α} (hc : covered a = true) (k : κ) :
    (t.replace a).lookup k = if key a = k then some a else t.lookup k := by
  have hd := lookup_delete t (fun b => covered b && decide (key b = key a)) k
  have happ : (t.replace a).lookup k =
      ((t.delete fun b => covered b && decide (key b = key a)).lookup k).or
        (if key a = k then some a else none) := by
    unfold lookup replace
    rw [List.find?_append]
    by_cases hk : key a = k <;> simp [hk, hc]
  rw [happ, hd]
  cases h : t.lookup k with
  | none => split <;> simp_all
  | some b =>
    obtain ⟨-, hcb, hkb⟩ := lookup_eq_some_iff.mp h
    by_cases hk : key a = k
    · rw [Option.filter_some_neg (by simp [hk, hkb, hcb]), if_pos hk, if_pos hk,
        Option.none_or]
    · rw [Option.filter_some_pos (by simp [hkb, Ne.symm hk]), if_neg hk, if_neg hk,
        Option.or_none]

end Table

end Relational
