import Mathlib.Computability.RegularExpressions

/-!
# Regular expressions over character classes

What patterns such as `a[b-d]*(e|f)` need on top of `RegularExpression`: literal text, classes,
and alternatives, each with the texts that it matches.
-/

set_option autoImplicit false

namespace Pattern

open RegularExpression

universe u

variable {α : Type u}

/-- The pattern that only this text matches. -/
def literal (text : List α) : RegularExpression α := text.foldr (fun a rest => char a * rest) 1

/-- `(…|…)`. -/
def anyOf (patterns : List (RegularExpression α)) : RegularExpression α :=
  patterns.foldr (fun pattern rest => pattern + rest) 0

/-- `[…]`. -/
def oneOf (chars : List α) : RegularExpression α := anyOf (chars.map char)

section Rmatch

variable [DecidableEq α] {text : List α}

theorem literal_rmatch_iff {literalText : List α} :
    (literal literalText).rmatch text ↔ text = literalText := by
  induction literalText generalizing text with
  | nil => exact one_rmatch_iff text
  | cons a rest ih =>
    have hcons : literal (a :: rest) = char a * literal rest := rfl
    rw [hcons, mul_rmatch_iff]
    constructor
    · rintro ⟨first, last, rfl, hfirst, hlast⟩
      rw [(char_rmatch_iff a first).mp hfirst, ih.mp hlast]
      rfl
    · rintro rfl
      exact ⟨[a], rest, rfl, (char_rmatch_iff a [a]).mpr rfl, ih.mpr rfl⟩

theorem anyOf_rmatch_iff {patterns : List (RegularExpression α)} :
    (anyOf patterns).rmatch text ↔ ∃ pattern ∈ patterns, pattern.rmatch text := by
  induction patterns with
  | nil => simp [anyOf]
  | cons pattern patterns ih =>
    have hcons : anyOf (pattern :: patterns) = pattern + anyOf patterns := rfl
    rw [hcons, add_rmatch_iff, ih, List.exists_mem_cons_iff]

theorem oneOf_rmatch_iff {chars : List α} :
    (oneOf chars).rmatch text ↔ ∃ a ∈ chars, text = [a] := by
  unfold oneOf
  rw [anyOf_rmatch_iff]
  constructor
  · rintro ⟨pattern, hpattern, hmatch⟩
    obtain ⟨a, ha, rfl⟩ := List.mem_map.mp hpattern
    exact ⟨a, ha, (char_rmatch_iff a text).mp hmatch⟩
  · rintro ⟨a, ha, rfl⟩
    exact ⟨char a, List.mem_map_of_mem ha, (char_rmatch_iff a [a]).mpr rfl⟩

/-- `[…]*` matches the texts over the class. -/
theorem star_oneOf_rmatch_iff {chars : List α} :
    (star (oneOf chars)).rmatch text ↔ ∀ a ∈ text, a ∈ chars := by
  rw [star_rmatch_iff]
  constructor
  · rintro ⟨parts, rfl, hparts⟩ a ha
    obtain ⟨part, hpart, ha⟩ := List.mem_flatten.mp ha
    obtain ⟨b, hb, rfl⟩ := oneOf_rmatch_iff.mp (hparts part hpart).2
    rwa [List.mem_singleton.mp ha]
  · intro hall
    refine ⟨text.map fun a => [a], ?_, fun part hpart => ?_⟩
    · induction text with
      | nil => rfl
      | cons a text ih =>
        rw [List.map_cons, List.flatten_cons, ← ih fun b hb => hall b (List.mem_cons_of_mem _ hb)]
        rfl
    · obtain ⟨a, ha, rfl⟩ := List.mem_map.mp hpart
      exact ⟨List.cons_ne_nil a [], oneOf_rmatch_iff.mpr ⟨a, hall a ha, rfl⟩⟩

end Rmatch

/-- The characters from one to another, `a-z`. -/
def charRange (first last : Char) : List Char :=
  (List.range' first.toNat (last.toNat + 1 - first.toNat)).map Char.ofNat

theorem mem_charRange_iff {first last c : Char} (h : last.toNat < 0xD800) :
    c ∈ charRange first last ↔ first.toNat ≤ c.toNat ∧ c.toNat ≤ last.toNat := by
  unfold charRange
  rw [List.mem_map]
  constructor
  · rintro ⟨n, hn, rfl⟩
    rw [List.mem_range'_1] at hn
    have hvalid : n.isValidChar := Or.inl (by omega)
    have hself : (Char.ofNat n).toNat = n := by
      unfold Char.ofNat
      rw [dif_pos hvalid]
      rfl
    rw [hself]
    omega
  · rintro ⟨hfirst, hlast⟩
    refine ⟨c.toNat, ?_, Char.ofNat_toNat c⟩
    rw [List.mem_range'_1]
    omega

end Pattern
