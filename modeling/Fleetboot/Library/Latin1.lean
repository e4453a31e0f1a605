import Fleetboot.Library.Text

/-!
# Latin-1

Texts of the first 256 characters, as a byte is decoded into each of them, and what the character
database says of their case.

* `toNat_of_mem_decodeLatin1`: decoded bytes are such texts.
* `lowerLatin1_ascii_iff`: lowering makes no ASCII out of other characters.
-/

set_option autoImplicit false

namespace Python

/-- `bytes.decode("latin-1")`. -/
def decodeLatin1 (bytes : List UInt8) : String :=
  String.ofList (bytes.map fun byte => Char.ofNat byte.toNat)

theorem toNat_ofNat {n : Nat} (h : n.isValidChar) : (Char.ofNat n).toNat = n := by
  unfold Char.ofNat
  rw [dif_pos h]
  rfl

theorem toNat_of_mem_decodeLatin1 {bytes : List UInt8} :
    ∀ c ∈ (decodeLatin1 bytes).toList, c.toNat < 256 := by
  intro c hc
  rw [decodeLatin1, String.toList_ofList] at hc
  obtain ⟨byte, -, rfl⟩ := List.mem_map.mp hc
  have hbyte : byte.toNat < 256 := byte.toNat_lt
  rwa [toNat_ofNat (.inl (by omega))]

/-- The lower case of a character of the first 256. -/
def lowerLatin1 (c : Char) : Char :=
  if c.toNat < 128 then c.toLower
  else if 0xC0 ≤ c.toNat ∧ c.toNat ≤ 0xDE ∧ c.toNat ≠ 0xD7 then Char.ofNat (c.toNat + 32)
  else c

theorem toNat_toLower_lt {c : Char} (h : c.toNat < 128) : c.toLower.toNat < 128 := by
  unfold Char.toLower
  split
  · rename_i hupper
    have hhigh : c.val.toNat ≤ 90 := hupper.2
    change (c.val + ('a'.val - 'A'.val)).toNat < 128
    rw [UInt32.toNat_add]
    have hshift : ('a'.val - 'A'.val).toNat = 32 := rfl
    omega
  · exact h

theorem lowerLatin1_of_ascii {c : Char} (h : c.toNat < 128) : lowerLatin1 c = c.toLower :=
  if_pos h

theorem toNat_lowerLatin1_of_upper {c : Char} (hascii : ¬ c.toNat < 128)
    (h : 0xC0 ≤ c.toNat ∧ c.toNat ≤ 0xDE ∧ c.toNat ≠ 0xD7) :
    (lowerLatin1 c).toNat = c.toNat + 32 := by
  rw [lowerLatin1, if_neg hascii, if_pos h, toNat_ofNat (.inl (by omega))]

/-- **Case and ASCII.** -/
theorem lowerLatin1_ascii_iff {c : Char} : (lowerLatin1 c).toNat < 128 ↔ c.toNat < 128 := by
  by_cases hascii : c.toNat < 128
  · rw [lowerLatin1_of_ascii hascii]
    exact iff_of_true (toNat_toLower_lt hascii) hascii
  · refine iff_of_false ?_ hascii
    by_cases hupper : 0xC0 ≤ c.toNat ∧ c.toNat ≤ 0xDE ∧ c.toNat ≠ 0xD7
    · rw [toNat_lowerLatin1_of_upper hascii hupper]
      omega
    · rw [lowerLatin1, if_neg hascii, if_neg hupper]
      exact hascii

theorem lowerLatin1_lowerLatin1 (c : Char) : lowerLatin1 (lowerLatin1 c) = lowerLatin1 c := by
  by_cases hascii : c.toNat < 128
  · rw [lowerLatin1_of_ascii hascii, lowerLatin1_of_ascii (toNat_toLower_lt hascii),
      toLower_toLower]
  · by_cases hupper : 0xC0 ≤ c.toNat ∧ c.toNat ≤ 0xDE ∧ c.toNat ≠ 0xD7
    · have hlower := toNat_lowerLatin1_of_upper hascii hupper
      generalize lowerLatin1 c = d at hlower ⊢
      rw [lowerLatin1, if_neg (by omega), if_neg (by omega)]
    · have hself : lowerLatin1 c = c := by rw [lowerLatin1, if_neg hascii, if_neg hupper]
      rw [hself, hself]

/-- What is lowered to a character before the small letters was that character. -/
theorem eq_of_lowerLatin1_lt {c : Char} (h : (lowerLatin1 c).toNat < 97) : lowerLatin1 c = c := by
  have hascii : c.toNat < 128 := lowerLatin1_ascii_iff.mp (by omega)
  rw [lowerLatin1_of_ascii hascii] at h ⊢
  exact toLower_eq_of_lt h

/-- White space has no case. -/
theorem lowerLatin1_of_isSpace {c : Char} (h : isSpace c = true) : lowerLatin1 c = c := by
  unfold isSpace at h
  simp only [Bool.or_eq_true, Bool.and_eq_true, decide_eq_true_eq, beq_iff_eq] at h
  by_cases hascii : c.toNat < 128
  · rw [lowerLatin1_of_ascii hascii]
    refine toLower_of_not_upper fun hupper => ?_
    have hlow : 65 ≤ c.toNat := hupper.1
    have hhigh : c.toNat ≤ 90 := hupper.2
    omega
  · rw [lowerLatin1, if_neg hascii, if_neg (by omega)]

/-- The character database with the cases of the first 256 characters. -/
class Latin1Unicode extends Unicode where
  lower_latin1 : ∀ cs : List Char, (∀ c ∈ cs, c.toNat < 256) → lower cs = cs.map lowerLatin1

/-- The database in which no other letter has a case. -/
@[reducible] def latin1 : Latin1Unicode where
  lower cs := cs.map lowerLatin1
  isAlnum c := c.isAlphanum
  isPrintable c := decide (c.toNat < 128)
  decimal c := if c.isDigit then some (c.toNat - 48) else none
  lower_ascii _ h := List.map_congr_left fun c hc => lowerLatin1_of_ascii (h c hc)
  lower_of_infix := by
    intro cs ds h
    have hmem : ∀ d ∈ ds, lowerLatin1 d = d := by
      intro d hd
      obtain ⟨c, -, rfl⟩ := List.mem_map.mp (h.subset hd)
      exact lowerLatin1_lowerLatin1 c
    exact (List.map_congr_left hmem).trans (List.map_id ds)
  mem_of_mem_lower := by
    rintro cs c hc hmem
    obtain ⟨d, hd, rfl⟩ := List.mem_map.mp hmem
    have hlt : (lowerLatin1 d).toNat < 97 := by
      rcases hc with hc | hc <;> (rw [hc]; decide)
    rwa [eq_of_lowerLatin1_lt hlt]
  isAlnum_ascii := ascii.isAlnum_ascii
  decimal_ascii := ascii.decimal_ascii
  lower_latin1 _ _ := rfl

end Python
