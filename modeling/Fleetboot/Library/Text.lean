import Mathlib.Data.List.Infix
import Mathlib.Data.List.DropRight

/-!
# Python text

The string methods of Python that a string-keyed program rests on, over lists of Unicode
scalar values. `str.isspace` is a finite table and is given as one. The rest of the
character database is not: `Unicode` takes `str.lower`, `str.isalnum`, the printable
characters and the decimal digits as they are, with the facts that programs rely on, so
that what is proved over it holds of every text.

* `strip_strip`, `stripChars_isInfix`: stripping twice strips once, and only shortens.
* `lower_strip_lower`: text that was lowered and stripped stays as it is.
-/

set_option autoImplicit false

namespace Python

/-- `str.isspace` for one character: the Unicode white space and the four information
separators. -/
def isSpace (c : Char) : Bool :=
  let n := c.toNat
  (9 ≤ n && n ≤ 13) || (28 ≤ n && n ≤ 32) || n == 0x85 || n == 0xA0 || n == 0x1680 ||
    (0x2000 ≤ n && n ≤ 0x200A) || n == 0x2028 || n == 0x2029 || n == 0x202F || n == 0x205F ||
    n == 0x3000

/-- A statement about all characters of a text, by a look at each of them. The instance for all
characters would look at every character there is. -/
theorem forall_mem_of_all {P : Char → Prop} [DecidablePred P] {cs : List Char}
    (h : (cs.all fun c => decide (P c)) = true) : ∀ c ∈ cs, P c := fun c hc =>
  of_decide_eq_true (List.all_eq_true.mp h c hc)

/-! ## Stripping -/

/-- `str.strip()` on characters. -/
def stripChars (cs : List Char) : List Char :=
  (cs.dropWhile isSpace).rdropWhile isSpace

/-- `str.strip()`. -/
def strip (s : String) : String := String.ofList (stripChars s.toList)

theorem stripChars_isInfix (cs : List Char) : stripChars cs <:+: cs :=
  (List.rdropWhile_prefix isSpace (cs.dropWhile isSpace)).isInfix.trans
    (List.dropWhile_suffix isSpace).isInfix

theorem dropWhile_eq_self_of_head {p : Char → Bool} {cs : List Char}
    (h : ∀ c ∈ cs.head?, p c = false) : cs.dropWhile p = cs := by
  cases cs with
  | nil => rfl
  | cons c cs => simp [h c rfl]

/-- The text after `stripChars` does not start with a space. -/
theorem head_stripChars (cs : List Char) : ∀ c ∈ (stripChars cs).head?, isSpace c = false := by
  intro c hc
  have hpre : stripChars cs <+: cs.dropWhile isSpace := List.rdropWhile_prefix isSpace _
  cases hs : stripChars cs with
  | nil =>
    rw [hs] at hc
    cases hc
  | cons d ds =>
    rw [hs] at hc hpre
    cases hc
    have hd : (cs.dropWhile isSpace).head? = some c := by
      obtain ⟨rest, hrest⟩ := hpre
      rw [← hrest]
      rfl
    have hne : cs.dropWhile isSpace ≠ [] := by
      intro h
      rw [h] at hd
      cases hd
    have := List.head_dropWhile_not isSpace hne
    rw [List.head?_eq_some_head hne] at hd
    cases hd
    simpa using this

theorem stripChars_stripChars (cs : List Char) : stripChars (stripChars cs) = stripChars cs := by
  rw [stripChars, dropWhile_eq_self_of_head (head_stripChars cs)]
  exact List.rdropWhile_idempotent isSpace _

theorem strip_strip (s : String) : strip (strip s) = strip s := by
  simp [strip, stripChars_stripChars]

/-- `s.replace(old, new)` for one character by another. -/
def replaceChar (s : String) (old new : Char) : String :=
  String.ofList (s.toList.map fun c => if c == old then new else c)

/-- `needle in s`. -/
def containsText (s needle : String) : Bool :=
  s.toList.tails.any fun tail => needle.toList.isPrefixOf tail

theorem containsText_iff {s needle : String} :
    containsText s needle = true ↔ needle.toList <:+: s.toList := by
  simp only [containsText, List.any_eq_true, List.mem_tails, List.isPrefixOf_iff_prefix,
    List.infix_iff_prefix_suffix]
  exact exists_congr fun _ => and_comm

/-- The non-empty pieces of `cs` between the characters that satisfy `p`. -/
def pieces (p : Char → Bool) (cs : List Char) : List (List Char) :=
  (cs.splitOnP p).filter fun piece => !piece.isEmpty

/-- `" ".join(s.split())`. -/
def singleSpaced (s : String) : String :=
  " ".intercalate ((pieces isSpace s.toList).map String.ofList)

/-! ## The character database -/

/-- What Python takes from the Unicode character database, with the documented facts that
programs rely on when they normalise and check keys: ASCII behaves as usual, lower-case text
stays as it is, and lowering makes no punctuation out of letters. -/
class Unicode where
  lower : List Char → List Char
  isAlnum : Char → Bool
  isPrintable : Char → Bool
  decimal : Char → Option Nat
  lower_ascii : ∀ cs : List Char, (∀ c ∈ cs, c.toNat < 128) → lower cs = cs.map Char.toLower
  lower_of_infix : ∀ cs ds : List Char, ds <:+: lower cs → lower ds = ds
  mem_of_mem_lower : ∀ (cs : List Char) (c : Char), c = '-' ∨ c = '.' → c ∈ lower cs → c ∈ cs
  isAlnum_ascii : ∀ c : Char, c.toNat < 128 → isAlnum c = c.isAlphanum
  decimal_ascii : ∀ c : Char, c.toNat < 128 →
    decimal c = if c.isDigit then some (c.toNat - 48) else none

theorem toLower_of_not_upper {c : Char} (h : ¬ (c.val ≥ 'A'.val ∧ c.val ≤ 'Z'.val)) :
    c.toLower = c := by
  unfold Char.toLower
  rw [dif_neg h]

theorem val_toLower_of_upper {c : Char} (h : c.val ≥ 'A'.val ∧ c.val ≤ 'Z'.val) :
    97 ≤ c.toLower.val.toNat := by
  unfold Char.toLower
  rw [dif_pos h]
  have hlow : 65 ≤ c.val.toNat := h.1
  have hhigh : c.val.toNat ≤ 90 := h.2
  change 97 ≤ (c.val + ('a'.val - 'A'.val)).toNat
  rw [UInt32.toNat_add]
  have : ('a'.val - 'A'.val).toNat = 32 := rfl
  omega

theorem toLower_toLower (c : Char) : c.toLower.toLower = c.toLower := by
  by_cases h : c.val ≥ 'A'.val ∧ c.val ≤ 'Z'.val
  · refine toLower_of_not_upper fun hup => ?_
    have hlow := val_toLower_of_upper h
    have hhigh : c.toLower.val.toNat ≤ 90 := hup.2
    omega
  · rw [toLower_of_not_upper h, toLower_of_not_upper h]

theorem toLower_eq_of_lt {c : Char} (h : c.toLower.val.toNat < 97) : c.toLower = c := by
  refine toLower_of_not_upper fun hup => ?_
  have := val_toLower_of_upper hup
  omega

/-- The ASCII part of the database, in which no other letter has a case. -/
@[reducible] def ascii : Unicode where
  lower cs := cs.map Char.toLower
  isAlnum c := c.isAlphanum
  isPrintable c := decide (c.toNat < 128)
  decimal c := if c.isDigit then some (c.toNat - 48) else none
  lower_ascii _ _ := rfl
  lower_of_infix := by
    intro cs ds h
    have hmem : ∀ d ∈ ds, d.toLower = d := by
      intro d hd
      obtain ⟨c, -, rfl⟩ := List.mem_map.mp (h.subset hd)
      exact toLower_toLower c
    exact (List.map_congr_left hmem).trans (List.map_id ds)
  mem_of_mem_lower := by
    rintro cs c hc hmem
    obtain ⟨d, hd, rfl⟩ := List.mem_map.mp hmem
    have hlt : d.toLower.val.toNat < 97 := by
      rcases hc with hc | hc <;> (rw [hc]; decide)
    rwa [toLower_eq_of_lt hlt]
  isAlnum_ascii _ _ := rfl
  decimal_ascii _ _ := rfl

variable [Unicode]

/-- `str.lower()`. -/
def lower (s : String) : String := String.ofList (Unicode.lower s.toList)

theorem lower_strip_lower (cs : List Char) :
    Unicode.lower (stripChars (Unicode.lower cs)) = stripChars (Unicode.lower cs) :=
  Unicode.lower_of_infix cs _ (stripChars_isInfix _)

/-- `str.isalnum()`: at least one character, and every one alphanumeric. -/
def isAlnum (s : String) : Bool := !s.toList.isEmpty && s.toList.all Unicode.isAlnum

/-! ## `repr` -/

/-- The `digits` low hexadecimal digits of `n`, as in `\x1b` and `\u200b`. -/
def hexDigits : Nat → Nat → List Char
  | 0, _ => []
  | digits + 1, n => hexDigits digits (n / 16) ++ [Nat.digitChar (n % 16)]

def reprChar (quote c : Char) : List Char :=
  if c == quote || c == '\\' then ['\\', c]
  else if c == '\n' then ['\\', 'n']
  else if c == '\r' then ['\\', 'r']
  else if c == '\t' then ['\\', 't']
  else if 0x20 ≤ c.toNat && c.toNat < 0x7F then [c]
  else if 0x7F < c.toNat && Unicode.isPrintable c then [c]
  else if c.toNat < 0x100 then '\\' :: 'x' :: hexDigits 2 c.toNat
  else if c.toNat < 0x10000 then '\\' :: 'u' :: hexDigits 4 c.toNat
  else '\\' :: 'U' :: hexDigits 8 c.toNat

/-- `repr` of a string: double quotes only when that saves escaping a single quote. -/
def repr (s : String) : String :=
  let quote := if s.toList.contains '\'' && !s.toList.contains '"' then '"' else '\''
  String.ofList (quote :: s.toList.flatMap (reprChar quote) ++ [quote])

end Python
