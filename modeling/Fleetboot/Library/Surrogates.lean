import Mathlib.Data.List.Lex
import Mathlib.Data.Nat.Basic
import Fleetboot.Library.Words

/-!
# Text with surrogates

A Python string is a list of code points, and a code point may be a surrogate, as JSON sends it
with `"\ud800"`. Such a string can be stripped, split and compared like any other. It has no
UTF-8.

* `RawText.encode_eq_some_iff`: what can be encoded is text.
* `RawText.strip_strip`, `RawText.strip_singleSpaced`: stripped text is stripped.
* `RawText.encode_strip_eq_none_iff`: stripping makes no difference to what has UTF-8.
* `RawText.strip_ofString`, `RawText.singleSpaced_ofString`: on text they are the methods for text.
-/

set_option autoImplicit false

namespace Python

/-- A code point: a Unicode scalar value, or one of the 2048 surrogates. -/
inductive CodePoint
  | scalar (c : Char)
  | surrogate (n : Fin 2048)
  deriving DecidableEq

namespace CodePoint

/-- `str.isspace` for one code point. -/
def isSpace : CodePoint → Bool
  | scalar c => Python.isSpace c
  | surrogate _ => false

def char? : CodePoint → Option Char
  | scalar c => some c
  | surrogate _ => none

/-- `ord`. -/
def toNat : CodePoint → Nat
  | scalar c => c.toNat
  | surrogate n => 0xD800 + n

end CodePoint

/-- A `str` of Python. -/
abbrev RawText := List CodePoint

namespace RawText

def ofString (s : String) : RawText := s.toList.map .scalar

/-- `t <= t'`, code point by code point. -/
def Le (t t' : RawText) : Prop := t.map CodePoint.toNat ≤ t'.map CodePoint.toNat

instance (t t' : RawText) : Decidable (Le t t') :=
  inferInstanceAs (Decidable (t.map CodePoint.toNat ≤ t'.map CodePoint.toNat))

/-- The text that `str.encode()` encodes, when it does. -/
def encode (t : RawText) : Option String := (t.mapM CodePoint.char?).map String.ofList

/-- `str.strip()`. -/
def strip (t : RawText) : RawText :=
  (t.dropWhile CodePoint.isSpace).rdropWhile CodePoint.isSpace

/-- `str.split()`. -/
def words (t : RawText) : List RawText :=
  (t.splitOnP CodePoint.isSpace).filter fun word => !word.isEmpty

/-- `" ".join(t.split())`. -/
def singleSpaced (t : RawText) : RawText := [CodePoint.scalar ' '].intercalate (words t)

/-! ## Encoding -/

@[simp] theorem ofString_append (s s' : String) :
    ofString (s ++ s') = ofString s ++ ofString s' := by
  simp [ofString]

@[simp] theorem length_ofString (s : String) : (ofString s).length = s.length := by
  rw [ofString, List.length_map, String.length_toList]

theorem ofString_injective : Function.Injective ofString := by
  intro s s' h
  refine String.toList_injective (List.map_injective_iff.mpr ?_ h)
  intro c c' hc
  exact CodePoint.scalar.inj hc

@[simp] theorem ofString_inj {s s' : String} : ofString s = ofString s' ↔ s = s' :=
  ofString_injective.eq_iff

theorem encode_eq_some_iff {t : RawText} {s : String} : t.encode = some s ↔ t = ofString s := by
  have hchars : ∀ (t : RawText) (cs : List Char),
      t.mapM CodePoint.char? = some cs ↔ t = cs.map .scalar := by
    intro t
    induction t with
    | nil =>
      intro cs
      cases cs <;> simp
    | cons c t ih =>
      intro cs
      cases c with
      | surrogate n => cases cs <;> simp [CodePoint.char?]
      | scalar c =>
        rw [List.mapM_cons]
        cases htail : t.mapM CodePoint.char? with
        | none =>
          simp only [CodePoint.char?, Option.pure_def, Option.bind_eq_bind, Option.bind_some,
            Option.bind_none, reduceCtorEq, false_iff]
          intro h
          cases cs with
          | nil => cases h
          | cons d cs =>
            rw [(ih cs).mpr (List.cons.inj h).2] at htail
            cases htail
        | some ds =>
          rw [(ih ds).mp htail]
          cases cs with
          | nil => simp [CodePoint.char?]
          | cons d cs =>
            simp [CodePoint.char?,
              (List.map_injective_iff.mpr fun _ _ => CodePoint.scalar.inj).eq_iff]
  unfold encode ofString
  rw [Option.map_eq_some_iff]
  constructor
  · rintro ⟨cs, hcs, rfl⟩
    rw [(hchars t cs).mp hcs, String.toList_ofList]
  · intro h
    exact ⟨s.toList, (hchars t _).mpr h, String.ofList_toList⟩

@[simp] theorem encode_ofString (s : String) : (ofString s).encode = some s :=
  encode_eq_some_iff.mpr rfl

/-- A part of what can be encoded is text. -/
theorem exists_ofString_of_subset {t t' : RawText} {s : String} (h : t.encode = some s)
    (hsub : t' ⊆ t) : ∃ s', t' = ofString s' := by
  rw [encode_eq_some_iff] at h
  subst h
  induction t' with
  | nil => exact ⟨"", rfl⟩
  | cons c t' ih =>
    obtain ⟨hc, hrest⟩ := List.cons_subset.mp hsub
    obtain ⟨d, -, rfl⟩ := List.mem_map.mp hc
    obtain ⟨s', rfl⟩ := ih hrest
    exact ⟨String.ofList (d :: s'.toList), by simp [ofString]⟩

theorem exists_ofString_of_scalar {t : RawText} (h : ∀ c ∈ t, ∃ d, c = .scalar d) :
    ∃ s, t = ofString s := by
  induction t with
  | nil => exact ⟨"", rfl⟩
  | cons c t ih =>
    obtain ⟨⟨d, rfl⟩, hrest⟩ := List.forall_mem_cons.mp h
    obtain ⟨s, rfl⟩ := ih hrest
    exact ⟨String.ofList (d :: s.toList), by simp [ofString]⟩

theorem ofString_intercalate (sep : String) (parts : List String) :
    ofString (sep.intercalate parts) = (ofString sep).intercalate (parts.map ofString) := by
  induction parts with
  | nil => rfl
  | cons part parts ih =>
    cases parts with
    | nil => simp
    | cons next rest =>
      rw [List.map_cons] at ih
      rw [String.intercalate_cons_cons, ofString_append, ofString_append, ih, List.map_cons,
        List.map_cons, List.intercalate_cons_cons]

/-! ## Stripping -/

theorem strip_eq_self {t : RawText} (hhead : ∀ c ∈ t.head?, c.isSpace = false)
    (hlast : ∀ c ∈ t.getLast?, c.isSpace = false) : strip t = t := by
  unfold strip
  have hdrop : t.dropWhile CodePoint.isSpace = t := by
    cases t with
    | nil => rfl
    | cons c t => rw [List.dropWhile_cons_of_neg (by simp [hhead c rfl])]
  rw [hdrop, List.rdropWhile_eq_self_iff]
  intro hne
  rw [hlast _ (List.getLast?_eq_some_getLast hne)]
  exact Bool.false_ne_true

theorem head_strip (t : RawText) : ∀ c ∈ (strip t).head?, c.isSpace = false := by
  intro c hc
  have hpre : strip t <+: t.dropWhile CodePoint.isSpace := List.rdropWhile_prefix _ _
  obtain ⟨rest, hrest⟩ := hpre
  have hhead : (t.dropWhile CodePoint.isSpace).head? = some c := by
    rw [← hrest, List.head?_append, Option.mem_def.mp hc]
    rfl
  have hne : t.dropWhile CodePoint.isSpace ≠ [] := by
    intro h
    rw [h] at hhead
    cases hhead
  have := List.head_dropWhile_not CodePoint.isSpace hne
  rw [List.head?_eq_some_head hne] at hhead
  cases hhead
  simpa using this

theorem last_strip (t : RawText) : ∀ c ∈ (strip t).getLast?, c.isSpace = false := by
  intro c hc
  have hne : strip t ≠ [] := by
    intro h
    rw [h] at hc
    cases hc
  have := List.rdropWhile_last_not CodePoint.isSpace (t.dropWhile CodePoint.isSpace) hne
  rw [Option.mem_def, List.getLast?_eq_some_getLast hne] at hc
  cases hc
  exact Bool.eq_false_iff.mpr this

theorem strip_strip (t : RawText) : strip (strip t) = strip t :=
  strip_eq_self (head_strip t) (last_strip t)

theorem strip_ofString (s : String) : strip (ofString s) = ofString (Python.strip s) := by
  unfold strip ofString Python.strip stripChars List.rdropWhile
  rw [List.dropWhile_map, ← List.map_reverse, List.dropWhile_map, ← List.map_reverse,
    String.toList_ofList]
  rfl

theorem mem_strip_or_isSpace {t : RawText} {c : CodePoint} (hc : c ∈ t) :
    c ∈ strip t ∨ c.isSpace = true := by
  rw [← List.takeWhile_append_dropWhile (p := CodePoint.isSpace) (l := t), List.mem_append] at hc
  rcases hc with hfront | hrest
  · exact .inr (List.mem_takeWhile_imp hfront)
  · rw [← @List.rdropWhile_append_rtakeWhile _ CodePoint.isSpace (t.dropWhile CodePoint.isSpace),
      List.mem_append] at hrest
    rcases hrest with hkept | hback
    · exact .inl hkept
    · exact .inr (List.mem_rtakeWhile_imp hback)

/-- White space has UTF-8, so stripping makes no difference to what has. -/
theorem encode_strip_eq_none_iff {t : RawText} : (strip t).encode = none ↔ t.encode = none := by
  constructor
  · intro hstrip
    cases htext : t.encode with
    | none => rfl
    | some s =>
      rw [encode_eq_some_iff.mp htext, strip_ofString, encode_ofString] at hstrip
      cases hstrip
  · intro hnone
    cases hstrip : (strip t).encode with
    | none => rfl
    | some s =>
      have hscalar : ∀ c ∈ t, ∃ d, c = .scalar d := by
        intro c hc
        rcases mem_strip_or_isSpace hc with hkept | hspace
        · rw [encode_eq_some_iff.mp hstrip] at hkept
          obtain ⟨d, -, rfl⟩ := List.mem_map.mp hkept
          exact ⟨d, rfl⟩
        · cases c with
          | scalar d => exact ⟨d, rfl⟩
          | surrogate n => cases hspace
      obtain ⟨s', hs'⟩ := exists_ofString_of_scalar hscalar
      rw [hs', encode_ofString] at hnone
      cases hnone

/-! ## Words -/

theorem not_isSpace_of_mem_word {t word : RawText} (hword : word ∈ words t) :
    ∀ c ∈ word, c.isSpace = false :=
  not_of_mem_splitOnP (List.mem_filter.mp hword).1

theorem word_ne_nil {t word : RawText} (hword : word ∈ words t) : word ≠ [] := by
  simpa using (List.mem_filter.mp hword).2

/-- The only white space between words is the single space. -/
theorem eq_space_of_mem_singleSpaced {t : RawText} {c : CodePoint} (hc : c ∈ singleSpaced t)
    (hspace : c.isSpace = true) : c = .scalar ' ' := by
  rcases mem_join hc with heq | ⟨word, hword, hmem⟩
  · exact heq
  · rw [not_isSpace_of_mem_word hword c hmem] at hspace
    cases hspace

theorem strip_singleSpaced (t : RawText) : strip (singleSpaced t) = singleSpaced t := by
  have hhead : ∀ ws : List RawText, (∀ word ∈ ws, word ≠ []) →
      (∀ word ∈ ws, ∀ c ∈ word, c.isSpace = false) →
      (∀ c ∈ ([CodePoint.scalar ' '].intercalate ws).head?, c.isSpace = false) ∧
      ∀ c ∈ ([CodePoint.scalar ' '].intercalate ws).getLast?, c.isSpace = false := by
    intro ws hne hws
    induction ws with
    | nil => simp [List.intercalate_nil]
    | cons word ws ih =>
      have hword := hws word (List.mem_cons_self ..)
      have hword_ne := hne word (List.mem_cons_self ..)
      cases ws with
      | nil =>
        rw [List.intercalate_singleton]
        exact ⟨fun c hc => hword c (List.mem_of_mem_head? hc),
          fun c hc => hword c (List.mem_of_mem_getLast? hc)⟩
      | cons next rest =>
        obtain ⟨-, hlast⟩ := ih (fun w hw => hne w (List.mem_cons_of_mem _ hw))
          (fun w hw => hws w (List.mem_cons_of_mem _ hw))
        have hrest : [CodePoint.scalar ' '].intercalate (next :: rest) ≠ [] := by
          intro h
          have hnext := hne next (List.mem_cons_of_mem _ (List.mem_cons_self ..))
          cases rest with
          | nil => exact hnext (by simpa using h)
          | cons _ _ => simp [List.intercalate_cons_cons] at h
        rw [List.intercalate_cons_cons]
        constructor
        · intro c hc
          rw [List.append_assoc, List.head?_append_of_ne_nil _ hword_ne] at hc
          exact hword c (List.mem_of_mem_head? hc)
        · intro c hc
          rw [List.getLast?_append_of_ne_nil _ hrest] at hc
          exact hlast c hc
  obtain ⟨hfirst, hlast⟩ := hhead (words t) (fun _ => word_ne_nil)
    (fun _ => not_isSpace_of_mem_word)
  exact strip_eq_self hfirst hlast

/-! ## Text -/

theorem singleSpaced_ofString (s : String) :
    singleSpaced (ofString s) = ofString (Python.singleSpaced s) := by
  have hjoin : ∀ ws : List (List Char), [CodePoint.scalar ' '].intercalate
      (ws.map (List.map CodePoint.scalar)) = ([' '].intercalate ws).map CodePoint.scalar := by
    intro ws
    induction ws with
    | nil => rfl
    | cons word ws ih =>
      cases ws with
      | nil => simp
      | cons next rest =>
        rw [List.map_cons] at ih
        rw [List.map_cons, List.map_cons, List.intercalate_cons_cons, ih,
          List.intercalate_cons_cons]
        simp
  unfold singleSpaced words ofString Python.singleSpaced pieces
  rw [splitOnP_map, List.filter_map, String.toList_intercalate, List.map_map]
  have hlists : String.toList ∘ String.ofList = id := funext fun _ => String.toList_ofList
  have hkeep : ((fun word : RawText => !word.isEmpty) ∘ List.map CodePoint.scalar) =
      fun piece : List Char => !piece.isEmpty := by
    funext piece
    cases piece <;> rfl
  rw [hlists, hkeep, List.map_id, hjoin]
  rfl

end RawText

end Python
