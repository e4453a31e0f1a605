import Mathlib.Data.List.Basic
import Mathlib.Tactic.Common

/-!
# Text in a form

What becomes of a text that a template puts into a textarea and a browser submits unchanged: the
template escapes it, the browser reads the markup, drops one newline behind the opening tag, and
ends every line with `\r\n`.

* `unescape_escape`: the browser reads what was escaped.
* `onlyCrlf_crlf`, `nul_not_mem_submitted`: what is submitted has no other line ends and no NUL.
-/

set_option autoImplicit false

namespace Html

/-- `markupsafe.escape`, of one character. -/
def escapeChar (c : Char) : List Char :=
  if c = '&' then ['&', 'a', 'm', 'p', ';']
  else if c = '<' then ['&', 'l', 't', ';']
  else if c = '>' then ['&', 'g', 't', ';']
  else if c = '\'' then ['&', '#', '3', '9', ';']
  else if c = '"' then ['&', '#', '3', '4', ';']
  else [c]

def escape (cs : List Char) : List Char := cs.flatMap escapeChar

/-- The character references that `escape` writes are read. -/
def unescape : List Char → List Char
  | '&' :: 'a' :: 'm' :: 'p' :: ';' :: rest => '&' :: unescape rest
  | '&' :: 'l' :: 't' :: ';' :: rest => '<' :: unescape rest
  | '&' :: 'g' :: 't' :: ';' :: rest => '>' :: unescape rest
  | '&' :: '#' :: '3' :: '9' :: ';' :: rest => '\'' :: unescape rest
  | '&' :: '#' :: '3' :: '4' :: ';' :: rest => '"' :: unescape rest
  | c :: rest => c :: unescape rest
  | [] => []

/-- A NUL in a document is read as U+FFFD. -/
def replaceNul (cs : List Char) : List Char :=
  cs.map fun c => if c = '\x00' then '\uFFFD' else c

/-- One newline directly behind the opening tag is dropped. -/
def dropNewline : List Char → List Char
  | '\n' :: rest => rest
  | cs => cs

/-- Every line is ended with `\r\n`. The flag says that the last character was a `\r`. -/
def crlf : Bool → List Char → List Char
  | _, [] => []
  | afterReturn, c :: cs =>
    if c = '\r' then '\r' :: '\n' :: crlf true cs
    else if c = '\n' then
      if afterReturn then crlf false cs else '\r' :: '\n' :: crlf false cs
    else c :: crlf false cs

/-- What is submitted of a textarea with this markup in it. -/
def submitted (markup : List Char) : List Char :=
  crlf false (dropNewline (replaceNul (unescape markup)))

/-- Every `\r` and `\n` is part of a `\r\n`. -/
def OnlyCrlf : List Char → Prop
  | [] => True
  | '\r' :: '\n' :: rest => OnlyCrlf rest
  | c :: rest => c ≠ '\r' ∧ c ≠ '\n' ∧ OnlyCrlf rest

section

variable {cs : List Char}

theorem unescape_cons {c : Char} (h : c ≠ '&') : unescape (c :: cs) = c :: unescape cs := by
  rw [unescape]
  all_goals
    rintro rest rfl
    exact absurd rfl h

theorem unescape_escapeChar_append (c : Char) (rest : List Char) :
    unescape (escapeChar c ++ rest) = c :: unescape rest := by
  unfold escapeChar
  split_ifs with hamp hlt hgt hquote hdouble
  · rw [hamp]
    rfl
  · rw [hlt]
    rfl
  · rw [hgt]
    rfl
  · rw [hquote]
    rfl
  · rw [hdouble]
    rfl
  · exact unescape_cons hamp

theorem unescape_escape (cs : List Char) : unescape (escape cs) = cs := by
  induction cs with
  | nil => rfl
  | cons c cs ih =>
    unfold escape at ih ⊢
    rw [List.flatMap_cons, unescape_escapeChar_append, ih]

theorem replaceNul_eq_self (h : '\x00' ∉ cs) : replaceNul cs = cs := by
  unfold replaceNul
  refine (List.map_congr_left fun c hc => if_neg ?_).trans (List.map_id cs)
  rintro rfl
  exact h hc

theorem nul_not_mem_replaceNul (cs : List Char) : '\x00' ∉ replaceNul cs := by
  intro h
  obtain ⟨c, -, hc⟩ := List.mem_map.mp h
  split at hc
  · exact absurd hc (by decide)
  · rename_i hne
    exact hne hc

theorem dropNewline_suffix (cs : List Char) : dropNewline cs <:+ cs := by
  unfold dropNewline
  split
  · exact List.suffix_cons _ _
  · exact List.suffix_rfl

theorem dropNewline_eq_self (h : cs.head? ≠ some '\n') : dropNewline cs = cs := by
  unfold dropNewline
  split
  · exact absurd rfl h
  · rfl

theorem mem_crlf {c : Char} {flag : Bool} (h : c ∈ crlf flag cs) :
    c ∈ cs ∨ c = '\r' ∨ c = '\n' := by
  induction cs generalizing flag with
  | nil => cases h
  | cons d cs ih =>
    unfold crlf at h
    split_ifs at h
    all_goals
      simp only [List.mem_cons] at h ⊢
      grind

theorem onlyCrlf_cons {c : Char} (hreturn : c ≠ '\r') (hnewline : c ≠ '\n')
    (h : OnlyCrlf cs) : OnlyCrlf (c :: cs) := by
  unfold OnlyCrlf
  split
  · trivial
  · rename_i heq
    exact absurd (List.cons.inj heq).1 hreturn
  · rename_i heq
    obtain ⟨rfl, rfl⟩ := List.cons.inj heq
    exact ⟨hreturn, hnewline, h⟩

/-- A `\r` is followed by a `\n`. -/
theorem OnlyCrlf.after_return (h : OnlyCrlf ('\r' :: cs)) :
    ∃ rest, cs = '\n' :: rest ∧ OnlyCrlf rest := by
  unfold OnlyCrlf at h
  split at h
  · rename_i heq
    cases heq
  · rename_i rest heq
    exact ⟨rest, (List.cons.inj heq).2, h⟩
  · rename_i heq
    exact absurd (List.cons.inj heq).1 (Ne.symm h.1)

theorem OnlyCrlf.head_ne (h : OnlyCrlf cs) : cs.head? ≠ some '\n' := by
  unfold OnlyCrlf at h
  split at h
  · simp
  · simp
  · simpa using h.2.1

theorem onlyCrlf_crlf (flag : Bool) (cs : List Char) : OnlyCrlf (crlf flag cs) := by
  induction cs generalizing flag with
  | nil => trivial
  | cons c cs ih =>
    unfold crlf
    split_ifs with hreturn hnewline
    · exact ih true
    · exact ih false
    · exact ih false
    · exact onlyCrlf_cons hreturn hnewline (ih false)

/-- What is submitted of an escaped text that has no `\r` and no NUL. -/
theorem submitted_escape (h : '\x00' ∉ cs) :
    submitted (escape cs) = crlf false (dropNewline cs) := by
  unfold submitted
  rw [unescape_escape, replaceNul_eq_self h]

theorem nul_not_mem_submitted (markup : List Char) : '\x00' ∉ submitted markup := by
  intro h
  rcases mem_crlf h with hmem | heq | heq
  · exact nul_not_mem_replaceNul _ ((dropNewline_suffix _).subset hmem)
  · exact absurd heq (by decide)
  · exact absurd heq (by decide)

end

end Html
