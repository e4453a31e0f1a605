import Mathlib.Data.List.Basic

/-!
# Words of a shell command

How a POSIX shell cuts a line into words, for lines that are one simple command with nothing in
them to expand. The reader gives up on every other line: on an unquoted character that may have a
meaning of its own, on an expansion between double quotes, and on a quote that is not closed.

* `readShell_double`: what is inert between double quotes is read as it stands.
* `readShell_doubleQuoted`: plain words and one in double quotes.
-/

set_option autoImplicit false

namespace Posix

/-- What the characters before say of the next one. -/
inductive Quoting
  | unquoted
  | escaped
  | single
  | double
  | doubleEscaped

/-- `$` and the backquote, which start an expansion also between double quotes. -/
def expandsQuoted (c : Char) : Bool := c == '$' || c == Char.ofNat 96

/-- Operators, expansions, patterns, comments, reserved words and line ends, where not quoted. -/
def isShellSpecial (c : Char) : Bool :=
  expandsQuoted c || "|&;<>()*?[]#~=%!^\n\x7b\x7d".toList.contains c

/-- The words so far, with the word that has ended, if one has. -/
def finishWord (cur : Option (List Char)) (words : List String) : List String :=
  match cur with
  | none => words
  | some word => String.ofList word :: words

/-- A character of a word, which may be its first. -/
def addChar (cur : Option (List Char)) (c : Char) : Option (List Char) :=
  some (cur.getD [] ++ [c])

/-- The words of a line from where one of them is being read, or none is. -/
def readShell : Quoting → Option (List Char) → List Char → Option (List String)
  | .unquoted, cur, [] => some (finishWord cur [])
  | _, _, [] => none
  | .unquoted, cur, c :: rest =>
    if c = ' ' ∨ c = '\t' then (readShell .unquoted none rest).map (finishWord cur)
    else if c = '"' then readShell .double (some (cur.getD [])) rest
    else if c = '\'' then readShell .single (some (cur.getD [])) rest
    else if c = '\\' then readShell .escaped cur rest
    else if isShellSpecial c = true then none
    else readShell .unquoted (addChar cur c) rest
  -- A backslash takes a line end with it.
  | .escaped, cur, c :: rest =>
    if c = '\n' then readShell .unquoted cur rest else readShell .unquoted (addChar cur c) rest
  | .single, cur, c :: rest =>
    if c = '\'' then readShell .unquoted cur rest else readShell .single (addChar cur c) rest
  | .double, cur, c :: rest =>
    if c = '"' then readShell .unquoted cur rest
    else if c = '\\' then readShell .doubleEscaped cur rest
    else if expandsQuoted c = true then none
    else readShell .double (addChar cur c) rest
  -- Between double quotes it stays, unless the next character has a meaning there.
  | .doubleEscaped, cur, c :: rest =>
    if c = '\n' then readShell .double cur rest
    else if c = '"' ∨ c = '\\' ∨ expandsQuoted c = true then readShell .double (addChar cur c) rest
    else readShell .double (addChar (addChar cur '\\') c) rest

def reservedWords : List String :=
  ["if", "then", "else", "elif", "fi", "do", "done", "case", "esac", "while", "until", "for", "in"]

/-- The words of a line, when it is one simple command with nothing to expand. -/
def shellWords (line : String) : Option (List String) :=
  (readShell .unquoted none line.toList).filter fun words =>
    !words.head?.any fun word => reservedWords.contains word

/-- A character that stands for itself outside of quotes. -/
def isPlainChar (c : Char) : Bool :=
  !(c == ' ' || c == '\t' || c == '"' || c == '\'' || c == '\\' || isShellSpecial c)

/-- A word that is read as it stands. -/
def isPlainWord (word : List Char) : Bool := !word.isEmpty && word.all isPlainChar

/-- A character that stands for itself between double quotes. -/
def isInert (c : Char) : Bool := !(c == '"' || c == '\\' || expandsQuoted c)

section Read

variable {cs rest : List Char}

theorem readShell_plain {cur : List Char} (h : ∀ c ∈ cs, isPlainChar c = true) :
    readShell .unquoted (some cur) (cs ++ rest) = readShell .unquoted (some (cur ++ cs)) rest := by
  induction cs generalizing cur with
  | nil => rw [List.nil_append, List.append_nil]
  | cons c cs ih =>
    have hplain := h c List.mem_cons_self
    simp only [isPlainChar, Bool.not_eq_true', Bool.or_eq_false_iff, beq_eq_false_iff_ne] at hplain
    obtain ⟨⟨⟨⟨⟨hspace, htab⟩, hdouble⟩, hsingle⟩, hback⟩, hspecial⟩ := hplain
    rw [List.cons_append, readShell, if_neg (not_or.mpr ⟨hspace, htab⟩), if_neg hdouble,
      if_neg hsingle, if_neg hback, if_neg (by rw [hspecial]; exact Bool.false_ne_true), addChar,
      Option.getD_some, ih fun d hd => h d (List.mem_cons_of_mem _ hd), List.append_assoc,
      List.singleton_append]

/-- **Between double quotes** what is inert is read as it stands. -/
theorem readShell_double {cur : List Char} (h : ∀ c ∈ cs, isInert c = true) :
    readShell .double (some cur) (cs ++ '"' :: rest) =
      readShell .unquoted (some (cur ++ cs)) rest := by
  induction cs generalizing cur with
  | nil => rw [List.nil_append, List.append_nil, readShell, if_pos rfl]
  | cons c cs ih =>
    have hinert := h c List.mem_cons_self
    simp only [isInert, Bool.not_eq_true', Bool.or_eq_false_iff, beq_eq_false_iff_ne] at hinert
    obtain ⟨⟨hdouble, hback⟩, hexpands⟩ := hinert
    rw [List.cons_append, readShell, if_neg hdouble, if_neg hback,
      if_neg (by rw [hexpands]; exact Bool.false_ne_true), addChar, Option.getD_some,
      ih fun d hd => h d (List.mem_cons_of_mem _ hd), List.append_assoc, List.singleton_append]

/-- A plain word and a space. -/
theorem readShell_word {c : Char} (h : ∀ d ∈ c :: cs, isPlainChar d = true) :
    readShell .unquoted none (c :: cs ++ ' ' :: rest) =
      (readShell .unquoted none rest).map (String.ofList (c :: cs) :: ·) := by
  -- The first character starts the word, as any other goes on with it.
  have hstart : readShell .unquoted none (c :: cs ++ ' ' :: rest) =
      readShell .unquoted (some []) (c :: cs ++ ' ' :: rest) := by
    have hplain := h c List.mem_cons_self
    simp only [isPlainChar, Bool.not_eq_true', Bool.or_eq_false_iff, beq_eq_false_iff_ne] at hplain
    obtain ⟨⟨⟨⟨⟨hspace, htab⟩, hdouble⟩, hsingle⟩, hback⟩, hspecial⟩ := hplain
    simp [readShell, hspace, htab, hdouble, hsingle, hback, hspecial, addChar]
  rw [hstart, readShell_plain h, List.nil_append, readShell, if_pos (.inl rfl)]
  rfl

/-- **Plain words and one in double quotes.** -/
theorem readShell_doubleQuoted {words : List (List Char)} {quoted : List Char}
    (hwords : ∀ word ∈ words, isPlainWord word = true)
    (hquoted : ∀ c ∈ quoted, isInert c = true) :
    readShell .unquoted none ((words.flatMap fun word => word ++ [' ']) ++
        '"' :: (quoted ++ ['"'])) =
      some (words.map String.ofList ++ [String.ofList quoted]) := by
  induction words with
  | nil =>
    rw [List.flatMap_nil, List.nil_append, readShell, if_neg (by decide), if_pos rfl,
      Option.getD_none, readShell_double hquoted]
    rfl
  | cons word words ih =>
    have hword := hwords word List.mem_cons_self
    rw [isPlainWord, Bool.and_eq_true, Bool.not_eq_true', List.isEmpty_eq_false_iff,
      List.all_eq_true] at hword
    obtain ⟨hne, hplain⟩ := hword
    obtain ⟨c, cs, rfl⟩ := List.exists_cons_of_ne_nil hne
    have hrest := ih fun other hother => hwords other (List.mem_cons_of_mem _ hother)
    rw [List.flatMap_cons, List.append_assoc, List.append_assoc, List.singleton_append,
      readShell_word hplain, hrest]
    rfl

end Read

end Posix
