import Mathlib.Data.List.Basic

/-!
# URL quoting

`urllib.parse.quote(text, safe="")`: the UTF-8 bytes of a text, each unreserved one as its
character and each other one as `%XX`.

`urllib.parse.unquote` reads such a text back, and any other text in which some bytes are written
as `%XX`.

* `quote_injective`: different texts are quoted differently.
* `unquote_quote`: a quoted text is read back.
* `isQuotedChar_of_mem_quote`: a quoted text has no other characters than those that stay.
* `unquote_of_not_mem`: a text without `%` is its own.
-/

set_option autoImplicit false

namespace Python

/-- The bytes that `quote` never escapes: letters, digits and `_.-~`. -/
def isUnreserved (b : Nat) : Bool :=
  (48 ≤ b && b ≤ 57) || (65 ≤ b && b ≤ 90) || (97 ≤ b && b ≤ 122) ||
    b == 95 || b == 46 || b == 45 || b == 126

/-- A hexadecimal digit in upper case. -/
def upperHexDigit (n : Nat) : Char := Char.ofNat (if n < 10 then 48 + n else 55 + n)

def quoteByte (b : UInt8) : List Char :=
  if isUnreserved b.toNat then [Char.ofNat b.toNat]
  else ['%', upperHexDigit (b.toNat / 16), upperHexDigit (b.toNat % 16)]

/-- `urllib.parse.quote(text, safe="")`. -/
def quote (text : String) : String :=
  String.ofList (text.toByteArray.data.toList.flatMap quoteByte)

example : quote "pc 1/ä" = "pc%201%2F%C3%A4" := by decide +kernel

/-! ## Percent-decoding -/

/-- The UTF-8 bytes of a text. -/
def textBytes (text : String) : List UInt8 := text.toByteArray.data.toList

/-- A hexadecimal digit in either case. -/
def hexDigit? (b : UInt8) : Option Nat :=
  if 48 ≤ b.toNat ∧ b.toNat ≤ 57 then some (b.toNat - 48)
  else if 65 ≤ b.toNat ∧ b.toNat ≤ 70 then some (b.toNat - 55)
  else if 97 ≤ b.toNat ∧ b.toNat ≤ 102 then some (b.toNat - 87)
  else none

/-- The byte of `%XX`. -/
def escapedByte? (b high low : UInt8) : Option UInt8 :=
  if b = 37 then
    match hexDigit? high, hexDigit? low with
    | some high, some low => some (UInt8.ofNat (high * 16 + low))
    | _, _ => none
  else none

/-- `unquote_to_bytes`. -/
def unquoteToBytes : List UInt8 → List UInt8
  | b :: high :: low :: rest =>
    match escapedByte? b high low with
    | some byte => byte :: unquoteToBytes rest
    | none => b :: unquoteToBytes (high :: low :: rest)
  | b :: rest => b :: unquoteToBytes rest
  | [] => []

/-- A continuation byte. -/
def isContinuation (b : UInt8) : Bool := 128 ≤ b.toNat && b.toNat ≤ 191

/-- How long the character of a first byte is, and which bytes may be its second. -/
def sequenceOf (b : UInt8) : Option (Nat × Nat × Nat) :=
  let n := b.toNat
  if 194 ≤ n ∧ n ≤ 223 then some (2, 128, 191)
  else if n = 224 then some (3, 160, 191)
  else if n = 237 then some (3, 128, 159)
  else if 225 ≤ n ∧ n ≤ 239 then some (3, 128, 191)
  else if n = 240 then some (4, 144, 191)
  else if n = 244 then some (4, 128, 143)
  else if 241 ≤ n ∧ n ≤ 243 then some (4, 128, 191)
  else none

/-- The number of bytes at the start of a text that make one character, or one error. -/
def leadingBytes (bs : List UInt8) : Nat :=
  match bs with
  | [] => 0
  | b :: rest =>
    match sequenceOf b, rest with
    | some (length, low, high), second :: rest =>
      if low ≤ second.toNat ∧ second.toNat ≤ high then
        2 + ((rest.take (length - 2)).takeWhile isContinuation).length
      else 1
    | _, _ => 1

/-- `bytes.decode("utf-8", "replace")`: what decodes to nothing is replaced, by longest starts of a
character. -/
def decodeReplacing : Nat → List UInt8 → List Char
  | 0, _ => []
  | _, [] => []
  | fuel + 1, bs =>
    let first := bs.take (leadingBytes bs)
    (match String.fromUTF8? first.toByteArray with
      | some text => text.toList
      | none => ['\uFFFD']) ++ decodeReplacing fuel (bs.drop (leadingBytes bs))

/-- `urllib.parse.unquote`, on a text that is sent over HTTP. -/
def unquote (text : String) : String :=
  let bytes := unquoteToBytes (textBytes text)
  match String.fromUTF8? bytes.toByteArray with
  | some text => text
  | none => String.ofList (decodeReplacing bytes.length bytes)

theorem fromUTF8?_textBytes (text : String) :
    String.fromUTF8? (textBytes text).toByteArray = some text := by
  have hbytes : (textBytes text).toByteArray = text.toByteArray := by
    refine ByteArray.ext ?_
    rw [List.data_toByteArray, textBytes, Array.toArray_toList]
  rw [hbytes]
  exact dif_pos text.isValidUTF8

theorem textBytes_ofList (cs : List Char) :
    textBytes (String.ofList cs) = cs.flatMap String.utf8EncodeChar := by
  rw [textBytes, String.toByteArray_ofList, List.utf8Encode, List.data_toByteArray]

theorem le_toNat_or (b k : UInt8) : k.toNat ≤ (b ||| k).toNat := by
  rw [UInt8.toNat_or]
  exact Nat.right_le_or

theorem utf8EncodeChar_of_lt {c : Char} (h : c.toNat < 128) :
    String.utf8EncodeChar c = [UInt8.ofNat c.toNat] :=
  String.utf8EncodeChar_eq_singleton (Char.utf8Size_eq_one_iff.mpr (Nat.le_of_lt_succ h))

/-- The other characters have no small byte. -/
theorem le_of_mem_utf8EncodeChar {c : Char} (h : 128 ≤ c.toNat) :
    ∀ b ∈ String.utf8EncodeChar c, 128 ≤ b.toNat := by
  have hcontinued : ∀ b : UInt8, 128 ≤ (b ||| 128).toNat := fun b => le_toNat_or b 128
  intro b hb
  rcases c.utf8Size_eq with hsize | hsize | hsize | hsize
  · have hle : c.toNat ≤ 127 := Char.utf8Size_eq_one_iff.mp hsize
    omega
  · rw [String.utf8EncodeChar_eq_cons_cons hsize] at hb
    simp only [List.mem_cons, List.not_mem_nil, or_false] at hb
    rcases hb with rfl | rfl
    · exact Nat.le_trans (by decide) (le_toNat_or _ 192)
    · exact hcontinued _
  · rw [String.utf8EncodeChar_eq_cons_cons_cons hsize] at hb
    simp only [List.mem_cons, List.not_mem_nil, or_false] at hb
    rcases hb with rfl | rfl | rfl
    · exact Nat.le_trans (by decide) (le_toNat_or _ 224)
    · exact hcontinued _
    · exact hcontinued _
  · rw [String.utf8EncodeChar_eq_cons_cons_cons_cons hsize] at hb
    simp only [List.mem_cons, List.not_mem_nil, or_false] at hb
    rcases hb with rfl | rfl | rfl | rfl
    · exact Nat.le_trans (by decide) (le_toNat_or _ 240)
    · exact hcontinued _
    · exact hcontinued _
    · exact hcontinued _

/-- A text of ASCII characters is their codes. -/
theorem textBytes_ascii {cs : List Char} (h : ∀ c ∈ cs, c.toNat < 128) :
    textBytes (String.ofList cs) = cs.map fun c => UInt8.ofNat c.toNat := by
  rw [textBytes_ofList]
  induction cs with
  | nil => rfl
  | cons c cs ih =>
    rw [List.flatMap_cons, List.map_cons, ih fun d hd => h d (List.mem_cons_of_mem _ hd),
      utf8EncodeChar_of_lt (h c List.mem_cons_self), List.singleton_append]

/-- An ASCII byte of a text is a character of it. -/
theorem mem_of_mem_textBytes {text : String} {b : UInt8} (hb : b ∈ textBytes text)
    (hlt : b.toNat < 128) : Char.ofNat b.toNat ∈ text.toList := by
  rw [← String.ofList_toList (s := text), textBytes_ofList] at hb
  obtain ⟨c, hc, hmem⟩ := List.mem_flatMap.mp hb
  by_cases hascii : c.toNat < 128
  · rw [utf8EncodeChar_of_lt hascii, List.mem_singleton] at hmem
    have hcode : b.toNat = c.toNat := by
      rw [hmem]
      exact Nat.mod_eq_of_lt (by omega)
    rw [hcode, Char.ofNat_toNat]
    exact hc
  · have hle := le_of_mem_utf8EncodeChar (by omega) b hmem
    omega

theorem unquoteToBytes_cons_of_ne {b : UInt8} (hb : b ≠ 37) (rest : List UInt8) :
    unquoteToBytes (b :: rest) = b :: unquoteToBytes rest := by
  match rest with
  | [] => rfl
  | [_] => rfl
  | high :: low :: rest => rw [unquoteToBytes, escapedByte?, if_neg hb]

/-- Without `%` nothing is escaped. -/
theorem unquoteToBytes_of_not_mem {bs : List UInt8} (h : 37 ∉ bs) : unquoteToBytes bs = bs := by
  induction bs with
  | nil => rfl
  | cons b rest ih =>
    have hb : b ≠ 37 := fun heq => h (heq ▸ List.mem_cons_self)
    rw [unquoteToBytes_cons_of_ne hb, ih fun hmem => h (List.mem_cons_of_mem _ hmem)]

/-- **A text without `%`** is read as it stands. -/
theorem unquote_of_not_mem {text : String} (h : '%' ∉ text.toList) : unquote text = text := by
  have hbytes : 37 ∉ textBytes text := fun hmem => h (mem_of_mem_textBytes hmem (by decide))
  unfold unquote
  dsimp only
  rw [unquoteToBytes_of_not_mem hbytes, fromUTF8?_textBytes]

/-- The code of an ASCII character. -/
def asciiCode (c : Char) : UInt8 := UInt8.ofNat c.toNat

theorem hexDigit?_upperHexDigit :
    ∀ n < 16, hexDigit? (asciiCode (upperHexDigit n)) = some n := by decide

theorem asciiCode_ofNat : ∀ n < 128, (Char.ofNat n).toNat = n := by decide

theorem lt_of_isUnreserved {n : Nat} (h : isUnreserved n = true) : n < 128 ∧ n ≠ 37 := by
  simp only [isUnreserved, Bool.or_eq_true, Bool.and_eq_true, decide_eq_true_eq, beq_iff_eq] at h
  omega

theorem upperHexDigit_lt : ∀ n < 16, (upperHexDigit n).toNat < 128 := by decide

/-- What a byte is quoted as is read back as the byte. -/
theorem unquoteToBytes_quoteByte (b : UInt8) (rest : List UInt8) :
    unquoteToBytes ((quoteByte b).map asciiCode ++ rest) = b :: unquoteToBytes rest := by
  have hb : b.toNat < 256 := b.toNat_lt
  unfold quoteByte
  split
  · rename_i hplain
    obtain ⟨hlt, hne⟩ := lt_of_isUnreserved hplain
    have hcode : asciiCode (Char.ofNat b.toNat) = b := by
      rw [asciiCode, asciiCode_ofNat _ hlt, UInt8.ofNat_toNat]
    rw [List.map_singleton, hcode, List.singleton_append, unquoteToBytes_cons_of_ne]
    rintro rfl
    exact hne rfl
  · have hhigh := hexDigit?_upperHexDigit (b.toNat / 16) (by omega)
    have hlow := hexDigit?_upperHexDigit (b.toNat % 16) (by omega)
    have hsum : b.toNat / 16 * 16 + b.toNat % 16 = b.toNat := by omega
    have hbyte : escapedByte? 37 (asciiCode (upperHexDigit (b.toNat / 16)))
        (asciiCode (upperHexDigit (b.toNat % 16))) = some b := by
      rw [escapedByte?, if_pos rfl, hhigh, hlow]
      dsimp only
      rw [hsum, UInt8.ofNat_toNat]
    change unquoteToBytes (37 :: _ :: _ :: rest) = _
    rw [unquoteToBytes, hbyte]

theorem unquoteToBytes_quote (bs : List UInt8) :
    unquoteToBytes ((bs.flatMap quoteByte).map asciiCode) = bs := by
  induction bs with
  | nil => rfl
  | cons b bs ih => rw [List.flatMap_cons, List.map_append, unquoteToBytes_quoteByte, ih]

theorem quoteByte_ascii (b : UInt8) : ∀ c ∈ quoteByte b, c.toNat < 128 := by
  have hb : b.toNat < 256 := b.toNat_lt
  unfold quoteByte
  intro c hc
  split at hc
  · rename_i hplain
    rw [List.mem_singleton.mp hc, asciiCode_ofNat _ (lt_of_isUnreserved hplain).1]
    exact (lt_of_isUnreserved hplain).1
  · simp only [List.mem_cons, List.not_mem_nil, or_false] at hc
    rcases hc with rfl | rfl | rfl
    · decide
    · exact upperHexDigit_lt _ (by omega)
    · exact upperHexDigit_lt _ (by omega)

/-- The characters of a quoted text: `[A-Za-z0-9_.~%-]`. -/
def isQuotedChar (c : Char) : Bool := c.isAlphanum || "_.~%-".toList.contains c

theorem isQuotedChar_ofNat :
    ∀ n < 128, isUnreserved n = true → isQuotedChar (Char.ofNat n) = true := by decide

theorem isQuotedChar_upperHexDigit : ∀ n < 16, isQuotedChar (upperHexDigit n) = true := by decide

/-- Nothing else is in a quoted text. -/
theorem isQuotedChar_of_mem_quote {text : String} {c : Char} (hc : c ∈ (quote text).toList) :
    isQuotedChar c = true := by
  rw [quote, String.toList_ofList] at hc
  obtain ⟨b, -, hb⟩ := List.mem_flatMap.mp hc
  have hlt : b.toNat < 256 := b.toNat_lt
  unfold quoteByte at hb
  split at hb
  · rename_i hplain
    rw [List.mem_singleton.mp hb]
    exact isQuotedChar_ofNat _ (lt_of_isUnreserved hplain).1 hplain
  · simp only [List.mem_cons, List.not_mem_nil, or_false] at hb
    rcases hb with rfl | rfl | rfl
    · decide
    · exact isQuotedChar_upperHexDigit _ (by omega)
    · exact isQuotedChar_upperHexDigit _ (by omega)

/-- **Round trip**: a quoted text is read back. -/
theorem unquote_quote (text : String) : unquote (quote text) = text := by
  have hascii : ∀ c ∈ (textBytes text).flatMap quoteByte, c.toNat < 128 := by
    intro c hc
    obtain ⟨b, -, hmem⟩ := List.mem_flatMap.mp hc
    exact quoteByte_ascii b c hmem
  have hbytes : textBytes (quote text) = ((textBytes text).flatMap quoteByte).map asciiCode :=
    textBytes_ascii hascii
  unfold unquote
  dsimp only
  rw [hbytes, unquoteToBytes_quote, fromUTF8?_textBytes]

/-- Different texts are quoted differently. -/
theorem quote_injective {s t : String} (h : quote s = quote t) : s = t := by
  rw [← unquote_quote s, h, unquote_quote]

end Python
