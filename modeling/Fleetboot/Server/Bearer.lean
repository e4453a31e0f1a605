import Fleetboot.Library.Latin1
import Fleetboot.Library.Words
import Fleetboot.Server.Rest
import Fleetboot.Server.SoftReboot

/-!
# Bearer tokens

Three gates compare the token of an `Authorization` header with a secret: `check_auth` of `mcp.py`,
`_require_admin` and `mint_session` of `app.py`. The two files take the token out of the header
each in its own way.

* `extractBearerToken_eq`, `mcpBearerToken_eq_some`: the two ways, by how a header is spelled.
* `uniformBearer_iff`: the headers on which the gates are uniform.
-/

set_option autoImplicit false

namespace Fleetboot

open Python Relational

/-! ## How a header is spelled -/

section Spelling

variable [Unicode]

/-- A header taken apart: the word `bearer` in any case and a token, with the space before, between
and after them. -/
structure Bears (header lead scheme gap token tail : List Char) : Prop where
  spelled : header = lead ++ ((scheme ++ (gap ++ token)) ++ tail)
  lead_space : ∀ c ∈ lead, isSpace c = true
  word : ∀ c ∈ scheme, isSpace c = false
  bearer : lower (String.ofList scheme) = "bearer"
  gap_space : ∀ c ∈ gap, isSpace c = true
  gap_nonempty : gap ≠ []
  token_nonempty : token ≠ []
  stripped : stripChars token = token
  tail_space : ∀ c ∈ tail, isSpace c = true

theorem Bears.scheme_nonempty {header lead scheme gap token tail : List Char}
    (h : Bears header lead scheme gap token tail) : scheme ≠ [] := by
  rintro rfl
  have hlower := h.bearer
  have hnil : Unicode.lower [] = [] := Unicode.lower_ascii [] nofun
  rw [lower, String.toList_ofList, hnil] at hlower
  exact absurd hlower (by decide)

theorem Bears.stripChars_header {header lead scheme gap token tail : List Char}
    (h : Bears header lead scheme gap token tail) :
    stripChars header = scheme ++ (gap ++ token) := by
  rw [h.spelled, stripChars_pad h.lead_space h.tail_space]
  refine stripChars_eq_self (fun c hc => ?_) fun c hc => ?_
  · rw [List.head?_append_of_ne_nil _ h.scheme_nonempty] at hc
    exact h.word c (List.mem_of_head? hc)
  · rw [List.getLast?_append_of_ne_nil _ (by simp [h.token_nonempty]),
      List.getLast?_append_of_ne_nil _ h.token_nonempty] at hc
    exact last_of_stripped h.stripped c hc

/-- A header that bears a token gives it to `_extract_bearer_token`. -/
theorem Bears.extractBearerToken_eq {header lead scheme gap token tail : List Char}
    (h : Bears header lead scheme gap token tail) :
    extractBearerToken (some (String.ofList header)) = String.ofList token := by
  have hscheme : ∀ c ∈ scheme, (!isSpace c) = true := fun c hc => by rw [h.word c hc]; rfl
  obtain ⟨d, ds, hgap⟩ := List.exists_cons_of_ne_nil h.gap_nonempty
  have hd : isSpace d = true := h.gap_space d (hgap ▸ List.mem_cons_self)
  have hstop : (gap ++ token).takeWhile (fun c => !isSpace c) = [] := by
    rw [hgap, List.cons_append, List.takeWhile_cons_of_neg (by simp [hd])]
  have hrest : (gap ++ token).dropWhile (fun c => !isSpace c) = gap ++ token := by
    rw [hgap, List.cons_append, List.dropWhile_cons_of_neg (by simp [hd])]
  have htake : (scheme ++ (gap ++ token)).takeWhile (fun c => !isSpace c) = scheme := by
    rw [List.takeWhile_append_of_pos hscheme, hstop, List.append_nil]
  have hdrop : ((scheme ++ (gap ++ token)).dropWhile fun c => !isSpace c).dropWhile isSpace =
      token := by
    rw [List.dropWhile_append_of_pos hscheme, hrest, List.dropWhile_append_of_pos h.gap_space,
      dropWhile_eq_self_of_head (head_of_stripped h.stripped)]
  unfold extractBearerToken
  dsimp only [Option.getD_some]
  rw [String.toList_ofList, h.stripChars_header, htake, hdrop,
    if_neg (by simp [h.token_nonempty, h.bearer]), strip, String.toList_ofList, h.stripped]

/-- A header from which it takes a token bears that token. -/
theorem exists_bears {header : String} (h : extractBearerToken (some header) ≠ "") :
    ∃ lead scheme gap tail, Bears header.toList lead scheme gap
      (extractBearerToken (some header)).toList tail := by
  obtain ⟨lead, tail, hspelled, hlead, htail⟩ := exists_strip header.toList
  unfold extractBearerToken at h ⊢
  dsimp only [Option.getD_some] at h ⊢
  have hlast := last_of_stripped (stripChars_stripChars header.toList)
  generalize stripChars header.toList = cs at *
  split at h
  · exact absurd rfl h
  · rename_i hnot
    rw [not_or, not_not] at hnot
    obtain ⟨hrest, hbearer⟩ := hnot
    rw [if_neg (by simp [hrest, hbearer])]
    -- The rest starts without space and ends as the header does.
    have hstripped : stripChars ((cs.dropWhile fun c => !isSpace c).dropWhile isSpace) =
        (cs.dropWhile fun c => !isSpace c).dropWhile isSpace := by
      refine stripChars_eq_self (fun c hc => ?_) fun c hc => hlast c ?_
      · rw [List.head?_eq_some_head hrest] at hc
        cases hc
        simpa using List.head_dropWhile_not isSpace hrest
      · have hsuffix : (cs.dropWhile fun c => !isSpace c).dropWhile isSpace <:+ cs :=
          (List.dropWhile_suffix _).trans (List.dropWhile_suffix _)
        obtain ⟨front, hfront⟩ := hsuffix
        rw [← hfront, List.getLast?_append_of_ne_nil _ hrest]
        exact hc
    rw [strip, String.toList_ofList, String.toList_ofList, hstripped]
    refine ⟨lead, cs.takeWhile fun c => !isSpace c,
      (cs.dropWhile fun c => !isSpace c).takeWhile isSpace, tail, ?_, hlead, ?_, hbearer, ?_, ?_,
      hrest, hstripped, htail⟩
    · rw [List.takeWhile_append_dropWhile, List.takeWhile_append_dropWhile]
      exact hspelled
    · intro c hc
      simpa using List.mem_takeWhile_imp hc
    · exact fun c hc => List.mem_takeWhile_imp hc
    · intro hgap
      have hne : (cs.dropWhile fun c => !isSpace c) ≠ [] := by
        intro hnil
        rw [hnil] at hrest
        exact hrest rfl
      have hfirst := List.head_dropWhile_not (fun c => !isSpace c) hne
      obtain ⟨c, rest, hcons⟩ := List.exists_cons_of_ne_nil hne
      simp only [hcons, List.head_cons] at hfirst
      rw [hcons, List.takeWhile_cons_of_pos (by simpa using hfirst)] at hgap
      cases hgap

/-- The space in front, the word and the space behind it are found from the left. -/
theorem Bears.unique {header lead scheme gap token tail lead' scheme' gap' token' tail' : List Char}
    (h : Bears header lead scheme gap token tail)
    (h' : Bears header lead' scheme' gap' token' tail') : lead = lead' ∧ gap = gap' := by
  have hfirst : ∀ {lead scheme gap token tail : List Char},
      Bears header lead scheme gap token tail → lead = header.takeWhile isSpace ∧
        gap = ((stripChars header).dropWhile fun c => !isSpace c).takeWhile isSpace := by
    intro lead scheme gap token tail h
    obtain ⟨c, word, hword⟩ := List.exists_cons_of_ne_nil h.scheme_nonempty
    obtain ⟨d, ds, hgap⟩ := List.exists_cons_of_ne_nil h.gap_nonempty
    obtain ⟨e, es, htoken⟩ := List.exists_cons_of_ne_nil h.token_nonempty
    have hc : isSpace c = false := h.word c (hword ▸ List.mem_cons_self)
    have hd : isSpace d = true := h.gap_space d (hgap ▸ List.mem_cons_self)
    have he : isSpace e = false := head_of_stripped h.stripped e (htoken ▸ rfl)
    constructor
    · rw [h.spelled, List.takeWhile_append_of_pos h.lead_space, hword, List.cons_append,
        List.cons_append, List.takeWhile_cons_of_neg (by simp [hc]), List.append_nil]
    · rw [h.stripChars_header, List.dropWhile_append_of_pos fun c hc => by simp [h.word c hc]]
      have hrest : (gap ++ token).dropWhile (fun c => !isSpace c) = gap ++ token := by
        rw [hgap, List.cons_append, List.dropWhile_cons_of_neg (by simp [hd])]
      rw [hrest, List.takeWhile_append_of_pos h.gap_space, htoken,
        List.takeWhile_cons_of_neg (by simp [he]), List.append_nil]
  exact ⟨(hfirst h).1.trans (hfirst h').1.symm, (hfirst h).2.trans (hfirst h').2.symm⟩

end Spelling

/-! ## The two ways to take a token -/

/-- The token of a header in `check_auth`, before it is compared. -/
def mcpBearerToken [Unicode] (header : String) : Option String :=
  if "bearer ".toList.isPrefixOf (lower header).toList then
    some (strip (String.ofList (header.toList.drop 7)))
  else none

section Tokens

variable [Latin1Unicode] {header : String}

theorem lower_eq_of_latin1 {cs : List Char} (h : ∀ c ∈ cs, c.toNat < 256) :
    lower (String.ofList cs) = String.ofList (cs.map lowerLatin1) := by
  rw [lower, String.toList_ofList, Latin1Unicode.lower_latin1 cs h]

/-- `check_auth` takes a token if six letters stand in front, and a blank. -/
theorem mcpBearerToken_eq_some_iff (hlatin : ∀ c ∈ header.toList, c.toNat < 256) {token : String} :
    mcpBearerToken header = some token ↔
      ∃ scheme rest, header.toList = scheme ++ ' ' :: rest ∧
        lower (String.ofList scheme) = "bearer" ∧ token = strip (String.ofList rest) := by
  have hlower : (lower header).toList = header.toList.map lowerLatin1 := by
    rw [lower, String.toList_ofList, Latin1Unicode.lower_latin1 _ hlatin]
  unfold mcpBearerToken
  rw [hlower, Option.ite_none_right_eq_some, List.isPrefixOf_iff_prefix, Option.some_inj]
  constructor
  · rintro ⟨⟨behind, hbehind⟩, rfl⟩
    obtain ⟨seven, rest, hheader, hseven, -⟩ := List.map_eq_append_iff.mp hbehind.symm
    obtain ⟨scheme, blank, rfl, hletters, hblank⟩ :=
      List.map_eq_append_iff.mp (hseven.trans (show _ = "bearer".toList ++ [' '] from rfl))
    obtain ⟨c, rfl, hc⟩ := List.map_eq_singleton_iff.mp hblank
    have hcblank : c = ' ' :=
      (eq_of_lowerLatin1_lt (by rw [hc]; decide)).symm.trans hc
    have hdrop : header.toList.drop 7 = rest := by
      have hlength : (scheme ++ [c]).length = 7 := by
        have := congrArg List.length hseven
        rwa [List.length_map] at this
      rw [hheader, ← hlength, List.drop_left]
    refine ⟨scheme, rest, ?_, ?_, by rw [hdrop]⟩
    · rw [hheader, hcblank, List.append_assoc, List.singleton_append]
    · have hscheme : ∀ d ∈ scheme, d.toNat < 256 := fun d hd =>
        hlatin d (hheader ▸ List.mem_append_left _ (List.mem_append_left _ hd))
      rw [lower_eq_of_latin1 hscheme, hletters, String.ofList_toList]
  · rintro ⟨scheme, rest, hheader, hbearer, rfl⟩
    have hscheme : ∀ c ∈ scheme, c.toNat < 256 := fun c hc =>
      hlatin c (hheader ▸ List.mem_append_left _ hc)
    rw [lower_eq_of_latin1 hscheme] at hbearer
    have hletters : scheme.map lowerLatin1 = "bearer".toList := by
      rw [← hbearer, String.toList_ofList]
    have hlength : scheme.length = 6 := by
      have := congrArg List.length hletters
      rwa [List.length_map] at this
    have hseven : (scheme ++ [' ']).length = 7 := by
      rw [List.length_append, hlength]
      rfl
    constructor
    · refine ⟨rest.map lowerLatin1, ?_⟩
      rw [hheader, List.map_append, hletters, List.map_cons]
      rfl
    · rw [hheader, List.append_cons, ← hseven, List.drop_left]

/-- The word `bearer` has no space. -/
theorem not_isSpace_of_bearer {scheme : List Char} (hlatin : ∀ c ∈ scheme, c.toNat < 256)
    (hbearer : lower (String.ofList scheme) = "bearer") : ∀ c ∈ scheme, isSpace c = false := by
  intro c hc
  rw [Bool.eq_false_iff]
  intro hspace
  have hletters : scheme.map lowerLatin1 = "bearer".toList := by
    rw [← hbearer, lower_eq_of_latin1 hlatin, String.toList_ofList]
  have hmem : c ∈ "bearer".toList := by
    rw [← hletters, ← lowerLatin1_of_isSpace hspace]
    exact List.mem_map_of_mem hc
  have hnone : ∀ d ∈ "bearer".toList, isSpace d = false :=
    forall_mem_of_all (by decide)
  rw [hnone c hmem] at hspace
  cases hspace

/-- A token behind a blank is what `check_auth` takes. -/
theorem Bears.mcpBearerToken_eq {scheme gap token tail : List Char}
    (hlatin : ∀ c ∈ header.toList, c.toNat < 256)
    (h : Bears header.toList [] scheme (' ' :: gap) token tail) :
    mcpBearerToken header = some (String.ofList token) := by
  refine (mcpBearerToken_eq_some_iff hlatin).mpr ⟨scheme, gap ++ (token ++ tail), ?_, h.bearer, ?_⟩
  · rw [h.spelled, List.nil_append, List.append_assoc, List.cons_append, List.cons_append,
      List.append_assoc]
  · rw [strip, String.toList_ofList,
      stripChars_pad (fun c hc => h.gap_space c (List.mem_cons_of_mem _ hc)) h.tail_space,
      h.stripped]

/-- What it takes stands behind a blank. -/
theorem exists_bears_of_mcpBearerToken (hlatin : ∀ c ∈ header.toList, c.toNat < 256)
    (h : (mcpBearerToken header).getD "" ≠ "") : ∃ scheme gap tail,
      Bears header.toList [] scheme (' ' :: gap) ((mcpBearerToken header).getD "").toList tail := by
  cases htoken : mcpBearerToken header with
  | none =>
    rw [htoken] at h
    exact absurd rfl h
  | some token =>
    rw [htoken] at h
    obtain ⟨scheme, rest, hheader, hbearer, rfl⟩ := (mcpBearerToken_eq_some_iff hlatin).mp htoken
    obtain ⟨front, back, hrest, hfront, hback⟩ := exists_strip rest
    have hscheme : ∀ c ∈ scheme, c.toNat < 256 := fun c hc =>
      hlatin c (hheader ▸ List.mem_append_left _ hc)
    rw [Option.getD_some, strip, String.toList_ofList] at h ⊢
    rw [String.toList_ofList]
    refine ⟨scheme, front, back, ?_, List.forall_mem_nil _,
      not_isSpace_of_bearer hscheme hbearer, hbearer, ?_, List.cons_ne_nil _ _, ?_,
      stripChars_stripChars rest, hback⟩
    · rw [hheader, List.nil_append, List.append_assoc, List.cons_append, List.cons_append,
        List.append_assoc, ← hrest]
    · intro c hc
      rcases List.mem_cons.mp hc with rfl | hc
      · decide
      · exact hfront c hc
    · intro hnil
      rw [hnil] at h
      exact h rfl

/-- **The two parsers** agree on a header exactly if any token it bears stands behind `bearer` and
a blank at its start. -/
theorem sameToken_iff (hlatin : ∀ c ∈ header.toList, c.toNat < 256) :
    (mcpBearerToken header).getD "" = extractBearerToken (some header) ↔
      ∀ lead scheme gap token tail, Bears header.toList lead scheme gap token tail →
        lead = [] ∧ gap.head? = some ' ' := by
  have htoken : ∀ {lead scheme gap token tail}, Bears header.toList lead scheme gap token tail →
      extractBearerToken (some header) = String.ofList token := by
    intro lead scheme gap token tail h
    have heq := h.extractBearerToken_eq
    rwa [String.ofList_toList] at heq
  have hnonempty : ∀ {token : List Char}, token ≠ [] → String.ofList token ≠ "" := by
    intro token hne heq
    have hnil := congrArg String.toList heq
    rw [String.toList_ofList] at hnil
    exact hne hnil
  constructor
  · intro hsame lead scheme gap token tail h
    have hne : (mcpBearerToken header).getD "" ≠ "" := by
      rw [hsame, htoken h]
      exact hnonempty h.token_nonempty
    obtain ⟨scheme', gap', tail', h'⟩ := exists_bears_of_mcpBearerToken hlatin hne
    obtain ⟨hlead, hgap⟩ := h.unique h'
    exact ⟨hlead, by rw [hgap]; rfl⟩
  · intro hall
    by_cases hempty : extractBearerToken (some header) = ""
    · rw [hempty]
      by_contra hne
      obtain ⟨scheme', gap', tail', h'⟩ := exists_bears_of_mcpBearerToken hlatin hne
      rw [htoken h'] at hempty
      exact hnonempty h'.token_nonempty hempty
    · obtain ⟨lead, scheme, gap, tail, h⟩ := exists_bears hempty
      obtain ⟨rfl, hgap⟩ := hall _ _ _ _ _ h
      obtain ⟨gap', rfl⟩ := List.head?_eq_some_iff.mp hgap
      rw [h.mcpBearerToken_eq hlatin, String.ofList_toList]
      rfl

end Tokens

/-! ## The three gates -/

def IsAscii (text : String) : Prop := ∀ c ∈ text.toList, c.toNat < 128

section Gates

/-- Against an ASCII secret the comparison raises on the other texts. -/
theorem compareDigest_of_ascii {presented secret : String} (hsecret : IsAscii secret)
    (hpresented : IsAscii presented) :
    compareDigest presented secret = .ok (presented == secret) := by
  refine if_pos (List.all_eq_true.mpr fun c hc => ?_)
  rcases List.mem_append.mp hc with hc | hc
  · exact decide_eq_true (hpresented c hc)
  · exact decide_eq_true (hsecret c hc)

theorem compareDigest_of_not_ascii {presented secret : String} (hpresented : ¬ IsAscii presented) :
    ∃ err, compareDigest presented secret = .error err := by
  refine ⟨_, if_neg fun hall => hpresented fun c hc => ?_⟩
  exact of_decide_eq_true (List.all_eq_true.mp hall c (List.mem_append_left _ hc))

variable [Unicode]

/-- What `mint_session` does with a request that it admits, up to the mint. -/
def admittedMint (now : Timestamp) (token : String) (req : MintRequest) (db : Database) :
    Database × Except MintAnswer BootSession :=
  let out := mint now token req.mac db
  (out.db, match out.value with
    | .ok session => .ok session
    | .error err => .error (.failed err))

/-- Each gate admits a request exactly if the token in its header is the secret, and answers 401
otherwise; and the two parsers take the same token. -/
structure UniformBearer (secret : String) (pool : Option String) (header : String) : Prop where
  sameToken : (mcpBearerToken header).getD "" = extractBearerToken (some header)
  mcp : match checkAuth ⟨secret, pool⟩ (some header) with
    | .ok .admin => mcpBearerToken header = some secret
    | .ok .pool => mcpBearerToken header ≠ some secret ∧ mcpBearerToken header = pool
    | .error (.unauthorised _) => mcpBearerToken header ≠ some secret ∧
        ∀ second, second ≠ "" → pool = some second → mcpBearerToken header ≠ some second
    | .error _ => False
  admin : ∀ mintSecret, requireAdmin ⟨some secret, mintSecret⟩ (some header) =
    if extractBearerToken (some header) = secret then .ok () else .error (.http 401 "unauthorised")
  mint : ∀ now token mac db, beginMint (some secret) now token ⟨some header, mac⟩ db =
    if extractBearerToken (some header) = secret then
      admittedMint now token ⟨some header, mac⟩ db
    else (db, .error .unauthorised)

variable {secret header : String} {pool : Option String}

/-- `_require_admin` on an ASCII token. -/
theorem requireAdmin_of_ascii (hsecret : IsAscii secret) (hne : secret ≠ "")
    (htoken : IsAscii (extractBearerToken (some header))) (mintSecret : Option String) :
    requireAdmin ⟨some secret, mintSecret⟩ (some header) =
      if extractBearerToken (some header) = secret then .ok ()
      else .error (.http 401 "unauthorised") := by
  unfold requireAdmin requireSecret
  dsimp only
  rw [compareDigest_of_ascii hsecret htoken]
  by_cases hsame : extractBearerToken (some header) = secret
  · rw [if_neg (by rw [hsame]; exact hne), if_pos hsame, beq_iff_eq.mpr hsame]
  · rw [if_neg hsame, beq_eq_false_iff_ne.mpr hsame]
    exact ite_self _

theorem requireAdmin_of_not_ascii (htoken : ¬ IsAscii (extractBearerToken (some header)))
    (mintSecret : Option String) :
    ∃ err, requireAdmin ⟨some secret, mintSecret⟩ (some header) = .error (.raised err) := by
  obtain ⟨err, herr⟩ := @compareDigest_of_not_ascii _ secret htoken
  have hne : extractBearerToken (some header) ≠ "" := by
    intro hempty
    rw [hempty] at htoken
    exact htoken nofun
  unfold requireAdmin requireSecret
  dsimp only
  rw [if_neg hne, herr]
  exact ⟨err, rfl⟩

/-- `mint_session` on an ASCII token. -/
theorem beginMint_of_ascii (hsecret : IsAscii secret) (hne : secret ≠ "")
    (htoken : IsAscii (extractBearerToken (some header))) (now : Timestamp) (token mac : String)
    (db : Database) : beginMint (some secret) now token ⟨some header, mac⟩ db =
      if extractBearerToken (some header) = secret then
        admittedMint now token ⟨some header, mac⟩ db
      else (db, .error .unauthorised) := by
  unfold beginMint
  dsimp only
  rw [compareDigest_of_ascii hsecret htoken]
  by_cases hsame : extractBearerToken (some header) = secret
  · rw [if_neg (by rw [hsame]; exact hne), if_pos hsame, beq_iff_eq.mpr hsame]
    rfl
  · rw [if_neg hsame, beq_eq_false_iff_ne.mpr hsame]
    exact ite_self _

/-- `check_auth` on an ASCII token. -/
theorem checkAuth_of_ascii (hsecret : IsAscii secret)
    (hpool : ∀ second, pool = some second → IsAscii second)
    (htoken : ∀ token, mcpBearerToken header = some token → IsAscii token) :
    match checkAuth ⟨secret, pool⟩ (some header) with
    | .ok .admin => mcpBearerToken header = some secret
    | .ok .pool => mcpBearerToken header ≠ some secret ∧ mcpBearerToken header = pool
    | .error (.unauthorised _) => mcpBearerToken header ≠ some secret ∧
        ∀ second, second ≠ "" → pool = some second → mcpBearerToken header ≠ some second
    | .error _ => False := by
  unfold checkAuth
  dsimp only
  cases hstarts : "bearer ".toList.isPrefixOf (lower header).toList with
  | false =>
    have hmcp : mcpBearerToken header = none := by
      rw [mcpBearerToken, hstarts, if_neg Bool.false_ne_true]
    rw [if_pos rfl, hmcp]
    exact ⟨by simp, by simp⟩
  | true =>
    have hmcp : mcpBearerToken header = some (strip (String.ofList (header.toList.drop 7))) := by
      rw [mcpBearerToken, hstarts, if_pos rfl]
    have hascii := htoken _ hmcp
    rw [if_neg (by decide), hmcp]
    generalize strip (String.ofList (header.toList.drop 7)) = token at hascii ⊢
    rw [compareDigest_of_ascii hsecret hascii]
    by_cases hadmin : token = secret
    · rw [beq_iff_eq.mpr hadmin]
      exact congrArg some hadmin
    · rw [beq_eq_false_iff_ne.mpr hadmin]
      have hother : some token ≠ some secret := fun h => hadmin (Option.some.inj h)
      cases pool with
      | none => exact ⟨hother, fun _ _ h => by cases h⟩
      | some second =>
        dsimp only
        by_cases hempty : second = ""
        · rw [if_pos hempty]
          refine ⟨hother, fun second' hne h => ?_⟩
          cases h
          exact absurd hempty hne
        · rw [if_neg hempty, compareDigest_of_ascii (hpool second rfl) hascii]
          by_cases hsecond : token = second
          · rw [beq_iff_eq.mpr hsecond]
            exact ⟨hother, congrArg some hsecond⟩
          · rw [beq_eq_false_iff_ne.mpr hsecond]
            refine ⟨hother, fun second' _ h h' => ?_⟩
            cases h
            exact hsecond (Option.some.inj h')

end Gates

/-- **The gates** are uniform on a header exactly if any token that it bears is ASCII and stands
behind the word `bearer` at its start and a blank. -/
theorem uniformBearer_iff [Latin1Unicode] {secret : String} {pool : Option String}
    (header : List UInt8) (hsecret : IsAscii secret) (hne : secret ≠ "")
    (hpool : ∀ second, pool = some second → IsAscii second) :
    UniformBearer secret pool (decodeLatin1 header) ↔
      ∀ lead scheme gap token tail, Bears (decodeLatin1 header).toList lead scheme gap token tail →
        lead = [] ∧ gap.head? = some ' ' ∧ ∀ c ∈ token, c.toNat < 128 := by
  have hlatin : ∀ c ∈ (decodeLatin1 header).toList, c.toNat < 256 := toNat_of_mem_decodeLatin1
  generalize decodeLatin1 header = header at hlatin ⊢
  constructor
  · intro h lead scheme gap token tail hbears
    obtain ⟨hlead, hgap⟩ := (sameToken_iff hlatin).mp h.sameToken lead scheme gap token tail hbears
    refine ⟨hlead, hgap, ?_⟩
    by_contra hascii
    have htoken : ¬ IsAscii (extractBearerToken (some header)) := by
      have heq := hbears.extractBearerToken_eq
      rw [String.ofList_toList] at heq
      rw [heq, IsAscii, String.toList_ofList]
      exact hascii
    obtain ⟨err, herr⟩ := @requireAdmin_of_not_ascii _ secret _ htoken none
    rw [h.admin none] at herr
    split at herr <;> cases herr
  · intro hall
    have hsame := (sameToken_iff hlatin).mpr fun lead scheme gap token tail hbears =>
      (hall lead scheme gap token tail hbears).imp_right And.left
    have hascii : IsAscii (extractBearerToken (some header)) := by
      by_cases hempty : extractBearerToken (some header) = ""
      · rw [hempty]
        exact nofun
      · obtain ⟨lead, scheme, gap, tail, hbears⟩ := exists_bears hempty
        exact (hall _ _ _ _ _ hbears).2.2
    refine ⟨hsame, checkAuth_of_ascii hsecret hpool fun token htoken => ?_,
      requireAdmin_of_ascii hsecret hne hascii,
      fun now token mac db => beginMint_of_ascii hsecret hne hascii now token mac db⟩
    rw [htoken, Option.getD_some] at hsame
    rw [hsame]
    exact hascii

section Examples

attribute [local instance] latin1

def bearerHeader : List UInt8 := "Bearer admin-token".toList.map fun c => c.toNat.toUInt8

/-- One blank and an ASCII token. -/
theorem uniformBearer_blank :
    UniformBearer "admin-token" (some "pool-token") (decodeLatin1 bearerHeader) := by
  have hbears : Bears (decodeLatin1 bearerHeader).toList [] "Bearer".toList [' ']
      "admin-token".toList [] := by
    refine ⟨by decide +kernel, nofun, ?_, by decide +kernel, ?_, by decide, by decide,
      by decide +kernel, nofun⟩
    · exact forall_mem_of_all (by decide)
    · exact forall_mem_of_all (by decide)
  refine (@uniformBearer_iff _ "admin-token" _ bearerHeader ?_ (by decide) ?_).mpr ?_
  · exact forall_mem_of_all (by decide)
  · intro second hsecond
    cases hsecond
    exact forall_mem_of_all (by decide)
  · intro lead scheme gap token tail h
    obtain ⟨hlead, hgap⟩ := h.unique hbears
    have htoken := h.extractBearerToken_eq.symm.trans hbears.extractBearerToken_eq
    obtain rfl : token = "admin-token".toList := String.ofList_injective htoken
    exact ⟨hlead, by rw [hgap]; rfl, forall_mem_of_all (by decide)⟩

/-- A tab stands between scheme and token. -/
def tabbedHeader : List UInt8 := "Bearer\tadmin-token".toList.map fun c => c.toNat.toUInt8

theorem not_uniformBearer : ¬ UniformBearer "admin-token" none (decodeLatin1 tabbedHeader) := by
  intro h
  exact absurd h.sameToken (by decide +kernel)

end Examples

end Fleetboot
