import Fleetboot.Library.Json

/-!
# URLs in their parts

`urlparse` of Python's `urllib.parse`, over lists of characters. Its refusals, of brackets and of
characters that normalise to delimiters, are left to a check of the authority.

* `urlparse_form`: a URL that is written down part by part is taken apart into these parts.
-/

set_option autoImplicit false

namespace Python

structure ParseResult where
  scheme : String
  netloc : String
  path : String
  params : String
  query : String
  fragment : String

/-- `s.split(sep, 1)` where `sep` occurs; otherwise there is no second part. -/
def cutAt (sep : Char) (cs : List Char) : List Char × List Char :=
  (cs.takeWhile (· != sep), (cs.dropWhile (· != sep)).tail)

/-- `scheme_chars`. -/
def isSchemeChar (c : Char) : Bool := c.isAlphanum || c == '+' || c == '-' || c == '.'

def splitScheme (cs : List Char) : List Char × List Char :=
  let scheme := cs.takeWhile (· != ':')
  if ':' ∈ cs ∧ (scheme.head?.any Char.isAlpha && scheme.all isSchemeChar) = true then
    (scheme.map Char.toLower, (cs.dropWhile (· != ':')).tail)
  else ([], cs)

def endsNetloc (c : Char) : Bool := c == '/' || c == '?' || c == '#'

/-- `_splitnetloc`, after two slashes. -/
def splitNetloc : List Char → List Char × List Char
  | '/' :: '/' :: rest =>
    (rest.takeWhile fun c => !endsNetloc c, rest.dropWhile fun c => !endsNetloc c)
  | cs => ([], cs)

/-- `uses_params`. -/
def usesParams : List String :=
  ["", "ftp", "hdl", "prospero", "http", "https", "shttp", "rtsp", "rtsps", "rtspu", "sip", "sips",
    "mms", "sftp", "tel"]

/-- `_splitparams`: the parameters of the last segment. -/
def splitParams (cs : List Char) : List Char × List Char :=
  let last := cutAt ';' (cs.rtakeWhile (· != '/'))
  (cs.rdropWhile (· != '/') ++ last.1, last.2)

/-- What `urlsplit` reads: without control characters and spaces in front, and without tabs and
line ends. -/
def cleanUrl (cs : List Char) : List Char :=
  (cs.dropWhile fun c => decide (c.toNat ≤ 32)).filter fun c =>
    c != '\t' && c != '\r' && c != '\n'

/-- `urlparse`. -/
def urlparse (checkNetloc : String → Except Exception Unit) (url : String) :
    Except Exception ParseResult :=
  let (scheme, afterScheme) := splitScheme (cleanUrl url.toList)
  let (netloc, afterNetloc) := splitNetloc afterScheme
  let (beforeFragment, fragment) := cutAt '#' afterNetloc
  let (beforeQuery, query) := cutAt '?' beforeFragment
  let (path, params) :=
    if String.ofList scheme ∈ usesParams then splitParams beforeQuery else (beforeQuery, [])
  (checkNetloc (String.ofList netloc)).map fun _ =>
    { scheme := String.ofList scheme
      netloc := String.ofList netloc
      path := String.ofList path
      params := String.ofList params
      query := String.ofList query
      fragment := String.ofList fragment }

section Parts

variable {scheme netloc path cs : List Char} {sep : Char}

theorem cutAt_of_not_mem (h : sep ∉ cs) : cutAt sep cs = (cs, []) := by
  have hall : ∀ c ∈ cs, (c != sep) = true := fun c hc => by
    simp only [bne_iff_ne]
    rintro rfl
    exact h hc
  unfold cutAt
  rw [List.takeWhile_eq_self_iff.mpr hall, List.dropWhile_eq_nil_iff.mpr hall]
  rfl

theorem cutAt_append (h : sep ∉ cs) (rest : List Char) :
    cutAt sep (cs ++ sep :: rest) = (cs, rest) := by
  have hall : ∀ c ∈ cs, (c != sep) = true := fun c hc => by
    simp only [bne_iff_ne]
    rintro rfl
    exact h hc
  unfold cutAt
  rw [List.takeWhile_append_of_pos hall, List.dropWhile_append_of_pos hall]
  simp

theorem splitParams_of_not_mem (h : ';' ∉ cs.rtakeWhile (· != '/')) :
    splitParams cs = (cs, []) := by
  unfold splitParams
  rw [cutAt_of_not_mem h]
  simp [List.rdropWhile_append_rtakeWhile]

theorem splitScheme_append (hhead : scheme.head?.any Char.isAlpha = true)
    (hscheme : scheme.all isSchemeChar = true) (rest : List Char) :
    splitScheme (scheme ++ ':' :: rest) = (scheme.map Char.toLower, rest) := by
  have hnot : ':' ∉ scheme := fun hmem => by
    have hcolon := List.all_eq_true.mp hscheme ':' hmem
    revert hcolon
    decide
  have hcut := cutAt_append hnot rest
  unfold cutAt at hcut
  obtain ⟨hbefore, hafter⟩ := Prod.mk.inj hcut
  unfold splitScheme
  simp only
  rw [hbefore, hafter, if_pos ⟨by simp, by rw [hhead, hscheme]; rfl⟩]

theorem splitNetloc_append (hnetloc : ∀ c ∈ netloc, endsNetloc c = false)
    (hpath : ∀ c ∈ path.head?, endsNetloc c = true) :
    splitNetloc ('/' :: '/' :: (netloc ++ path)) = (netloc, path) := by
  have hall : ∀ c ∈ netloc, (!endsNetloc c) = true := fun c hc => by simp [hnetloc c hc]
  simp only [splitNetloc]
  rw [List.takeWhile_append_of_pos hall, List.dropWhile_append_of_pos hall]
  cases path with
  | nil => simp
  | cons c rest => simp [hpath c rfl]

theorem lt_of_isAlpha {c : Char} (h : c.isAlpha = true) : 32 < c.toNat := by
  have hcase : c.isUpper = true ∨ c.isLower = true := (Bool.or_eq_true _ _).mp h
  rcases hcase with hupper | hlower
  · have hle : 65 ≤ c.toNat ∧ c.toNat ≤ 90 := of_decide_eq_true hupper
    omega
  · have hle : 97 ≤ c.toNat := of_decide_eq_true ((Bool.and_eq_true _ _).mp hlower).1
    omega

theorem cleanUrl_of_clean (hhead : ∀ c ∈ cs.head?, 32 < c.toNat)
    (hclean : ∀ c ∈ cs, isSpace c = false) : cleanUrl cs = cs := by
  have hdrop : cs.dropWhile (fun c => decide (c.toNat ≤ 32)) = cs := by
    refine dropWhile_eq_self_of_head fun c hc => ?_
    have hlt := hhead c hc
    simp only [decide_eq_false_iff_not]
    omega
  unfold cleanUrl
  rw [hdrop, List.filter_eq_self]
  intro c hc
  have hspace := hclean c hc
  simp only [Bool.and_eq_true, bne_iff_ne]
  refine ⟨⟨?_, ?_⟩, ?_⟩
  all_goals
    rintro rfl
    revert hspace
    decide

/-- **A URL part by part.** A scheme in small letters, an authority, and a path that is empty or
begins with a slash; no white space, and nothing that begins another part. -/
theorem urlparse_form (checkNetloc : String → Except Exception Unit)
    (hhead : scheme.head?.any Char.isAlpha = true) (hscheme : scheme.all isSchemeChar = true)
    (hlower : scheme.map Char.toLower = scheme) (hnetloc : ∀ c ∈ netloc, endsNetloc c = false)
    (hpath : ∀ c ∈ path.head?, c = '/') (hquery : '?' ∉ path) (hfragment : '#' ∉ path)
    (hparams : ';' ∉ path.rtakeWhile (· != '/'))
    (hclean : ∀ c ∈ scheme ++ netloc ++ path, isSpace c = false) :
    urlparse checkNetloc (String.ofList (scheme ++ ':' :: '/' :: '/' :: (netloc ++ path))) =
      (checkNetloc (String.ofList netloc)).map fun _ =>
        { scheme := String.ofList scheme
          netloc := String.ofList netloc
          path := String.ofList path
          params := ""
          query := ""
          fragment := "" } := by
  have hcleaned : cleanUrl (scheme ++ ':' :: '/' :: '/' :: (netloc ++ path)) =
      scheme ++ ':' :: '/' :: '/' :: (netloc ++ path) := by
    refine cleanUrl_of_clean ?_ ?_
    · cases scheme with
      | nil => cases hhead
      | cons c rest =>
        intro d hd
        obtain rfl := Option.some.inj hd
        exact lt_of_isAlpha hhead
    · intro c hc
      simp only [List.mem_append, List.mem_cons] at hc hclean
      rcases hc with hc | rfl | rfl | rfl | hc
      · exact hclean c (.inl (.inl hc))
      · decide
      · decide
      · decide
      · rcases hc with hc | hc
        · exact hclean c (.inl (.inr hc))
        · exact hclean c (.inr hc)
  unfold urlparse
  rw [String.toList_ofList, hcleaned, splitScheme_append hhead hscheme]
  simp only
  rw [splitNetloc_append hnetloc fun c hc => by rw [hpath c hc]; rfl]
  simp only
  rw [cutAt_of_not_mem hfragment]
  simp only
  rw [cutAt_of_not_mem hquery, hlower]
  simp only
  rw [splitParams_of_not_mem hparams]
  simp

end Parts

end Python
