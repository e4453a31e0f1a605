import Mathlib.Data.List.DropRight
import Fleetboot.Library.Url
import Fleetboot.Library.Words

/-!
# URI references

RFC 3986: the five components of a reference, the removal of dot segments, and how a reference is
resolved against a base.

* `removeDotLoop_of_le`: the loop over the segments comes to its end.
* `parse_hierarchical`: a URL with an authority, component by component.
* `urljoin_absolutePath`: a path that starts with a slash replaces the path of the base.
-/

set_option autoImplicit false

namespace Python

structure UriReference where
  scheme : Option (List Char)
  authority : Option (List Char)
  path : List Char
  query : Option (List Char)
  fragment : Option (List Char)

/-! ## Dot segments -/

/-- The output without its last segment and the slash in front of it. -/
def dropSegment (out : List Char) : List Char := (out.rdropWhile (· != '/')).dropLast

/-- One round of the loop of section 5.2.4: the input and the output that are left. -/
def dotStep : List Char → List Char → List Char × List Char
  | '.' :: '.' :: '/' :: rest, out => (rest, out)
  | '.' :: '/' :: rest, out => (rest, out)
  | '/' :: '.' :: '/' :: rest, out => ('/' :: rest, out)
  | ['/', '.'], out => (['/'], out)
  | '/' :: '.' :: '.' :: '/' :: rest, out => ('/' :: rest, dropSegment out)
  | ['/', '.', '.'], out => (['/'], dropSegment out)
  | ['.'], out => ([], out)
  | ['.', '.'], out => ([], out)
  | c :: rest, out => (rest.dropWhile (· != '/'), out ++ c :: rest.takeWhile (· != '/'))
  | [], out => ([], out)

def removeDotLoop : Nat → List Char → List Char → List Char
  | 0, _, out => out
  | _ + 1, [], out => out
  | fuel + 1, c :: rest, out =>
    removeDotLoop fuel (dotStep (c :: rest) out).1 (dotStep (c :: rest) out).2

/-- `remove_dot_segments`. -/
def removeDotSegments (path : List Char) : List Char := removeDotLoop path.length path []

/-- A round takes something off the input. -/
theorem length_dotStep_lt (c : Char) (rest out : List Char) :
    (dotStep (c :: rest) out).1.length < (c :: rest).length := by
  have hlength := (List.dropWhile_suffix (l := rest) (· != '/')).length_le
  unfold dotStep
  split <;> simp_all
  all_goals omega

/-- **The loop ends**: as many rounds as there are characters are enough. -/
theorem removeDotLoop_of_le {input : List Char} {fuel : Nat} (h : input.length ≤ fuel)
    (out : List Char) : removeDotLoop fuel input out = removeDotLoop input.length input out := by
  induction fuel using Nat.strongRecOn generalizing input out with
  | _ fuel ih =>
    cases input with
    | nil => cases fuel <;> rfl
    | cons c rest =>
      cases fuel with
      | zero => cases h
      | succ fuel =>
        have hround := length_dotStep_lt c rest out
        rw [List.length_cons] at h hround ⊢
        rw [removeDotLoop, removeDotLoop, ih fuel (Nat.lt_succ_self _) (by omega)]
        by_cases hlast : rest.length = fuel
        · rw [hlast, ih fuel (Nat.lt_succ_self _) (by omega)]
        · rw [ih rest.length (by omega) (by omega)]

/-- A round of the loop. -/
theorem removeDotLoop_cons {fuel : Nat} {c : Char} {rest : List Char}
    (h : (c :: rest).length ≤ fuel) (out : List Char) : removeDotLoop fuel (c :: rest) out =
      removeDotLoop fuel (dotStep (c :: rest) out).1 (dotStep (c :: rest) out).2 := by
  cases fuel with
  | zero => cases h
  | succ fuel =>
    have hround := length_dotStep_lt c rest out
    rw [List.length_cons] at h hround
    rw [removeDotLoop, removeDotLoop_of_le (show _ ≤ fuel by omega),
      removeDotLoop_of_le (show _ ≤ fuel + 1 by omega)]

section Segments

variable {seg rest : List Char}

/-- A segment that is no dot segment goes to the output. -/
theorem dotStep_segment (hslash : '/' ∉ seg) (hone : seg ≠ ['.']) (htwo : seg ≠ ['.', '.'])
    (hrest : ∀ c ∈ rest.head?, c = '/') (out : List Char) :
    dotStep ('/' :: (seg ++ rest)) out = (rest, out ++ '/' :: seg) := by
  have hall : ∀ c ∈ seg, (c != '/') = true := fun c hc => by
    rw [bne_iff_ne]
    rintro rfl
    exact hslash hc
  have hstop : rest.takeWhile (· != '/') = [] ∧ rest.dropWhile (· != '/') = rest := by
    cases rest with
    | nil => exact ⟨rfl, rfl⟩
    | cons c rest =>
      obtain rfl := hrest c rfl
      exact ⟨List.takeWhile_cons_of_neg (by decide), List.dropWhile_cons_of_neg (by decide)⟩
  have htake : (seg ++ rest).takeWhile (· != '/') = seg := by
    rw [List.takeWhile_append_of_pos hall, hstop.1, List.append_nil]
  have hdrop : (seg ++ rest).dropWhile (· != '/') = rest := by
    rw [List.dropWhile_append_of_pos hall, hstop.2]
  -- Of the other rounds each begins with another first segment.
  have hsegment : ∀ cs, '/' :: (seg ++ rest) = '/' :: cs → cs.takeWhile (· != '/') = seg :=
    fun cs h => (List.cons.inj h).2 ▸ htake
  unfold dotStep
  split
  case h_3 heq => exact absurd (hsegment _ heq).symm hone
  case h_4 heq => exact absurd (hsegment _ heq).symm hone
  case h_5 heq => exact absurd (hsegment _ heq).symm htwo
  case h_6 heq => exact absurd (hsegment _ heq).symm htwo
  case h_9 heq =>
    obtain ⟨rfl, rfl⟩ := List.cons.inj heq
    rw [htake, hdrop]
  all_goals
    rename_i heq
    cases heq

end Segments

/-- An absolute path from its segments. -/
def pathOf (segments : List (List Char)) : List Char := segments.flatMap fun seg => '/' :: seg

theorem head_pathOf (segments : List (List Char)) : ∀ c ∈ (pathOf segments).head?, c = '/' := by
  cases segments with
  | nil => exact nofun
  | cons seg segments =>
    rintro c ⟨⟩
    rfl

/-- A segment as it stands in a path without dot segments. -/
structure IsSegment (seg : List Char) : Prop where
  no_slash : '/' ∉ seg
  not_one : seg ≠ ['.']
  not_two : seg ≠ ['.', '.']

theorem removeDotLoop_pathOf {segments : List (List Char)} (h : ∀ seg ∈ segments, IsSegment seg)
    {fuel : Nat} (hfuel : (pathOf segments).length ≤ fuel) (out : List Char) :
    removeDotLoop fuel (pathOf segments) out = out ++ pathOf segments := by
  induction segments generalizing out with
  | nil => cases fuel <;> exact (List.append_nil out).symm
  | cons seg segments ih =>
    have hseg := h seg List.mem_cons_self
    have hpath : pathOf (seg :: segments) = '/' :: (seg ++ pathOf segments) := rfl
    rw [hpath, List.length_cons, List.length_append] at hfuel
    rw [hpath, removeDotLoop_cons (by rw [List.length_cons, List.length_append]; exact hfuel),
      dotStep_segment hseg.no_slash hseg.not_one hseg.not_two (head_pathOf segments),
      ih (fun seg hmem => h seg (List.mem_cons_of_mem _ hmem)) (by omega)]
    rw [List.append_assoc, List.cons_append]

/-- **A path without dot segments** stays what it is. -/
theorem removeDotSegments_pathOf {segments : List (List Char)}
    (h : ∀ seg ∈ segments, IsSegment seg) :
    removeDotSegments (pathOf segments) = pathOf segments :=
  removeDotLoop_pathOf h (Nat.le_refl _) []

/-! ## Components -/

namespace UriReference

/-- A path goes to the first `?` or `#`. -/
def endsPath (c : Char) : Bool := c == '?' || c == '#'

/-- What stands behind scheme and authority. -/
def ofRest (scheme authority : Option (List Char)) (cs : List Char) : UriReference :=
  let path := cs.takeWhile fun c => !endsPath c
  let behind := cs.dropWhile fun c => !endsPath c
  let (query, behind) := match behind with
    | '?' :: rest => (some (rest.takeWhile (· != '#')), rest.dropWhile (· != '#'))
    | _ => (none, behind)
  { scheme, authority, path, query
    fragment := match behind with
      | '#' :: rest => some rest
      | _ => none }

/-- What stands behind a scheme. -/
def ofHierPart (scheme : Option (List Char)) : List Char → UriReference
  | '/' :: '/' :: rest =>
    ofRest scheme (some (rest.takeWhile fun c => !endsNetloc c))
      (rest.dropWhile fun c => !endsNetloc c)
  | cs => ofRest scheme none cs

/-- The expression of appendix B. -/
def parse (cs : List Char) : UriReference :=
  let first := cs.takeWhile fun c => !(c == ':' || endsNetloc c)
  match cs.dropWhile fun c => !(c == ':' || endsNetloc c) with
  | ':' :: rest => if first = [] then ofHierPart none cs else ofHierPart (some first) rest
  | _ => ofHierPart none cs

/-- Section 5.3. -/
def text (uri : UriReference) : List Char :=
  (match uri.scheme with
    | some scheme => scheme ++ [':']
    | none => []) ++
  (match uri.authority with
    | some authority => '/' :: '/' :: authority
    | none => []) ++
  uri.path ++
  (match uri.query with
    | some query => '?' :: query
    | none => []) ++
  match uri.fragment with
  | some fragment => '#' :: fragment
  | none => []

/-- Section 5.2.3. -/
def mergePath (base : UriReference) (path : List Char) : List Char :=
  if base.authority.isSome && base.path.isEmpty then '/' :: path
  else base.path.rdropWhile (· != '/') ++ path

/-- Section 5.2.2. -/
def resolve (base ref : UriReference) : UriReference :=
  if ref.scheme.isSome then { ref with path := removeDotSegments ref.path }
  else if ref.authority.isSome then
    { ref with
      scheme := base.scheme
      path := removeDotSegments ref.path }
  else if ref.path = [] then
    { base with
      query := ref.query.or base.query
      fragment := ref.fragment }
  else
    { ref with
      scheme := base.scheme
      authority := base.authority
      path := removeDotSegments
        (if ref.path.head? = some '/' then ref.path else base.mergePath ref.path) }

section Parse

variable {scheme authority rest : List Char}

/-- **A URL component by component**: scheme, authority and what stands behind it. -/
theorem parse_hierarchical (hne : scheme ≠ [])
    (hscheme : ∀ c ∈ scheme, (c == ':' || endsNetloc c) = false)
    (hauthority : ∀ c ∈ authority, endsNetloc c = false)
    (hrest : ∀ c ∈ rest.head?, endsNetloc c = true) :
    parse (scheme ++ ':' :: '/' :: '/' :: (authority ++ rest)) =
      ofRest (some scheme) (some authority) rest := by
  have hfirst : ∀ c ∈ scheme, (!(c == ':' || endsNetloc c)) = true := fun c hc => by
    rw [hscheme c hc]
    rfl
  have hnetloc := splitNetloc_append hauthority hrest
  simp only [splitNetloc] at hnetloc
  obtain ⟨htake, hdrop⟩ := Prod.mk.inj hnetloc
  unfold parse
  dsimp only
  rw [List.takeWhile_append_of_pos hfirst, List.dropWhile_append_of_pos hfirst,
    List.takeWhile_cons_of_neg (by decide), List.dropWhile_cons_of_neg (by decide),
    List.append_nil]
  refine (if_neg hne).trans ?_
  rw [ofHierPart, htake, hdrop]

/-- What stands behind an authority and has neither query nor fragment is the path. -/
theorem ofRest_path {scheme authority : Option (List Char)} {path : List Char}
    (h : ∀ c ∈ path, endsPath c = false) : ofRest scheme authority path =
      { scheme, authority, path, query := none, fragment := none } := by
  have hall : ∀ c ∈ path, (!endsPath c) = true := fun c hc => by
    rw [h c hc]
    rfl
  unfold ofRest
  rw [List.takeWhile_eq_self_iff.mpr hall, List.dropWhile_eq_nil_iff.mpr hall]

/-- A path and a query, and no fragment. -/
theorem ofRest_query {scheme authority : Option (List Char)} {path query : List Char}
    (hpath : ∀ c ∈ path, endsPath c = false) (hquery : '#' ∉ query) :
    ofRest scheme authority (path ++ '?' :: query) =
      { scheme, authority, path, query := some query, fragment := none } := by
  have hall : ∀ c ∈ path, (!endsPath c) = true := fun c hc => by
    rw [hpath c hc]
    rfl
  have hnone : ∀ c ∈ query, (c != '#') = true := fun c hc => by
    rw [bne_iff_ne]
    rintro rfl
    exact hquery hc
  unfold ofRest
  rw [List.takeWhile_append_of_pos hall, List.dropWhile_append_of_pos hall,
    List.takeWhile_cons_of_neg (by decide), List.dropWhile_cons_of_neg (by decide),
    List.append_nil]
  simp only [List.takeWhile_eq_self_iff.mpr hnone, List.dropWhile_eq_nil_iff.mpr hnone]

/-- A path that starts with one slash. -/
theorem parse_path {path : List Char} (hslash : path.head? = some '/')
    (hone : ∀ rest, path ≠ '/' :: '/' :: rest) (h : ∀ c ∈ path, endsPath c = false) :
    parse path = { scheme := none, authority := none, path, query := none, fragment := none } := by
  obtain ⟨rest, rfl⟩ := List.head?_eq_some_iff.mp hslash
  unfold parse
  dsimp only
  rw [List.dropWhile_cons_of_neg (by decide)]
  change ofHierPart none ('/' :: rest) = _
  unfold ofHierPart
  split
  · rename_i heq
    exact absurd heq (hone _)
  · exact ofRest_path h

end Parse

/-- An absolute path is resolved without the path of the base. -/
theorem resolve_absolutePath (base : UriReference) {path : List Char}
    (hslash : path.head? = some '/') :
    base.resolve { scheme := none, authority := none, path, query := none, fragment := none } =
      { scheme := base.scheme, authority := base.authority, path := removeDotSegments path,
        query := none, fragment := none } := by
  have hne : path ≠ [] := by
    rintro rfl
    cases hslash
  unfold resolve
  rw [if_neg (by exact Bool.false_ne_true), if_neg (by exact Bool.false_ne_true), if_neg hne,
    if_pos hslash]

end UriReference

/-- `urljoin`. -/
def urljoin (base ref : String) : String :=
  String.ofList ((UriReference.parse base.toList).resolve (.parse ref.toList)).text

/-- **A path that starts with a slash** takes the place of the whole path of the base. -/
theorem urljoin_absolutePath {scheme authority rest seg : List Char}
    {segments : List (List Char)} (hne : scheme ≠ [])
    (hscheme : ∀ c ∈ scheme, (c == ':' || endsNetloc c) = false)
    (hauthority : ∀ c ∈ authority, endsNetloc c = false)
    (hrest : ∀ c ∈ rest.head?, endsNetloc c = true) (hseg : seg ≠ [])
    (hsegments : ∀ seg' ∈ seg :: segments, IsSegment seg')
    (hclean : ∀ c ∈ pathOf (seg :: segments), UriReference.endsPath c = false) :
    urljoin (String.ofList (scheme ++ ':' :: '/' :: '/' :: (authority ++ rest)))
        (String.ofList (pathOf (seg :: segments))) =
      String.ofList (scheme ++ ':' :: '/' :: '/' :: (authority ++ pathOf (seg :: segments))) := by
  have hone : ∀ rest, pathOf (seg :: segments) ≠ '/' :: '/' :: rest := by
    intro rest h
    obtain ⟨c, seg', rfl⟩ := List.exists_cons_of_ne_nil hseg
    have hc : c = '/' := (List.cons.inj (List.cons.inj h).2).1
    exact (hsegments _ List.mem_cons_self).no_slash (hc ▸ List.mem_cons_self)
  unfold urljoin
  rw [String.toList_ofList, String.toList_ofList,
    UriReference.parse_hierarchical hne hscheme hauthority hrest,
    UriReference.parse_path rfl hone hclean]
  rw [UriReference.resolve_absolutePath _ rfl, removeDotSegments_pathOf hsegments]
  simp [UriReference.text, UriReference.ofRest]

end Python
