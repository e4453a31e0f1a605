import Fleetboot.Library.Quote
import Fleetboot.Library.UriReference

/-!
# Query strings

`urllib.parse.parse_qsl(query, keep_blank_values=True)`, on the query of a URL that is split as
`UriReference` splits it.

* `parseQsl_field`: a query of one field.
* `urlParameters_field`: the same, as the query of a URL.
-/

set_option autoImplicit false

namespace Python

/-- `unquote(text.replace("+", " "))`. -/
def unquotePlus (cs : List Char) : String :=
  unquote (String.ofList (cs.map fun c => if c = '+' then ' ' else c))

/-- `name=value`, or a name alone. -/
def parseField (field : List Char) : String × String :=
  (unquotePlus (cutAt '=' field).1, unquotePlus (cutAt '=' field).2)

/-- `parse_qsl`. -/
def parseQsl (query : List Char) : List (String × String) :=
  ((query.splitOn '&').filter fun field => !field.isEmpty).map parseField

/-- The parameters of a URL. -/
def urlParameters (url : String) : List (String × String) :=
  match (UriReference.parse url.toList).query with
  | none => []
  | some query => parseQsl query

section Field

variable {name value path scheme authority : List Char}

theorem unquotePlus_of_not_mem (h : '+' ∉ value) :
    unquotePlus value = unquote (String.ofList value) := by
  have hsame : value.map (fun c => if c = '+' then ' ' else c) = value := by
    refine (List.map_congr_left fun c hc => if_neg ?_).trans (List.map_id value)
    rintro rfl
    exact h hc
  rw [unquotePlus, hsame]

/-- **A query of one field.** -/
theorem parseQsl_field (hname : '&' ∉ name) (hequals : '=' ∉ name) (hvalue : '&' ∉ value) :
    parseQsl (name ++ '=' :: value) = [(unquotePlus name, unquotePlus value)] := by
  have hone : '&' ∉ name ++ '=' :: value := by simp [hname, hvalue]
  have hfull : (!(name ++ '=' :: value).isEmpty) = true := by simp
  rw [parseQsl, List.splitOn_eq_singleton hone, List.filter_singleton, hfull, cond_true,
    List.map_singleton, parseField, cutAt_append hequals]

/-- **A URL whose query is one field**: the text of the field is read back. -/
theorem urlParameters_field (hscheme : scheme ≠ [])
    (hschemeChars : ∀ c ∈ scheme, (c == ':' || endsNetloc c) = false)
    (hauthority : ∀ c ∈ authority, endsNetloc c = false) (hslash : path.head? = some '/')
    (hpath : ∀ c ∈ path, UriReference.endsPath c = false)
    (hname : '&' ∉ name) (hequals : '=' ∉ name) (hnameHash : '#' ∉ name) (hvalue : '&' ∉ value)
    (hvalueHash : '#' ∉ value) :
    urlParameters (String.ofList (scheme ++ ':' :: '/' :: '/' ::
        (authority ++ (path ++ '?' :: (name ++ '=' :: value))))) =
      [(unquotePlus name, unquotePlus value)] := by
  have hrest : ∀ c ∈ (path ++ '?' :: (name ++ '=' :: value)).head?, endsNetloc c = true := by
    intro c hc
    rw [List.head?_append, hslash, Option.some_or] at hc
    rw [← Option.some.inj hc]
    rfl
  have hquery : '#' ∉ name ++ '=' :: value := by
    simp only [List.mem_append, List.mem_cons, not_or]
    exact ⟨hnameHash, by decide, hvalueHash⟩
  unfold urlParameters
  rw [String.toList_ofList,
    UriReference.parse_hierarchical hscheme hschemeChars hauthority hrest,
    UriReference.ofRest_query hpath hquery]
  exact parseQsl_field hname hequals hvalue

end Field

end Python
