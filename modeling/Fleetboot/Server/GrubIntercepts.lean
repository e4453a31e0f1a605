import Fleetboot.Library.Quote
import Fleetboot.Registry.Leftovers
import Fleetboot.Reporter.StatusUrl
import Fleetboot.Server.GrubEvents

/-!
# The GRUB events that come over TFTP

tftpjail asks an intercept about each file that is read. `make_grub_event_intercept` of
`grub_event_intercept.py` records the event in the process of the server,
`make_http_grub_event_intercept` of `http_intercept.py` sends it to the endpoint as a URL.

* `tokensHex_run`: the tokens of the sessions are hexadecimal digits.
* `getGrubEvent_of_not_live`, `latestStateAt_getGrubEvent`: which events leave a trace.
* `interceptsAgree_iff`: the file names that both intercepts treat alike.
-/

set_option autoImplicit false

namespace Fleetboot

open Python Relational Transition

/-- `None`, empty bytes, or an exception that tftpjail gets to see. -/
inductive InterceptAnswer
  | notHandled
  | handled
  | raised (err : Exception)
  deriving DecidableEq

/-- Token and state of a file name of three parts. -/
def eventParts (requestFilename : String) : Option (String × String) :=
  match (requestFilename.toList.dropWhile (· == '/')).splitOn '/' with
  | [first, token, state] =>
    if String.ofList first = "grub-event" then some (String.ofList token, String.ofList state)
    else none
  | _ => none

/-! ## The two intercepts -/

section Intercepts

variable [Unicode]

/-- `intercept` of `grub_event_intercept.py`. -/
def inProcessIntercept (now : Timestamp) (requestFilename : String) (db : Database) :
    Database × InterceptAnswer :=
  match eventParts requestFilename with
  | none => (db, .notHandled)
  | some (token, stateStr) =>
    match BootState.ofValue stateStr with
    | none => (db, .handled)
    | some state =>
      match recordState now token state db with
      | none => (db, .handled)
      | some (session, db) => (logBootEvent now session.mac state.value none db, .handled)

/-- `f"{base}/grub-event/{token}/{state}"`. -/
def eventUrl (fleetbootBaseUrl token state : String) : String :=
  withoutSlashes fleetbootBaseUrl ++ "/grub-event/" ++ token ++ "/" ++ state

/-- The path of a URL as it comes to the server: the client leaves out the query, the fragment and
the dot segments, the server decodes. -/
def requestPath (url : String) : String :=
  unquote (String.ofList (removeDotSegments (UriReference.parse url.toList).path))

/-- The route `/grub-event/{token}/{state_str}`. -/
def routeGrubEvent (path : String) : Option (String × String) :=
  match path.toList.splitOn '/' with
  | [[], first, token, state] =>
    if String.ofList first = "grub-event" ∧ token ≠ [] ∧ state ≠ [] then
      some (String.ofList token, String.ofList state)
    else none
  | _ => none

/-- `intercept` of `http_intercept.py`, and what the server does with the request. The client may
refuse a URL with an exception that is no `HTTPError`. A request for any other route records no
event. -/
def httpIntercept (refuses : String → Option Exception) (fleetbootBaseUrl : String)
    (now : Timestamp) (requestFilename : String) (db : Database) : Database × InterceptAnswer :=
  match eventParts requestFilename with
  | none => (db, .notHandled)
  | some (token, state) =>
    match refuses (eventUrl fleetbootBaseUrl token state) with
    | some err => (db, .raised err)
    | none =>
      match routeGrubEvent (requestPath (eventUrl fleetbootBaseUrl token state)) with
      | none => (db, .handled)
      | some (token, stateStr) => ((getGrubEvent now token stateStr db).1, .handled)

/-- The same answer, and the same sessions and boot events, at whatever time the file is asked
for. -/
def InterceptsAgree (refuses : String → Option Exception)
    (fleetbootBaseUrl requestFilename : String)
    (db : Database) : Prop :=
  ∀ now,
    let direct := inProcessIntercept now requestFilename db
    let forwarded := httpIntercept refuses fleetbootBaseUrl now requestFilename db
    direct.2 = forwarded.2 ∧ direct.1.bootSessions = forwarded.1.bootSessions ∧
      direct.1.bootEvents = forwarded.1.bootEvents

end Intercepts

/-! ## Tokens -/

/-- What `secrets.token_hex` draws. -/
def IsTokenHex (token : String) : Prop :=
  token ≠ "" ∧ ∀ c ∈ token.toList, c ∈ "0123456789abcdef".toList

def TokensHex (db : Database) : Prop := ∀ binding ∈ db.bindings, IsTokenHex binding.1

section Tokens

variable [Unicode] [IpAddress]

/-- Sessions keep to such tokens as long as these are what is drawn. -/
theorem tokensHex_run {s s' : Registry} {calls : List Call} (hrun : Run Step s calls s')
    (hs : HasRun s.db) (hstart : TokensHex s.db)
    (hdrawn : ∀ call ∈ calls, ∀ token mac, call.op = .mint token mac → IsTokenHex token) :
    TokensHex s'.db := by
  have hkeep : ∀ s₁ call s₂, (HasRun s₁.db ∧ TokensHex s₁.db) → Step s₁ call s₂ →
      (∀ token mac, call.op = .mint token mac → IsTokenHex token) →
      HasRun s₂.db ∧ TokensHex s₂.db := by
    intro s₁ call s₂ hs₁ hstep hgood
    have hdb : s₂.db = (call.op.run call.time s₁.db).db := by rw [hstep.run]
    refine ⟨hdb ▸ hasRun_run hs₁.1 call.op, fun binding hbound => ?_⟩
    rw [hdb] at hbound
    rcases mem_bindings_run hs₁.1 hbound with hold | ⟨mac, hmint, -⟩
    · exact hs₁.2 binding hold
    · exact hgood binding.1 mac hmint
  exact (hrun.invariant_of_good hkeep ⟨hs, hstart⟩ hdrawn).2

end Tokens

/-! ## Events that leave a trace -/

/-- The token of a session, and a known state. -/
def Live (db : Database) (token stateStr : String) : Prop :=
  db.bootSessions.lookup token ≠ none ∧ BootState.ofValue stateStr ≠ none

section Live

variable [Unicode] {now : Timestamp} {db : Database} {token stateStr requestFilename : String}

theorem getGrubEvent_of_not_live (h : ¬ Live db token stateStr) :
    (getGrubEvent now token stateStr db).1 = db := by
  unfold getGrubEvent
  cases hstate : BootState.ofValue stateStr with
  | none => rfl
  | some state =>
    have hnone : db.bootSessions.lookup token = none := by
      by_contra hsome
      exact h ⟨hsome, by rw [hstate]; exact nofun⟩
    dsimp only
    rw [recordState_unknown hnone]

/-- The intercept in the process does what the endpoint does. -/
theorem inProcessIntercept_of_parts (h : eventParts requestFilename = some (token, stateStr)) :
    inProcessIntercept now requestFilename db =
      ((getGrubEvent now token stateStr db).1, .handled) := by
  unfold inProcessIntercept getGrubEvent
  rw [h]
  dsimp only
  cases BootState.ofValue stateStr with
  | none => rfl
  | some state =>
    dsimp only
    cases recordState now token state db <;> rfl

theorem bootSessions_logBootEvent (mac state : String) (detail : Option String) :
    (logBootEvent now mac state detail db).bootSessions = db.bootSessions := by
  unfold logBootEvent
  dsimp only
  split
  · rfl
  · split <;> rfl

/-- A live event stamps its session. -/
theorem latestStateAt_getGrubEvent (h : Live db token stateStr) :
    ∃ row, (getGrubEvent now token stateStr db).1.bootSessions.lookup token = some row ∧
      row.latestStateAt = some now := by
  obtain ⟨hsession, hknown⟩ := h
  obtain ⟨row, hrow⟩ := Option.ne_none_iff_exists'.mp hsession
  obtain ⟨state, hstate⟩ := Option.ne_none_iff_exists'.mp hknown
  obtain ⟨recorded, hrecord, hrows⟩ := recordState_live hrow
  have htoken := Table.key_of_lookup hrow
  refine ⟨row.report now state, ?_, rfl⟩
  unfold getGrubEvent
  rw [hstate]
  dsimp only
  rw [hrecord]
  dsimp only
  rw [bootSessions_logBootEvent]
  refine Table.lookup_eq_some_iff.mpr ⟨?_, rfl, htoken⟩
  rw [hrows, List.mem_map]
  exact ⟨row, Table.mem_of_lookup hrow, if_pos htoken⟩

end Live

/-! ## Paths -/

/-- The path by which an event is asked for, as the server sees it. -/
def eventPath (token stateStr : String) : String :=
  unquote (String.ofList (removeDotSegments
    (("/grub-event/" ++ token ++ "/" ++ stateStr).toList.takeWhile
      fun c => !UriReference.endsPath c)))

/-- A file name spells an event literally, or by way of the URL. -/
def Spells (token stateStr token' stateStr' : String) : Prop :=
  eventPath token stateStr = "/grub-event/" ++ token' ++ "/" ++ stateStr'

section Paths

variable {fleetbootBaseUrl token stateStr path : String}

/-- Below a bare server the path of the URL is that of the event. -/
theorem requestPath_eventUrl (hbase : IsBareServer fleetbootBaseUrl) :
    requestPath (eventUrl fleetbootBaseUrl token stateStr) = eventPath token stateStr := by
  obtain ⟨scheme, authority, slashes, hscheme, hne, hauthority, hslashes, rfl⟩ := hbase
  obtain ⟨hnonempty, hchars⟩ := scheme_chars hscheme
  have hurl : (eventUrl (scheme ++ "://" ++ authority ++ slashes) token stateStr).toList =
      scheme.toList ++ ':' :: '/' :: '/' ::
        (authority.toList ++ ("/grub-event/" ++ token ++ "/" ++ stateStr).toList) := by
    rw [eventUrl, withoutSlashes_bare hne hauthority hslashes]
    simp
  have hslash : ∀ c ∈ ("/grub-event/" ++ token ++ "/" ++ stateStr).toList.head?,
      endsNetloc c = true := by
    intro c hc
    obtain rfl : '/' = c := by simpa using hc
    decide
  rw [requestPath, hurl, UriReference.parse_hierarchical hnonempty hchars hauthority hslash]
  rfl

/-- The route takes the paths of three segments. -/
theorem routeGrubEvent_eq_some_iff : routeGrubEvent path = some (token, stateStr) ↔
    path = "/grub-event/" ++ token ++ "/" ++ stateStr ∧ token ≠ "" ∧ stateStr ≠ "" ∧
      '/' ∉ token.toList ∧ '/' ∉ stateStr.toList := by
  have hjoined : ['/'].intercalate (path.toList.splitOn '/') = path.toList :=
    List.intercalate_splitOn '/'
  unfold routeGrubEvent
  constructor
  · intro h
    split at h
    · rename_i first token' state' hsplit
      rw [Option.ite_none_right_eq_some] at h
      obtain ⟨⟨hfirst, htoken, hstate⟩, hparts⟩ := h
      cases hparts
      have hslash : ∀ piece ∈ path.toList.splitOn '/', '/' ∉ piece := by
        intro piece hpiece hmem
        rw [List.splitOn_eq_splitOnP] at hpiece
        exact absurd (not_of_mem_splitOnP hpiece '/' hmem) (by decide)
      rw [hsplit] at hjoined hslash
      refine ⟨?_, by simpa using htoken, by simpa using hstate, ?_, ?_⟩
      · refine String.toList_injective ?_
        rw [← hjoined, ← String.toList_ofList (l := first), hfirst]
        simp [List.intercalate]
      · rw [String.toList_ofList]
        exact hslash _ (by simp)
      · rw [String.toList_ofList]
        exact hslash _ (by simp)
    · cases h
  · rintro ⟨rfl, htoken, hstate, hslash, hslash'⟩
    have hwords := @splitOn_join '/' ["", "grub-event", token, stateStr] (List.cons_ne_nil _ _)
      (by simp [hslash, hslash'])
    have hpath : (String.singleton '/').intercalate ["", "grub-event", token, stateStr] =
        "/grub-event/" ++ token ++ "/" ++ stateStr := by
      refine String.toList_injective ?_
      rw [String.toList_intercalate]
      simp [List.intercalate]
    rw [hpath] at hwords
    rw [hwords]
    simp [htoken, hstate]

/-- A character that a path holds as it stands, in a segment that is no dot segment. -/
def isPlain (c : Char) : Bool := c != '/' && c != '?' && c != '#' && c != '%' && c != '.'

/-- **Literal events**: what is spelled with plain characters is its own spelling. -/
theorem eventPath_of_plain (htoken : ∀ c ∈ token.toList, isPlain c = true)
    (hstate : ∀ c ∈ stateStr.toList, isPlain c = true) :
    eventPath token stateStr = "/grub-event/" ++ token ++ "/" ++ stateStr := by
  have hsegments : ("/grub-event/" ++ token ++ "/" ++ stateStr).toList =
      pathOf ["grub-event".toList, token.toList, stateStr.toList] := by
    simp [pathOf]
  have hplain : ∀ {c}, isPlain c = true → c ≠ '/' ∧ c ≠ '?' ∧ c ≠ '#' ∧ c ≠ '%' ∧ c ≠ '.' := by
    intro c hc
    simpa [isPlain, and_assoc] using hc
  have hall : ∀ c ∈ ("/grub-event/" ++ token ++ "/" ++ stateStr).toList,
      c = '/' ∨ isPlain c = true := by
    have hfixed : ∀ c ∈ "/grub-event/".toList, c = '/' ∨ isPlain c = true :=
      forall_mem_of_all (by decide)
    intro c hc
    simp only [String.toList_append, List.mem_append] at hc
    rcases hc with ((hc | hc) | hc) | hc
    · exact hfixed c hc
    · exact .inr (htoken c hc)
    · exact .inl (by simpa using hc)
    · exact .inr (hstate c hc)
  have hcut : ("/grub-event/" ++ token ++ "/" ++ stateStr).toList.takeWhile
      (fun c => !UriReference.endsPath c) =
        ("/grub-event/" ++ token ++ "/" ++ stateStr).toList := by
    refine List.takeWhile_eq_self_iff.mpr fun c hc => ?_
    rcases hall c hc with rfl | hc
    · decide
    · simp [UriReference.endsPath, hplain hc]
  have hsegment : ∀ seg ∈ ["grub-event".toList, token.toList, stateStr.toList], IsSegment seg := by
    have hclean : ∀ seg : List Char, (∀ c ∈ seg, isPlain c = true) → IsSegment seg := by
      refine fun seg hseg => ⟨fun h => absurd (hseg _ h) (by decide), ?_, ?_⟩
      · rintro rfl
        exact absurd (hseg '.' List.mem_cons_self) (by decide)
      · rintro rfl
        exact absurd (hseg '.' List.mem_cons_self) (by decide)
    intro seg hmem
    simp only [List.mem_cons, List.not_mem_nil, or_false] at hmem
    rcases hmem with rfl | rfl | rfl
    · exact hclean _ (forall_mem_of_all (by decide))
    · exact hclean _ htoken
    · exact hclean _ hstate
  have hpercent : '%' ∉ ("/grub-event/" ++ token ++ "/" ++ stateStr).toList := by
    intro hmem
    rcases hall '%' hmem with h | h
    · exact absurd h (by decide)
    · exact absurd h (by decide)
  rw [eventPath, hcut, hsegments, removeDotSegments_pathOf hsegment, ← hsegments,
    String.ofList_toList, unquote_of_not_mem hpercent]

end Paths

/-! ## Agreement -/

section Agreement

variable {token stateStr : String} {db : Database}

theorem isPlain_of_live (hhex : TokensHex db) (h : Live db token stateStr) :
    (token ≠ "" ∧ ∀ c ∈ token.toList, isPlain c = true) ∧
      stateStr ≠ "" ∧ ∀ c ∈ stateStr.toList, isPlain c = true := by
  obtain ⟨hsession, hknown⟩ := h
  obtain ⟨row, hrow⟩ := Option.ne_none_iff_exists'.mp hsession
  obtain ⟨state, hstate⟩ := Option.ne_none_iff_exists'.mp hknown
  obtain ⟨hmem, -, rfl⟩ := Table.lookup_eq_some_iff.mp hrow
  obtain ⟨hne, hdigits⟩ := hhex _ (List.mem_map_of_mem hmem)
  have hplain : ∀ c ∈ "0123456789abcdef".toList, isPlain c = true :=
    forall_mem_of_all (by decide)
  refine ⟨⟨hne, fun c hc => hplain c (hdigits c hc)⟩, ?_⟩
  rw [← BootState.value_of_ofValue hstate]
  cases state <;> exact ⟨by decide, forall_mem_of_all (by decide)⟩

/-- The route hands on exactly the live events that are spelled. -/
theorem route_iff_spells {token' stateStr' : String} (hhex : TokensHex db)
    (h : Live db token' stateStr') :
    routeGrubEvent (eventPath token stateStr) = some (token', stateStr') ↔
      Spells token stateStr token' stateStr' := by
  obtain ⟨⟨hne, htoken⟩, hne', hstate⟩ := isPlain_of_live hhex h
  rw [routeGrubEvent_eq_some_iff, Spells]
  refine ⟨And.left, fun hpath => ⟨hpath, hne, hne', fun hmem => ?_, fun hmem => ?_⟩⟩
  · exact absurd (htoken _ hmem) (by decide)
  · exact absurd (hstate _ hmem) (by decide)

variable [Unicode] {refuses : String → Option Exception} {fleetbootBaseUrl requestFilename : String}

theorem httpIntercept_of_parts (hbase : IsBareServer fleetbootBaseUrl)
    (hparts : eventParts requestFilename = some (token, stateStr))
    (haccepted : refuses (eventUrl fleetbootBaseUrl token stateStr) = none) (now : Timestamp) :
    httpIntercept refuses fleetbootBaseUrl now requestFilename db =
      match routeGrubEvent (eventPath token stateStr) with
      | none => (db, .handled)
      | some (token, stateStr) => ((getGrubEvent now token stateStr db).1, .handled) := by
  unfold httpIntercept
  rw [hparts]
  dsimp only
  rw [haccepted, requestPath_eventUrl hbase]

omit [Unicode] in
/-- A live event of a file name is routed as it stands. -/
theorem route_of_live (hhex : TokensHex db) (h : Live db token stateStr) :
    routeGrubEvent (eventPath token stateStr) = some (token, stateStr) := by
  obtain ⟨⟨-, htoken⟩, -, hstate⟩ := isPlain_of_live hhex h
  exact (route_iff_spells hhex h).mpr (eventPath_of_plain htoken hstate)

/-- **The two intercepts agree** on a file name exactly if it is none of an event, or the client
takes its URL and no live event is spelled in it but literally. -/
theorem interceptsAgree_iff (hbase : IsBareServer fleetbootBaseUrl) (hhex : TokensHex db) :
    InterceptsAgree refuses fleetbootBaseUrl requestFilename db ↔
      ∀ token stateStr, eventParts requestFilename = some (token, stateStr) →
        refuses (eventUrl fleetbootBaseUrl token stateStr) = none ∧
          ∀ token' stateStr', Live db token' stateStr' →
            Spells token stateStr token' stateStr' → token' = token ∧ stateStr' = stateStr := by
  cases hparts : eventParts requestFilename with
  | none =>
    refine iff_of_true (fun now => ?_) nofun
    unfold inProcessIntercept httpIntercept
    rw [hparts]
    exact ⟨rfl, rfl, rfl⟩
  | some parts =>
    obtain ⟨token, stateStr⟩ := parts
    constructor
    · rintro h _ _ ⟨⟩
      have haccepted : refuses (eventUrl fleetbootBaseUrl token stateStr) = none := by
        have hanswer := (h 0).1
        rw [inProcessIntercept_of_parts hparts] at hanswer
        unfold httpIntercept at hanswer
        rw [hparts] at hanswer
        dsimp only at hanswer
        cases hrefused : refuses (eventUrl fleetbootBaseUrl token stateStr) with
        | none => rfl
        | some err =>
          rw [hrefused] at hanswer
          cases hanswer
      refine ⟨haccepted, fun token' stateStr' hlive hspells => ?_⟩
      have hroute := (route_iff_spells hhex hlive).mpr hspells
      by_cases hliteral : Live db token stateStr
      · rw [route_of_live hhex hliteral] at hroute
        cases hroute
        exact ⟨rfl, rfl⟩
      · -- Only the endpoint stamps a session, whatever the time is.
        have hstamp : ∀ now, ∃ row, db.bootSessions.lookup token' = some row ∧
            row.latestStateAt = some now := by
          intro now
          have hsessions := (h now).2.1
          rw [inProcessIntercept_of_parts hparts, httpIntercept_of_parts hbase hparts haccepted,
            hroute] at hsessions
          dsimp only at hsessions
          rw [getGrubEvent_of_not_live hliteral] at hsessions
          rw [hsessions]
          exact latestStateAt_getGrubEvent hlive
        obtain ⟨row, hrow, hzero⟩ := hstamp 0
        obtain ⟨row', hrow', hone⟩ := hstamp 1
        rw [hrow] at hrow'
        cases hrow'
        rw [hzero] at hone
        cases hone
    · intro h now
      obtain ⟨haccepted, hliteral⟩ := h token stateStr rfl
      have hunrouted : routeGrubEvent (eventPath token stateStr) ≠ some (token, stateStr) →
          (getGrubEvent now token stateStr db).1 = db := fun hne =>
        getGrubEvent_of_not_live fun hlive => hne (route_of_live hhex hlive)
      rw [inProcessIntercept_of_parts hparts, httpIntercept_of_parts hbase hparts haccepted]
      cases hroute : routeGrubEvent (eventPath token stateStr) with
      | none =>
        rw [hunrouted (by rw [hroute]; exact nofun)]
        exact ⟨rfl, rfl, rfl⟩
      | some routed =>
        obtain ⟨token', stateStr'⟩ := routed
        dsimp only
        by_cases hlive : Live db token' stateStr'
        · obtain ⟨rfl, rfl⟩ := hliteral token' stateStr' hlive
            ((route_iff_spells hhex hlive).mp hroute)
          exact ⟨rfl, rfl, rfl⟩
        · have hdirect : (getGrubEvent now token stateStr db).1 = db := by
            by_cases hsame : (token', stateStr') = (token, stateStr)
            · cases hsame
              exact getGrubEvent_of_not_live hlive
            · exact hunrouted (by rw [hroute]; exact fun heq => hsame (Option.some.inj heq))
          rw [hdirect, getGrubEvent_of_not_live hlive]
          exact ⟨rfl, rfl, rfl⟩

end Agreement

section Examples

attribute [local instance] ascii noNetworks

/-- A registry in which the desktop has a session. -/
def bootingRegistry : Database := (mint 5 "0f" desktop.mac newRegistry.db).db

theorem bootingRegistry_live : Live bootingRegistry "0f" "grub_running" := by
  unfold Live
  decide +kernel

theorem bootingRegistry_tokensHex : TokensHex bootingRegistry := by
  have hbindings : bootingRegistry.bindings = [("0f", "52:54:00:12:34:56")] := by decide +kernel
  intro binding hbinding
  rw [hbindings, List.mem_singleton] at hbinding
  rw [hbinding]
  exact ⟨by decide, forall_mem_of_all (by decide)⟩

/-- What the rendered configuration asks for. -/
theorem interceptsAgree_rendered : InterceptsAgree (fun _ => none) "http://fleetboot:8080"
    "/grub-event/0f/grub_running" bootingRegistry := by
  have hbase : IsBareServer "http://fleetboot:8080" :=
    ⟨"http", "fleetboot:8080", "", .inl rfl, by decide, forall_mem_of_all (by decide),
      forall_mem_of_all (by decide), by decide⟩
  refine (interceptsAgree_iff hbase bootingRegistry_tokensHex).mpr fun token stateStr hparts => ?_
  have hliteral : eventParts "/grub-event/0f/grub_running" = some ("0f", "grub_running") := by
    decide +kernel
  rw [hliteral] at hparts
  cases hparts
  refine ⟨rfl, fun token' stateStr' hlive hspells => ?_⟩
  have hroute := (route_iff_spells bootingRegistry_tokensHex hlive).mpr hspells
  rw [route_of_live bootingRegistry_tokensHex bootingRegistry_live] at hroute
  cases hroute
  exact ⟨rfl, rfl⟩

/-- A state with a query behind it. -/
theorem not_interceptsAgree : ¬ InterceptsAgree (fun _ => none) "http://fleetboot:8080"
    "/grub-event/0f/grub_running?x" bootingRegistry := by
  intro h
  have hsessions := congrArg (fun sessions => (sessions.lookup "0f").map SessionRow.latestStateAt)
    (h 7).2.1
  exact absurd hsessions (by decide +kernel)

end Examples

end Fleetboot
