import Fleetboot.Library.Surrogates
import Fleetboot.Registry.Reserving

/-!
# Calls with texts that have no UTF-8

JSON sends surrogates, and `sqlite3` binds a text as UTF-8. Most calls come to such a text in their
first statement and leave the file as it was. `pin` and `reserve` clear a MAC before they insert,
in autocommit, and `release` frees machine after machine.

* `pinRaw`, `reserveRaw`, `RawOperation`: the calls with texts as they come.
* `pinRaw_raw`, `reserveRaw_raw`: on texts that have UTF-8 they are `pin` and `reserve`.
* `pinRaw_cases`, `reserveRaw_cases`: on the others they clear one MAC and raise, or do nothing.
-/

set_option autoImplicit false

namespace Fleetboot

open Python Relational Transition

/-! ## Binding -/

/-- `str(err)` of the `UnicodeEncodeError`: it names the first surrogates in a row. -/
def surrogatesNotAllowed (t : RawText) : String :=
  let start := t.findIdx fun c => c.char?.isNone
  let run := (t.drop start).takeWhile fun c => c.char?.isNone
  "'utf-8' codec can't encode character" ++
    (match run with
    | [c] => " '\\u" ++ String.ofList (hexDigits 4 c.toNat) ++ "' in position " ++
        toString start
    | _ => "s in position " ++ toString start ++ "-" ++ toString (start + run.length - 1)) ++
    ": surrogates not allowed"

/-- The text that `sqlite3` binds. A `UnicodeEncodeError` is a `ValueError`. -/
def bindText (t : RawText) : Except Exception String :=
  match t.encode with
  | some text => .ok text
  | none => .error (.valueError (surrogatesNotAllowed t))

def bindOptional : Option RawText → Except Exception (Option String)
  | none => .ok none
  | some t => (bindText t).map some

def encodeOptional : Option RawText → Option (Option String)
  | none => some none
  | some t => t.encode.map some

section Bind

variable {t : RawText} {text? : Option RawText}

@[simp] theorem bindText_ofString (s : String) : bindText (RawText.ofString s) = .ok s := by
  simp [bindText]

/-- What can be bound has UTF-8. -/
theorem eq_ofString_of_bindText {s : String} (h : bindText t = .ok s) : t = .ofString s := by
  unfold bindText at h
  split at h
  · rename_i s' hs'
    cases h
    exact RawText.encode_eq_some_iff.mp hs'
  · cases h

theorem exists_ofString_of_bindText_strip {s : String} (h : bindText t.strip = .ok s) :
    ∃ s', t = .ofString s' := by
  cases htext : t.encode with
  | some s' => exact ⟨s', RawText.encode_eq_some_iff.mp htext⟩
  | none =>
    have hstrip := RawText.encode_strip_eq_none_iff.mpr htext
    rw [eq_ofString_of_bindText h, RawText.encode_ofString] at hstrip
    cases hstrip

@[simp] theorem bindOptional_map (text? : Option String) :
    bindOptional (text?.map RawText.ofString) = .ok text? := by
  cases text? with
  | none => rfl
  | some text => simp [bindOptional, Except.map]

theorem eq_map_of_bindOptional {s? : Option String} (h : bindOptional text? = .ok s?) :
    text? = s?.map RawText.ofString := by
  cases text? with
  | none =>
    cases h
    rfl
  | some t =>
    rw [bindOptional] at h
    cases hbound : bindText t with
    | error err =>
      rw [hbound] at h
      cases h
    | ok s =>
      rw [hbound] at h
      cases h
      rw [eq_ofString_of_bindText hbound]
      rfl

theorem encodeOptional_eq_some_iff {s? : Option String} :
    encodeOptional text? = some s? ↔ text? = s?.map RawText.ofString := by
  cases text? with
  | none => cases s? <;> simp [encodeOptional]
  | some t => cases s? <;> simp [encodeOptional, RawText.encode_eq_some_iff]

end Bind

/-! ## `pin` -/

/-- The arguments of `pin`. -/
structure RawPin where
  mac : String
  holder : RawText
  profile : Option RawText := none
  purpose : Option RawText := none

/-- The arguments whose texts have UTF-8. -/
def PinRequest.raw (req : PinRequest) : RawPin :=
  { mac := req.mac
    holder := .ofString req.holder
    profile := req.profile.map .ofString
    purpose := req.purpose.map .ofString }

/-- The arguments, if all of their texts have UTF-8. -/
def RawPin.texts (req : RawPin) : Option PinRequest := do
  let holder ← req.holder.encode
  let profile ← encodeOptional req.profile
  let purpose ← encodeOptional req.purpose
  return { mac := req.mac, holder, profile, purpose }

section Pin

variable [Unicode]

/-- The `INSERT` of `pin`. -/
def RawPin.insertHold (now : Timestamp) (req : RawPin) : Statement := fun db => do
  let holder ← bindText req.holder.strip
  let purpose ← bindOptional req.purpose
  let profile ← bindOptional req.profile
  Database.insertReservation now
    { mac := normaliseMac req.mac, holder, purpose, leaseKind := .permanent, profile } db

/-- `UPDATE machines SET profile_name = ? WHERE mac = ?`. -/
def switchProfileRaw (mac : String) (profile : RawText) : Statement := fun db => do
  let profile ← bindText profile
  switchProfile mac profile db

/-- The writes of `pin` on an enrolled machine. -/
def RawPin.statements (now : Timestamp) (req : RawPin) : List Statement :=
  [releaseUnreleased now (normaliseMac req.mac), req.insertHold now] ++
  match req.profile with
  | some profile =>
    if profile.strip = [] then [] else [switchProfileRaw (normaliseMac req.mac) profile.strip]
  | none => []

/-- `pin`, in which a text may have no UTF-8. -/
def pinRaw (now : Timestamp) (req : RawPin) (db : Database) : Outcome (Option Reservation) :=
  if req.holder.strip = [] then ⟨db, .error (.valueError "holder must not be empty")⟩
  else match db.lookup req.mac with
    | none => ⟨db, .ok none⟩
    | some _ => (execAll (req.statements now) db).andThen fun _ db =>
        ⟨db, .ok (activeReservation db now req.mac)⟩

omit [Unicode] in
theorem RawPin.texts_eq_some_iff {req : RawPin} {req' : PinRequest} :
    req.texts = some req' ↔ req = req'.raw := by
  obtain ⟨mac, holder, profile, purpose⟩ := req
  obtain ⟨mac', holder', profile', purpose'⟩ := req'
  simp only [texts, PinRequest.raw, Option.bind_eq_bind, Option.bind_eq_some_iff,
    RawText.encode_eq_some_iff, encodeOptional_eq_some_iff, Option.pure_def, Option.some.injEq,
    PinRequest.mk.injEq, RawPin.mk.injEq]
  constructor
  · rintro ⟨_, rfl, _, rfl, _, rfl, rfl, rfl, rfl, rfl⟩
    exact ⟨rfl, rfl, rfl, rfl⟩
  · rintro ⟨rfl, rfl, rfl, rfl⟩
    exact ⟨_, rfl, _, rfl, _, rfl, rfl, rfl, rfl, rfl⟩

omit [Unicode] in
@[simp] theorem strip_ofString_eq_nil_iff {s : String} :
    (RawText.ofString s).strip = [] ↔ strip s = "" := by
  rw [RawText.strip_ofString]
  exact RawText.ofString_injective.eq_iff' rfl

theorem PinRequest.statements_raw (now : Timestamp) (req : PinRequest) :
    req.raw.statements now = pinStatements now req := by
  have hinsert : req.raw.insertHold now = Database.insertReservation now req.hold := by
    funext db
    simp [RawPin.insertHold, PinRequest.raw, RawText.strip_ofString, PinRequest.hold, bind,
      Except.bind]
  have hswitch : ∀ profile : String, switchProfileRaw (normaliseMac req.mac)
      (RawText.ofString profile).strip = switchProfile (normaliseMac req.mac) (strip profile) := by
    intro profile
    funext db
    simp [switchProfileRaw, RawText.strip_ofString, bind, Except.bind]
  unfold RawPin.statements pinStatements
  rw [hinsert]
  congr 1
  cases hprofile : req.profile with
  | none =>
    have hblank : blankToNone none = none := by decide +kernel
    rw [hblank, PinRequest.raw, hprofile]
    rfl
  | some profile =>
    simp only [PinRequest.raw, hprofile, Option.map_some, blankToNone, Option.getD_some, hswitch,
      strip_ofString_eq_nil_iff]
    split <;> rfl

/-- **On texts with UTF-8** it is `pin`. -/
theorem pinRaw_raw (now : Timestamp) (req : PinRequest) (db : Database) :
    pinRaw now req.raw db = pin now req db := by
  have hholder : req.raw.holder.strip = [] ↔ strip req.holder = "" := strip_ofString_eq_nil_iff
  unfold pinRaw pin
  rw [PinRequest.statements_raw]
  by_cases hblank : strip req.holder = ""
  · rw [if_pos hblank, if_pos (hholder.mpr hblank)]
  · rw [if_neg hblank, if_neg (mt hholder.mp hblank)]
    rfl

/-- **On other texts** it is refused, finds no machine, or has released what the MAC had when it
raises. -/
theorem pinRaw_cases (now : Timestamp) {req : RawPin} (hnone : req.texts = none) (db : Database) :
    (req.holder.strip = [] ∧ ∃ err, pinRaw now req db = ⟨db, .error err⟩) ∨
    (db.lookup req.mac = none ∧ pinRaw now req db = ⟨db, .ok none⟩) ∨
    ∃ m err, req.holder.strip ≠ [] ∧ db.machine (normaliseMac req.mac) = some m ∧
      pinRaw now req db = ⟨db.releaseReservations now fun r =>
        r.mac == normaliseMac req.mac && r.isUnreleased, .error err⟩ := by
  have hinsert : ∀ db, ∃ err, req.insertHold now db = .error err := by
    intro db
    unfold RawPin.insertHold
    cases hholder : bindText req.holder.strip with
    | error err => exact ⟨err, rfl⟩
    | ok holder =>
      cases hpurpose : bindOptional req.purpose with
      | error err => exact ⟨err, rfl⟩
      | ok purpose =>
        cases hprofile : bindOptional req.profile with
        | error err => exact ⟨err, rfl⟩
        | ok profile =>
          -- All three are bound, so the request has a text for each.
          obtain ⟨holder', hholder'⟩ := exists_ofString_of_bindText_strip hholder
          have htexts : req = PinRequest.raw ⟨req.mac, holder', profile, purpose⟩ := by
            rw [PinRequest.raw, ← hholder', ← eq_map_of_bindOptional hprofile,
              ← eq_map_of_bindOptional hpurpose]
          rw [RawPin.texts_eq_some_iff.mpr htexts] at hnone
          cases hnone
  unfold pinRaw
  split
  · rename_i hblank
    exact .inl ⟨hblank, _, rfl⟩
  · rename_i hholder
    cases hm : db.lookup req.mac with
    | none => exact .inr (.inl ⟨rfl, rfl⟩)
    | some m =>
      obtain ⟨err, herr⟩ := hinsert (db.releaseReservations now fun r =>
        r.mac == normaliseMac req.mac && r.isUnreleased)
      refine .inr (.inr ⟨m, err, hholder, hm, ?_⟩)
      dsimp only
      rw [RawPin.statements, List.cons_append, execAll_cons_ok (releaseUnreleased_ok now _ db),
        List.cons_append, execAll_cons_error herr]
      rfl

end Pin

/-! ## `reserve` -/

/-- The arguments of `reserve`. -/
structure RawReserve where
  profile : RawText
  count : Int
  holder : RawText
  ttlSeconds : Int
  purpose : Option RawText := none
  architecture : Option RawText := none

def ReserveRequest.raw (req : ReserveRequest) : RawReserve :=
  { profile := .ofString req.profile
    count := req.count
    holder := .ofString req.holder
    ttlSeconds := req.ttlSeconds
    purpose := req.purpose.map .ofString
    architecture := req.architecture.map .ofString }

/-- The arguments, if all of their texts have UTF-8. -/
def RawReserve.texts (req : RawReserve) : Option ReserveRequest := do
  let profile ← req.profile.encode
  let holder ← req.holder.encode
  let purpose ← encodeOptional req.purpose
  let architecture ← encodeOptional req.architecture
  return { req with profile, holder, purpose, architecture }

/-- The `INSERT` of `reserve`. The modifier `+N seconds` is spelled out before it is executed. -/
def RawReserve.insertLease (now : Timestamp) (req : RawReserve) (mac : String) : Statement :=
  fun db => do
    let _ ← strOfInt req.ttlSeconds
    let holder ← bindText req.holder.strip
    let purpose ← bindOptional req.purpose
    let profile ← bindText req.profile.strip
    Database.insertReservation now
      { mac, holder, purpose, leaseKind := .lease, profile := some profile
        expiresAt := datetimePlus now req.ttlSeconds } db

/-- The writes of `reserve` for one candidate. -/
def RawReserve.statements (now : Timestamp) (req : RawReserve) (mac : String) : List Statement :=
  [releaseUnreleased now mac, req.insertLease now mac, switchProfileRaw mac req.profile.strip]

/-- `reserve`, in which a text may have no UTF-8. -/
def reserveRaw [Unicode] (now : Timestamp) (req : RawReserve) (db : Database) :
    Outcome (List Machine) :=
  if req.profile.strip = [] then ⟨db, .error (.valueError "profile must not be empty")⟩
  else if req.holder.strip = [] then ⟨db, .error (.valueError "holder must not be empty")⟩
  else if req.count ≤ 0 then ⟨db, .ok []⟩
  else if req.ttlSeconds ≤ 0 then ⟨db, .error (.valueError "ttl_seconds must be positive")⟩
  else match bindOptional req.architecture with
    | .error err => ⟨db, .error err⟩
    | .ok architecture =>
      if 2 ^ 63 ≤ req.count then
        ⟨db, .error (.overflowError "Python int too large to convert to SQLite INTEGER")⟩
      else
        let leased := (reservableMacs now architecture db).take req.count.toNat
        (execAll (leased.flatMap (req.statements now)) db).andThen fun _ db =>
          ⟨db, .ok (leased.filterMap db.lookup)⟩

theorem RawReserve.texts_eq_some_iff {req : RawReserve} {req' : ReserveRequest} :
    req.texts = some req' ↔ req = req'.raw := by
  obtain ⟨profile, count, holder, ttlSeconds, purpose, architecture⟩ := req
  obtain ⟨profile', count', holder', ttlSeconds', purpose', architecture'⟩ := req'
  simp only [texts, ReserveRequest.raw, Option.bind_eq_bind, Option.bind_eq_some_iff,
    RawText.encode_eq_some_iff, encodeOptional_eq_some_iff, Option.pure_def, Option.some.injEq,
    ReserveRequest.mk.injEq, RawReserve.mk.injEq]
  constructor
  · rintro ⟨_, rfl, _, rfl, _, rfl, _, rfl, rfl, rfl, rfl, rfl, rfl, rfl⟩
    exact ⟨rfl, rfl, rfl, rfl, rfl, rfl⟩
  · rintro ⟨rfl, rfl, rfl, rfl, rfl, rfl⟩
    exact ⟨_, rfl, _, rfl, _, rfl, _, rfl, rfl, rfl, rfl, rfl, rfl, rfl⟩

theorem ReserveRequest.statements_raw (now : Timestamp) (req : ReserveRequest) (mac : String) :
    req.raw.statements now mac = leaseStatements now req mac := by
  have hinsert : req.raw.insertLease now mac = Fleetboot.insertLease now req mac := by
    funext db
    unfold RawReserve.insertLease Fleetboot.insertLease
    simp only [ReserveRequest.raw, RawText.strip_ofString, bindText_ofString, bindOptional_map]
    rcases strOfInt_cases req.ttlSeconds with hdigits | ⟨message, hdigits⟩ <;>
      rw [hdigits] <;> rfl
  have hswitch : switchProfileRaw mac req.raw.profile.strip =
      switchProfile mac (strip req.profile) := by
    funext db
    simp [switchProfileRaw, ReserveRequest.raw, RawText.strip_ofString, bind, Except.bind]
  rw [RawReserve.statements, leaseStatements, hinsert, hswitch]

/-- **On texts with UTF-8** it is `reserve`. -/
theorem reserveRaw_raw [Unicode] (now : Timestamp) (req : ReserveRequest) (db : Database) :
    reserveRaw now req.raw db = reserve now req db := by
  have hprofile : req.raw.profile.strip = [] ↔ strip req.profile = "" :=
    strip_ofString_eq_nil_iff
  have hholder : req.raw.holder.strip = [] ↔ strip req.holder = "" := strip_ofString_eq_nil_iff
  have hloop : req.raw.statements now = leaseStatements now req :=
    funext (req.statements_raw now)
  have harchitecture : bindOptional req.raw.architecture = .ok req.architecture :=
    bindOptional_map _
  unfold reserveRaw reserve ReserveRequest.check
  by_cases hblank : strip req.profile = ""
  · rw [if_pos hblank, if_pos (hprofile.mpr hblank)]
  rw [if_neg hblank, if_neg (mt hprofile.mp hblank)]
  by_cases hnobody : strip req.holder = ""
  · rw [if_pos hnobody, if_pos (hholder.mpr hnobody)]
  rw [if_neg hnobody, if_neg (mt hholder.mp hnobody), harchitecture]
  change (if req.count ≤ 0 then _ else if req.ttlSeconds ≤ 0 then _ else if 2 ^ 63 ≤ req.count
    then _ else _) = _
  by_cases hcount : req.count ≤ 0
  · have hsome : ¬(0 < req.count ∧ req.ttlSeconds ≤ 0) := fun h => by omega
    have hsmall : ¬2 ^ 63 ≤ req.count := by omega
    rw [if_pos hcount, if_neg hsome, if_neg hsmall, reserveCandidates_eq,
      Int.toNat_of_nonpos hcount, List.take_zero]
    rfl
  rw [if_neg hcount]
  by_cases httl : req.ttlSeconds ≤ 0
  · rw [if_pos httl, if_pos ⟨by omega, httl⟩]
  have hpositive : ¬(0 < req.count ∧ req.ttlSeconds ≤ 0) := fun h => httl h.2
  rw [if_neg httl, if_neg hpositive]
  by_cases hlarge : 2 ^ 63 ≤ req.count
  · rw [if_pos hlarge, if_pos hlarge]
  rw [if_neg hlarge, if_neg hlarge]
  rw [hloop]
  rfl

/-- The candidates to whose writes the call comes. -/
def RawReserve.candidates (now : Timestamp) (req : RawReserve) (db : Database) : List String :=
  if req.profile.strip = [] ∨ req.holder.strip = [] ∨ req.count ≤ 0 ∨ req.ttlSeconds ≤ 0 ∨
    2 ^ 63 ≤ req.count then []
  else match bindOptional req.architecture with
    | .error _ => []
    | .ok architecture => (reservableMacs now architecture db).take req.count.toNat

theorem candidates_raw_of_check {now : Timestamp} {req : ReserveRequest} {db : Database}
    (hcheck : req.check = .ok ()) :
    req.raw.candidates now db = reserveCandidates now req db := by
  have hprofile : req.raw.profile.strip = [] ↔ strip req.profile = "" :=
    strip_ofString_eq_nil_iff
  have hholder : req.raw.holder.strip = [] ↔ strip req.holder = "" := strip_ofString_eq_nil_iff
  have harchitecture : bindOptional req.raw.architecture = .ok req.architecture :=
    bindOptional_map _
  have hpositive := ReserveRequest.ttl_pos hcheck
  unfold ReserveRequest.check at hcheck
  obtain ⟨hblank, hnobody, hlarge⟩ :
      strip req.profile ≠ "" ∧ strip req.holder ≠ "" ∧ ¬2 ^ 63 ≤ req.count := by
    (repeat' split at hcheck) <;> first | exact ⟨‹_›, ‹_›, ‹_›⟩ | cases hcheck
  rw [reserveCandidates_eq]
  unfold RawReserve.candidates
  rw [harchitecture]
  by_cases hcount : req.count ≤ 0
  · rw [if_pos (.inr (.inr (.inl hcount))), Int.toNat_of_nonpos hcount, List.take_zero]
  · have httl := hpositive (Int.not_le.mp hcount)
    rw [if_neg]
    · rfl
    · rintro (h | h | h | h | h)
      · exact hblank (hprofile.mp h)
      · exact hnobody (hholder.mp h)
      · exact hcount h
      · exact absurd httl (Int.not_lt.mpr h)
      · exact hlarge h

theorem candidates_raw_of_error {now : Timestamp} {req : ReserveRequest} {db : Database}
    {err : Exception} (hcheck : req.check = .error err) : req.raw.candidates now db = [] := by
  have hprofile : req.raw.profile.strip = [] ↔ strip req.profile = "" :=
    strip_ofString_eq_nil_iff
  have hholder : req.raw.holder.strip = [] ↔ strip req.holder = "" := strip_ofString_eq_nil_iff
  refine if_pos ?_
  unfold ReserveRequest.check at hcheck
  split at hcheck
  · exact .inl (hprofile.mpr ‹_›)
  · split at hcheck
    · exact .inr (.inl (hholder.mpr ‹_›))
    · split at hcheck
      · rename_i httl
        exact .inr (.inr (.inr (.inl httl.2)))
      · split at hcheck
        · exact .inr (.inr (.inr (.inr ‹_›)))
        · cases hcheck

theorem RawReserve.isFree_of_candidate {now : Timestamp} {req : RawReserve} {db : Database}
    {mac : String} (h : mac ∈ req.candidates now db) :
    db.isFree now mac = true ∧ ∃ m, db.machine mac = some m := by
  unfold candidates at h
  split at h
  · cases h
  · split at h
    · cases h
    · obtain ⟨m, hm, rfl, hfree, -⟩ := mem_reservableMacs_iff.mp (List.mem_of_mem_take h)
      exact ⟨isFree_iff_rows.mpr hfree, m, machine_eq_some_iff.mpr ⟨hm, rfl⟩⟩

/-- What `reserve` leaves and returns when a text has no UTF-8. -/
inductive RawReserved [Unicode] (now : Timestamp) (req : RawReserve) (db : Database) :
    Outcome (List Machine) → Prop
  /-- An argument is refused. -/
  | refused {err : Exception} : req.candidates now db = [] → RawReserved now req db ⟨db, .error err⟩
  /-- There is nobody to lease. -/
  | nobody : req.candidates now db = [] → RawReserved now req db ⟨db, .ok []⟩
  /-- The first candidate has lost its expired lease. -/
  | cleared {err : Exception} {mac : String} {macs : List String} :
      req.candidates now db = mac :: macs → RawReserved now req db
        ⟨db.releaseReservations now fun r => r.mac == mac && r.isUnreleased, .error err⟩

/-- The row is not inserted when one of its texts has no UTF-8. -/
theorem RawReserve.insertLease_of_none {now : Timestamp} {req : RawReserve}
    {architecture : Option String} (hnone : req.texts = none)
    (harchitecture : bindOptional req.architecture = .ok architecture) (mac : String)
    (db : Database) : ∃ err, req.insertLease now mac db = .error err := by
  unfold insertLease
  cases hdigits : strOfInt req.ttlSeconds with
  | error err => exact ⟨err, rfl⟩
  | ok digits =>
    cases hholder : bindText req.holder.strip with
    | error err => exact ⟨err, rfl⟩
    | ok holder =>
      cases hpurpose : bindOptional req.purpose with
      | error err => exact ⟨err, rfl⟩
      | ok purpose =>
        cases hprofile : bindText req.profile.strip with
        | error err => exact ⟨err, rfl⟩
        | ok profile =>
          exfalso
          obtain ⟨holder', hholder'⟩ := exists_ofString_of_bindText_strip hholder
          obtain ⟨profile', hprofile'⟩ := exists_ofString_of_bindText_strip hprofile
          have htexts : req = ReserveRequest.raw
              ⟨profile', req.count, holder', req.ttlSeconds, purpose, architecture⟩ := by
            rw [ReserveRequest.raw, ← hholder', ← hprofile', ← eq_map_of_bindOptional hpurpose,
              ← eq_map_of_bindOptional harchitecture]
          rw [RawReserve.texts_eq_some_iff.mpr htexts] at hnone
          cases hnone

/-- **On other texts** it is refused, finds nobody, or has cleared its first candidate when it
raises. -/
theorem reserveRaw_cases [Unicode] (now : Timestamp) {req : RawReserve} (hnone : req.texts = none)
    (db : Database) : RawReserved now req db (reserveRaw now req db) := by
  unfold reserveRaw
  by_cases hblank : req.profile.strip = []
  · rw [if_pos hblank]
    exact .refused (if_pos (.inl hblank))
  rw [if_neg hblank]
  by_cases hnobody : req.holder.strip = []
  · rw [if_pos hnobody]
    exact .refused (if_pos (.inr (.inl hnobody)))
  rw [if_neg hnobody]
  by_cases hcount : req.count ≤ 0
  · rw [if_pos hcount]
    exact .nobody (if_pos (.inr (.inr (.inl hcount))))
  rw [if_neg hcount]
  by_cases httl : req.ttlSeconds ≤ 0
  · rw [if_pos httl]
    exact .refused (if_pos (.inr (.inr (.inr (.inl httl)))))
  rw [if_neg httl]
  cases harchitecture : bindOptional req.architecture with
  | error err =>
    refine .refused ?_
    unfold RawReserve.candidates
    rw [harchitecture]
    exact ite_self _
  | ok architecture =>
    dsimp only
    by_cases hlarge : 2 ^ 63 ≤ req.count
    · rw [if_pos hlarge]
      exact .refused (if_pos (.inr (.inr (.inr (.inr hlarge)))))
    rw [if_neg hlarge]
    have hcandidates : req.candidates now db =
        (reservableMacs now architecture db).take req.count.toNat := by
      unfold RawReserve.candidates
      rw [if_neg (by tauto), harchitecture]
    rw [← hcandidates]
    cases hmacs : req.candidates now db with
    | nil => exact .nobody hmacs
    | cons mac macs =>
      obtain ⟨err, herr⟩ := RawReserve.insertLease_of_none hnone harchitecture mac
        (db.releaseReservations now fun r => r.mac == mac && r.isUnreleased)
      rw [List.flatMap_cons, RawReserve.statements, List.cons_append,
        execAll_cons_ok (releaseUnreleased_ok now mac db), List.cons_append,
        execAll_cons_error herr]
      exact .cleared hmacs

end Fleetboot
