import Fleetboot.Profiles.SaveSteps
import Fleetboot.Registry.RawRuns
import Fleetboot.Server.LeaseTools

/-!
# `reserve_machines` on any arguments

The tool once more on arguments as JSON sends them, whose texts may have surrogates. It commits
its leases before it runs the power commands.

* `reserveMachinesRaw_raw`: on arguments whose texts have UTF-8 it is `reserve_machines`.
* `reserve_clean_iff`: when a failing `reserve_machines` leaves nothing behind.
-/

set_option autoImplicit false

namespace Fleetboot

open Python Relational Transition

/-! ## Values whose texts have UTF-8 -/

mutual

def rawJson : Json → RawJson
  | .null => .null
  | .bool value => .bool value
  | .int value => .int value
  | .float value => .float value
  | .str value => .str (.ofString value)
  | .arr items => .arr (rawItems items)
  | .obj fields => .obj (rawFields fields)

def rawItems : List Json → List RawJson
  | [] => []
  | item :: items => rawJson item :: rawItems items

def rawFields : List (String × Json) → RawFields
  | [] => []
  | (key, value) :: fields => (.ofString key, rawJson value) :: rawFields fields

end

theorem rawItems_eq_map (items : List Json) : rawItems items = items.map rawJson := by
  induction items with
  | nil => rfl
  | cons item items ih => rw [rawItems, ih, List.map_cons]

theorem get?_rawFields (fields : Fields) (key : String) :
    RawJson.get? (rawFields fields) key = (Json.get? fields key).map rawJson := by
  induction fields with
  | nil => rfl
  | cons field fields ih =>
    obtain ⟨name, value⟩ := field
    rw [Json.get?_cons, rawFields]
    unfold RawJson.get? at ih ⊢
    by_cases hkey : name = key
    · rw [List.find?_cons_of_pos (by simp [hkey]), if_pos hkey]
      rfl
    · rw [List.find?_cons_of_neg (by simpa using hkey), ih, if_neg hkey]

def reprCodePoint [Unicode] (quote : Char) : CodePoint → List Char
  | .scalar c => reprChar quote c
  | .surrogate n => '\\' :: 'u' :: hexDigits 4 (CodePoint.surrogate n).toNat

/-- `repr` of a string. -/
def reprRaw [Unicode] (t : RawText) : String :=
  let quote := if t.contains (.scalar '\'') && !t.contains (.scalar '"') then '"' else '\''
  String.ofList (quote :: t.flatMap (reprCodePoint quote) ++ [quote])

theorem reprRaw_ofString [Unicode] (s : String) : reprRaw (.ofString s) = Python.repr s := by
  have hcontains : ∀ c, (RawText.ofString s).contains (.scalar c) = s.toList.contains c := by
    intro c
    rw [Bool.eq_iff_iff, List.contains_iff_mem, List.contains_iff_mem, RawText.ofString]
    simp
  unfold reprRaw Python.repr
  rw [hcontains, hcontains]
  simp only [RawText.ofString, List.flatMap_map]
  rfl

/-! ## The tool -/

/-- `_require(args, key, str)`. -/
def requireText (args : RawFields) (key : String) : Except String RawText :=
  match RawJson.get? args key with
  | none => .error ("missing argument: " ++ key)
  | some (.str value) => .ok value
  | some _ => .error ("argument " ++ key ++ " must be str")

/-- An argument that may be absent or null, and is a string otherwise. -/
def optionalText (args : RawFields) (key : String) : Except String (Option RawText) :=
  match RawJson.get? args key with
  | none | some .null => .ok none
  | some (.str value) => .ok (some value)
  | some _ => .error (key ++ " must be a string")

def rawCountArg (args : RawFields) : Except String Int :=
  match RawJson.get? args "count" with
  | none => .error "missing argument: count"
  | some (.int count) =>
    if count < 1 then .error "count must be an integer >= 1" else .ok count
  | some (.bool _) => .error "count must be an integer >= 1"
  | some _ => .error "argument count must be int"

def rawHolderArg (args : RawFields) : Except String RawText :=
  match RawJson.get? args "holder" with
  | none => .ok (.ofString "agent")
  | some (.str holder) =>
    if holder.strip = [] then .error "holder must be a non-empty string" else .ok holder
  | some _ => .error "holder must be a non-empty string"

/-- `ttl_minutes`, a positive number. -/
def rawTtlMinutes (args : RawFields) : Except String Json :=
  match RawJson.get? args "ttl_minutes" with
  | none => .ok (.int 60)
  | some (.int value) =>
    if value ≤ 0 then .error "ttl_minutes must be a positive number" else .ok (.int value)
  | some (.float value) =>
    if value.nonpos then .error "ttl_minutes must be a positive number" else .ok (.float value)
  | some _ => .error "ttl_minutes must be a positive number"

/-- The checked arguments of `reserve_machines`. -/
structure RawReserveArgs where
  profile : RawText
  count : Int
  holder : RawText
  purpose : Option RawText
  architecture : Option RawText
  ttlMinutes : Json

def rawReserveArgs (args : RawFields) : Except String RawReserveArgs := do
  let profile ← requireText args "profile"
  let count ← rawCountArg args
  let holder ← rawHolderArg args
  let purpose ← optionalText args "purpose"
  let architecture ← optionalText args "architecture"
  let ttlMinutes ← rawTtlMinutes args
  return { profile, count, holder, purpose, architecture, ttlMinutes }

/-- The request that `reserve_machines` makes of the registry. -/
def RawReserveArgs.request (args : RawReserveArgs) (ttlSeconds : Int) : RawReserve :=
  { profile := args.profile
    count := args.count
    holder := args.holder.strip
    ttlSeconds
    purpose := args.purpose
    architecture := args.architecture }

/-- What a tool leaves, which power commands it issued, and the fields that it answers. -/
structure RawToolRun (Build : Type) where
  deployment : Deployment Build
  powered : List PowerCall
  value : Except ToolFailure RawFields

variable {Build : Type}

/-- What `reserve_machines` answers. -/
def rawReservePayload (args : RawReserveArgs) (finished : Timestamp) (leased : List Machine)
    (results : List PowerResult) (db : Database) : RawFields :=
  [(.ofString "profile", .str args.profile), (.ofString "holder", .str args.holder),
    (.ofString "requested", .int args.count), (.ofString "reserved", .int leased.length),
    (.ofString "short_by", .int (max 0 (args.count - leased.length))),
    (.ofString "ttl_minutes", rawJson args.ttlMinutes),
    (.ofString "power_results", .arr (results.map fun result => rawJson (powerResultDict result))),
    (.ofString "machines", rawJson (machineDicts finished db leased))]

section Tool

variable [Unicode]

/-- Switch the leased machines on, and answer. -/
def RawToolRun.switched (env : RequestEnv) (macs : List String) (deployment : Deployment Build)
    (payload : List PowerResult → Database → RawFields) : RawToolRun Build :=
  let out := powerMachines env.outcome .on macs deployment.db
  ⟨{ deployment with db := out.db }, powerCalls deployment.db macs .on,
    match out.value with
    | .ok results => .ok (payload results out.db)
    | .error err => .error (.raised err)⟩

/-- `reserve_machines` of `mcp.py`. -/
def reserveMachinesRaw (env : RequestEnv) (args : RawFields) (deployment : Deployment Build) :
    RawToolRun Build :=
  match rawReserveArgs args with
  | .error message => ⟨deployment, [], .error (.toolError message)⟩
  | .ok args =>
    let known := listProfileNames deployment.profiles
    if args.profile ∉ known.map RawText.ofString then
      ⟨deployment, [], .error (.toolError ("unknown profile: " ++ reprRaw args.profile ++
        ". Known profiles: " ++ if known.isEmpty then "(none)" else ", ".intercalate known))⟩
    else
      match ttlSecondsOf args.ttlMinutes with
      | .error err => ⟨deployment, [], .error (.raised err)⟩
      | .ok ttlSeconds =>
        let out := reserveRaw env.now (args.request ttlSeconds) deployment.db
        match out.value with
        | .error err => ⟨{ deployment with db := out.db }, [], .error (.raised err)⟩
        | .ok leased =>
          .switched env (leased.map Machine.mac) { deployment with db := out.db }
            (rawReservePayload args env.finished leased)

end Tool

/-! ## On texts with UTF-8 -/

/-- The run of a tool that answers with fields. -/
def ToolRun.raw (run : ToolRun Build) : RawToolRun Build :=
  ⟨run.deployment, run.powered, match run.value with
    | .error failure => .error failure
    | .ok (.payload (.obj fields)) => .ok (rawFields fields)
    | .ok _ => .ok []⟩

def ReserveArgs.raw (args : ReserveArgs) : RawReserveArgs :=
  { profile := .ofString args.profile
    count := args.count
    holder := .ofString args.holder
    purpose := args.purpose.map .ofString
    architecture := args.architecture.map .ofString
    ttlMinutes := args.ttlMinutes }

section Raw

variable (args : Fields)

theorem requireText_rawFields (key : String) :
    requireText (rawFields args) key = (requireStr args key).map RawText.ofString := by
  unfold requireText requireStr
  rw [get?_rawFields]
  cases Json.get? args key with
  | none => rfl
  | some value => cases value <;> rfl

theorem optionalText_rawFields (key : String) :
    optionalText (rawFields args) key = (optionalStr args key).map (Option.map .ofString) := by
  unfold optionalText optionalStr Json.getD
  rw [get?_rawFields]
  cases Json.get? args key with
  | none => rfl
  | some value => cases value <;> rfl

theorem rawCountArg_rawFields : rawCountArg (rawFields args) = countArg args := by
  unfold rawCountArg countArg requireInt
  rw [get?_rawFields]
  cases Json.get? args "count" with
  | none => rfl
  | some value => cases value <;> rfl

theorem rawHolderArg_rawFields :
    rawHolderArg (rawFields args) = (holderArg args).map RawText.ofString := by
  unfold rawHolderArg holderArg Json.getD
  rw [get?_rawFields]
  cases Json.get? args "holder" with
  | none =>
    have hagent : strip "agent" ≠ "" := by decide +kernel
    simp only [Option.map_none, Option.getD_none]
    rw [if_neg hagent]
    rfl
  | some value =>
    cases value with
    | str holder =>
      simp only [Option.map_some, rawJson, Option.getD_some, strip_ofString_eq_nil_iff]
      split <;> rfl
    | _ => rfl

theorem rawTtlMinutes_rawFields : rawTtlMinutes (rawFields args) = ttlMinutes args := by
  unfold rawTtlMinutes ttlMinutes Json.getD
  rw [get?_rawFields]
  cases Json.get? args "ttl_minutes" with
  | none => rfl
  | some value => cases value <;> rfl

theorem rawReserveArgs_rawFields :
    rawReserveArgs (rawFields args) = (reserveArgs args).map ReserveArgs.raw := by
  unfold rawReserveArgs reserveArgs
  rw [requireText_rawFields, rawCountArg_rawFields, rawHolderArg_rawFields,
    optionalText_rawFields, optionalText_rawFields, rawTtlMinutes_rawFields]
  cases requireStr args "profile" with
  | error => rfl
  | ok profile =>
    cases countArg args with
    | error => rfl
    | ok count =>
      cases holderArg args with
      | error => rfl
      | ok holder =>
        cases optionalStr args "purpose" with
        | error => rfl
        | ok purpose =>
          cases optionalStr args "architecture" with
          | error => rfl
          | ok architecture => cases ttlMinutes args <;> rfl

theorem rawReservePayload_raw {checked : ReserveArgs} {finished : Timestamp}
    {leased : List Machine} {results : List PowerResult} {db : Database} {fields : Fields}
    (hfields : reservePayload checked finished leased results db = .obj fields) :
    rawReservePayload checked.raw finished leased results db = rawFields fields := by
  cases hfields
  simp only [rawReservePayload, ReserveArgs.raw, rawFields, rawJson, rawItems_eq_map,
    List.map_map]
  rfl

/-- **On arguments whose texts have UTF-8** it is `reserve_machines`. -/
theorem reserveMachinesRaw_raw [Unicode] (env : RequestEnv) (deployment : Deployment Build) :
    reserveMachinesRaw env (rawFields args) deployment =
      (reserveMachines env args deployment).raw := by
  unfold reserveMachinesRaw reserveMachines
  rw [rawReserveArgs_rawFields]
  cases reserveArgs args with
  | error message => rfl
  | ok checked =>
    have hknown : checked.raw.profile ∉ (listProfileNames deployment.profiles).map
        RawText.ofString ↔ checked.profile ∉ listProfileNames deployment.profiles := by
      rw [not_iff_not]
      exact List.mem_map_of_injective RawText.ofString_injective
    simp only [Except.map]
    by_cases hunknown : checked.profile ∉ listProfileNames deployment.profiles
    · rw [if_pos hunknown, if_pos (hknown.mpr hunknown)]
      simp only [ReserveArgs.raw, reprRaw_ofString]
      rfl
    · rw [if_neg hunknown, if_neg (mt hknown.mp hunknown)]
      have httl : checked.raw.ttlMinutes = checked.ttlMinutes := rfl
      rw [httl]
      cases ttlSecondsOf checked.ttlMinutes with
      | error err => rfl
      | ok ttlSeconds =>
        have hrequest : checked.raw.request ttlSeconds = (checked.request ttlSeconds).raw := by
          simp [RawReserveArgs.request, ReserveArgs.raw, ReserveArgs.request, ReserveRequest.raw,
            RawText.strip_ofString]
        dsimp only
        rw [hrequest, reserveRaw_raw]
        rcases reserve env.now (checked.request ttlSeconds) deployment.db with ⟨db, value⟩
        cases value with
        | error err => rfl
        | ok leased =>
          dsimp only
          unfold RawToolRun.switched ToolRun.switched ToolRun.raw
          dsimp only
          cases (powerMachines env.outcome .on (leased.map Machine.mac) db).value with
          | error err => rfl
          | ok results =>
            dsimp only
            rw [rawReservePayload_raw rfl]

end Raw

/-! ## A `reserve_machines` that fails -/

/-- The request that `reserve_machines` makes of the registry, if it comes so far. -/
def rawReserveRequest (args : RawFields) (deployment : Deployment Build) : Option RawReserve :=
  match rawReserveArgs args with
  | .error _ => none
  | .ok args =>
    if args.profile ∉ (listProfileNames deployment.profiles).map RawText.ofString then none
    else match ttlSecondsOf args.ttlMinutes with
      | .error _ => none
      | .ok ttlSeconds => some (args.request ttlSeconds)

/-- The list under a key of the answer has an entry for the MAC. -/
def ListsMac (fields : RawFields) (key mac : String) : Prop :=
  ∃ items entry, RawJson.get? fields key = some (.arr items) ∧ RawJson.obj entry ∈ items ∧
    RawJson.get? entry "mac" = some (.str (.ofString mac))

/-- A run that fails has left reservations and profiles alone, and one that answers lists every
machine it has leased. -/
structure CleanReserve (db : Database) (run : RawToolRun Build) : Prop where
  failed : ∀ failure, run.value = .error failure →
    run.deployment.db.reservations.rows = db.reservations.rows ∧
      ∀ mac, (run.deployment.db.machine mac).map Machine.profileName =
        (db.machine mac).map Machine.profileName
  answered : ∀ fields, run.value = .ok fields →
    ∀ mac, NewlyHeld db run.deployment.db mac →
      ListsMac fields "machines" mac ∧ ListsMac fields "power_results" mac

/-- The row of a lease can be written: its texts have UTF-8, and the modifier `+N seconds` has not
too many digits. -/
def RawReserve.Writable (req : RawReserve) : Prop :=
  (∃ texts, req.texts = some texts) ∧ ∃ digits, strOfInt req.ttlSeconds = .ok digits

section Clean

variable [Unicode]

/-- Of the machines that would be leased, no power command raises; and if their leases cannot be
written, the first of them has no expired lease. -/
def RaisesNothing (env : RequestEnv) (args : RawFields) (deployment : Deployment Build) : Prop :=
  ∀ req, rawReserveRequest args deployment = some req →
    (req.Writable → ∀ mac ∈ req.candidates env.now deployment.db,
      (powerCommandLine deployment.db mac .on).isSome → ∀ err, env.outcome mac ≠ .raised err) ∧
    (¬ req.Writable → ∀ mac, (req.candidates env.now deployment.db).head? = some mac →
      deployment.db.unreleased mac = none)

/-- What `reserve_machines` does. -/
inductive RawReserveRun (env : RequestEnv) (args : RawFields) (deployment : Deployment Build) :
    RawToolRun Build → Prop
  /-- The arguments are refused before the registry is called. -/
  | refused {failure : ToolFailure} : rawReserveRequest args deployment = none →
      RawReserveRun env args deployment ⟨deployment, [], .error failure⟩
  /-- The registry raises. -/
  | failed {req : RawReserve} {db : Database} {err : Exception} :
      rawReserveRequest args deployment = some req →
      reserveRaw env.now req deployment.db = ⟨db, .error err⟩ →
      RawReserveRun env args deployment ⟨{ deployment with db := db }, [], .error (.raised err)⟩
  /-- Machines are leased and switched on. -/
  | leased {checked : RawReserveArgs} {req : RawReserve} {db : Database} {leased : List Machine} :
      rawReserveRequest args deployment = some req →
      reserveRaw env.now req deployment.db = ⟨db, .ok leased⟩ →
      RawReserveRun env args deployment
        (.switched env (leased.map Machine.mac) { deployment with db := db }
          (rawReservePayload checked env.finished leased))

theorem reserveMachinesRaw_cases (env : RequestEnv) (args : RawFields)
    (deployment : Deployment Build) :
    RawReserveRun env args deployment (reserveMachinesRaw env args deployment) := by
  unfold reserveMachinesRaw
  cases hargs : rawReserveArgs args with
  | error message => exact .refused (by simp only [rawReserveRequest, hargs])
  | ok checked =>
    dsimp only
    by_cases hknown : checked.profile ∉ (listProfileNames deployment.profiles).map .ofString
    · rw [if_pos hknown]
      exact .refused (by simp only [rawReserveRequest, hargs, if_pos hknown])
    · rw [if_neg hknown]
      cases httl : ttlSecondsOf checked.ttlMinutes with
      | error err => exact .refused (by simp only [rawReserveRequest, hargs, if_neg hknown, httl])
      | ok ttlSeconds =>
        have hreq : rawReserveRequest args deployment = some (checked.request ttlSeconds) := by
          simp only [rawReserveRequest, hargs, if_neg hknown, httl]
        dsimp only
        rcases hout : reserveRaw env.now (checked.request ttlSeconds) deployment.db with
          ⟨db, value⟩
        cases value with
        | error err => exact .failed hreq hout
        | ok leased => exact .leased hreq hout

variable {env : RequestEnv} {args : RawFields} {deployment : Deployment Build} {req : RawReserve}
  {mac : String}

omit [Unicode] in
theorem rawReservePayload_lists {checked : RawReserveArgs} {finished : Timestamp}
    {leased : List Machine} {results : List PowerResult} {db : Database}
    (hleased : mac ∈ leased.map Machine.mac) (hresults : mac ∈ results.map PowerResult.mac) :
    ListsMac (rawReservePayload checked finished leased results db) "machines" mac ∧
      ListsMac (rawReservePayload checked finished leased results db) "power_results" mac := by
  obtain ⟨m, hm, rfl⟩ := List.mem_map.mp hleased
  obtain ⟨result, hresult, hmac⟩ := List.mem_map.mp hresults
  constructor
  · obtain ⟨entry, hentry, hmac'⟩ : ∃ entry, rawJson (machineDict m (livenessOf finished db m.mac)
        (bulkReservation db finished m.mac)) = .obj entry ∧
        RawJson.get? entry "mac" = some (.str (.ofString m.mac)) := ⟨_, rfl, rfl⟩
    refine ⟨rawItems (leased.map fun m => machineDict m (livenessOf finished db m.mac)
      (bulkReservation db finished m.mac)), entry, rfl, ?_, hmac'⟩
    rw [rawItems_eq_map, List.map_map]
    exact List.mem_map.mpr ⟨m, hm, hentry⟩
  · refine ⟨_, _, rfl, List.mem_map.mpr ⟨result, hresult, rfl⟩, ?_⟩
    rw [← hmac]
    rfl

/-- The first candidate has been cleared. -/
theorem clean_cleared_iff {err : Exception} {macs : List String}
    (hreq : rawReserveRequest args deployment = some req) (hwritable : ¬ req.Writable)
    (hmacs : req.candidates env.now deployment.db = mac :: macs) :
    CleanReserve deployment.db (⟨{ deployment with
        db := deployment.db.releaseReservations env.now fun r => r.mac == mac && r.isUnreleased },
        [], .error (.raised err)⟩ : RawToolRun Build) ↔ RaisesNothing env args deployment := by
  constructor
  · intro hclean req' hreq'
    obtain rfl : req = req' := Option.some.inj (hreq.symm.trans hreq')
    refine ⟨fun h => absurd h hwritable, fun _ mac' hmac' => ?_⟩
    rw [hmacs] at hmac'
    cases hmac'
    exact rows_releaseUnreleased_iff.mp (hclean.failed _ rfl).1
  · intro hnothing
    have hnone := (hnothing req hreq).2 hwritable mac (by rw [hmacs]; rfl)
    refine ⟨fun _ _ => ⟨rows_releaseUnreleased_iff.mpr hnone, fun _ => rfl⟩, fun _ hok => ?_⟩
    cases hok

section Leased

variable {texts : ReserveRequest} {db' : Database} (hcheck : texts.check = .ok ())
  (hleased : Leased env.now texts (reserveCandidates env.now texts deployment.db) deployment.db db')

include hcheck hleased

omit [Unicode] in
/-- A lease is a new row: the machine had no active reservation. -/
theorem rows_leased_ne (hmac : mac ∈ reserveCandidates env.now texts deployment.db) :
    db'.reservations.rows ≠ deployment.db.reservations.rows := by
  intro hrows
  obtain ⟨id, -, hlease⟩ := hleased.lease mac hmac
  have hrow := (unreleased_eq_some_iff.mp hlease).1
  have hactive := isActive_row_lease hcheck hmac id
  have hfree := isFree_iff_rows.mp (mem_reserveCandidates hmac).1 _ (hrows ▸ hrow)
    (Database.mac_of_unreleased hlease)
  rw [hactive] at hfree
  cases hfree

/-- The command of a leased machine raises: the request fails and the leases stay. -/
theorem not_clean_of_raised {payload : List PowerResult → Database → RawFields} {err : Exception}
    (hmac : mac ∈ reserveCandidates env.now texts deployment.db)
    (hcommand : (powerCommandLine deployment.db mac .on).isSome)
    (hraised : env.outcome mac = .raised err) :
    ¬ CleanReserve deployment.db (RawToolRun.switched env
      (reserveCandidates env.now texts deployment.db) { deployment with db := db' } payload) := by
  intro hclean
  have hcommand' : (powerCommandLine db' mac .on).isSome := by
    rw [powerCommandLine_leased hleased]
    exact hcommand
  have hon : PowerAction.on ≠ .reboot := by decide
  obtain ⟨err', hvalue⟩ := powerMachines_error hon hmac hcommand' hraised
  have hkept := (hclean.failed (.raised err') (by
    unfold RawToolRun.switched
    dsimp only
    rw [hvalue])).1
  unfold RawToolRun.switched at hkept
  dsimp only at hkept
  rw [powerMachines_db hon] at hkept
  exact rows_leased_ne hcheck hleased hmac hkept

omit hcheck in
/-- No command raises: the answer lists the leased machines. -/
theorem clean_of_quiet {checked : RawReserveArgs} {leased : List Machine}
    (hmacs : leased.map Machine.mac = reserveCandidates env.now texts deployment.db)
    (hquiet : ∀ mac ∈ reserveCandidates env.now texts deployment.db,
      (powerCommandLine deployment.db mac .on).isSome → ∀ err, env.outcome mac ≠ .raised err) :
    CleanReserve deployment.db (RawToolRun.switched env (leased.map Machine.mac)
      { deployment with db := db' } (rawReservePayload checked env.finished leased)) := by
  have hon : PowerAction.on ≠ .reboot := by decide
  have hquiet' : ∀ mac ∈ reserveCandidates env.now texts deployment.db,
      (powerCommandLine db' mac .on).isSome → ∀ err, env.outcome mac ≠ .raised err := by
    intro mac hmac hcommand
    rw [powerCommandLine_leased hleased] at hcommand
    exact hquiet mac hmac hcommand
  obtain ⟨results, hvalue, hlisted⟩ := powerMachines_ok hon hquiet'
  unfold RawToolRun.switched
  dsimp only
  rw [hmacs, powerMachines_db hon, hvalue]
  refine ⟨fun _ hfailed => (by cases hfailed), fun fields hok => ?_⟩
  cases hok
  intro mac hnew
  have hmac : mac ∈ reserveCandidates env.now texts deployment.db := by
    by_contra hnot
    obtain ⟨r, hr, hold⟩ := hnew
    exact hold ((hleased.unreleased mac hnot).symm.trans hr)
  exact rawReservePayload_lists (hmacs ▸ hmac) (hlisted ▸ hmac)

end Leased

/-- Machines were leased. -/
theorem clean_leased_iff {texts : ReserveRequest} {checked : RawReserveArgs} {db' : Database}
    (hsound : Sound deployment.db) (hreq : rawReserveRequest args deployment = some texts.raw)
    (hcheck : texts.check = .ok ())
    (hdigits : reserveCandidates env.now texts deployment.db = [] ∨
      ∃ text, strOfInt texts.ttlSeconds = .ok text)
    (hleased : Leased env.now texts (reserveCandidates env.now texts deployment.db)
      deployment.db db') :
    CleanReserve deployment.db
      (RawToolRun.switched env
        (((reserveCandidates env.now texts deployment.db).filterMap db'.lookup).map Machine.mac)
        { deployment with db := db' }
        (rawReservePayload checked env.finished
          ((reserveCandidates env.now texts deployment.db).filterMap db'.lookup))) ↔
      RaisesNothing env args deployment := by
  have hfound : ∀ mac ∈ reserveCandidates env.now texts deployment.db,
      normaliseMac mac = mac ∧ ∃ m, db'.machine mac = some m := by
    intro mac hmac
    obtain ⟨hfree, m, hm⟩ := mem_reserveCandidates hmac
    refine ⟨hsound.normaliseMac_of_free hfree hm, ?_⟩
    rw [hleased.machine, if_pos hmac, hm]
    exact ⟨_, rfl⟩
  obtain ⟨hmacs, -⟩ := filterMap_lookup hfound
  have hcandidates := @candidates_raw_of_check env.now texts deployment.db hcheck
  constructor
  · intro hclean req hreq'
    obtain rfl : texts.raw = req := Option.some.inj (hreq.symm.trans hreq')
    rw [hmacs] at hclean
    rw [hcandidates]
    refine ⟨fun _ mac hmac hcommand err herr =>
      not_clean_of_raised hcheck hleased hmac hcommand herr hclean, ?_⟩
    intro hwritable mac hmac
    obtain hnone | hdigits := hdigits
    · rw [hnone] at hmac
      cases hmac
    · exact absurd ⟨⟨texts, RawReserve.texts_eq_some_iff.mpr rfl⟩, hdigits⟩ hwritable
  · intro hnothing
    refine clean_of_quiet hleased hmacs fun mac hmac => ?_
    obtain hnone | hdigits := hdigits
    · rw [hnone] at hmac
      cases hmac
    · have hwritable : texts.raw.Writable :=
        ⟨⟨texts, RawReserve.texts_eq_some_iff.mpr rfl⟩, hdigits⟩
      exact (hnothing _ hreq).1 hwritable mac (hcandidates ▸ hmac)

/-- Nothing was written. -/
theorem clean_unchanged_iff {run : RawToolRun Build} (hdb : run.deployment.db = deployment.db)
    (hnobody : ∀ req, rawReserveRequest args deployment = some req →
      req.candidates env.now deployment.db = []) :
    CleanReserve deployment.db run ↔ RaisesNothing env args deployment := by
  refine iff_of_true ⟨fun _ _ => ?_, fun _ _ mac hnew => ?_⟩ fun req hreq => ⟨?_, ?_⟩
  · rw [hdb]
    exact ⟨rfl, fun _ => rfl⟩
  · obtain ⟨r, hr, hold⟩ := hnew
    exact absurd (hdb ▸ hr) hold
  · rintro - mac hmac
    rw [hnobody req hreq] at hmac
    cases hmac
  · rintro - mac hmac
    rw [hnobody req hreq] at hmac
    cases hmac

variable [IpAddress]

/-- **`reserve_machines` and failing commands.** In every reachable state, whatever the arguments
and whatever becomes of the power commands: a failure leaves no trace and a success lists every
leased machine, exactly if no command of a leased machine raises and the leases can be written, or
nothing is cleared before that fails. -/
theorem reserve_clean_iff {s : Registry} (hs : RawReachable s) {deployment : Deployment Build}
    (hdb : deployment.db = s.db) (env : RequestEnv) (args : RawFields) :
    CleanReserve deployment.db (reserveMachinesRaw env args deployment) ↔
      RaisesNothing env args deployment := by
  have hsound : Sound deployment.db := hdb ▸ hs.sound
  have hrun := reserveMachinesRaw_cases env args deployment
  generalize reserveMachinesRaw env args deployment = run at hrun
  cases hrun with
  | refused hnone =>
    refine clean_unchanged_iff rfl fun req hreq => ?_
    rw [hnone] at hreq
    cases hreq
  | @failed req db err hreq hreserve =>
    cases hencoded : req.texts with
    | none =>
      have hcases := reserveRaw_cases env.now hencoded deployment.db
      rw [hreserve] at hcases
      have hwritable : ¬ req.Writable := by
        rintro ⟨⟨texts, htexts⟩, -⟩
        rw [htexts] at hencoded
        cases hencoded
      cases hcases with
      | refused hnobody =>
        refine clean_unchanged_iff rfl fun req' hreq' => ?_
        rwa [← Option.some.inj (hreq.symm.trans hreq')]
      | cleared hmacs => exact clean_cleared_iff hreq hwritable hmacs
    | some texts =>
      obtain rfl := RawReserve.texts_eq_some_iff.mp hencoded
      rw [reserveRaw_raw] at hreserve
      have hcases := reserve_cases env.now texts deployment.db
      rw [hreserve] at hcases
      cases hcases with
      | refused hrefused =>
        refine clean_unchanged_iff rfl fun req' hreq' => ?_
        rw [← Option.some.inj (hreq.symm.trans hreq')]
        exact candidates_raw_of_error hrefused
      | overlong hlong hmacs =>
        cases hcheck : texts.check with
        | ok checked =>
          refine clean_cleared_iff hreq ?_ ((candidates_raw_of_check hcheck).trans hmacs)
          rintro ⟨-, digits, hdigits⟩
          cases hdigits.symm.trans hlong
        | error err' =>
          refine clean_unchanged_iff ?_ fun req' hreq' => ?_
          · unfold reserve at hreserve
            rw [hcheck] at hreserve
            exact (congrArg Outcome.db hreserve).symm
          · rw [← Option.some.inj (hreq.symm.trans hreq')]
            exact candidates_raw_of_error hcheck
  | @leased checked req db leased hreq hreserve =>
    cases hencoded : req.texts with
    | none =>
      have hcases := reserveRaw_cases env.now hencoded deployment.db
      rw [hreserve] at hcases
      cases hcases with
      | nobody hnobody =>
        refine clean_unchanged_iff rfl fun req' hreq' => ?_
        rwa [← Option.some.inj (hreq.symm.trans hreq')]
    | some texts =>
      obtain rfl := RawReserve.texts_eq_some_iff.mp hencoded
      rw [reserveRaw_raw] at hreserve
      have hcases := reserve_cases env.now texts deployment.db
      rw [hreserve] at hcases
      cases hcases with
      | leased hcheck hdigits hleased => exact clean_leased_iff hsound hreq hcheck hdigits hleased

end Clean

section Examples

attribute [local instance] ascii noNetworks

/-- The desktop has a command of its own for switching it on. -/
def wiredServer : LeaseServer Unit :=
  pooledServer.after (.call 7 (.setPowerCommand desktop.mac .on (some "wake desk1")))

theorem wiredServer_reachable : RawReachable ⟨7, wiredServer.deployment.db⟩ := by
  obtain ⟨s₀, calls, hopen, hrun⟩ := pooledServer_reachable
  exact Reachable.raw ⟨s₀, _, hopen, hrun.snoc (Registry.step_after (show _ ≤ 7 by decide)
    (.setPowerCommand desktop.mac .on (some "wake desk1")))⟩

/-- No process can be started for the command. -/
def brokenEnv : RequestEnv :=
  ⟨10, 10, fun _ => .raised (.osError "[Errno 12] Cannot allocate memory"), "0000"⟩

def reserveWorker : Fields := [("profile", .str "worker"), ("count", .int 1)]

theorem not_reserve_clean : RawReachable ⟨7, wiredServer.deployment.db⟩ ∧
    ¬ CleanReserve wiredServer.deployment.db
      (reserveMachinesRaw brokenEnv (rawFields reserveWorker) wiredServer.deployment) := by
  refine ⟨wiredServer_reachable, fun hclean => ?_⟩
  obtain ⟨hchanged, hfails⟩ : (reserveMachinesRaw brokenEnv (rawFields reserveWorker)
        wiredServer.deployment).deployment.db.reservations.rows ≠
          wiredServer.deployment.db.reservations.rows ∧
      (reserveMachinesRaw brokenEnv (rawFields reserveWorker)
        wiredServer.deployment).value.isOk = false := by
    decide +kernel
  cases hvalue : (reserveMachinesRaw brokenEnv (rawFields reserveWorker)
      wiredServer.deployment).value with
  | error failure => exact hchanged (hclean.failed failure hvalue).1
  | ok fields =>
    rw [hvalue] at hfails
    cases hfails

/-- A purpose without UTF-8, where no lease has expired. -/
theorem reserve_clean_iff_wired : CleanReserve wiredServer.deployment.db
    (reserveMachinesRaw (quietEnv 10)
      (rawFields reserveWorker ++ [(.ofString "purpose", .str loneSurrogate)])
      wiredServer.deployment) := by
  refine (reserve_clean_iff wiredServer_reachable rfl (quietEnv 10) _).mpr fun req hreq => ?_
  refine ⟨fun _ _ _ _ err hraised => (by cases hraised), fun _ mac hmac => ?_⟩
  have hfirst : (rawReserveRequest
      (rawFields reserveWorker ++ [(.ofString "purpose", .str loneSurrogate)])
      wiredServer.deployment).map (fun req =>
        (req.candidates 10 wiredServer.deployment.db).head?) = some (some "52:54:00:12:34:56") := by
    decide +kernel
  rw [hreq] at hfirst
  obtain rfl : "52:54:00:12:34:56" = mac :=
    Option.some.inj ((Option.some.inj hfirst).symm.trans hmac)
  decide +kernel

end Examples

end Fleetboot
