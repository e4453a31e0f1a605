import Fleetboot.Registry.Reserving
import Fleetboot.Server.Leases

/-!
# Reserving and releasing over MCP

`reserve_machines` records the holder's name without its surrounding space and then switches the
leased machines on; `release_machines` looks for the name as it is given. A power command that
times out or fails is part of the answer, one that cannot be run at all raises, and the leases
stay.

* `releasedBy_release`: `release` by a holder's name gives back exactly the active leases of that
  name.
* `release_undoes_reserve`: what `reserve_machines` leases, `release_machines` gives back.
-/

set_option autoImplicit false

namespace Fleetboot

open Python Relational Transition

/-! ## Giving back the leases of a holder -/

/-- An active lease under the name of a holder: the rows that `release` selects. -/
def Reservation.isLeaseFor (now : Timestamp) (holder : String) (r : Reservation) : Bool :=
  r.holder == holder && r.leaseKind == .lease && r.isActive now

/-- The row with `released_at` set. -/
def Reservation.releasedAtTime (now : Timestamp) (r : Reservation) : Reservation :=
  { r with releasedAt := some now }

/-- The active leases of the holder were given back, and nothing else. -/
structure ReleasedFor (now : Timestamp) (holder : String) (db db' : Database)
    (freed : List String) : Prop where
  rows : db'.reservations.rows = db.reservations.rows.map fun r =>
    if r.isLeaseFor now holder then r.releasedAtTime now else r
  freed : freed = ((db.reservations.rows.filter (Reservation.isLeaseFor now holder)).map
    Reservation.mac).insertionSort (· ≤ ·)
  machine : ∀ mac, db'.machine mac = db.machine mac
  rest : SameRest db db'

section Release

variable {now : Timestamp} {db : Database}

theorem isActive_releasedAtTime (r : Reservation) :
    (r.releasedAtTime now).isActive now = false := rfl

theorem rows_releaseReservations (p : Reservation → Bool) :
    (db.releaseReservations now p).reservations.rows =
      db.reservations.rows.map fun r => if p r then r.releasedAtTime now else r := rfl

/-- The loop of `release`, row by row. -/
theorem rows_releaseTargets (macs : List String) (db : Database) :
    (releaseTargets now macs db).1.reservations.rows = db.reservations.rows.map fun r =>
      if macs.any fun mac => isActiveLeaseOf now mac r then r.releasedAtTime now else r := by
  induction macs generalizing db with
  | nil => simp [releaseTargets]
  | cons mac macs ih =>
    simp only [releaseTargets]
    rw [ih, rows_releaseReservations, List.map_map]
    refine List.map_congr_left fun r _ => ?_
    rw [Function.comp_apply, List.any_cons]
    cases hfirst : isActiveLeaseOf now mac r with
    | false => simp
    | true =>
      -- A row that was just released is not active any more.
      have hgone : (macs.any fun mac =>
          isActiveLeaseOf now mac (r.releasedAtTime now)) = false := by
        rw [List.any_eq_false]
        intro mac' _
        simp [isActiveLeaseOf, isActive_releasedAtTime]
      rw [if_pos rfl, hgone, Bool.true_or, if_pos rfl]
      rfl

/-- An active lease is unreleased, so it is the only one of its MAC. -/
theorem unreleased_of_isLeaseFor {holder : String} {r : Reservation}
    (hrow : r ∈ db.reservations.rows) (h : r.isLeaseFor now holder = true) :
    db.unreleased r.mac = some r ∧ isActiveLeaseOf now r.mac r = true := by
  simp only [Reservation.isLeaseFor, Bool.and_eq_true, beq_iff_eq] at h
  refine ⟨unreleased_eq_some_iff.mpr ⟨hrow, releasedAt_of_isActive h.2, rfl⟩, ?_⟩
  rw [isActiveLeaseOf_iff]
  exact ⟨rfl, h.1.2, h.2⟩

/-- Among the targets of a holder's `release` a row is hit exactly if it is one of them. -/
theorem any_target_iff {holder : String} {r : Reservation} (hrow : r ∈ db.reservations.rows) :
    (((db.reservations.rows.filter (Reservation.isLeaseFor now holder)).map Reservation.mac).any
        fun mac => isActiveLeaseOf now mac r) = r.isLeaseFor now holder := by
  rw [Bool.eq_iff_iff, List.any_map, List.any_eq_true]
  constructor
  · rintro ⟨r', hr', hlease⟩
    obtain ⟨hrow', hfor⟩ := List.mem_filter.mp hr'
    obtain ⟨hmac, hkind, hact⟩ := isActiveLeaseOf_iff.mp hlease
    have hother := (unreleased_of_isLeaseFor hrow' hfor).1
    have hown : db.unreleased r'.mac = some r :=
      unreleased_eq_some_iff.mpr ⟨hrow, releasedAt_of_isActive hact, hmac⟩
    obtain rfl : r' = r := Option.some.inj (hother.symm.trans hown)
    exact hfor
  · intro hfor
    exact ⟨r, List.mem_filter.mpr ⟨hrow, hfor⟩, (unreleased_of_isLeaseFor hrow hfor).2⟩

/-- A MAC has one such row at most. -/
theorem nodup_isLeaseFor {holder : String} : ((db.reservations.rows.filter
    (Reservation.isLeaseFor now holder)).map Reservation.mac).Nodup := by
  refine db.reservations.unique.sublist (List.Sublist.map Reservation.mac ?_)
  have hsub : db.reservations.rows.filter (Reservation.isLeaseFor now holder) =
      (db.reservations.rows.filter Reservation.isUnreleased).filter
        (Reservation.isLeaseFor now holder) := by
    rw [List.filter_filter]
    refine List.filter_congr fun r hr => ?_
    cases hfor : r.isLeaseFor now holder with
    | false => simp
    | true =>
      have hrel := Database.releasedAt_of_unreleased (unreleased_of_isLeaseFor hr hfor).1
      simp [Reservation.isUnreleased, hrel]
  rw [hsub]
  exact List.filter_sublist

/-- A loop over machines with active leases frees them all. -/
theorem freed_releaseTargets {macs : List String} (hnodup : macs.Nodup)
    (hheld : ∀ mac ∈ macs, ∃ r, db.unreleased mac = some r ∧ isActiveLeaseOf now mac r = true) :
    (releaseTargets now macs db).2 = macs := by
  induction macs generalizing db with
  | nil => rfl
  | cons mac macs ih =>
    obtain ⟨hnew, hrest⟩ := List.nodup_cons.mp hnodup
    obtain ⟨hfirst, hlater⟩ := List.forall_mem_cons.mp hheld
    have hkept : ∀ k ∈ macs, ∃ r,
        (db.releaseReservations now (isActiveLeaseOf now mac)).unreleased k = some r ∧
          isActiveLeaseOf now k r = true := by
      intro k hk
      obtain ⟨r, hr, hlease⟩ := hlater k hk
      have hother : isActiveLeaseOf now mac r = false := by
        rw [← Bool.not_eq_true, isActiveLeaseOf_iff]
        rintro ⟨hmac, -⟩
        exact hnew (hmac ▸ (Database.mac_of_unreleased hr).symm ▸ hk)
      refine ⟨r, ?_, hlease⟩
      rw [Database.unreleased_releaseReservations, hr]
      exact Option.filter_some_pos (by simp [hother])
    simp only [releaseTargets]
    rw [ih hrest hkept, if_pos (any_isActiveLeaseOf.mpr hfirst)]

/-- **`release` by a holder's name.** -/
theorem releasedFor_release [Unicode] {macs : Option (List String)} {holder : String}
    (hmacs : macs.getD [] = []) (hholder : holder ≠ "") :
    ∃ db' freed, release now macs (some holder) db = ⟨db', .ok freed⟩ ∧
      ReleasedFor now holder db db' freed := by
  let selected := (db.reservations.rows.filter (Reservation.isLeaseFor now holder)).map
    Reservation.mac
  let targets := selected.insertionSort (· ≤ ·)
  have hperm : targets.Perm selected := List.perm_insertionSort _ _
  have htargets : releaseTargetsOf now macs (some holder) db = targets := by
    unfold releaseTargetsOf
    rw [hmacs, Option.getD_some]
    dsimp only
    split
    · exact absurd rfl hholder
    · rfl
  have hheld : ∀ mac ∈ targets, ∃ r, db.unreleased mac = some r ∧
      isActiveLeaseOf now mac r = true := by
    intro mac hmac
    obtain ⟨r, hr, rfl⟩ := List.mem_map.mp (hperm.mem_iff.mp hmac)
    obtain ⟨hrow, hfor⟩ := List.mem_filter.mp hr
    exact ⟨r, unreleased_of_isLeaseFor hrow hfor⟩
  have hnodup : targets.Nodup := hperm.nodup_iff.mpr nodup_isLeaseFor
  refine ⟨(releaseTargets now targets db).1, targets, ?_, ?_⟩
  · unfold release
    rw [htargets]
    exact congrArg (fun freed => Outcome.mk _ (.ok freed)) (freed_releaseTargets hnodup hheld)
  · refine
      { rows := ?_
        freed := rfl
        machine := machine_releaseTargets _ _
        rest := sameRest_releaseTargets _ _ }
    rw [rows_releaseTargets]
    exact List.map_congr_left fun r hrow => by rw [hperm.any_eq, any_target_iff hrow]

end Release

/-! ## What the tools do -/

section Tools

variable {Build : Type} [Unicode]

/-- The payload of a successful `reserve_machines`. -/
def reservePayload (args : ReserveArgs) (finished : Timestamp) (leased : List Machine)
    (results : List PowerResult) (db : Database) : Json := .obj
  [("profile", .str args.profile), ("holder", .str args.holder),
    ("requested", .int args.count), ("reserved", .int leased.length),
    ("short_by", .int (max 0 (args.count - leased.length))),
    ("ttl_minutes", args.ttlMinutes),
    ("power_results", .arr (results.map powerResultDict)),
    ("machines", machineDicts finished db leased)]

/-- What `reserve_machines` does. -/
inductive ReserveRun (env : RequestEnv) (args : Fields) (deployment : Deployment Build) :
    ToolRun Build → Prop
  /-- The arguments are refused before the registry is called. -/
  | refused {failure : ToolFailure} : reserveOperation args deployment = none →
      ReserveRun env args deployment ⟨deployment, [], .error failure⟩
  /-- The registry raises. -/
  | failed {req : ReserveRequest} {db : Database} {err : Exception} :
      reserveOperation args deployment = some (.reserve req) →
      reserve env.now req deployment.db = ⟨db, .error err⟩ →
      ReserveRun env args deployment ⟨{ deployment with db := db }, [], .error (.raised err)⟩
  /-- Machines are leased and switched on. -/
  | leased {checked : ReserveArgs} {ttlSeconds : Int} {db : Database} {leased : List Machine} :
      reserveArgs args = .ok checked →
      reserveOperation args deployment = some (.reserve (checked.request ttlSeconds)) →
      reserve env.now (checked.request ttlSeconds) deployment.db = ⟨db, .ok leased⟩ →
      ReserveRun env args deployment
        (.switched env .on (leased.map Machine.mac) { deployment with db := db }
          (reservePayload checked env.finished leased))

theorem reserveMachines_cases (env : RequestEnv) (args : Fields) (deployment : Deployment Build) :
    ReserveRun env args deployment (reserveMachines env args deployment) := by
  unfold reserveMachines
  cases hargs : reserveArgs args with
  | error message => exact .refused (by simp only [reserveOperation, hargs])
  | ok checked =>
    dsimp only
    by_cases hknown : checked.profile ∉ listProfileNames deployment.profiles
    · rw [if_pos hknown]
      exact .refused (by simp only [reserveOperation, hargs, if_pos hknown])
    · rw [if_neg hknown]
      cases httl : ttlSecondsOf checked.ttlMinutes with
      | error err => exact .refused (by simp only [reserveOperation, hargs, if_neg hknown, httl])
      | ok ttlSeconds =>
        have hop : reserveOperation args deployment =
            some (.reserve (checked.request ttlSeconds)) := by
          simp only [reserveOperation, hargs, if_neg hknown, httl]
        dsimp only
        rcases hout : reserve env.now (checked.request ttlSeconds) deployment.db with ⟨db, value⟩
        cases value with
        | error err => exact .failed hop hout
        | ok leased => exact .leased hargs hop hout

/-! ## Power commands that are run and such that are not -/

variable {mac : String} {action : PowerAction} {db : Database}

/-- Unless its command raises, switching a machine gives a result for it. -/
theorem powerMachine_ok {outcome : CommandOutcome}
    (h : (powerCommandLine db mac action).isSome → ∀ err, outcome ≠ .raised err) :
    ∃ result, (powerMachine mac action.text false outcome db).value = .ok result ∧
      result.mac = mac := by
  unfold powerMachine
  rw [PowerAction.ofText_text]
  dsimp only
  cases hm : db.lookup mac with
  | none => exact ⟨_, rfl, rfl⟩
  | some m =>
    have hrun : ∃ answer, runRoute (powerRoute db m action) outcome = .ok answer := by
      unfold powerCommandLine at h
      rw [hm, Option.bind_some] at h
      cases hroute : powerRoute db m action with
      | none detail => exact ⟨_, rfl⟩
      | machineCommand command =>
        rw [hroute] at h
        cases outcome with
        | exited | timedOut => exact ⟨_, rfl⟩
        | raised err => exact absurd rfl (h rfl err)
      | pdudaemon pduHost alias_ =>
        rw [hroute] at h
        cases outcome with
        | exited | timedOut => exact ⟨_, rfl⟩
        | raised err => exact absurd rfl (h rfl err)
    obtain ⟨⟨succeeded, detail⟩, hanswer⟩ := hrun
    dsimp only
    rw [hanswer]
    dsimp only
    rw [if_neg Bool.false_ne_true]
    split <;> exact ⟨_, rfl, rfl⟩

/-- A command that raises is not caught. -/
theorem powerMachine_error {err : Exception} (h : (powerCommandLine db mac action).isSome) :
    (powerMachine mac action.text false (.raised err) db).value = .error err := by
  unfold powerCommandLine at h
  unfold powerMachine
  rw [PowerAction.ofText_text]
  dsimp only
  cases hm : db.lookup mac with
  | none =>
    rw [hm] at h
    cases h
  | some m =>
    rw [hm, Option.bind_some] at h
    have hrun : runRoute (powerRoute db m action) (.raised err) = .error err := by
      cases hroute : powerRoute db m action with
      | none detail =>
        rw [hroute] at h
        cases h
      | machineCommand command => rfl
      | pdudaemon pduHost alias_ => rfl
    dsimp only
    rw [hrun]

/-- Switching machines on or off gives a result for each, unless a command raises. -/
theorem powerMachines_ok {outcome : String → CommandOutcome} {macs : List String}
    (haction : action ≠ .reboot)
    (h : ∀ mac ∈ macs, (powerCommandLine db mac action).isSome →
      ∀ err, outcome mac ≠ .raised err) :
    ∃ results, (powerMachines outcome action macs db).value = .ok results ∧
      results.map PowerResult.mac = macs := by
  induction macs with
  | nil => exact ⟨[], rfl, rfl⟩
  | cons mac macs ih =>
    obtain ⟨hfirst, hrest⟩ := List.forall_mem_cons.mp h
    obtain ⟨result, hresult, hmac⟩ := powerMachine_ok hfirst
    obtain ⟨results, hresults, hmacs⟩ := ih hrest
    refine ⟨result :: results, ?_, by rw [List.map_cons, hmac, hmacs]⟩
    simp only [powerMachines]
    rw [hresult, db_powerMachine haction, hresults]
    rfl

theorem powerMachines_error {outcome : String → CommandOutcome} {macs : List String}
    (haction : action ≠ .reboot) {err : Exception} (hmac : mac ∈ macs)
    (hcommand : (powerCommandLine db mac action).isSome) (hraised : outcome mac = .raised err) :
    ∃ err', (powerMachines outcome action macs db).value = .error err' := by
  induction macs with
  | nil => cases hmac
  | cons first macs ih =>
    simp only [powerMachines]
    rw [db_powerMachine haction]
    rcases List.mem_cons.mp hmac with rfl | hlater
    · rw [hraised, powerMachine_error hcommand]
      exact ⟨err, rfl⟩
    · obtain ⟨err', herr'⟩ := ih hlater
      rw [herr']
      cases (powerMachine first action.text false (outcome first) db).value with
      | error err'' => exact ⟨err'', rfl⟩
      | ok result => exact ⟨err', rfl⟩

/-! ## Releasing what was reserved -/

/-- The payload of a successful `release_machines`. -/
def releasePayload (freed : List String) (results : List PowerResult) : Json := .obj
  [("released", .arr (freed.map Json.str)), ("count", .int freed.length),
    ("power_results", .arr (results.map powerResultDict))]

omit [Unicode] in
theorem releaseArgs_holder {args : Fields} {macs : Option (List String)} {holder : String}
    (hargs : releaseArgs args = .ok (macs, some holder)) (hmacs : macs.getD [] = []) :
    holder ≠ "" := by
  rintro rfl
  unfold releaseArgs at hargs
  cases hmacsArg : macsArg args with
  | error message =>
    rw [hmacsArg] at hargs
    cases hargs
  | ok macs' =>
    cases hholderArg : optionalStr args "holder" with
    | error message =>
      rw [hmacsArg, hholderArg] at hargs
      cases hargs
    | ok holder' =>
      rw [hmacsArg, hholderArg] at hargs
      change (if macs'.getD [] = [] ∧ holder'.getD "" = "" then _ else _) = _ at hargs
      split at hargs
      · cases hargs
      · rename_i hneither
        cases hargs
        exact hneither ⟨hmacs, rfl⟩

/-- `release_machines` with a holder and no MACs. -/
theorem releaseMachines_releasedFor (env : RequestEnv) {args : Fields}
    {macs : Option (List String)} {holder : String}
    (hargs : releaseArgs args = .ok (macs, some holder)) (hmacs : macs.getD [] = [])
    (deployment : Deployment Build) :
    ∃ freed, ReleasedFor env.now holder deployment.db
        (releaseMachines env args deployment).deployment.db freed ∧
      ∀ content, (releaseMachines env args deployment).value = .ok content →
        ∃ results, content = .payload (releasePayload freed results) := by
  obtain ⟨db', freed, hrelease, hfor⟩ :=
    @releasedFor_release env.now deployment.db _ macs holder hmacs (releaseArgs_holder hargs hmacs)
  have hrun : releaseMachines env args deployment =
      .switched env .off freed { deployment with db := db' }
        fun results _ => releasePayload freed results := by
    unfold releaseMachines
    rw [hargs]
    dsimp only
    rw [hrelease]
    rfl
  rw [hrun]
  refine ⟨freed, ?_, ?_⟩
  · change ReleasedFor env.now holder deployment.db
      (powerMachines env.outcome .off freed db').db freed
    rw [powerMachines_db (by decide)]
    exact hfor
  · intro content hcontent
    unfold ToolRun.switched at hcontent
    dsimp only at hcontent
    split at hcontent
    · rename_i results hresults
      cases hcontent
      exact ⟨results, rfl⟩
    · cases hcontent

/-- **Releasing undoes reserving**, for a holder's name without space around it: the leases of a
successful `reserve_machines` bear that name, and whenever `release_machines` is called with it
and without MACs, exactly the leases of that name that are active then are released. -/
theorem release_undoes_reserve {deployment : Deployment Build} {env : RequestEnv} {args : Fields}
    {checked : ReserveArgs} {content : ToolContent} (hargs : reserveArgs args = .ok checked)
    (hplain : strip checked.holder = checked.holder)
    (hok : (reserveMachines env args deployment).value = .ok content) :
    (∃ leased : List String,
      (∀ mac ∈ leased, ∃ r,
        (reserveMachines env args deployment).deployment.db.unreleased mac = some r ∧
          r.leaseKind = .lease ∧ r.holder = checked.holder) ∧
      ∀ mac, mac ∉ leased →
        (reserveMachines env args deployment).deployment.db.reservationsOf mac =
          deployment.db.reservationsOf mac) ∧
    ∀ (later : Deployment Build) (env' : RequestEnv) (args' : Fields)
      (macs : Option (List String)),
      releaseArgs args' = .ok (macs, some checked.holder) → macs.getD [] = [] →
      ∃ freed, ReleasedFor env'.now checked.holder later.db
          (releaseMachines env' args' later).deployment.db freed ∧
        ∀ content, (releaseMachines env' args' later).value = .ok content →
          ∃ results, content = .payload (releasePayload freed results) := by
  refine ⟨?_, fun later env' args' macs hargs' hmacs =>
    releaseMachines_releasedFor env' hargs' hmacs later⟩
  have hrun := reserveMachines_cases env args deployment
  generalize reserveMachines env args deployment = run at hrun hok
  cases hrun with
  | refused => cases hok
  | failed => cases hok
  | @leased checked' ttlSeconds db leased hchecked hop hreserve =>
    obtain rfl : checked' = checked := Except.ok.inj (hchecked.symm.trans hargs)
    have hcases := reserve_cases env.now (checked'.request ttlSeconds) deployment.db
    have hothers := fun mac => @reservationsOf_reserve _ env.now (checked'.request ttlSeconds)
      deployment.db mac
    rw [hreserve] at hcases hothers
    refine ⟨reserveCandidates env.now (checked'.request ttlSeconds) deployment.db, ?_⟩
    change (∀ mac ∈ _, ∃ r,
        (powerMachines env.outcome .on (leased.map Machine.mac) db).db.unreleased mac = some r ∧
          _) ∧
      ∀ mac, _ →
        (powerMachines env.outcome .on (leased.map Machine.mac) db).db.reservationsOf mac = _
    rw [powerMachines_db (by decide)]
    refine ⟨fun mac hmac => ?_, hothers⟩
    cases hcases with
    | leased hcheck _ hleased =>
      obtain ⟨id, -, hlease⟩ := hleased.lease mac hmac
      refine ⟨_, hlease, rfl, ?_⟩
      change strip (strip checked'.holder) = checked'.holder
      rw [hplain, hplain]

/-! ## What a lease changes -/

/-- The MAC has another unreleased reservation than before. -/
def NewlyHeld (db db' : Database) (mac : String) : Prop :=
  ∃ r, db'.unreleased mac = some r ∧ db.unreleased mac ≠ some r

omit [Unicode] in
/-- Nothing is released exactly if there is nothing unreleased. -/
theorem rows_releaseUnreleased_iff {now : Timestamp} :
    (db.releaseReservations now fun r => r.mac == mac && r.isUnreleased).reservations.rows =
        db.reservations.rows ↔ db.unreleased mac = none := by
  constructor
  · intro hrows
    have hnone := unreleased_after_releaseUnreleased now db mac mac
    rw [if_pos rfl] at hnone
    unfold Database.unreleased Table.lookup at hnone ⊢
    rw [hrows] at hnone
    exact hnone
  · intro hnone
    rw [rows_releaseReservations]
    refine (List.map_congr_left fun r hr => ?_).trans (List.map_id _)
    refine if_neg fun hboth => ?_
    rw [Bool.and_eq_true, beq_iff_eq] at hboth
    exact Table.lookup_eq_none_iff.mp hnone r hr hboth.2 hboth.1

/-- The power command of a machine does not depend on its profile. -/
theorem powerCommandLine_leased {now : Timestamp} {req : ReserveRequest} {macs : List String}
    {db' : Database} (h : Leased now req macs db db') (mac : String) (action : PowerAction) :
    powerCommandLine db' mac action = powerCommandLine db mac action := by
  have hrow : ∀ m : Machine, powerRoute db' m = powerRoute db m :=
    fun m => powerRoute_congr h.rest.settings rfl
  have hprofile : ∀ m : Machine,
      powerRoute db' { m with profileName := strip req.profile } = powerRoute db m :=
    fun m => powerRoute_congr h.rest.settings rfl
  unfold powerCommandLine Database.lookup
  rw [h.machine]
  generalize normaliseMac mac = k
  generalize db.machine k = row
  cases row with
  | none => simp
  | some m =>
    by_cases hk : k ∈ macs
    · rw [if_pos hk, Option.map_some, Option.bind_some, Option.bind_some, hprofile m]
    · rw [if_neg hk, Option.bind_some, Option.bind_some, hrow m]

end Tools

section Examples

attribute [local instance] ascii noNetworks

/-- An agent leases a machine of the pool for so many minutes. -/
def reservedBy (holder : String) (minutes : Int) : ToolRun Unit :=
  reserveMachines (quietEnv 10)
    [("profile", .str "worker"), ("count", .int 1), ("holder", .str holder),
      ("ttl_minutes", .int minutes)] pooledServer.deployment

/-- It gives back what it leased. -/
def releasedBy (holder : String) (now : Timestamp) (run : ToolRun Unit) : ToolRun Unit :=
  releaseMachines (quietEnv now) [("holder", .str holder)] run.deployment

def ToolRun.keepsLeaseOf (holder : String) (run : ToolRun Unit) : Bool :=
  run.deployment.db.reservations.rows.any fun r =>
    r.holder == holder && r.leaseKind == .lease && r.isUnreleased

theorem pooledServer_reachable : Reachable ⟨6, pooledServer.deployment.db⟩ :=
  pooledRegistry_reachable

/-- A lease that has expired stays unreleased; so does the lease of a name with space around it. -/
theorem not_release_undoes_reserve : Reachable ⟨6, pooledServer.deployment.db⟩ ∧
    (reservedBy "agent" 1).value.isOk ∧
      (releasedBy "agent" 100 (reservedBy "agent" 1)).keepsLeaseOf "agent" ∧
    (reservedBy " agent " 60).value.isOk ∧
      (releasedBy " agent " 20 (reservedBy " agent " 60)).keepsLeaseOf "agent" :=
  ⟨pooledServer_reachable, by decide +kernel⟩

theorem release_undoes_reserve_agent : ∃ freed,
    ReleasedFor 20 "agent" (reservedBy "agent" 60).deployment.db
      (releasedBy "agent" 20 (reservedBy "agent" 60)).deployment.db freed := by
  have hvalue : (reservedBy "agent" 60).value.isOk = true := by decide +kernel
  cases hcontent : (reservedBy "agent" 60).value with
  | error failure =>
    rw [hcontent] at hvalue
    cases hvalue
  | ok content =>
    obtain ⟨-, hrelease⟩ := @release_undoes_reserve Unit _ pooledServer.deployment (quietEnv 10)
      _ ⟨"worker", 1, "agent", none, none, .int 60⟩ content rfl (by decide) hcontent
    obtain ⟨freed, hfreed, -⟩ := hrelease (reservedBy "agent" 60).deployment (quietEnv 20)
      [("holder", .str "agent")] none rfl rfl
    exact ⟨freed, hfreed⟩

end Examples

end Fleetboot
