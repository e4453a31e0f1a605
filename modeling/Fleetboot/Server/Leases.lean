import Fleetboot.Registry.Pool
import Fleetboot.Server.PowerOff
import Fleetboot.Server.ToolEffects

/-!
# The end of a lease

A lease without an expiry is active forever: nothing reaps it, and nobody else gets the machine.
`datetime('now', '+N seconds')` yields NULL beyond the year 9999, and a tool accepts every
positive `ttl_minutes`.

* `bounded_run_iff`: a call leaves every lease with an expiry exactly when it stamps none beyond
  the last timestamp.
* `leases_end`: in runs of such calls, every lease is at every moment either active or reapable.
-/

set_option autoImplicit false

namespace Fleetboot

open Python Relational Transition

/-! ## Leases with an expiry -/

/-- At a time a lease is either active, hence neither reaped nor selected by a `reserve`, or
expired and reaped. -/
def Database.ActiveOrReaped (db : Database) (now : Timestamp) (r : Reservation) : Prop :=
  ∃ macs, (reapExpired now db).value = .ok macs ∧
    (r.isActive now = true ∧ r.mac ∉ macs ∧ (∀ req, r.mac ∉ reserveCandidates now req db) ∨
      r.isActive now = false ∧ r.mac ∈ macs)

/-- Every unreleased lease expires, and until then it is held. -/
def Database.LeasesEnd (db : Database) : Prop :=
  ∀ r ∈ db.reservations.rows, r.releasedAt = none → r.leaseKind = .lease →
    r.expiresAt ≠ none ∧ ∀ now, db.ActiveOrReaped now r

/-- The unreleased leases have an expiry. -/
def Database.Bounded (db : Database) : Prop :=
  ∀ mac r, db.unreleased mac = some r → r.leaseKind = .lease → r.expiresAt ≠ none

theorem Database.Bounded.of_unreleased {db db' : Database} (h : db.Bounded)
    (hsub : ∀ mac r, db'.unreleased mac = some r → db.unreleased mac = some r) : db'.Bounded :=
  fun mac r hr => h mac r (hsub mac r hr)

theorem isReapable_of_not_isActive {now : Timestamp} {r : Reservation} (hrel : r.releasedAt = none)
    (hkind : r.leaseKind = .lease) (hact : r.isActive now = false) : r.isReapable now = true := by
  rw [isReapable_iff]
  refine ⟨hrel, hkind, ?_⟩
  cases hexp : r.expiresAt with
  | none => simp [Reservation.isActive, hrel, hexp] at hact
  | some expiry =>
    simp only [Reservation.isActive, hrel, hexp, Option.isNone_none, Bool.true_and,
      decide_eq_false_iff_not] at hact
    exact ⟨expiry, rfl, Nat.le_of_not_lt hact⟩

/-- An unreleased lease is active or reaped, whatever its expiry. -/
theorem activeOrReaped {db : Database} {mac : String} {r : Reservation}
    (hr : db.unreleased mac = some r) (hkind : r.leaseKind = .lease) (now : Timestamp) :
    db.ActiveOrReaped now r := by
  obtain ⟨db', hreap, -⟩ := reapExpired_effect now db
  have hmac := Database.mac_of_unreleased hr
  refine ⟨reapableMacs now db, by rw [hreap], ?_⟩
  rw [mem_reapableMacs, hmac, hr]
  cases hact : r.isActive now with
  | true =>
    refine .inl ⟨rfl, ?_, fun req hmem => ?_⟩
    · rintro ⟨r', hr', hreapable⟩
      cases hr'
      rw [not_isActive_of_isReapable hreapable] at hact
      cases hact
    · rw [isFree_iff.mp (mem_reserveCandidates hmem).1 r hr] at hact
      cases hact
  | false =>
    have hrel := Database.releasedAt_of_unreleased hr
    exact .inr ⟨rfl, r, rfl, isReapable_of_not_isActive hrel hkind hact⟩

theorem leasesEnd_iff_bounded {db : Database} : db.LeasesEnd ↔ db.Bounded := by
  constructor
  · intro h mac r hr hkind
    have hrow := (unreleased_eq_some_iff.mp hr).1
    exact (h r hrow (Database.releasedAt_of_unreleased hr) hkind).1
  · intro h r hrow hrel hkind
    have hr := unreleased_eq_some_iff.mpr ⟨hrow, hrel, rfl⟩
    exact ⟨h _ r hr hkind, activeOrReaped hr hkind⟩

/-! ## Calls -/

section Calls

variable [Unicode] [IpAddress] {now : Timestamp} {db : Database}

/-- The call stamps a lease with an expiry that lies so many seconds ahead. -/
def Operation.Stamps (now : Timestamp) (db : Database) (ttl : Int) : Operation → Prop
  | reserve req => req.ttlSeconds = ttl ∧ req.check = .ok () ∧
      (∃ text, strOfInt ttl = .ok text) ∧ reserveCandidates now req db ≠ []
  | renew mac ttlSeconds => ttlSeconds = ttl ∧ 0 < ttl ∧ (∃ text, strOfInt ttl = .ok text) ∧
      ∃ r, db.unreleased (normaliseMac mac) = some r ∧ r.leaseKind = .lease ∧
        r.isActive now = true
  | _ => False

/-- What the call stamps, SQLite can print. -/
def Operation.InRange (now : Timestamp) (db : Database) (op : Operation) : Prop :=
  ∀ ttl, op.Stamps now db ttl → (now : Int) + ttl ≤ lastTimestamp

omit [Unicode] [IpAddress] in
theorem datetimePlus_ne_none_iff {seconds : Int} (hpos : 0 < seconds) :
    datetimePlus now seconds ≠ none ↔ (now : Int) + seconds ≤ lastTimestamp := by
  unfold datetimePlus
  split
  · rename_i h
    simp [h.2]
  · rename_i h
    have hlate : ¬ (now : Int) + seconds ≤ lastTimestamp := fun hle => h ⟨hpos.le, hle⟩
    simp [hlate]

omit [IpAddress] in
/-- Apart from `reserve` and `renew`, no call makes a lease or moves its expiry. -/
theorem Move.bounded {mac : String} {op : Operation} {s s' : Standing}
    (hmove : Move now mac op s s') (hreserve : ∀ req, op ≠ .reserve req)
    (hrenew : ∀ mac ttlSeconds, op ≠ .renew mac ttlSeconds)
    (h : ∀ r, s.hold = some r → r.leaseKind = .lease → r.expiresAt ≠ none) :
    ∀ r, s'.hold = some r → r.leaseKind = .lease → r.expiresAt ≠ none := by
  intro r hr hkind
  cases hmove with
  | keep => exact h r hr hkind
  | rewrite => exact h r hr hkind
  | lease hop => exact absurd hop (hreserve _)
  | renew hop => exact absurd hop (hrenew _ _)
  | lapse => cases hr
  | release => cases hr
  | toPool => cases hr
  | remove => cases hr
  | pin =>
    cases hr
    cases hkind
  | enrol =>
    cases hr
    cases hkind

omit [IpAddress] in
theorem bounded_reserve_iff (hb : db.Bounded) (req : ReserveRequest) :
    (reserve now req db).db.Bounded ↔ (Operation.reserve req).InRange now db := by
  have hreserve := reserve_cases now req db
  generalize reserve now req db = out at hreserve
  cases hreserve with
  | refused hrefused =>
    refine iff_of_true hb ?_
    rintro ttl ⟨-, hcheck, -⟩
    rw [hrefused] at hcheck
    cases hcheck
  | @overlong err mac macs hlong =>
    refine iff_of_true (hb.of_unreleased fun k r hr => ?_) ?_
    · rw [unreleased_after_releaseUnreleased] at hr
      split at hr
      · cases hr
      · exact hr
    · rintro ttl ⟨rfl, -, ⟨text, hdigits⟩, -⟩
      rw [hlong] at hdigits
      cases hdigits
  | @leased db' hcheck hdigits hleased =>
    constructor
    · rintro hb' ttl ⟨rfl, -, -, hsome⟩
      obtain ⟨mac, hmac⟩ := List.exists_mem_of_ne_nil _ hsome
      obtain ⟨id, -, hu⟩ := hleased.lease mac hmac
      have hexpires := hb' mac _ hu rfl
      exact (datetimePlus_ne_none_iff (ReserveRequest.ttl_pos_of_candidate hcheck hmac)).mp hexpires
    · intro hrange mac r hr hkind
      by_cases hmac : mac ∈ reserveCandidates now req db
      · obtain ⟨id, -, hu⟩ := hleased.lease mac hmac
        have hne : reserveCandidates now req db ≠ [] := List.ne_nil_of_mem hmac
        have hstamps := hrange req.ttlSeconds
          ⟨rfl, hcheck, hdigits.resolve_left hne, hne⟩
        rw [hu] at hr
        cases hr
        exact (datetimePlus_ne_none_iff (ReserveRequest.ttl_pos_of_candidate hcheck hmac)).mpr
          hstamps
      · rw [hleased.unreleased mac hmac] at hr
        exact hb mac r hr hkind

omit [IpAddress] in
theorem bounded_renew_iff (hb : db.Bounded) (mac : String) (ttlSeconds : Int) :
    (renew now mac ttlSeconds db).db.Bounded ↔ (Operation.renew mac ttlSeconds).InRange now db := by
  have hrenew := renew_cases now mac ttlSeconds db
  rcases hrenew with ⟨err, hrun, -⟩ | ⟨⟨hpos, hdigits⟩, hrun⟩
  · rw [hrun]
    refine iff_of_true hb ?_
    rintro ttl ⟨rfl, hpos, ⟨text, hdigits⟩, -⟩
    -- A renewal with such arguments does not fail.
    unfold renew at hrun
    rw [if_neg (by omega), hdigits] at hrun
    cases congrArg Outcome.value hrun
  · rw [hrun]
    constructor
    · rintro hb' ttl ⟨rfl, -, -, r, hr, hkind, hact⟩
      have hlease : isActiveLeaseOf now (normaliseMac mac) r = true :=
        isActiveLeaseOf_iff.mpr ⟨Database.mac_of_unreleased hr, hkind, hact⟩
      have hu := Database.unreleased_setExpiry db (datetimePlus now ttlSeconds)
        (isActiveLeaseOf now (normaliseMac mac)) (normaliseMac mac)
      rw [hr, Option.map_some, if_pos hlease] at hu
      exact (datetimePlus_ne_none_iff hpos).mp (hb' _ _ hu hkind)
    · intro hrange k r hr hkind
      rw [Database.unreleased_setExpiry] at hr
      obtain ⟨r', hr', heq⟩ := Option.map_eq_some_iff.mp hr
      split at heq
      · rename_i hlease
        obtain ⟨hmac, hkind', hact⟩ := isActiveLeaseOf_iff.mp hlease
        have hk : k = normaliseMac mac := (Database.mac_of_unreleased hr').symm.trans hmac
        subst heq
        exact (datetimePlus_ne_none_iff hpos).mpr
          (hrange ttlSeconds ⟨rfl, hpos, hdigits, r', hk ▸ hr', hkind', hact⟩)
      · subst heq
        exact hb k _ hr' hkind

theorem bounded_run_of_move (hsound : Sound db) (hb : db.Bounded) {op : Operation}
    (hreserve : ∀ req, op ≠ .reserve req) (hrenew : ∀ mac ttlSeconds, op ≠ .renew mac ttlSeconds) :
    (op.run now db).db.Bounded :=
  fun mac => (move_run now hsound op mac).bounded hreserve hrenew (hb mac)

/-- **What a call does to the leases.** -/
theorem bounded_run_iff (hsound : Sound db) (hb : db.Bounded) (op : Operation) :
    (op.run now db).db.Bounded ↔ op.InRange now db := by
  cases op with
  | reserve req =>
    simp only [Operation.run, Outcome.db_map]
    exact bounded_reserve_iff hb req
  | renew mac ttlSeconds =>
    simp only [Operation.run, Outcome.db_map]
    exact bounded_renew_iff hb mac ttlSeconds
  | _ =>
    refine iff_of_true ?_ fun ttl hstamps => hstamps.elim
    exact bounded_run_of_move hsound hb (fun _ h => by cases h) fun _ _ h => by cases h

omit [IpAddress] in
/-- A registry that was just opened has no lease. -/
theorem Opened.bounded {s : Registry} (h : Opened s) : s.db.Bounded := by
  intro mac r hr hkind
  obtain ⟨m, hm⟩ := h.sound.machine_of_unreleased hr
  obtain ⟨r', hr', hperm⟩ := (Pooled.of_opened h mac).held rfl m hm
  obtain rfl : r = r' := Option.some.inj (hr.symm.trans hr')
  rw [hkind] at hperm
  cases hperm

end Calls

/-! ## Runs -/

section Runs

variable [Unicode] [IpAddress] {Build : Type}

/-- The clock and what the server keeps. -/
structure LeaseServer (Build : Type) where
  clock : Timestamp
  deployment : Deployment Build

/-- A tool of the pool is called, or another call of the registry is made. -/
inductive LeaseEvent
  | tool (called : PoolTool) (role : Role) (args : Fields) (env : RequestEnv)
  | call (time : Timestamp) (op : Operation)

namespace LeaseEvent

def time : LeaseEvent → Timestamp
  | tool _ _ _ env => env.now
  | call time _ => time

/-- The call of the registry that is made. -/
def operation (deployment : Deployment Build) : LeaseEvent → Option Operation
  | tool called _ args _ => called.operation args deployment
  | call _ op => some op

/-- What is left behind. -/
def run (config : McpConfig) (deployment : Deployment Build) : LeaseEvent → Deployment Build
  | tool called role args env => (called.run config env role args deployment).deployment
  | call time op => { deployment with db := (op.run time deployment.db).db }

theorem db_run (config : McpConfig) (deployment : Deployment Build) (event : LeaseEvent) :
    (event.run config deployment).db =
      dbAfter event.time deployment.db (event.operation deployment) := by
  cases event with
  | tool called role args env => exact (called.performs config env role args deployment).db
  | call time op => rfl

/-- The call, if there is one, stamps no lease beyond the last timestamp. -/
def InRange (s : LeaseServer Build) (event : LeaseEvent) : Prop :=
  ∀ op, event.operation s.deployment = some op → op.InRange event.time s.deployment.db

end LeaseEvent

/-- One event, at a reading of the clock that is not before the last one. -/
structure LeaseStep (config : McpConfig) (s : LeaseServer Build) (event : LeaseEvent)
    (s' : LeaseServer Build) : Prop where
  later : s.clock ≤ event.time
  clock : s'.clock = event.time
  run : s'.deployment = event.run config s.deployment

theorem LeaseStep.sound {config : McpConfig} {s s' : LeaseServer Build} {event : LeaseEvent}
    (hstep : LeaseStep config s event s') (hsound : Sound s.deployment.db) :
    Sound s'.deployment.db := by
  rw [hstep.run, LeaseEvent.db_run]
  cases event.operation s.deployment with
  | none => exact hsound
  | some op => exact sound_run event.time hsound op

theorem LeaseStep.bounded_iff {config : McpConfig} {s s' : LeaseServer Build} {event : LeaseEvent}
    (hstep : LeaseStep config s event s') (hsound : Sound s.deployment.db)
    (hb : s.deployment.db.Bounded) : s'.deployment.db.Bounded ↔ event.InRange s := by
  rw [hstep.run, LeaseEvent.db_run]
  unfold LeaseEvent.InRange
  cases event.operation s.deployment with
  | none => exact iff_of_true hb fun op hop => by cases hop
  | some op =>
    have hcall := @bounded_run_iff _ _ event.time _ hsound hb op
    simpa [dbAfter] using hcall

/-- **Leases end**, from every registry that was just opened, in every run in which no
`reserve_machines` or `renew_reservation` stamps a lease beyond the last timestamp: every
unreleased lease has an expiry and is at every moment either active, hence neither reaped nor
leased again, or reaped. The next step keeps this up exactly when it stamps no such lease
either. -/
theorem leases_end (config : McpConfig) {s₀ s : LeaseServer Build} {events : List LeaseEvent}
    (hopen : Opened ⟨s₀.clock, s₀.deployment.db⟩)
    (hrun : Run (Restrict (LeaseStep config) fun s event => event.InRange s) s₀ events s) :
    s.deployment.db.LeasesEnd ∧
    ∀ event s', LeaseStep config s event s' →
      (s'.deployment.db.LeasesEnd ↔ event.InRange s) := by
  have hkept : Sound s.deployment.db ∧ s.deployment.db.Bounded :=
    hrun.invariant (I := fun s => Sound s.deployment.db ∧ s.deployment.db.Bounded)
      (fun _ _ _ h hstep => ⟨hstep.1.sound h.1, (hstep.1.bounded_iff h.1 h.2).mpr hstep.2⟩)
      ⟨hopen.sound, hopen.bounded⟩
  refine ⟨leasesEnd_iff_bounded.mpr hkept.2, fun event s' hstep => ?_⟩
  rw [leasesEnd_iff_bounded]
  exact hstep.bounded_iff hkept.1 hkept.2

end Runs

section Examples

attribute [local instance] ascii noNetworks

/-- A server on a new file, with one profile. -/
def newServer : LeaseServer Unit :=
  { clock := 0
    deployment :=
      { db := newRegistry.db
        profiles := [⟨"worker", []⟩]
        bugReports := none
        builds := [] } }

def noDocs : McpConfig := ⟨[], "", [], fun _ => ""⟩

def quietEnv (now : Timestamp) : RequestEnv := ⟨now, now, fun _ => .exited 0, "0000"⟩

/-- `reserve_machines` for so many minutes. -/
def reserveFor (minutes : Int) : LeaseEvent :=
  .tool .reserveMachines .pool
    [("profile", .str "worker"), ("count", .int 1), ("ttl_minutes", .int minutes)] (quietEnv 10)

def LeaseServer.after (s : LeaseServer Unit) (event : LeaseEvent) : LeaseServer Unit :=
  ⟨event.time, event.run noDocs s.deployment⟩

theorem LeaseServer.step_after {s : LeaseServer Unit} {event : LeaseEvent}
    (h : s.clock ≤ event.time) : LeaseStep noDocs s event (s.after event) :=
  ⟨h, rfl, rfl⟩

/-- A machine is enrolled and released to the pool. -/
def pooledServer : LeaseServer Unit :=
  (newServer.after (.call 5 (.enroll desktop))).after (.call 6 (.releaseToPool desktop.mac))

theorem pooledServer_run : ∃ events,
    Run (Restrict (LeaseStep noDocs) fun s event => event.InRange s) newServer events
      pooledServer := by
  refine ⟨_, (Run.single (e := .call 5 (.enroll desktop))
    ⟨LeaseServer.step_after (by decide), ?_⟩).snoc (e := .call 6 (.releaseToPool desktop.mac))
      ⟨LeaseServer.step_after (by decide), ?_⟩⟩
  · rintro op hop ttl hstamps
    cases hop
    exact hstamps.elim
  · rintro op hop ttl hstamps
    cases hop
    exact hstamps.elim

/-- A lease of a million years and more never ends. -/
theorem not_leasesEnd_reserveFor : Opened ⟨newServer.clock, newServer.deployment.db⟩ ∧
    (∃ events, Run (LeaseStep noDocs) newServer events
      (pooledServer.after (reserveFor (10 ^ 12)))) ∧
    ¬ (pooledServer.after (reserveFor (10 ^ 12))).deployment.db.LeasesEnd := by
  refine ⟨newRegistry_opened, ?_, fun h => ?_⟩
  · obtain ⟨events, hrun⟩ := pooledServer_run
    exact ⟨_, hrun.of_restrict.snoc (LeaseServer.step_after (show _ ≤ 10 by decide))⟩
  · have hlease : ∃ r ∈ (pooledServer.after (reserveFor (10 ^ 12))).deployment.db.reservations.rows,
        r.releasedAt = none ∧ r.leaseKind = .lease ∧ r.expiresAt = none := by
      decide +kernel
    obtain ⟨r, hrow, hrel, hkind, hexp⟩ := hlease
    exact (h r hrow hrel hkind).1 hexp

theorem leases_end_hour :
    (pooledServer.after (reserveFor 60)).deployment.db.LeasesEnd := by
  obtain ⟨events, hrun⟩ := pooledServer_run
  refine ((leases_end noDocs newRegistry_opened hrun).2 (reserveFor 60) _
    (LeaseServer.step_after (by decide))).mpr ?_
  intro op hop ttl hstamps
  have hreserve : (reserveFor 60).operation pooledServer.deployment = some (.reserve
      { profile := "worker", count := 1, holder := "agent", ttlSeconds := 3600 }) := by
    rfl
  rw [hreserve] at hop
  cases hop
  rw [← hstamps.1]
  decide

end Examples

end Fleetboot
