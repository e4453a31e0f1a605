import Fleetboot.Registry.Operations

/-!
# The life of one machine

What the pool promises is about one machine at a time: whether it is enrolled, and which
reservation holds it. `Standing` is that view of the database and `Move` lists the moves that
the rules of the pool allow, call by call. The registry refines it (`move_run`), so what holds
of every move holds of the registry.

* `Move.sound`: a held machine stays enrolled, and a permanent hold does not come to expire.
* `move_run`: every call makes, for every MAC, one of the allowed moves.
* `sound_run`, `Reachable.sound`: the invariant of the runs.
-/

set_option autoImplicit false

namespace Fleetboot

open Python Relational Transition

/-! ## The rules -/

/-- What the registry knows of one MAC: its row and its unreleased reservation. -/
structure Standing where
  row : Option Machine
  hold : Option Reservation

/-- Only enrolled machines are held, a permanent hold does not expire, and a MAC that is not in
normal form, as an old file may have it, is held permanently: no call can name it. -/
structure Standing.Sound [Unicode] (mac : String) (s : Standing) : Prop where
  enrolled : ∀ r, s.hold = some r → ∃ m, s.row = some m
  unexpiring : ∀ r, s.hold = some r → r.leaseKind = .permanent → r.expiresAt = none
  normal : ∀ m, s.row = some m → normaliseMac mac = mac ∨
    ∃ r, s.hold = some r ∧ r.leaseKind = .permanent

/-- The calls of the pool and of the reaper. They leave machine rows alone, but for the profile
of a machine they lease. -/
def Operation.isPoolCall : Operation → Bool
  | reserve _ | renew _ _ | release _ _ | reapExpired => true
  | _ => false

/-- The moves that a call allows for a MAC. -/
inductive Move [Unicode] (now : Timestamp) (mac : String) (op : Operation) :
    Standing → Standing → Prop
  | keep (s : Standing) : Move now mac op s s
  /-- The row is rewritten, the hold stays. -/
  | rewrite {m m' : Machine} {hold : Option Reservation} : op.isPoolCall = false →
      Move now mac op ⟨some m, hold⟩ ⟨some m', hold⟩
  /-- An expired reservation is cleared. -/
  | lapse {row : Option Machine} {r : Reservation} :
      (∃ req, op = .reserve req) ∨ op = .reapExpired → r.isActive now = false →
      Move now mac op ⟨row, some r⟩ ⟨row, none⟩
  /-- A machine that nobody holds, or whose lease has expired, is leased. -/
  | lease {m : Machine} {hold : Option Reservation} {req : ReserveRequest} {id : Nat} :
      op = .reserve req → (∀ r, hold = some r → r.isActive now = false) →
      Move now mac op ⟨some m, hold⟩
        ⟨some { m with profileName := strip req.profile }, some ((req.lease now mac).row id now)⟩
  /-- An active lease gets a new expiry. -/
  | renew {row : Option Machine} {r : Reservation} {mac' : String} {ttlSeconds : Int} :
      op = .renew mac' ttlSeconds → normaliseMac mac' = mac → r.leaseKind = .lease →
      r.isActive now = true →
      Move now mac op ⟨row, some r⟩
        ⟨row, some { r with expiresAt := datetimePlus now ttlSeconds }⟩
  /-- An active lease is given up. -/
  | release {row : Option Machine} {r : Reservation} {macs : Option (List String)}
      {holder : Option String} :
      op = .release macs holder → r.leaseKind = .lease → r.isActive now = true →
      Move now mac op ⟨row, some r⟩ ⟨row, none⟩
  /-- A machine is held permanently, whoever held it. -/
  | pin {m m' : Machine} {hold : Option Reservation} {req : PinRequest} {id : Nat} :
      op = .pin req → normaliseMac req.mac = mac →
      Move now mac op ⟨some m, hold⟩ ⟨some m', some (req.hold.row id now)⟩
  /-- A permanent hold is given up. -/
  | toPool {row : Option Machine} {r : Reservation} {mac' : String} :
      op = .releaseToPool mac' → normaliseMac mac' = mac → r.leaseKind = .permanent →
      Move now mac op ⟨row, some r⟩ ⟨row, none⟩
  /-- An unknown MAC is enrolled and held permanently. -/
  | enrol {m : Machine} {args : Enrolment} {id : Nat} :
      op = .enroll args → normaliseMac args.mac = mac →
      Move now mac op ⟨none, none⟩ ⟨some m, some (args.pin.row id now)⟩
  /-- A machine goes, and its reservation with it. -/
  | remove {s : Standing} {mac' : String} : op = .remove mac' → normaliseMac mac' = mac →
      Move now mac op s ⟨none, none⟩

theorem normaliseMac_eq_of_eq [Unicode] {mac mac' : String} (h : normaliseMac mac' = mac) :
    normaliseMac mac = mac := by
  rw [← h, normaliseMac_normaliseMac]

theorem isActive_of_unexpiring (now : Timestamp) {r : Reservation} (hrel : r.releasedAt = none)
    (hexp : r.expiresAt = none) : r.isActive now = true := by
  simp [Reservation.isActive, hrel, hexp]

/-- A MAC whose hold is not both active and permanent is in normal form. -/
theorem Standing.Sound.normal_of_hold [Unicode] {mac : String} {m : Machine}
    {hold : Option Reservation} (h : Standing.Sound mac ⟨some m, hold⟩)
    (hhold : ∀ r, hold = some r → r.leaseKind ≠ .permanent) : normaliseMac mac = mac := by
  rcases h.normal m rfl with hn | ⟨r, hr, hkind⟩
  · exact hn
  · exact absurd hkind (hhold r hr)

/-- A hold that no longer counts is no permanent one. -/
theorem Standing.Sound.not_permanent {now : Timestamp} {mac : String} {s : Standing}
    [Unicode] (hs : s.Sound mac) (hrel : ∀ r, s.hold = some r → r.releasedAt = none)
    {r : Reservation} (hr : s.hold = some r) (hact : r.isActive now = false) :
    r.leaseKind ≠ .permanent := by
  intro hkind
  rw [isActive_of_unexpiring now (hrel r hr) (hs.unexpiring r hr hkind)] at hact
  cases hact

/-- **The moves keep every standing sound.** -/
theorem Move.sound [Unicode] {now : Timestamp} {mac : String} {op : Operation} {s s' : Standing}
    (h : Move now mac op s s') (hrel : ∀ r, s.hold = some r → r.releasedAt = none)
    (hs : s.Sound mac) : s'.Sound mac := by
  -- Whoever has lost an inactive hold, or one that is no permanent hold, is in normal form.
  have hfreed : ∀ {row : Option Machine} {hold : Option Reservation},
      Standing.Sound mac ⟨row, hold⟩ → (∀ r, hold = some r → r.leaseKind ≠ .permanent) →
      Standing.Sound mac ⟨row, none⟩ := by
    intro row hold hsound hkind
    refine ⟨fun r hr => by simp at hr, fun r hr => by simp at hr, fun m hm => .inl ?_⟩
    obtain rfl : row = some m := hm
    exact hsound.normal_of_hold hkind
  cases h with
  | keep => exact hs
  | rewrite =>
    exact ⟨fun _ _ => ⟨_, rfl⟩, hs.unexpiring, fun m hm => hs.normal _ rfl⟩
  | lapse _ hact =>
    refine hfreed hs fun r' hr' => ?_
    cases hr'
    exact hs.not_permanent hrel rfl hact
  | lease _ hact =>
    refine ⟨fun _ _ => ⟨_, rfl⟩, fun r hr hkind => ?_, fun m hm => .inl ?_⟩
    · cases hr
      cases hkind
    · exact hs.normal_of_hold fun r hr => hs.not_permanent hrel hr (hact r hr)
  | renew _ _ hkind =>
    refine ⟨fun _ _ => hs.enrolled _ rfl, fun r hr hperm => ?_, fun m hm => ?_⟩
    · cases hr
      rw [hkind] at hperm
      cases hperm
    · rcases hs.normal m hm with hn | ⟨r', hr', hperm⟩
      · exact .inl hn
      · cases hr'
        rw [hkind] at hperm
        cases hperm
  | release _ hkind =>
    refine hfreed hs fun r' hr' => ?_
    cases hr'
    simp [hkind]
  | pin _ hmac =>
    refine ⟨fun _ _ => ⟨_, rfl⟩, fun r hr _ => ?_, fun _ _ => .inl (normaliseMac_eq_of_eq hmac)⟩
    cases hr
    rfl
  | toPool _ hmac =>
    exact ⟨fun r hr => by simp at hr, fun r hr => by simp at hr,
      fun _ _ => .inl (normaliseMac_eq_of_eq hmac)⟩
  | enrol _ hmac =>
    refine ⟨fun _ _ => ⟨_, rfl⟩, fun r hr _ => ?_, fun _ _ => .inl (normaliseMac_eq_of_eq hmac)⟩
    cases hr
    rfl
  | remove _ hmac =>
    exact ⟨fun r hr => by simp at hr, fun r hr => by simp at hr, fun m hm => by simp at hm⟩

/-! ## The registry follows them -/

/-- The standing of a MAC in the database. -/
def Database.standing (db : Database) (mac : String) : Standing :=
  ⟨db.machine mac, db.unreleased mac⟩

/-- The invariant of the runs: every standing is sound, and the migrations have run. -/
structure Sound [Unicode] (db : Database) : Prop where
  standing : ∀ mac, (db.standing mac).Sound mac
  hasRun : HasRun db

theorem Sound.machine_of_unreleased [Unicode] {db : Database} (h : Sound db) {mac : String}
    {r : Reservation} (hr : db.unreleased mac = some r) : ∃ m, db.machine mac = some m :=
  (h.standing mac).enrolled r hr

theorem HasRun.of_sameRest {db db' : Database} (h : HasRun db) (hrest : SameRest db db') :
    HasRun db' :=
  ⟨hrest.settings ▸ h.pinned, hrest.hardwareSpecAdded ▸ h.hardwareSpecAdded⟩

section Refinement

variable [Unicode] {now : Timestamp} {db : Database}

theorem move_of_sameHolds {op : Operation} {db' : Database} (hop : op.isPoolCall = false)
    (h : SameHolds db db') (mac : String) :
    Move now mac op (db.standing mac) (db'.standing mac) := by
  have hm := h.machine mac
  unfold Database.standing
  rw [h.unreleased]
  cases h₁ : db.machine mac with
  | none =>
    rw [h₁, Option.map_none, Option.map_eq_none_iff] at hm
    rw [hm]
    exact .keep _
  | some m =>
    rw [h₁] at hm
    obtain ⟨m', hm', -⟩ := Option.map_eq_some_iff.mp hm
    rw [hm']
    exact .rewrite hop

theorem move_reserve (req : ReserveRequest) (mac : String) :
    Move now mac (.reserve req) (db.standing mac) ((reserve now req db).db.standing mac) := by
  have hfree : ∀ k ∈ reserveCandidates now req db,
      ∀ r, db.unreleased k = some r → r.isActive now = false := fun k hk =>
    isFree_iff.mp (mem_reserveCandidates hk).1
  have h := reserve_cases now req db
  generalize reserve now req db = out at h
  cases h with
  | refused => exact .keep _
  | @overlong err first rest herr hmacs =>
    unfold Database.standing
    rw [unreleased_after_releaseUnreleased, Database.machine_releaseReservations]
    split
    · rename_i hk
      subst hk
      cases hu : db.unreleased mac with
      | none => exact .keep _
      | some r =>
        exact .lapse (.inl ⟨req, rfl⟩) (hfree mac (hmacs ▸ List.mem_cons_self) r hu)
    · exact .keep _
  | leased hcheck _ hleased =>
    unfold Database.standing
    rw [hleased.machine]
    by_cases hk : mac ∈ reserveCandidates now req db
    · obtain ⟨-, m, hm⟩ := mem_reserveCandidates hk
      obtain ⟨id, -, hid⟩ := hleased.lease mac hk
      rw [if_pos hk, hm, hid]
      exact .lease rfl fun r hr => hfree mac hk r hr
    · rw [if_neg hk, hleased.unreleased mac hk]
      exact .keep _

/-- `reserve` looks its candidates up under the MAC they are stored with. -/
theorem normaliseMac_of_free (hsound : Sound db) {k : String} {m : Machine}
    (hm : db.machine k = some m) (hfree : db.isFree now k = true) : normaliseMac k = k := by
  rcases (hsound.standing k).normal m hm with hn | ⟨r, hr, hkind⟩
  · exact hn
  · have hact := isActive_of_unexpiring now (Database.releasedAt_of_unreleased hr)
      ((hsound.standing k).unexpiring r hr hkind)
    rw [isFree_iff.mp hfree r hr] at hact
    cases hact

/-- The machines that `reserve` returns are the candidates, with their rows afterwards. -/
theorem mem_reserved (hsound : Sound db) {req : ReserveRequest} {ms : List Machine}
    (hvalue : (reserve now req db).value = .ok ms) {m : Machine} (hm : m ∈ ms) :
    m.mac ∈ reserveCandidates now req db ∧
      (reserve now req db).db.machine m.mac = some m := by
  have h := reserve_cases now req db
  generalize reserve now req db = out at h hvalue
  cases h with
  | refused => cases hvalue
  | overlong => cases hvalue
  | leased =>
    cases hvalue
    obtain ⟨k, hk, hlook⟩ := List.mem_filterMap.mp hm
    obtain ⟨hfree, m₀, hm₀⟩ := mem_reserveCandidates hk
    rw [Database.lookup, normaliseMac_of_free hsound hm₀ hfree] at hlook
    obtain rfl := Database.mac_of_machine hlook
    exact ⟨hk, hlook⟩

theorem move_renew (mac' : String) (ttlSeconds : Int) (mac : String) :
    Move now mac (.renew mac' ttlSeconds) (db.standing mac)
      ((renew now mac' ttlSeconds db).db.standing mac) := by
  rcases renew_cases now mac' ttlSeconds db with ⟨err, h, -⟩ | ⟨-, h⟩
  · rw [h]
    exact .keep _
  · rw [h]
    unfold Database.standing
    rw [Database.unreleased_setExpiry, Database.machine_setExpiry]
    cases hu : db.unreleased mac with
    | none => exact .keep _
    | some r =>
      rw [Option.map_some]
      split
      · rename_i hr
        obtain ⟨hmac, hkind, hact⟩ := isActiveLeaseOf_iff.mp hr
        exact .renew rfl (hmac.symm.trans (Database.mac_of_unreleased hu)) hkind hact
      · exact .keep _

theorem move_release (macs : Option (List String)) (holder : Option String) (mac : String) :
    Move now mac (.release macs holder) (db.standing mac)
      ((release now macs holder db).db.standing mac) := by
  unfold Database.standing release
  dsimp only
  rw [unreleased_releaseTargets, machine_releaseTargets]
  cases hu : db.unreleased mac with
  | none => exact .keep _
  | some r =>
    rw [Option.filter]
    split
    · exact .keep _
    · rename_i hr
      simp only [Bool.not_eq_true', Bool.not_eq_false, Bool.and_eq_true] at hr
      obtain ⟨-, hkind, hact⟩ := isActiveLeaseOf_iff.mp hr.2
      exact .release rfl hkind hact

theorem move_pin (req : PinRequest) (mac : String) :
    Move now mac (.pin req) (db.standing mac) ((pin now req db).db.standing mac) := by
  rcases pin_cases now req db with ⟨-, msg, h⟩ | ⟨-, h⟩ | ⟨m, db', -, hm, hpin, h⟩
  · rw [h]
    exact .keep _
  · rw [h]
    exact .keep _
  · rw [h]
    unfold Database.standing
    rw [hpin.unreleased, hpin.machine]
    split
    · rename_i hk
      subst hk
      rw [hm]
      exact .pin rfl rfl
    · exact .keep _

theorem move_releaseToPool (mac' mac : String) :
    Move now mac (.releaseToPool mac') (db.standing mac)
      ((releaseToPool now mac' db).db.standing mac) := by
  rw [releaseToPool_eq]
  unfold Database.standing
  rw [Database.unreleased_releaseReservations, Database.machine_releaseReservations]
  cases hu : db.unreleased mac with
  | none => exact .keep _
  | some r =>
    rw [Option.filter]
    split
    · exact .keep _
    · rename_i hr
      simp only [isPermanentHoldOf, Bool.not_eq_true', Bool.not_eq_false, Bool.and_eq_true,
        beq_iff_eq] at hr
      exact .toPool rfl (hr.1.1.symm.trans (Database.mac_of_unreleased hu)) hr.1.2

theorem move_reapExpired (mac : String) :
    Move now mac .reapExpired (db.standing mac) ((reapExpired now db).db.standing mac) := by
  obtain ⟨db', h, hrel⟩ := reapExpired_effect now db
  rw [h]
  unfold Database.standing
  rw [hrel.unreleased, hrel.machine]
  split
  · rename_i hmem
    obtain ⟨r, hu, hr⟩ := mem_reapableMacs.mp hmem
    rw [hu]
    exact .lapse (.inr rfl) (not_isActive_of_isReapable hr)
  · exact .keep _

theorem move_enroll (hsound : Sound db) (args : Enrolment) (mac : String) :
    Move now mac (.enroll args) (db.standing mac) ((enroll now args db).db.standing mac) := by
  have h := enroll_cases now args db
  generalize enroll now args db = out at h
  unfold Database.standing
  cases h with
  | refused => exact .keep _
  | @again scratch previous hscratch hprev =>
    rw [Database.unreleased_updateMachine, Database.unreleased_replaceMachine,
      Database.machine_updateMachine, Database.machine_replaceMachine]
    by_cases hk : mac = normaliseMac args.mac
    · subst hk
      rw [if_pos rfl, if_pos (by rfl), hprev]
      exact .rewrite rfl
    · rw [if_neg hk, if_neg (by exact hk)]
      exact .keep _
  | @new scratch db' hscratch hnone hins =>
    have hfree : db.unreleased (normaliseMac args.mac) = none := by
      cases hu : db.unreleased (normaliseMac args.mac) with
      | none => rfl
      | some r =>
        obtain ⟨m, hm⟩ := hsound.machine_of_unreleased hu
        rw [hnone] at hm
        cases hm
    rw [hins.unreleased, hins.machine, Database.machine_replaceMachine,
      Database.unreleased_replaceMachine]
    by_cases hk : mac = normaliseMac args.mac
    · subst hk
      rw [if_pos (by rfl), if_pos (by rfl), hnone, hfree]
      exact .enrol rfl rfl
    · rw [if_neg (by exact hk), if_neg (by exact hk)]
      exact .keep _
  | orphan hscratch hnone hu =>
    obtain ⟨m, hm⟩ := hsound.machine_of_unreleased hu
    rw [hnone] at hm
    cases hm

theorem move_remove (mac' mac : String) :
    Move now mac (.remove mac') (db.standing mac) ((remove mac' db).db.standing mac) := by
  rw [remove_eq]
  unfold Database.standing
  rw [Database.unreleased_withoutMachine, Database.machine_withoutMachine]
  split
  · rename_i hk
    exact .remove rfl hk.symm
  · exact .keep _

section Registry

variable [IpAddress]

/-- **The registry refines the rules of the pool.** -/
theorem move_run (now : Timestamp) (hsound : Sound db) (op : Operation) (mac : String) :
    Move now mac op (db.standing mac) ((op.run now db).db.standing mac) := by
  cases hop : op.writesHolds with
  | false =>
    refine move_of_sameHolds ?_ (run_write hsound.hasRun hop) mac
    cases op <;> first | rfl | cases hop
  | true =>
    cases op with
    | enroll args => exact move_enroll hsound args mac
    | remove mac' => exact move_remove mac' mac
    | reserve req =>
      simp only [Operation.run, Outcome.db_map]
      exact move_reserve req mac
    | renew mac' ttlSeconds => exact move_renew mac' ttlSeconds mac
    | release macs holder => exact move_release macs holder mac
    | pin req =>
      simp only [Operation.run, Outcome.db_map]
      exact move_pin req mac
    | releaseToPool mac' => exact move_releaseToPool mac' mac
    | reapExpired => exact move_reapExpired mac
    | _ => cases hop

/-! ## The invariant of the runs -/

omit [IpAddress] in
theorem hasRun_enroll (h : HasRun db) (args : Enrolment) : HasRun (enroll now args db).db := by
  have henroll := enroll_cases now args db
  generalize enroll now args db = out at henroll
  cases henroll with
  | refused => exact h
  | again => exact ⟨h.pinned, h.hardwareSpecAdded⟩
  | new _ _ hins =>
    exact @HasRun.of_sameRest (db.replaceMachine _) _ ⟨h.pinned, h.hardwareSpecAdded⟩
      hins.sameRest
  | orphan => exact ⟨h.pinned, h.hardwareSpecAdded⟩

theorem hasRun_run (h : HasRun db) (op : Operation) : HasRun (op.run now db).db := by
  cases hop : op.writesHolds with
  | false => exact (run_write h hop).hasRun h
  | true =>
    cases op with
    | enroll args => exact hasRun_enroll h args
    | remove mac' => exact ⟨h.pinned, h.hardwareSpecAdded⟩
    | reserve req =>
      simp only [Operation.run, Outcome.db_map]
      have hreserve := reserve_cases now req db
      generalize reserve now req db = out at hreserve
      cases hreserve with
      | refused => exact h
      | overlong => exact ⟨h.pinned, h.hardwareSpecAdded⟩
      | leased _ _ hleased => exact h.of_sameRest hleased.rest
    | renew mac' ttlSeconds =>
      simp only [Operation.run, Outcome.db_map]
      rcases renew_cases now mac' ttlSeconds db with ⟨err, hr, -⟩ | ⟨-, hr⟩
      · rw [hr]
        exact h
      · rw [hr]
        exact ⟨h.pinned, h.hardwareSpecAdded⟩
    | release macs holder => exact h.of_sameRest (sameRest_releaseTargets _ db)
    | pin req =>
      simp only [Operation.run, Outcome.db_map]
      rcases pin_cases now req db with ⟨-, msg, hp⟩ | ⟨-, hp⟩ | ⟨m, db', -, -, hpin, hp⟩
      · rw [hp]
        exact h
      · rw [hp]
        exact h
      · rw [hp]
        exact h.of_sameRest hpin.rest
    | releaseToPool mac' => exact ⟨h.pinned, h.hardwareSpecAdded⟩
    | reapExpired =>
      obtain ⟨db', hr, hrel⟩ := reapExpired_effect now db
      simp only [Operation.run, Outcome.db_map, hr]
      exact h.of_sameRest hrel.rest
    | _ => cases hop

/-- Every call keeps the invariant. -/
theorem sound_run (now : Timestamp) (h : Sound db) (op : Operation) : Sound (op.run now db).db :=
  ⟨fun mac => (move_run now h op mac).sound (fun _ => Database.releasedAt_of_unreleased)
    (h.standing mac), hasRun_run h.hasRun op⟩

theorem sound_step {s s' : Registry} {call : Call} (h : Sound s.db) (hstep : Step s call s') :
    Sound s'.db := by
  have := sound_run call.time h call.op
  rw [hstep.run] at this
  exact this

theorem sound_runs {s s' : Registry} {calls : List Call} (hrun : Run Step s calls s')
    (h : Sound s.db) : Sound s'.db :=
  hrun.invariant (I := fun s => Sound s.db) (fun _ _ _ => sound_step) h

omit [IpAddress] in
/-- Opening a new file or one from before reservations succeeds and establishes it. -/
theorem Opened.sound {s : Registry} (h : Opened s) : Sound s.db := by
  obtain ⟨file, hfile, hdb⟩ := h
  have hfresh : file.settings.lookup pinnedFlag = none ∧ ∀ k, file.unreleased k = none := by
    rcases hfile with rfl | hpre
    · exact ⟨rfl, fun _ => rfl⟩
    · refine ⟨hpre.not_pinned, fun k => ?_⟩
      rw [Database.unreleased, Table.lookup, hpre.no_reservations]
      rfl
  obtain ⟨db', hopen, hrun, hmachine, -, hpinned, hnone⟩ :=
    openRegistry_unpinned s.clock hfresh.1
  rw [hdb, hopen]
  refine ⟨fun mac => ?_, hrun⟩
  have hm := addHardwareSpecColumn_machine file Machine.mac (fun _ _ => rfl) mac
  rw [← hmachine] at hm
  cases hrow : file.machine mac with
  | none =>
    rw [hrow, Option.map_none, Option.map_eq_none_iff] at hm
    have hfree : db'.unreleased mac = none := (hnone mac hrow).trans (hfresh.2 mac)
    unfold Database.standing
    rw [hm, hfree]
    exact ⟨by simp, by simp, by simp⟩
  | some m =>
    rw [hrow] at hm
    obtain ⟨m', hm', -⟩ := Option.map_eq_some_iff.mp hm
    obtain ⟨r, hr, hkind, hexp⟩ := hpinned mac m hrow (hfresh.2 mac)
    unfold Database.standing
    rw [hm', hr]
    refine ⟨fun _ _ => ⟨_, rfl⟩, fun r' hr' _ => ?_, fun _ _ => .inr ⟨r, rfl, hkind⟩⟩
    cases hr'
    exact hexp

theorem Reachable.sound {s : Registry} (h : Reachable s) : Sound s.db := by
  obtain ⟨s₀, calls, hopen, hrun⟩ := h
  exact sound_runs hrun hopen.sound

end Registry

end Refinement

end Fleetboot
