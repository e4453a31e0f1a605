import Fleetboot.Registry.Reservations

/-!
# What the reservation calls do

One lemma for each call of `Registry/Reservations.lean`, in terms of `Database.unreleased` and
`Database.machine`; the results about runs use these and never unfold a call.

* `isFree_iff`, `mem_reserveCandidates`: whom `reserve` selects.
* `reserve_cases`: a refused request, a modifier with too many digits, or leases for all.
* `unreleased_releaseTargets`, `mem_releaseTargets`: `release`.
* `reapExpired_effect`: `reap_expired` frees the reapable leases and nothing else.
* `pin_cases`: a refusal, or a permanent hold.
-/

set_option autoImplicit false

namespace Fleetboot

open Python Relational

/-! ## The rest of the database -/

/-- The tables that no reservation call writes are as they were. -/
structure SameRest (db db' : Database) : Prop where
  settings : db'.settings = db.settings
  rules : db'.rules = db.rules
  bootEvents : db'.bootEvents = db.bootEvents
  bootSessions : db'.bootSessions = db.bootSessions
  hardwareSpecAdded : db'.hardwareSpecAdded = db.hardwareSpecAdded

theorem SameRest.refl (db : Database) : SameRest db db := ⟨rfl, rfl, rfl, rfl, rfl⟩

theorem SameRest.trans {db db' db'' : Database} (h : SameRest db db') (h' : SameRest db' db'') :
    SameRest db db'' :=
  ⟨h'.settings.trans h.settings, h'.rules.trans h.rules, h'.bootEvents.trans h.bootEvents,
    h'.bootSessions.trans h.bootSessions, h'.hardwareSpecAdded.trans h.hardwareSpecAdded⟩

theorem sameRest_releaseReservations (db : Database) (now : Timestamp)
    (p : Reservation → Bool) : SameRest db (db.releaseReservations now p) :=
  ⟨rfl, rfl, rfl, rfl, rfl⟩

theorem Database.Inserted.sameRest {now : Timestamp} {new : Database.NewReservation}
    {db db' : Database} (h : Database.Inserted now new db db') : SameRest db db' := by
  rw [h.frame]
  exact ⟨rfl, rfl, rfl, rfl, rfl⟩

theorem Database.Inserted.machine {now : Timestamp} {new : Database.NewReservation}
    {db db' : Database} (h : Database.Inserted now new db db') (k : String) :
    db'.machine k = db.machine k := by
  rw [h.frame]
  rfl

/-! ## Sequences of statements -/

@[simp] theorem execAll_nil (db : Database) : execAll [] db = ⟨db, .ok ()⟩ := rfl

theorem execAll_cons_ok {statement : Statement} {rest : List Statement} {db db' : Database}
    (h : statement db = .ok db') : execAll (statement :: rest) db = execAll rest db' := by
  simp only [execAll, h]

theorem execAll_cons_error {statement : Statement} {rest : List Statement} {db : Database}
    {err : Exception} (h : statement db = .error err) :
    execAll (statement :: rest) db = ⟨db, .error err⟩ := by
  simp only [execAll, h]

/-! ## Rows and reservations -/

section Rows

variable {db : Database} {now : Timestamp} {mac : String}

theorem unreleased_eq_some_iff {r : Reservation} :
    db.unreleased mac = some r ↔
      r ∈ db.reservations.rows ∧ r.releasedAt = none ∧ r.mac = mac := by
  unfold Database.unreleased
  rw [Table.lookup_eq_some_iff]
  simp [Reservation.isUnreleased]

theorem machine_eq_some_iff {m : Machine} :
    db.machine mac = some m ↔ m ∈ db.machines.rows ∧ m.mac = mac := by
  unfold Database.machine
  rw [Table.lookup_eq_some_iff]
  simp

theorem releasedAt_of_isActive {r : Reservation} (h : r.isActive now = true) :
    r.releasedAt = none := by
  simp only [Reservation.isActive, Bool.and_eq_true, Option.isNone_iff_eq_none] at h
  exact h.1

/-- Some row of the MAC satisfies `p` and is unreleased: it is *the* unreleased row. -/
theorem any_eq_true_iff {p : Reservation → Bool}
    (hp : ∀ r, p r = true → r.mac = mac ∧ r.releasedAt = none) :
    db.reservations.rows.any p = true ↔ ∃ r, db.unreleased mac = some r ∧ p r = true := by
  rw [List.any_eq_true]
  constructor
  · rintro ⟨r, hm, hr⟩
    exact ⟨r, unreleased_eq_some_iff.mpr ⟨hm, (hp r hr).2, (hp r hr).1⟩, hr⟩
  · rintro ⟨r, hu, hr⟩
    exact ⟨r, (unreleased_eq_some_iff.mp hu).1, hr⟩

/-- A MAC is free when its unreleased reservation, if it has one, has expired. -/
theorem isFree_iff :
    db.isFree now mac = true ↔ ∀ r, db.unreleased mac = some r → r.isActive now = false := by
  have hany : db.reservations.rows.any (fun r => r.mac == mac && r.isActive now) = true ↔
      ∃ r, db.unreleased mac = some r ∧ (r.mac == mac && r.isActive now) = true :=
    any_eq_true_iff fun r hr => by
      simp only [Bool.and_eq_true, beq_iff_eq] at hr
      exact ⟨hr.1, releasedAt_of_isActive hr.2⟩
  rw [Database.isFree, Bool.not_eq_true', ← Bool.not_eq_true, hany]
  constructor
  · intro h r hu
    by_contra hact
    exact h ⟨r, hu, by simpa [Database.mac_of_unreleased hu] using hact⟩
  · rintro h ⟨r, hu, hr⟩
    simp [h r hu] at hr

/-- The active reservation of a MAC is its unreleased one, as long as it has not expired. -/
theorem activeReservation_eq [Unicode] :
    activeReservation db now mac =
      (db.unreleased (normaliseMac mac)).filter (Reservation.isActive now) := by
  unfold activeReservation
  -- At most one row survives the filter, so the order does not matter.
  have hrows : db.reservations.rows.filter (fun r => r.mac == normaliseMac mac && r.isActive now) =
      ((db.unreleased (normaliseMac mac)).filter (Reservation.isActive now)).toList := by
    have hle := Table.length_filter_key_le_one db.reservations (normaliseMac mac)
    have hsplit : db.reservations.rows.filter
        (fun r => r.mac == normaliseMac mac && r.isActive now) =
        (db.reservations.rows.filter fun r =>
          r.isUnreleased && decide (r.mac = normaliseMac mac)).filter
          (Reservation.isActive now) := by
      rw [List.filter_filter]
      refine List.filter_congr fun r _ => ?_
      cases hact : r.isActive now with
      | false => simp
      | true => simp [Reservation.isUnreleased, releasedAt_of_isActive hact, beq_eq_decide]
    rw [hsplit]
    have hlook : db.unreleased (normaliseMac mac) = (db.reservations.rows.filter fun r =>
        r.isUnreleased && decide (r.mac = normaliseMac mac)).head? := by
      rw [Database.unreleased, Table.lookup, List.head?_filter]
    rw [hlook]
    generalize (db.reservations.rows.filter fun r =>
      r.isUnreleased && decide (r.mac = normaliseMac mac)) = rows at hle
    rcases rows with _ | ⟨r, _ | ⟨r', rest⟩⟩
    · rfl
    · cases hact : r.isActive now <;> simp [hact, Option.filter]
    · simp at hle
  rw [hrows]
  cases (db.unreleased (normaliseMac mac)).filter (Reservation.isActive now) <;> rfl

end Rows

/-! ## Clearing a MAC and holding it anew -/

section Swap

variable (now : Timestamp)

theorem releaseUnreleased_ok (mac : String) (db : Database) : releaseUnreleased now mac db =
    .ok (db.releaseReservations now fun r => r.mac == mac && r.isUnreleased) := rfl

theorem switchProfile_ok (mac profile : String) (db : Database) : switchProfile mac profile db =
    .ok (db.updateMachine mac fun m => { m with profileName := profile }) := rfl

theorem unreleased_after_releaseUnreleased (db : Database) (mac k : String) :
    (db.releaseReservations now fun r => r.mac == mac && r.isUnreleased).unreleased k =
      if k = mac then none else db.unreleased k := by
  rw [Database.unreleased_releaseReservations]
  cases hu : db.unreleased k with
  | none => simp
  | some r =>
    have hk := Database.mac_of_unreleased hu
    have hr := Database.releasedAt_of_unreleased hu
    by_cases hm : k = mac <;> simp [Option.filter, Reservation.isUnreleased, hk, hr, hm]

/-- The MAC has `new` instead of whatever it had. -/
structure Swapped (now : Timestamp) (mac : String) (new : Database.NewReservation)
    (db db' : Database) : Prop where
  unreleased : ∀ k, db'.unreleased k =
    if k = mac then some (new.row db.nextReservationId now) else db.unreleased k
  machine : ∀ k, db'.machine k = db.machine k
  nextId : db'.nextReservationId = db.nextReservationId + 1
  rest : SameRest db db'

/-- After `_release_unreleased` the partial index never refuses the new reservation. -/
theorem insertReservation_after_release {mac : String} (new : Database.NewReservation)
    (hmac : new.mac = mac) (db : Database) :
    ∃ db', Database.insertReservation now new
        (db.releaseReservations now fun r => r.mac == mac && r.isUnreleased) = .ok db' ∧
      Swapped now mac new db db' := by
  subst hmac
  have hfree := unreleased_after_releaseUnreleased now db new.mac new.mac
  rw [if_pos rfl] at hfree
  obtain ⟨reservations, -, hok⟩ := Database.insertReservation_ok now hfree
  have hins := Database.inserted_of_ok hok
  refine ⟨_, hok, fun k => ?_, fun k => hins.machine k, hins.nextId,
    (sameRest_releaseReservations db now _).trans hins.sameRest⟩
  rw [hins.unreleased, unreleased_after_releaseUnreleased]
  by_cases hk : k = new.mac
  · rw [if_pos hk, if_pos hk]
    rfl
  · rw [if_neg hk, if_neg hk, if_neg hk]

end Swap

/-! ## `reserve` -/

section Reserve

variable {now : Timestamp} {req : ReserveRequest}

theorem mem_reserveCandidates {db : Database} {mac : String}
    (h : mac ∈ reserveCandidates now req db) :
    db.isFree now mac = true ∧ ∃ m, db.machine mac = some m := by
  have h' := List.mem_of_mem_take h
  rw [List.mem_insertionSort, List.mem_map] at h'
  obtain ⟨m, hm, rfl⟩ := h'
  obtain ⟨hrow, hp⟩ := List.mem_filter.mp hm
  simp only [Bool.and_eq_true] at hp
  exact ⟨hp.1, m, machine_eq_some_iff.mpr ⟨hrow, rfl⟩⟩

theorem ReserveRequest.ttl_pos (hcheck : req.check = .ok ()) (hcount : 0 < req.count) :
    0 < req.ttlSeconds := by
  by_contra hle
  have hbad : 0 < req.count ∧ req.ttlSeconds ≤ 0 := ⟨hcount, by omega⟩
  unfold ReserveRequest.check at hcheck
  rw [if_pos hbad] at hcheck
  split at hcheck
  · cases hcheck
  · split at hcheck <;> cases hcheck

theorem ReserveRequest.ttl_pos_of_candidate {db : Database} {mac : String}
    (hcheck : req.check = .ok ()) (hmac : mac ∈ reserveCandidates now req db) :
    0 < req.ttlSeconds := by
  refine ReserveRequest.ttl_pos hcheck ?_
  by_contra hle
  have hzero : req.count.toNat = 0 := by omega
  unfold reserveCandidates at hmac
  rw [hzero, List.take_zero] at hmac
  cases hmac

theorem lt_datetimePlus {seconds : Int} {expiry : Timestamp} (hpos : 0 < seconds)
    (h : datetimePlus now seconds = some expiry) : now < expiry := by
  unfold datetimePlus at h
  split at h
  · cases h
    exact Nat.lt_add_of_pos_right (by omega)
  · cases h

/-- The lease that a valid `reserve` writes is active. -/
theorem isActive_row_lease {db : Database} {mac : String} (hcheck : req.check = .ok ())
    (hmac : mac ∈ reserveCandidates now req db) (id : Nat) :
    ((req.lease now mac).row id now).isActive now = true := by
  have hpos := ReserveRequest.ttl_pos_of_candidate hcheck hmac
  cases hexp : datetimePlus now req.ttlSeconds with
  | none => simp [Reservation.isActive, Database.NewReservation.row, ReserveRequest.lease, hexp]
  | some expiry =>
    have hlt := lt_datetimePlus hpos hexp
    simp [Reservation.isActive, Database.NewReservation.row, ReserveRequest.lease, hexp, hlt]

/-- What the writes of `reserve` leave when they all succeed. -/
structure Leased (now : Timestamp) (req : ReserveRequest) (macs : List String)
    (db db' : Database) : Prop where
  lease : ∀ k ∈ macs, ∃ id, db.nextReservationId ≤ id ∧
    db'.unreleased k = some ((req.lease now k).row id now)
  unreleased : ∀ k, k ∉ macs → db'.unreleased k = db.unreleased k
  machine : ∀ k, db'.machine k =
    if k ∈ macs then (db.machine k).map fun m => { m with profileName := strip req.profile }
    else db.machine k
  nextId : db.nextReservationId ≤ db'.nextReservationId
  rest : SameRest db db'

theorem Leased.nil (db : Database) : Leased now req [] db db :=
  { lease := by simp
    unreleased := fun _ _ => rfl
    machine := by simp
    nextId := Nat.le_refl _
    rest := SameRest.refl db }

/-- The three writes for one candidate, when the modifier can be spelled out. -/
theorem execAll_leaseStatements {text : String} (hdigits : strOfInt req.ttlSeconds = .ok text)
    (mac : String) (rest : List Statement) (db : Database) :
    ∃ db', execAll (leaseStatements now req mac ++ rest) db = execAll rest db' ∧
      Leased now req [mac] db db' := by
  obtain ⟨db₁, hok, hswap⟩ :=
    @insertReservation_after_release now mac (req.lease now mac) rfl db
  have hlease : insertLease now req mac
      (db.releaseReservations now fun r => r.mac == mac && r.isUnreleased) = .ok db₁ := by
    rw [insertLease, hdigits]
    exact hok
  refine ⟨db₁.updateMachine mac fun m => { m with profileName := strip req.profile }, ?_, ?_⟩
  · rw [leaseStatements, List.cons_append, execAll_cons_ok (releaseUnreleased_ok now mac db),
      List.cons_append, execAll_cons_ok hlease, List.cons_append,
      execAll_cons_ok (switchProfile_ok _ _ _), List.nil_append]
  · refine
      { lease := ?_
        unreleased := ?_
        machine := ?_
        nextId := hswap.nextId ▸ Nat.le_succ _
        rest := hswap.rest.trans ⟨rfl, rfl, rfl, rfl, rfl⟩ }
    · intro k hk
      obtain rfl := List.mem_singleton.mp hk
      refine ⟨db.nextReservationId, Nat.le_refl _, ?_⟩
      rw [Database.unreleased_updateMachine, hswap.unreleased, if_pos rfl]
    · intro k hk
      rw [List.mem_singleton] at hk
      rw [Database.unreleased_updateMachine, hswap.unreleased, if_neg hk]
    · intro k
      rw [Database.machine_updateMachine, hswap.machine]
      simp only [List.mem_singleton]

theorem Leased.cons {mac : String} {macs : List String} {db db' db'' : Database}
    (h : Leased now req [mac] db db') (h' : Leased now req macs db' db'') :
    Leased now req (mac :: macs) db db'' := by
  refine
    { lease := ?_
      unreleased := ?_
      machine := ?_
      nextId := h.nextId.trans h'.nextId
      rest := h.rest.trans h'.rest }
  · intro k hk
    by_cases hin : k ∈ macs
    · obtain ⟨id, hid, hu⟩ := h'.lease k hin
      exact ⟨id, h.nextId.trans hid, hu⟩
    · obtain rfl : k = mac := by simpa [hin] using hk
      obtain ⟨id, hid, hu⟩ := h.lease k (by simp)
      exact ⟨id, hid, by rw [h'.unreleased k hin, hu]⟩
  · intro k hk
    rw [List.mem_cons, not_or] at hk
    rw [h'.unreleased k hk.2, h.unreleased k (by simpa using hk.1)]
  · intro k
    rw [h'.machine, h.machine]
    by_cases hm : k = mac <;> by_cases hin : k ∈ macs <;> simp [hm, hin, Function.comp_def]

/-- **The loop of `reserve`**, when the modifier can be spelled out. -/
theorem execAll_leases {text : String} (hdigits : strOfInt req.ttlSeconds = .ok text)
    (macs : List String) (db : Database) :
    ∃ db', execAll (macs.flatMap (leaseStatements now req)) db = ⟨db', .ok ()⟩ ∧
      Leased now req macs db db' := by
  induction macs generalizing db with
  | nil => exact ⟨db, rfl, Leased.nil db⟩
  | cons mac macs ih =>
    obtain ⟨db₁, hrun, hone⟩ := execAll_leaseStatements hdigits mac
      (macs.flatMap (leaseStatements now req)) db
    obtain ⟨db₂, hrest, hall⟩ := ih db₁
    refine ⟨db₂, ?_, hone.cons hall⟩
    rw [List.flatMap_cons, hrun, hrest]

/-- What `reserve` leaves and returns. -/
inductive Reserved [Unicode] (now : Timestamp) (req : ReserveRequest) (db : Database) :
    Outcome (List Machine) → Prop
  /-- An argument is refused. -/
  | refused {err : Exception} : req.check = .error err → Reserved now req db ⟨db, .error err⟩
  /-- The modifier has too many digits. The first candidate has lost its expired lease. -/
  | overlong {err : Exception} {mac : String} {macs : List String} :
      strOfInt req.ttlSeconds = .error err → reserveCandidates now req db = mac :: macs →
      Reserved now req db
        ⟨db.releaseReservations now fun r => r.mac == mac && r.isUnreleased, .error err⟩
  /-- The candidates are leased. -/
  | leased {db' : Database} : req.check = .ok () →
      (reserveCandidates now req db = [] ∨ ∃ text, strOfInt req.ttlSeconds = .ok text) →
      Leased now req (reserveCandidates now req db) db db' →
      Reserved now req db ⟨db', .ok ((reserveCandidates now req db).filterMap db'.lookup)⟩

/-- **`reserve`.** -/
theorem reserve_cases [Unicode] (now : Timestamp) (req : ReserveRequest) (db : Database) :
    Reserved now req db (reserve now req db) := by
  unfold reserve
  cases hcheck : req.check with
  | error err => exact .refused hcheck
  | ok checked =>
    dsimp only
    cases hdigits : strOfInt req.ttlSeconds with
    | ok text =>
      obtain ⟨db', hrun, hleased⟩ :=
        execAll_leases hdigits (reserveCandidates now req db) db
      rw [hrun]
      exact .leased hcheck (.inr ⟨text, hdigits⟩) hleased
    | error err =>
      cases hmacs : reserveCandidates now req db with
      | nil =>
        have := @Reserved.leased _ now req db db hcheck (.inl hmacs) (hmacs ▸ Leased.nil db)
        simpa [hmacs, Outcome.andThen] using this
      | cons mac macs =>
        have hlease : ∀ db, insertLease now req mac db = .error err := by
          intro db
          simp only [insertLease, hdigits]
        have hrun : execAll ((mac :: macs).flatMap (leaseStatements now req)) db =
            ⟨db.releaseReservations now fun r => r.mac == mac && r.isUnreleased,
              .error err⟩ := by
          rw [List.flatMap_cons, leaseStatements, List.cons_append,
            execAll_cons_ok (releaseUnreleased_ok now mac db), List.cons_append,
            execAll_cons_error (hlease _)]
        rw [hrun]
        exact .overlong hdigits hmacs

end Reserve

/-! ## `renew` -/

section Renew

theorem isActiveLeaseOf_iff {now : Timestamp} {mac : String} {r : Reservation} :
    isActiveLeaseOf now mac r = true ↔
      r.mac = mac ∧ r.leaseKind = .lease ∧ r.isActive now = true := by
  simp [isActiveLeaseOf, and_assoc]

/-- **`renew`** fails and changes nothing, or moves the expiry of the active lease. -/
theorem renew_cases [Unicode] (now : Timestamp) (mac : String) (ttlSeconds : Int) (db : Database) :
    (∃ err, renew now mac ttlSeconds db = ⟨db, .error err⟩ ∧ ∀ msg, err ≠ .integrityError msg) ∨
    (0 < ttlSeconds ∧ ∃ text, strOfInt ttlSeconds = .ok text) ∧
      renew now mac ttlSeconds db =
      ⟨db.setExpiry (datetimePlus now ttlSeconds) (isActiveLeaseOf now (normaliseMac mac)),
        .ok (db.reservations.rows.any (isActiveLeaseOf now (normaliseMac mac)))⟩ := by
  unfold renew
  split
  · exact .inl ⟨_, rfl, by simp⟩
  · rename_i hpos
    rcases strOfInt_cases ttlSeconds with hdigits | ⟨msg, hdigits⟩
    · rw [hdigits]
      exact .inr ⟨⟨by omega, _, rfl⟩, rfl⟩
    · rw [hdigits]
      exact .inl ⟨_, rfl, by simp⟩

end Renew

/-! ## `release` -/

section Release

variable {now : Timestamp}

/-- The loop of `release` frees the active leases of its targets. -/
theorem unreleased_releaseTargets (macs : List String) (db : Database) (k : String) :
    (releaseTargets now macs db).1.unreleased k =
      (db.unreleased k).filter fun r => !(decide (k ∈ macs) && isActiveLeaseOf now k r) := by
  induction macs generalizing db with
  | nil => cases h : db.unreleased k <;> simp [releaseTargets, h, Option.filter]
  | cons mac macs ih =>
    simp only [releaseTargets]
    rw [ih, Database.unreleased_releaseReservations]
    cases h : db.unreleased k with
    | none => rfl
    | some r =>
      have hk := Database.mac_of_unreleased h
      by_cases hm : k = mac
      · subst hm
        cases hlease : isActiveLeaseOf now k r <;> simp [Option.filter, hlease]
      · have hne : isActiveLeaseOf now mac r = false := by
          simp [isActiveLeaseOf, hk, hm]
        simp [Option.filter, hne, hm]

theorem any_isActiveLeaseOf {mac : String} {db : Database} :
    db.reservations.rows.any (isActiveLeaseOf now mac) = true ↔
      ∃ r, db.unreleased mac = some r ∧ isActiveLeaseOf now mac r = true :=
  any_eq_true_iff fun r hr => by
    obtain ⟨hmac, -, hact⟩ := isActiveLeaseOf_iff.mp hr
    exact ⟨hmac, releasedAt_of_isActive hact⟩

/-- It returns the targets whose active lease it freed. -/
theorem mem_releaseTargets {macs : List String} {db : Database} {mac : String} :
    mac ∈ (releaseTargets now macs db).2 ↔
      mac ∈ macs ∧ ∃ r, db.unreleased mac = some r ∧ isActiveLeaseOf now mac r = true := by
  induction macs generalizing db with
  | nil => simp [releaseTargets]
  | cons target macs ih =>
    -- What the rest of the loop frees was held before the first target was freed.
    have hrest : mac ∈ (releaseTargets now macs
        (db.releaseReservations now (isActiveLeaseOf now target))).2 ↔
        mac ∈ macs ∧ mac ≠ target ∧
          ∃ r, db.unreleased mac = some r ∧ isActiveLeaseOf now mac r = true := by
      rw [ih]
      refine and_congr_right fun _ => ?_
      rw [Database.unreleased_releaseReservations]
      by_cases ht : mac = target
      · subst ht
        simp [Option.filter_eq_some_iff]
      · simp only [ne_eq, ht, not_false_eq_true, true_and, Option.filter_eq_some_iff]
        refine exists_congr fun r => and_congr_left fun _ => and_iff_left_of_imp fun hu => ?_
        simp [isActiveLeaseOf, Database.mac_of_unreleased hu, ht]
    have hfreed := @any_isActiveLeaseOf now target db
    simp only [releaseTargets]
    by_cases ht : mac = target
    · subst ht
      by_cases hany : db.reservations.rows.any (isActiveLeaseOf now mac) = true
      · simp [hany, hfreed.mp hany]
      · rw [if_neg hany, hrest, ← hfreed]
        simp [hany]
    · rw [apply_ite (mac ∈ ·)]
      simp [ht, hrest]

theorem machine_releaseTargets (macs : List String) (db : Database) (k : String) :
    (releaseTargets now macs db).1.machine k = db.machine k := by
  induction macs generalizing db with
  | nil => rfl
  | cons mac macs ih =>
    simp only [releaseTargets]
    rw [ih]
    rfl

theorem nextReservationId_releaseTargets (macs : List String) (db : Database) :
    (releaseTargets now macs db).1.nextReservationId = db.nextReservationId := by
  induction macs generalizing db with
  | nil => rfl
  | cons mac macs ih =>
    simp only [releaseTargets]
    rw [ih]
    rfl

theorem sameRest_releaseTargets (macs : List String) (db : Database) :
    SameRest db (releaseTargets now macs db).1 := by
  induction macs generalizing db with
  | nil => exact SameRest.refl db
  | cons mac macs ih =>
    simp only [releaseTargets]
    exact (sameRest_releaseReservations db now _).trans (ih _)

end Release

/-! ## `reap_expired` -/

section Reap

variable (now : Timestamp)

/-- Releasing MAC after MAC. -/
structure Released (macs : List String) (db db' : Database) : Prop where
  unreleased : ∀ k, db'.unreleased k = if k ∈ macs then none else db.unreleased k
  machine : ∀ k, db'.machine k = db.machine k
  nextId : db'.nextReservationId = db.nextReservationId
  rest : SameRest db db'

theorem execAll_releaseUnreleased (macs : List String) (db : Database) :
    ∃ db', execAll (macs.map (releaseUnreleased now)) db = ⟨db', .ok ()⟩ ∧
      Released macs db db' := by
  induction macs generalizing db with
  | nil => exact ⟨db, rfl, by simp, fun _ => rfl, rfl, SameRest.refl db⟩
  | cons mac macs ih =>
    obtain ⟨db', hrun, hrel⟩ :=
      ih (db.releaseReservations now fun r => r.mac == mac && r.isUnreleased)
    refine ⟨db', ?_, ?_⟩
    · rw [List.map_cons, execAll_cons_ok (releaseUnreleased_ok now mac db), hrun]
    · refine ⟨fun k => ?_, fun k => hrel.machine k, hrel.nextId,
        (sameRest_releaseReservations db now _).trans hrel.rest⟩
      rw [hrel.unreleased, unreleased_after_releaseUnreleased]
      by_cases hm : k = mac <;> by_cases hin : k ∈ macs <;> simp [hm, hin]

variable {now}

theorem isReapable_iff {r : Reservation} : r.isReapable now = true ↔
    r.releasedAt = none ∧ r.leaseKind = .lease ∧ ∃ expiry, r.expiresAt = some expiry ∧
      expiry ≤ now := by
  unfold Reservation.isReapable Reservation.isUnreleased
  cases r.expiresAt <;> simp [and_assoc]

theorem not_isActive_of_isReapable {r : Reservation} (h : r.isReapable now = true) :
    r.isActive now = false := by
  obtain ⟨hrel, -, expiry, hexp, hle⟩ := isReapable_iff.mp h
  simp [Reservation.isActive, hrel, hexp, hle]

/-- The MACs that `reap_expired` returns: those whose unreleased lease is reapable. -/
def reapableMacs (now : Timestamp) (db : Database) : List String :=
  ((db.reservations.rows.filter (Reservation.isReapable now)).map
    Reservation.mac).insertionSort (· ≤ ·)

theorem mem_reapableMacs {db : Database} {mac : String} :
    mac ∈ reapableMacs now db ↔
      ∃ r, db.unreleased mac = some r ∧ r.isReapable now = true := by
  unfold reapableMacs
  simp only [List.mem_insertionSort, List.mem_map, List.mem_filter]
  constructor
  · rintro ⟨r, ⟨hm, hr⟩, rfl⟩
    exact ⟨r, unreleased_eq_some_iff.mpr ⟨hm, (isReapable_iff.mp hr).1, rfl⟩, hr⟩
  · rintro ⟨r, hu, hr⟩
    exact ⟨r, ⟨(unreleased_eq_some_iff.mp hu).1, hr⟩, Database.mac_of_unreleased hu⟩

/-- **`reap_expired`.** -/
theorem reapExpired_effect (now : Timestamp) (db : Database) :
    ∃ db', reapExpired now db = ⟨db', .ok (reapableMacs now db)⟩ ∧
      Released (reapableMacs now db) db db' := by
  obtain ⟨db', hrun, hrel⟩ := execAll_releaseUnreleased now (reapableMacs now db) db
  refine ⟨db', ?_, hrel⟩
  unfold reapExpired
  dsimp only
  rw [show ((db.reservations.rows.filter (Reservation.isReapable now)).map
    Reservation.mac).insertionSort (· ≤ ·) = reapableMacs now db from rfl, hrun]
  rfl

end Reap

/-! ## `pin` -/

section Pin

variable [Unicode]

/-- What the writes of `pin` leave. -/
structure Pinned (now : Timestamp) (req : PinRequest) (db db' : Database) : Prop where
  unreleased : ∀ k, db'.unreleased k =
    if k = normaliseMac req.mac then some (req.hold.row db.nextReservationId now)
    else db.unreleased k
  machine : ∀ k, db'.machine k =
    if k = normaliseMac req.mac then
      (db.machine k).map fun m =>
        { m with profileName := (blankToNone req.profile).getD m.profileName }
    else db.machine k
  nextId : db'.nextReservationId = db.nextReservationId + 1
  rest : SameRest db db'

theorem execAll_pinStatements (now : Timestamp) (req : PinRequest) (db : Database) :
    ∃ db', execAll (pinStatements now req) db = ⟨db', .ok ()⟩ ∧ Pinned now req db db' := by
  obtain ⟨db₁, hok, hswap⟩ :=
    @insertReservation_after_release now (normaliseMac req.mac) req.hold rfl db
  have hrelease := releaseUnreleased_ok now (normaliseMac req.mac) db
  cases hprofile : blankToNone req.profile with
  | none =>
    refine ⟨db₁, ?_, hswap.unreleased, fun k => ?_, hswap.nextId, hswap.rest⟩
    · rw [pinStatements, hprofile, List.cons_append, execAll_cons_ok hrelease,
        List.cons_append, execAll_cons_ok hok]
      rfl
    · rw [hswap.machine, hprofile]
      split <;> simp
  | some profile =>
    refine ⟨db₁.updateMachine (normaliseMac req.mac) fun m => { m with profileName := profile },
      ?_, fun k => ?_, fun k => ?_, hswap.nextId, hswap.rest.trans ⟨rfl, rfl, rfl, rfl, rfl⟩⟩
    · rw [pinStatements, hprofile, List.cons_append, execAll_cons_ok hrelease,
        List.cons_append, execAll_cons_ok hok, List.nil_append,
        execAll_cons_ok (switchProfile_ok _ _ _), execAll_nil]
    · rw [Database.unreleased_updateMachine]
      exact hswap.unreleased k
    · rw [Database.machine_updateMachine, hswap.machine, hprofile]
      rfl

/-- **`pin`** refuses a blank holder, does nothing for an unknown MAC, or pins. -/
theorem pin_cases (now : Timestamp) (req : PinRequest) (db : Database) :
    (strip req.holder = "" ∧ ∃ msg, pin now req db = ⟨db, .error (.valueError msg)⟩) ∨
    (db.lookup req.mac = none ∧ pin now req db = ⟨db, .ok none⟩) ∨
    ∃ m db', strip req.holder ≠ "" ∧ db.machine (normaliseMac req.mac) = some m ∧
      Pinned now req db db' ∧
      pin now req db = ⟨db', .ok (some (req.hold.row db.nextReservationId now))⟩ := by
  unfold pin
  split
  · rename_i hblank
    exact .inl ⟨hblank, _, rfl⟩
  · rename_i hholder
    cases hm : db.lookup req.mac with
    | none => exact .inr (.inl ⟨rfl, rfl⟩)
    | some m =>
      obtain ⟨db', hrun, hpin⟩ := execAll_pinStatements now req db
      refine .inr (.inr ⟨m, db', hholder, hm, hpin, ?_⟩)
      dsimp only
      rw [hrun]
      simp only [Outcome.andThen, activeReservation_eq]
      rw [hpin.unreleased, if_pos rfl]
      rfl

end Pin

/-! ## `release_to_pool` -/

/-- The permanent hold that `release_to_pool` releases. -/
def isPermanentHoldOf (now : Timestamp) (mac : String) (r : Reservation) : Bool :=
  r.mac == mac && r.leaseKind == .permanent && r.isActive now

theorem releaseToPool_eq [Unicode] (now : Timestamp) (mac : String) (db : Database) :
    releaseToPool now mac db =
      ⟨db.releaseReservations now (isPermanentHoldOf now (normaliseMac mac)),
        .ok (db.reservations.rows.any (isPermanentHoldOf now (normaliseMac mac)))⟩ := rfl

theorem any_isPermanentHoldOf {now : Timestamp} {mac : String} {db : Database} :
    db.reservations.rows.any (isPermanentHoldOf now mac) = true ↔
      ∃ r, db.unreleased mac = some r ∧ isPermanentHoldOf now mac r = true :=
  any_eq_true_iff fun r hr => by
    simp only [isPermanentHoldOf, Bool.and_eq_true, beq_iff_eq] at hr
    exact ⟨hr.1.1, releasedAt_of_isActive hr.2⟩

end Fleetboot
