import Fleetboot.Registry.Lifecycle

/-!
# What holds of reservations over whole runs

* `reservations_wellFormed`: one unreleased reservation for each MAC, of an enrolled machine,
  and no call runs into the unique index.
* `step_of_permanent`: the calls of the pool do not touch a machine under a permanent hold.
* `step_of_lease`, `not_reserved_of_lease`: a lease stays until it is ended or expires, and its
  machine is not reserved again.
-/

set_option autoImplicit false

namespace Fleetboot

open Python Relational Transition

/-! ## The unique index never refuses -/

theorem map_value_ne {α β : Type} {f : α → β} {out : Outcome α} {err : Exception}
    (h : out.value ≠ .error err) : (out.map f).value ≠ .error err := by
  unfold Outcome.map
  cases hv : out.value with
  | ok a => simp [Except.map]
  | error err' =>
    rw [hv] at h
    simpa [Except.map] using h

theorem check_ne_integrityError {req : ReserveRequest} {err : Exception}
    (h : req.check = .error err) (msg : String) : err ≠ .integrityError msg := by
  unfold ReserveRequest.check at h
  (repeat' split at h) <;> cases h <;> simp

theorem ruleCheck_ne_integrityError [Unicode] [IpAddress] {req : RuleRequest} {err : Exception}
    (h : req.check = .error err) (msg : String) : err ≠ .integrityError msg := by
  unfold RuleRequest.check at h
  split at h
  · cases h
    simp
  · split at h
    · cases h
      simp
    · split at h
      · rename_i hvalue
        cases h
        unfold normaliseMatchValue at hvalue
        split at hvalue
        · cases hvalue
        · split at hvalue <;> cases hvalue
          simp
      · cases h

section Index

variable [Unicode] [IpAddress]

/-- **In a sound database no call runs into `idx_reservations_one_active`.** -/
theorem run_ne_oneActiveViolation (now : Timestamp) {db : Database} (h : Sound db)
    (op : Operation) : (op.run now db).value ≠ .error Database.oneActiveViolation := by
  cases op with
  | reopen =>
    rw [Operation.run, openRegistry_of_hasRun now h.hasRun]
    simp [Outcome.map, Except.map]
  | enroll args =>
    refine map_value_ne ?_
    have henroll := enroll_cases now args db
    generalize enroll now args db = out at henroll
    cases henroll with
    | refused => simp [Database.oneActiveViolation]
    | again => simp
    | new => simp
    | orphan _ hnone hu =>
      obtain ⟨m, hm⟩ := h.machine_of_unreleased hu
      rw [hnone] at hm
      cases hm
  | reserve req =>
    refine map_value_ne ?_
    have hreserve := reserve_cases now req db
    generalize reserve now req db = out at hreserve
    cases hreserve with
    | refused hcheck =>
      exact fun herr => check_ne_integrityError hcheck _ (Except.error.inj herr)
    | overlong hdigits =>
      rcases strOfInt_cases req.ttlSeconds with hok | ⟨msg, herr⟩
      · rw [hok] at hdigits
        cases hdigits
      · rw [herr] at hdigits
        cases hdigits
        simp [Database.oneActiveViolation]
    | leased => simp
  | renew mac ttlSeconds =>
    refine map_value_ne ?_
    rcases renew_cases now mac ttlSeconds db with ⟨err, hr, herr⟩ | ⟨-, hr⟩
    · rw [hr]
      exact fun h => herr _ (Except.error.inj h)
    · rw [hr]
      simp
  | pin req =>
    refine map_value_ne ?_
    rcases pin_cases now req db with ⟨-, msg, hp⟩ | ⟨-, hp⟩ | ⟨m, db', -, -, -, hp⟩
    · rw [hp]
      simp [Database.oneActiveViolation]
    · rw [hp]
      simp
    · rw [hp]
      simp
  | reapExpired =>
    obtain ⟨db', hr, -⟩ := reapExpired_effect now db
    refine map_value_ne ?_
    rw [hr]
    simp
  | remove mac => simp [Operation.run, remove_eq, Outcome.map, Except.map]
  | release macs holder => simp [Operation.run, release, Outcome.map, Except.map]
  | releaseToPool mac => simp [Operation.run, releaseToPool, Outcome.map, Except.map]
  | setProfile mac profileName =>
    refine map_value_ne ?_
    unfold setProfile
    dsimp only
    split <;> simp [Database.oneActiveViolation]
  | addAutoEnrolRule req =>
    refine map_value_ne ?_
    unfold addAutoEnrolRule
    split
    · rename_i hcheck
      exact fun herr => ruleCheck_ne_integrityError hcheck _ (Except.error.inj herr)
    · dsimp only
      split <;> simp [Database.oneActiveViolation]
  | updateAutoEnrolRule id req =>
    refine map_value_ne ?_
    unfold updateAutoEnrolRule
    split
    · rename_i hcheck
      exact fun herr => ruleCheck_ne_integrityError hcheck _ (Except.error.inj herr)
    · split <;> simp
  | removeAutoEnrolRule id => simp [Operation.run, removeAutoEnrolRule, Outcome.map, Except.map]
  | mint token mac =>
    refine map_value_ne ?_
    unfold mint
    dsimp only
    split
    · simp
    · simp only [Database.oneActiveViolation, ne_eq, Except.error.injEq,
        Exception.integrityError.injEq]
      decide
  | recordState token state =>
    simp only [Operation.run]
    cases recordState now token state db <;> simp
  | updateHostname | updateLastIp | updateBootVersion | updateDiagnostics | updateHardware
  | setPendingReboot | setPowerCommand | setPduAlias | setPdudaemonHost | logBootEvent
  | endSession => simp [Operation.run, Outcome.done]

/-- **The representation invariant of reservations.** From a new file or one from before
reservations, which opens without an error: after any run of calls each MAC has at most one
unreleased reservation, expired ones included, an unreleased reservation belongs to an enrolled
machine, and no call of the run raised the integrity error of the partial unique index. -/
theorem reservations_wellFormed {file : Database} {s₀ s : Registry} {calls : List Call}
    (hfile : file = emptyFile ∨ PreReservationFile file)
    (hopen : s₀.db = (openRegistry s₀.clock file).db)
    (hrun : Run Step s₀ calls s) :
    (openRegistry s₀.clock file).value = .ok () ∧
    (∀ mac, (s.db.reservations.rows.filter fun r =>
      r.releasedAt.isNone && decide (r.mac = mac)).length ≤ 1) ∧
    (∀ r ∈ s.db.reservations.rows, r.releasedAt = none →
      ∃ m ∈ s.db.machines.rows, m.mac = r.mac) ∧
    ∀ call ∈ calls, call.value ≠ .error Database.oneActiveViolation := by
  have hstart : Sound s₀.db := Opened.sound ⟨file, hfile, hopen⟩
  refine ⟨?_, fun mac => Table.length_filter_key_le_one s.db.reservations mac,
    fun r hr hrel => ?_, ?_⟩
  · have hflag : file.settings.lookup pinnedFlag = none := by
      rcases hfile with rfl | hpre
      · rfl
      · exact hpre.not_pinned
    obtain ⟨db', h, -⟩ := openRegistry_unpinned s₀.clock hflag
    rw [h]
  · have hu : s.db.unreleased r.mac = some r := unreleased_eq_some_iff.mpr ⟨hr, hrel, rfl⟩
    obtain ⟨m, hm⟩ := (sound_runs hrun hstart).machine_of_unreleased hu
    obtain ⟨hrow, hmac⟩ := machine_eq_some_iff.mp hm
    exact ⟨m, hrow, hmac⟩
  · refine hrun.labels_forall (I := fun s => Sound s.db) (fun _ _ _ => sound_step) ?_ hstart
    intro s call s' hsound hstep
    have := run_ne_oneActiveViolation call.time hsound call.op
    rwa [hstep.run] at this

end Index

section Examples

attribute [local instance] ascii noNetworks

/-- The machine of the examples. -/
def desktop : Enrolment :=
  { mac := "52-54-00-12-34-56", profileName := "school", architecture := "x86_64"
    platform := "efi" }

/-- A registry on a new file. -/
def newRegistry : Registry := ⟨0, (openRegistry 0 emptyFile).db⟩

theorem newRegistry_opened : Opened newRegistry := ⟨emptyFile, .inl rfl, rfl⟩

theorem reservations_wellFormed_desktop :
    (∃ r ∈ (newRegistry.after 5 (.enroll desktop)).db.reservations.rows, r.releasedAt = none) ∧
    ∀ r ∈ (newRegistry.after 5 (.enroll desktop)).db.reservations.rows, r.releasedAt = none →
      ∃ m ∈ (newRegistry.after 5 (.enroll desktop)).db.machines.rows, m.mac = r.mac :=
  ⟨by decide +kernel, (@reservations_wellFormed _ _ emptyFile newRegistry _ _ (.inl rfl) rfl
    (.single (Registry.step_after (by decide) (.enroll desktop)))).2.2.1⟩

end Examples

section Holds

variable [Unicode] [IpAddress]

/-! ## Permanent holds -/

/-- The calls that give up a permanent hold by name. -/
def Operation.GivesUp (op : Operation) (mac : String) : Prop :=
  ∃ mac', (op = .releaseToPool mac' ∨ op = .remove mac') ∧ normaliseMac mac' = mac

omit [IpAddress] in
/-- The moves of a machine under a permanent hold. -/
theorem Move.of_permanent {now : Timestamp} {mac : String} {op : Operation} {s s' : Standing}
    (h : Move now mac op s s') {r : Reservation} (hr : s.hold = some r)
    (hkind : r.leaseKind = .permanent) (hact : r.isActive now = true) :
    (op.isPoolCall = true → s' = s) ∧
    (¬ op.GivesUp mac → ∃ r', s'.hold = some r' ∧ r'.leaseKind = .permanent) := by
  cases h with
  | keep => exact ⟨fun _ => rfl, fun _ => ⟨r, hr, hkind⟩⟩
  | rewrite hop => exact ⟨fun hpool => by simp [hop] at hpool, fun _ => ⟨r, hr, hkind⟩⟩
  | lapse _ hinactive =>
    cases hr
    simp [hact] at hinactive
  | lease _ hinactive => simp [hinactive r hr] at hact
  | renew _ _ hlease =>
    cases hr
    simp [hlease] at hkind
  | release _ hlease =>
    cases hr
    simp [hlease] at hkind
  | pin hop =>
    subst hop
    exact ⟨fun hpool => (by cases hpool), fun _ => ⟨_, rfl, rfl⟩⟩
  | toPool hop hmac =>
    subst hop
    exact ⟨fun hpool => (by cases hpool), fun hkeep => absurd ⟨_, .inl rfl, hmac⟩ hkeep⟩
  | enrol => cases hr
  | remove hop hmac =>
    subst hop
    exact ⟨fun hpool => (by cases hpool), fun hkeep => absurd ⟨_, .inr rfl, hmac⟩ hkeep⟩

omit [IpAddress] in
theorem Sound.isActive_of_permanent {db : Database} (h : Sound db) {mac : String}
    {r : Reservation} (hr : db.unreleased mac = some r) (hkind : r.leaseKind = .permanent)
    (now : Timestamp) : r.isActive now = true :=
  isActive_of_unexpiring _ (Database.releasedAt_of_unreleased hr)
    ((h.standing mac).unexpiring r hr hkind)

theorem Step.move {s s' : Registry} {call : Call} (hsound : Sound s.db) (hstep : Step s call s')
    (mac : String) : Move call.time mac call.op (s.db.standing mac) (s'.db.standing mac) := by
  have := move_run call.time hsound call.op mac
  rwa [hstep.run] at this

/-- The calls of the pool do not touch a machine under a permanent hold. -/
theorem step_of_permanent {s s' : Registry} {call : Call} (hsound : Sound s.db)
    (hstep : Step s call s') (hpool : call.op.isPoolCall = true) {mac : String} {r : Reservation}
    (hr : s.db.unreleased mac = some r) (hkind : r.leaseKind = .permanent) :
    s'.db.unreleased mac = some r ∧ s'.db.machine mac = s.db.machine mac := by
  have hsame := ((hstep.move hsound mac).of_permanent hr hkind
    (hsound.isActive_of_permanent hr hkind _)).1 hpool
  exact ⟨(congrArg Standing.hold hsame).trans hr, congrArg Standing.row hsame⟩

/-! ## Leases -/

/-- The call returned the MAC among those whose lease it released. -/
def Call.Releases (call : Call) (mac : String) : Prop :=
  ∃ macs holder freed, call.op = .release macs holder ∧ call.value = .ok (.macs freed) ∧
    mac ∈ freed

/-- The call does not end the lease of the MAC: it does not release it, pin the machine or
remove it, and is made before the lease expires. -/
structure KeepsLease (mac : String) (s : Registry) (call : Call) : Prop where
  not_released : ¬ call.Releases mac
  not_pinned : ∀ req, call.op = .pin req → normaliseMac req.mac ≠ mac
  not_removed : ∀ mac', call.op = .remove mac' → normaliseMac mac' ≠ mac
  not_expired : ∀ r, s.db.unreleased mac = some r → r.isActive call.time = true

/-- A lease that a call does not end is still there, perhaps with a new expiry. -/
theorem step_of_lease {s s' : Registry} {call : Call} (hsound : Sound s.db)
    (hstep : Step s call s') {mac : String} {r : Reservation}
    (hr : s.db.unreleased mac = some r) (hkind : r.leaseKind = .lease)
    (hkeep : KeepsLease mac s call) :
    ∃ r', s'.db.unreleased mac = some r' ∧ r'.leaseKind = .lease ∧ r'.id = r.id := by
  have hact := hkeep.not_expired r hr
  have hmove := hstep.move hsound mac
  have hhold : (s.db.standing mac).hold = some r := hr
  change ∃ r', (s'.db.standing mac).hold = some r' ∧ r'.leaseKind = .lease ∧ r'.id = r.id
  generalize hs : s.db.standing mac = before at hmove hhold
  generalize hs' : s'.db.standing mac = after at hmove
  cases hmove with
  | keep => exact ⟨r, hhold, hkind, rfl⟩
  | rewrite => exact ⟨r, hhold, hkind, rfl⟩
  | lapse _ hinactive =>
    cases hhold
    simp [hact] at hinactive
  | lease _ hinactive => simp [hinactive r hhold] at hact
  | renew =>
    cases hhold
    exact ⟨_, rfl, hkind, rfl⟩
  | @release row r' macs holder hop =>
    -- The lease is gone, so the call returned its MAC.
    cases hhold
    have hrel := hstep.run
    rw [hop] at hrel
    simp only [Operation.run, release, Outcome.map, Outcome.mk.injEq] at hrel
    obtain ⟨hdb, hvalue⟩ := hrel
    have hnone : s'.db.unreleased mac = none := congrArg Standing.hold hs'
    rw [← hdb, unreleased_releaseTargets, hr, Option.filter_eq_none_iff] at hnone
    have hfreed := hnone r rfl
    simp only [Bool.not_eq_true', Bool.not_eq_false, Bool.and_eq_true,
      decide_eq_true_eq] at hfreed
    exact absurd ⟨macs, holder, _, hop, hvalue.symm,
      mem_releaseTargets.mpr ⟨hfreed.1, r, hr, hfreed.2⟩⟩ hkeep.not_released
  | pin hop hmac => exact absurd hmac (hkeep.not_pinned _ hop)
  | toPool _ _ hperm =>
    cases hhold
    simp [hkind] at hperm
  | enrol => cases hhold
  | remove hop hmac => exact absurd hmac (hkeep.not_removed _ hop)

omit [IpAddress] in
/-- A machine under an active lease is not among those that `reserve` returns. -/
theorem not_reserved_of_lease {now : Timestamp} {db : Database} (hsound : Sound db)
    {req : ReserveRequest} {ms : List Machine} (hvalue : (reserve now req db).value = .ok ms)
    {mac : String} {r : Reservation} (hr : db.unreleased mac = some r)
    (hact : r.isActive now = true) : ∀ m ∈ ms, m.mac ≠ mac := by
  rintro m hm rfl
  have hfree := isFree_iff.mp (mem_reserveCandidates (mem_reserved hsound hvalue hm).1).1 r hr
  rw [hact] at hfree
  cases hfree

end Holds

end Fleetboot
