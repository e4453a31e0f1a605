import Fleetboot.Registry.Holds

/-!
# The pool

Which machines an admin has released to the pool is a fact about the history of the calls, not a
column of the database. The rule that a machine is protected by default says that the two agree:
an enrolled machine is held permanently as long as nobody released it.

* `Pooled.of_step`, `Pooled.of_run`: the machines that a run has released to the pool are those
  that are enrolled and not held permanently.
-/

set_option autoImplicit false

namespace Fleetboot

open Python Relational Transition

/-- An enrolled machine is in the pool or under a permanent hold. -/
structure Pooled (pooled : Bool) (s : Standing) : Prop where
  held : pooled = false → ∀ m, s.row = some m → ∃ r, s.hold = some r ∧ r.leaseKind = .permanent
  enrolled : pooled = true → ∃ m, s.row = some m
  free : pooled = true → ∀ r, s.hold = some r → r.leaseKind ≠ .permanent

theorem Pooled.of_permanent {pooled : Bool} {s : Standing} (h : Pooled pooled s)
    {r : Reservation} (hr : s.hold = some r) (hkind : r.leaseKind = .permanent) :
    pooled = false := by
  cases pooled with
  | false => rfl
  | true => exact absurd hkind (h.free rfl r hr)

theorem Pooled.of_not_permanent {pooled : Bool} {m : Machine} {hold : Option Reservation}
    (h : Pooled pooled ⟨some m, hold⟩) (hhold : ∀ r, hold = some r → r.leaseKind ≠ .permanent) :
    pooled = true := by
  cases pooled with
  | true => rfl
  | false =>
    obtain ⟨r, hr, hkind⟩ := h.held rfl m rfl
    exact absurd hkind (hhold r hr)

theorem Pooled.gone : Pooled false ⟨none, none⟩ :=
  ⟨fun _ _ h => (by cases h), fun h => (by cases h), fun h => (by cases h)⟩

theorem Pooled.free_of_row {row : Option Machine} (h : ∃ m, row = some m) :
    Pooled true ⟨row, none⟩ :=
  ⟨fun h => (by cases h), fun _ => h, fun _ _ h => (by cases h)⟩

theorem Pooled.of_hold {row : Option Machine} {r : Reservation} (hkind : r.leaseKind = .permanent) :
    Pooled false ⟨row, some r⟩ :=
  ⟨fun _ _ _ => ⟨r, rfl, hkind⟩, fun h => (by cases h), fun h => (by cases h)⟩

theorem Pooled.of_lease {row : Option Machine} {r : Reservation} (hrow : ∃ m, row = some m)
    (hkind : r.leaseKind = .lease) : Pooled true ⟨row, some r⟩ :=
  ⟨fun h => (by cases h), fun _ => hrow, fun _ r' hr' => by
    cases hr'
    simp [hkind]⟩

section Pool

variable [Unicode]

/-- Whether a MAC counts as released to the pool after a call, given whether it did before. -/
def Call.pools (call : Call) (mac : String) (was : Bool) : Bool :=
  match call.op, call.value with
  | .releaseToPool mac', .ok (.flag true) => was || normaliseMac mac' == mac
  | .pin req, .ok (.reservation (some _)) => was && normaliseMac req.mac != mac
  | .remove mac', _ => was && normaliseMac mac' != mac
  | _, _ => was

/-- The MACs that a run has released to the pool and not taken back. -/
def releasedToPool (calls : List Call) (mac : String) : Bool :=
  calls.foldl (fun was call => call.pools mac was) false

/-- The calls that do not change who is in the pool. -/
theorem Pooled.of_move {now : Timestamp} {mac : String} {op : Operation} {pooled : Bool}
    {s s' : Standing} (h : Pooled pooled s) (hmove : Move now mac op s s') (hs : s.Sound mac)
    (hrel : ∀ r, s.hold = some r → r.releasedAt = none)
    (hpool : ∀ mac', op ≠ .releaseToPool mac') (hpin : ∀ req, op ≠ .pin req)
    (hremove : ∀ mac', op ≠ .remove mac') : Pooled pooled s' := by
  cases hmove with
  | keep => exact h
  | rewrite => exact ⟨fun hp _ _ => h.held hp _ rfl, fun _ => ⟨_, rfl⟩, h.free⟩
  | lapse _ hact =>
    obtain ⟨m, rfl⟩ := hs.enrolled _ rfl
    obtain rfl : pooled = true := h.of_not_permanent fun r hr => by
      cases hr
      exact hs.not_permanent hrel rfl hact
    exact Pooled.free_of_row ⟨m, rfl⟩
  | lease _ hact =>
    obtain rfl : pooled = true := h.of_not_permanent fun r hr =>
      hs.not_permanent hrel hr (hact r hr)
    exact Pooled.of_lease ⟨_, rfl⟩ rfl
  | renew _ _ hkind =>
    obtain ⟨m, rfl⟩ := hs.enrolled _ rfl
    obtain rfl : pooled = true := h.of_not_permanent fun r hr => by
      cases hr
      simp [hkind]
    exact Pooled.of_lease ⟨m, rfl⟩ hkind
  | release _ hkind =>
    obtain ⟨m, rfl⟩ := hs.enrolled _ rfl
    obtain rfl : pooled = true := h.of_not_permanent fun r hr => by
      cases hr
      simp [hkind]
    exact Pooled.free_of_row ⟨m, rfl⟩
  | pin hop => exact absurd hop (hpin _)
  | toPool hop => exact absurd hop (hpool _)
  | enrol =>
    cases pooled with
    | false => exact Pooled.of_hold rfl
    | true =>
      obtain ⟨m, hm⟩ := h.enrolled rfl
      cases hm
  | remove hop => exact absurd hop (hremove _)

variable [IpAddress]

theorem Pooled.of_releaseToPool {db : Database} (hsound : Sound db) (time : Timestamp)
    (target : String) {mac : String} {pooled : Bool} (h : Pooled pooled (db.standing mac)) :
    Pooled (Call.pools ⟨time, .releaseToPool target,
        (Operation.run time (.releaseToPool target) db).value⟩ mac pooled)
      ((Operation.run time (.releaseToPool target) db).db.standing mac) := by
  have hafter : (Operation.run time (.releaseToPool target) db).db.standing mac =
      ⟨db.machine mac, (db.unreleased mac).filter fun r =>
        !isPermanentHoldOf time (normaliseMac target) r⟩ := by
    rw [Operation.run, releaseToPool_eq, Outcome.db_map, Database.standing,
      Database.unreleased_releaseReservations]
    rfl
  -- Where no permanent hold of the target is met, nothing is released.
  have hsame : (∀ r, db.unreleased mac = some r →
      isPermanentHoldOf time (normaliseMac target) r = false) →
      (db.unreleased mac).filter (fun r =>
        !isPermanentHoldOf time (normaliseMac target) r) = db.unreleased mac := by
    intro hnone
    cases hu : db.unreleased mac with
    | none => rfl
    | some r => simp [Option.filter, hnone r hu]
  rw [hafter]
  simp only [Operation.run, releaseToPool_eq, Outcome.map, Except.map]
  by_cases hk : normaliseMac target = mac
  · cases hflag : db.reservations.rows.any (isPermanentHoldOf time (normaliseMac target)) with
    | true =>
      obtain ⟨r, hr, hperm⟩ := any_isPermanentHoldOf.mp hflag
      rw [hk] at hr hperm
      obtain ⟨m, hm⟩ := hsound.machine_of_unreleased hr
      have := @Pooled.free_of_row (db.machine mac) ⟨m, hm⟩
      simpa [Call.pools, hk, hr, Option.filter, hperm] using this
    | false =>
      rw [hsame fun r hu => ?_]
      · exact h
      · rw [← Bool.not_eq_true]
        intro hperm
        rw [any_isPermanentHoldOf.mpr ⟨r, hk ▸ hu, hperm⟩] at hflag
        cases hflag
  · rw [hsame fun r hu => by
      simp [isPermanentHoldOf, Database.mac_of_unreleased hu, Ne.symm hk]]
    have hpools : ∀ flag, Call.pools ⟨time, .releaseToPool target, .ok (.flag flag)⟩ mac pooled =
        pooled := by
      intro flag
      cases flag <;> simp [Call.pools, hk]
    rw [hpools]
    exact h

theorem Pooled.of_pin (db : Database) (time : Timestamp) (req : PinRequest) {mac : String}
    {pooled : Bool} (h : Pooled pooled (db.standing mac)) :
    Pooled (Call.pools ⟨time, .pin req, (Operation.run time (.pin req) db).value⟩ mac pooled)
      ((Operation.run time (.pin req) db).db.standing mac) := by
  rcases pin_cases time req db with ⟨-, msg, hp⟩ | ⟨-, hp⟩ | ⟨m, db', -, hm, hpin, hp⟩
  · simp only [Operation.run, hp, Outcome.map, Except.map]
    exact h
  · simp only [Operation.run, hp, Outcome.map, Except.map]
    exact h
  · simp only [Operation.run, hp, Outcome.map, Except.map, Call.pools]
    unfold Database.standing
    rw [hpin.unreleased, hpin.machine]
    by_cases hk : mac = normaliseMac req.mac
    · have hpools : (pooled && normaliseMac req.mac != mac) = false := by simp [hk]
      rw [if_pos hk, if_pos hk, hpools]
      exact Pooled.of_hold rfl
    · have hpools : (pooled && normaliseMac req.mac != mac) = pooled := by simp [Ne.symm hk]
      rw [if_neg hk, if_neg hk, hpools]
      exact h

theorem Pooled.of_remove (db : Database) (time : Timestamp) (target : String) {mac : String}
    {pooled : Bool} (h : Pooled pooled (db.standing mac)) :
    Pooled (Call.pools ⟨time, .remove target, (Operation.run time (.remove target) db).value⟩ mac
        pooled)
      ((Operation.run time (.remove target) db).db.standing mac) := by
  simp only [Operation.run, remove_eq, Outcome.map, Call.pools]
  unfold Database.standing
  rw [Database.unreleased_withoutMachine, Database.machine_withoutMachine]
  by_cases hk : mac = normaliseMac target
  · have hpools : (pooled && normaliseMac target != mac) = false := by simp [hk]
    rw [if_pos hk, if_pos hk, hpools]
    exact Pooled.gone
  · have hpools : (pooled && normaliseMac target != mac) = pooled := by simp [Ne.symm hk]
    rw [if_neg hk, if_neg hk, hpools]
    exact h

/-- **Who is in the pool**, after one more call. -/
theorem Pooled.of_step {s s' : Registry} {call : Call} (hsound : Sound s.db)
    (hstep : Step s call s') {mac : String} {pooled : Bool}
    (h : Pooled pooled (s.db.standing mac)) :
    Pooled (call.pools mac pooled) (s'.db.standing mac) := by
  have hmove := hstep.move hsound mac
  have hrun := hstep.run
  obtain ⟨time, op, value⟩ := call
  dsimp only at hmove hrun
  have hrel : ∀ r, (s.db.standing mac).hold = some r → r.releasedAt = none := fun _ =>
    Database.releasedAt_of_unreleased
  cases op with
  | releaseToPool target =>
    have hpooled := Pooled.of_releaseToPool hsound time target h
    rw [hrun] at hpooled
    exact hpooled
  | pin req =>
    have hpooled := Pooled.of_pin s.db time req h
    rw [hrun] at hpooled
    exact hpooled
  | remove target =>
    have hpooled := Pooled.of_remove s.db time target h
    rw [hrun] at hpooled
    exact hpooled
  | _ =>
    exact h.of_move hmove (hsound.standing mac) hrel (fun _ h => by cases h)
      (fun _ h => by cases h) (fun _ h => by cases h)

omit [IpAddress] [Unicode] in
/-- Right after the first opening everything is held permanently. -/
theorem Pooled.of_opened {s : Registry} (h : Opened s) (mac : String) :
    Pooled false (s.db.standing mac) := by
  obtain ⟨file, hfile, hdb⟩ := h
  have hfresh : file.settings.lookup pinnedFlag = none ∧ file.unreleased mac = none := by
    rcases hfile with rfl | hpre
    · exact ⟨rfl, rfl⟩
    · refine ⟨hpre.not_pinned, ?_⟩
      rw [Database.unreleased, Table.lookup, hpre.no_reservations]
      rfl
  obtain ⟨db', hopen, -, hmachine, -, hpinned, -⟩ := openRegistry_unpinned s.clock hfresh.1
  rw [hdb, hopen]
  refine ⟨fun _ m hm => ?_, fun h => (by cases h), fun h => (by cases h)⟩
  have hrow := addHardwareSpecColumn_machine file Machine.mac (fun _ _ => rfl) mac
  change db'.machine mac = some m at hm
  rw [← hmachine, hm, Option.map_some] at hrow
  obtain ⟨m₀, hm₀, -⟩ := Option.map_eq_some_iff.mp hrow.symm
  obtain ⟨r, hr, hkind, -⟩ := hpinned mac m₀ hm₀ hfresh.2
  exact ⟨r, hr, hkind⟩

/-- **Who is in the pool**, after a run. -/
theorem Pooled.of_run {s₀ s : Registry} {calls : List Call} (hopen : Opened s₀)
    (hrun : Run Step s₀ calls s) (mac : String) :
    Pooled (releasedToPool calls mac) (s.db.standing mac) := by
  induction hrun with
  | nil => exact Pooled.of_opened hopen mac
  | snoc hrun hstep ih =>
    rw [releasedToPool, List.foldl_append]
    exact Pooled.of_step (sound_runs hrun hopen.sound) hstep ih

end Pool

end Fleetboot
