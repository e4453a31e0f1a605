import Fleetboot.Registry.RawCalls

/-!
# Runs of calls with any texts

The calls of the registry once more, in which a text may have no UTF-8. On one MAC such a call
makes a move of its own (`Broken`): what it clears before it raises stays cleared.

* `sound_rawStep`, `RawReachable.sound`: the invariant of the runs.
* `holds_safe`: permanent holds and leases over whole runs, and the `pin` that ends them.
* `reserve_exact`: what `reserve` leases, when its texts have UTF-8.
-/

set_option autoImplicit false

namespace Fleetboot

open Python Relational Transition

/-! ## Calls -/

/-- A call of the registry or of the session store. -/
inductive RawOperation
  /-- Its texts have UTF-8. -/
  | texts (op : Operation)
  | reserve (req : RawReserve)
  | pin (req : RawPin)
  /-- `release` of MACs, up to one that has no UTF-8. -/
  | release (macs : List String) (err : Exception)
  /-- Any other call with such a text: its first statement raises. -/
  | refused (err : Exception)

/-- The call, if all of its texts have UTF-8. -/
def RawOperation.op? : RawOperation → Option Operation
  | texts op => some op
  | reserve req => req.texts.map .reserve
  | pin req => req.texts.map .pin
  | release _ _ | refused _ => none

/-- The calls of the pool; one that its first statement refuses may be `renew`. -/
def RawOperation.isPoolCall : RawOperation → Bool
  | texts op => op.isPoolCall
  | reserve _ | release _ _ | refused _ => true
  | pin _ => false

section Run

variable [Unicode] [IpAddress]

def RawOperation.run (now : Timestamp) : RawOperation → Database → Outcome Reply
  | texts op, db => op.run now db
  | reserve req, db => (reserveRaw now req db).map .machines
  | pin req, db => (pinRaw now req db).map .reservation
  | release macs err, db => ⟨(releaseTargets now (macs.map normaliseMac) db).1, .error err⟩
  | refused err, db => ⟨db, .error err⟩

theorem RawOperation.run_of_op {now : Timestamp} {db : Database} {op : RawOperation}
    {op' : Operation} (h : op.op? = some op') : op.run now db = op'.run now db := by
  cases op with
  | texts op =>
    cases h
    rfl
  | reserve req =>
    obtain ⟨req', htexts, rfl⟩ := Option.map_eq_some_iff.mp h
    rw [RawReserve.texts_eq_some_iff.mp htexts]
    simp only [run, Operation.run, reserveRaw_raw]
  | pin req =>
    obtain ⟨req', htexts, rfl⟩ := Option.map_eq_some_iff.mp h
    rw [RawPin.texts_eq_some_iff.mp htexts]
    simp only [run, Operation.run, pinRaw_raw]
  | release | refused => cases h

omit [Unicode] [IpAddress] in
theorem RawOperation.isPoolCall_of_op {op : RawOperation} {op' : Operation}
    (h : op.op? = some op') : op'.isPoolCall = op.isPoolCall := by
  cases op with
  | texts op =>
    cases h
    rfl
  | reserve req =>
    obtain ⟨req', -, rfl⟩ := Option.map_eq_some_iff.mp h
    rfl
  | pin req =>
    obtain ⟨req', -, rfl⟩ := Option.map_eq_some_iff.mp h
    rfl
  | release | refused => cases h

/-! ## What a call leaves that a text makes fail -/

/-- `pin` of an enrolled machine with a text that has no UTF-8. -/
def RawOperation.FailsToPin (op : RawOperation) (mac : String) : Prop :=
  ∃ req, op = .pin req ∧ req.texts = none ∧ req.holder.strip ≠ [] ∧ normaliseMac req.mac = mac

/-- What such a call makes of a MAC. -/
inductive Broken (now : Timestamp) (mac : String) (op : RawOperation) : Standing → Standing → Prop
  | keep (s : Standing) : ¬ op.FailsToPin mac ∨ s.row = none → Broken now mac op s s
  /-- `reserve` has cleared an expired reservation. -/
  | lapse {row : Option Machine} {r : Reservation} {req : RawReserve} :
      op = .reserve req → r.isActive now = false → Broken now mac op ⟨row, some r⟩ ⟨row, none⟩
  /-- `release` has freed an active lease. -/
  | free {row : Option Machine} {r : Reservation} {macs : List String} {err : Exception} :
      op = .release macs err → mac ∈ macs.map normaliseMac → r.leaseKind = .lease →
      Broken now mac op ⟨row, some r⟩ ⟨row, none⟩
  /-- `pin` has released whatever held the machine. -/
  | unpin {m : Machine} {hold : Option Reservation} : op.FailsToPin mac →
      Broken now mac op ⟨some m, hold⟩ ⟨some m, none⟩

variable {now : Timestamp} {db : Database} {op : RawOperation} {mac : String}

omit [IpAddress] in
theorem not_failsToPin_of_ne (h : ∀ req, op ≠ .pin req) : ¬ op.FailsToPin mac := by
  rintro ⟨req, rfl, -⟩
  exact h req rfl

omit [Unicode] [IpAddress] in
/-- Clearing a MAC, seen from any MAC. -/
theorem standing_releaseUnreleased (db : Database) (cleared : String) :
    (db.releaseReservations now fun r => r.mac == cleared && r.isUnreleased).standing mac =
      if mac = cleared then ⟨db.machine mac, none⟩ else db.standing mac := by
  unfold Database.standing
  rw [unreleased_after_releaseUnreleased]
  split <;> rfl

omit [IpAddress] in
theorem broken_reserve {req : RawReserve} (hnone : req.texts = none) :
    Broken now mac (.reserve req) (db.standing mac) ((reserveRaw now req db).db.standing mac) := by
  have hpin : ¬ (RawOperation.reserve req).FailsToPin mac :=
    not_failsToPin_of_ne fun _ h => (by cases h)
  have hcases := reserveRaw_cases now hnone db
  generalize reserveRaw now req db = out at hcases
  cases hcases with
  | refused | nobody => exact .keep _ (.inl hpin)
  | @cleared _ first macs hcandidates =>
    have hfirst : first ∈ req.candidates now db := hcandidates ▸ List.mem_cons_self
    rw [standing_releaseUnreleased]
    split
    · rename_i hmac
      subst hmac
      cases hu : db.unreleased mac with
      | none =>
        rw [← hu]
        exact .keep _ (.inl hpin)
      | some r =>
        rw [Database.standing, hu]
        exact .lapse rfl (isFree_iff.mp (RawReserve.isFree_of_candidate hfirst).1 r hu)
    · exact .keep _ (.inl hpin)

omit [IpAddress] in
theorem broken_pin {req : RawPin} (hnone : req.texts = none) :
    Broken now mac (.pin req) (db.standing mac) ((pinRaw now req db).db.standing mac) := by
  rcases pinRaw_cases now hnone db with
    ⟨hblank, err, hpin⟩ | ⟨hunknown, hpin⟩ | ⟨m, err, hholder, hm, hpin⟩
  · rw [hpin]
    refine .keep _ (.inl ?_)
    rintro ⟨req', heq, -, hholder, -⟩
    cases heq
    exact hholder hblank
  · rw [hpin]
    by_cases hmac : normaliseMac req.mac = mac
    · exact .keep _ (.inr (hmac ▸ hunknown))
    · refine .keep _ (.inl ?_)
      rintro ⟨req', heq, -, -, hmac'⟩
      cases heq
      exact hmac hmac'
  · rw [hpin, standing_releaseUnreleased]
    split
    · rename_i hmac
      rw [Database.standing, hmac, hm]
      exact .unpin ⟨req, rfl, hnone, hholder, rfl⟩
    · rename_i hmac
      refine .keep _ (.inl ?_)
      rintro ⟨req', heq, -, -, hmac'⟩
      cases heq
      exact hmac hmac'.symm

omit [IpAddress] in
theorem broken_release (macs : List String) (err : Exception) :
    Broken now mac (.release macs err) (db.standing mac)
      ((releaseTargets now (macs.map normaliseMac) db).1.standing mac) := by
  have hpin : ¬ (RawOperation.release macs err).FailsToPin mac :=
    not_failsToPin_of_ne fun _ h => (by cases h)
  unfold Database.standing
  rw [unreleased_releaseTargets, machine_releaseTargets]
  cases hu : db.unreleased mac with
  | none => exact .keep _ (.inl hpin)
  | some r =>
    rw [Option.filter]
    split
    · exact .keep _ (.inl hpin)
    · rename_i hfreed
      simp only [Bool.not_eq_true', Bool.not_eq_false, Bool.and_eq_true,
        decide_eq_true_eq] at hfreed
      exact .free rfl hfreed.1 (isActiveLeaseOf_iff.mp hfreed.2).2.1

/-- **What a call makes of a MAC** when a text of it has no UTF-8. -/
theorem broken_run (hnone : op.op? = none) :
    Broken now mac op (db.standing mac) ((op.run now db).db.standing mac) := by
  cases op with
  | texts op => cases hnone
  | reserve req =>
    rw [RawOperation.run, Outcome.db_map]
    exact broken_reserve (Option.map_eq_none_iff.mp hnone)
  | pin req =>
    rw [RawOperation.run, Outcome.db_map]
    exact broken_pin (Option.map_eq_none_iff.mp hnone)
  | release macs err => exact broken_release macs err
  | refused err => exact .keep _ (.inl (not_failsToPin_of_ne fun _ h => (by cases h)))

/-- It writes reservations only. -/
theorem sameRest_broken (hnone : op.op? = none) : SameRest db (op.run now db).db := by
  cases op with
  | texts op => cases hnone
  | reserve req =>
    rw [RawOperation.run, Outcome.db_map]
    have hcases := reserveRaw_cases now (Option.map_eq_none_iff.mp hnone) db
    generalize reserveRaw now req db = out at hcases
    cases hcases with
    | refused | nobody => exact SameRest.refl db
    | cleared => exact sameRest_releaseReservations db now _
  | pin req =>
    rw [RawOperation.run, Outcome.db_map]
    rcases pinRaw_cases now (Option.map_eq_none_iff.mp hnone) db with
      ⟨-, err, hpin⟩ | ⟨-, hpin⟩ | ⟨m, err, -, -, hpin⟩
    · rw [hpin]
      exact SameRest.refl db
    · rw [hpin]
      exact SameRest.refl db
    · rw [hpin]
      exact sameRest_releaseReservations db now _
  | release macs err => exact sameRest_releaseTargets _ db
  | refused err => exact SameRest.refl db

omit [IpAddress] in
theorem Broken.sound {s s' : Standing} (h : Broken now mac op s s')
    (hrel : ∀ r, s.hold = some r → r.releasedAt = none) (hs : s.Sound mac) : s'.Sound mac := by
  -- A MAC that has lost its hold is in normal form.
  have hfreed : ∀ {row : Option Machine}, (∀ m, row = some m → normaliseMac mac = mac) →
      Standing.Sound mac ⟨row, none⟩ := fun hnormal =>
    ⟨fun _ hr => (by cases hr), fun _ hr => (by cases hr), fun m hm => .inl (hnormal m hm)⟩
  cases h with
  | keep => exact hs
  | lapse _ hinactive =>
    refine hfreed fun m hm => ?_
    subst hm
    refine hs.normal_of_hold fun r' hr' => ?_
    cases hr'
    exact hs.not_permanent hrel rfl hinactive
  | free _ _ hlease =>
    refine hfreed fun m hm => ?_
    subst hm
    refine hs.normal_of_hold fun r' hr' => ?_
    cases hr'
    simp [hlease]
  | unpin hfails =>
    obtain ⟨req, -, -, -, hmac⟩ := hfails
    exact hfreed fun _ _ => normaliseMac_eq_of_eq hmac

/-- Every call keeps the invariant. -/
theorem sound_rawRun (now : Timestamp) (h : Sound db) (op : RawOperation) :
    Sound (op.run now db).db := by
  cases hop : op.op? with
  | some op' =>
    rw [RawOperation.run_of_op hop]
    exact sound_run now h op'
  | none =>
    exact ⟨fun mac => (broken_run hop).sound (fun _ => Database.releasedAt_of_unreleased)
      (h.standing mac), h.hasRun.of_sameRest (sameRest_broken hop)⟩

end Run

/-! ## Runs -/

/-- A call, when it was made, and what it returned or raised. -/
structure RawCall where
  time : Timestamp
  op : RawOperation
  value : Except Exception Reply

section Steps

variable [Unicode] [IpAddress]

/-- A call is made at a reading of the clock that is not before the last one. -/
structure RawStep (s : Registry) (call : RawCall) (s' : Registry) : Prop where
  later : s.clock ≤ call.time
  clock : s'.clock = call.time
  run : call.op.run call.time s.db = ⟨s'.db, call.value⟩

/-- The state after a call. -/
def Registry.afterRaw (s : Registry) (time : Timestamp) (op : RawOperation) : Registry :=
  ⟨time, (op.run time s.db).db⟩

theorem Registry.rawStep_after {s : Registry} {time : Timestamp} (h : s.clock ≤ time)
    (op : RawOperation) : RawStep s ⟨time, op, (op.run time s.db).value⟩ (s.afterRaw time op) :=
  ⟨h, rfl, rfl⟩

/-- The states that some run reaches. -/
def RawReachable (s : Registry) : Prop := ∃ s₀ calls, Opened s₀ ∧ Run RawStep s₀ calls s

variable {s s' : Registry} {call : RawCall}

theorem Step.raw {call : Call} (h : Step s call s') :
    RawStep s ⟨call.time, .texts call.op, call.value⟩ s' := ⟨h.later, h.clock, h.run⟩

/-- A call whose texts have UTF-8 is a call of the registry. -/
theorem RawStep.step {op : Operation} (h : RawStep s call s') (hop : call.op.op? = some op) :
    Step s ⟨call.time, op, call.value⟩ s' := by
  refine ⟨h.later, h.clock, ?_⟩
  rw [← RawOperation.run_of_op hop]
  exact h.run

theorem RawStep.broken (h : RawStep s call s') (hop : call.op.op? = none) (mac : String) :
    Broken call.time mac call.op (s.db.standing mac) (s'.db.standing mac) := by
  have hbroken : Broken call.time mac call.op (s.db.standing mac)
      ((call.op.run call.time s.db).db.standing mac) := broken_run hop
  rwa [h.run] at hbroken

theorem sound_rawStep (hsound : Sound s.db) (h : RawStep s call s') : Sound s'.db := by
  have hrun := sound_rawRun call.time hsound call.op
  rwa [h.run] at hrun

theorem sound_rawRuns {calls : List RawCall} (hrun : Run RawStep s calls s')
    (hsound : Sound s.db) : Sound s'.db :=
  hrun.invariant (I := fun s => Sound s.db) (fun _ _ _ => sound_rawStep) hsound

theorem RawReachable.sound (h : RawReachable s) : Sound s.db := by
  obtain ⟨s₀, calls, hopen, hrun⟩ := h
  exact sound_rawRuns hrun hopen.sound

/-- Runs of calls whose texts have UTF-8 are among the runs. -/
theorem Reachable.raw (h : Reachable s) : RawReachable s := by
  obtain ⟨s₀, calls, hopen, hrun⟩ := h
  refine ⟨s₀, calls.map fun call => ⟨call.time, .texts call.op, call.value⟩, hopen, ?_⟩
  induction hrun with
  | nil => exact .nil
  | snoc _ hstep ih =>
    rw [List.map_append]
    exact ih.snoc hstep.raw

/-! ## Permanent holds -/

/-- The calls that give up a permanent hold by name. -/
def RawOperation.GivesUp (op : RawOperation) (mac : String) : Prop :=
  ∃ op', op.op? = some op' ∧ op'.GivesUp mac

variable {mac : String} {r : Reservation}

theorem rawStep_of_permanent (hsound : Sound s.db) (hstep : RawStep s call s')
    (hpool : call.op.isPoolCall = true) (hr : s.db.unreleased mac = some r)
    (hkind : r.leaseKind = .permanent) :
    s'.db.unreleased mac = some r ∧ s'.db.machine mac = s.db.machine mac := by
  cases hop : call.op.op? with
  | some op =>
    exact step_of_permanent hsound (hstep.step hop)
      ((RawOperation.isPoolCall_of_op hop).trans hpool) hr hkind
  | none =>
    have hact := hsound.isActive_of_permanent hr hkind call.time
    have hhold : (s.db.standing mac).hold = some r := hr
    have hbroken := hstep.broken hop mac
    have hsame : s'.db.standing mac = s.db.standing mac := by
      generalize s.db.standing mac = before at hbroken hhold
      generalize s'.db.standing mac = after at hbroken
      cases hbroken with
      | keep => rfl
      | lapse _ hinactive =>
        cases hhold
        rw [hact] at hinactive
        cases hinactive
      | free _ _ hlease =>
        cases hhold
        rw [hkind] at hlease
        cases hlease
      | unpin hfails =>
        obtain ⟨req, hpin, -⟩ := hfails
        rw [hpin] at hpool
        cases hpool
    exact ⟨(congrArg Standing.hold hsame).trans hr, congrArg Standing.row hsame⟩

/-- **What a call makes of a permanent hold.** -/
theorem permanent_rawStep_iff (hsound : Sound s.db) (hstep : RawStep s call s')
    (hr : s.db.unreleased mac = some r) (hkind : r.leaseKind = .permanent)
    (hkeep : ¬ call.op.GivesUp mac) :
    (∃ r', s'.db.unreleased mac = some r' ∧ r'.leaseKind = .permanent) ↔
      ¬ call.op.FailsToPin mac := by
  have hact := hsound.isActive_of_permanent hr hkind call.time
  cases hop : call.op.op? with
  | some op =>
    refine iff_of_true ?_ ?_
    · exact (((hstep.step hop).move hsound mac).of_permanent hr hkind hact).2
        fun hgives => hkeep ⟨op, hop, hgives⟩
    · rintro ⟨req, hpin, htexts, -⟩
      rw [hpin, RawOperation.op?, htexts] at hop
      cases hop
  | none =>
    obtain ⟨m, hm⟩ := hsound.machine_of_unreleased hr
    have hhold : s.db.standing mac = ⟨some m, some r⟩ := by rw [Database.standing, hm, hr]
    have hbroken := hstep.broken hop mac
    rw [hhold] at hbroken
    change (∃ r', (s'.db.standing mac).hold = some r' ∧ r'.leaseKind = .permanent) ↔ _
    generalize s'.db.standing mac = after at hbroken
    cases hbroken with
    | keep _ hnone =>
      refine iff_of_true ⟨r, rfl, hkind⟩ ?_
      rcases hnone with hpin | hrow
      · exact hpin
      · cases hrow
    | lapse _ hinactive =>
      rw [hact] at hinactive
      cases hinactive
    | free _ _ hlease =>
      rw [hkind] at hlease
      cases hlease
    | unpin hfails =>
      refine iff_of_false ?_ (not_not_intro hfails)
      rintro ⟨r', hr', -⟩
      cases hr'

theorem permanent_of_rawRun {calls : List RawCall} (hrun : Run RawStep s calls s')
    (hsound : Sound s.db) (hr : s.db.unreleased mac = some r) (hkind : r.leaseKind = .permanent)
    (hkeep : ∀ call ∈ calls, ¬ call.op.GivesUp mac ∧ ¬ call.op.FailsToPin mac) :
    ∃ r', s'.db.unreleased mac = some r' ∧ r'.leaseKind = .permanent := by
  induction hrun with
  | nil => exact ⟨r, hr, hkind⟩
  | snoc hrun hstep ih =>
    obtain ⟨r', hr', hkind'⟩ := ih fun call hcall => hkeep call (List.mem_append_left _ hcall)
    obtain ⟨hgives, hfails⟩ := hkeep _ (List.mem_append_right _ (List.mem_singleton_self _))
    exact (permanent_rawStep_iff (sound_rawRuns hrun hsound) hstep hr' hkind' hgives).mpr hfails

/-! ## Leases -/

/-- The call released the lease of the MAC. -/
def RawCall.Releases (call : RawCall) (mac : String) : Prop :=
  (∃ op, call.op.op? = some op ∧ Call.Releases ⟨call.time, op, call.value⟩ mac) ∨
    ∃ macs err, call.op = .release macs err ∧ mac ∈ macs.map normaliseMac

/-- The call does not end the lease of the MAC: it does not release it, pin the machine, with
whatever texts, or remove it, and is made before the lease expires. -/
structure RawKeepsLease (mac : String) (s : Registry) (call : RawCall) : Prop where
  not_released : ¬ call.Releases mac
  not_pinned : ∀ req, call.op.op? = some (.pin req) → normaliseMac req.mac ≠ mac
  not_removed : ∀ mac', call.op.op? = some (.remove mac') → normaliseMac mac' ≠ mac
  not_expired : ∀ r, s.db.unreleased mac = some r → r.isActive call.time = true
  writable : ¬ call.op.FailsToPin mac

theorem rawStep_of_lease (hsound : Sound s.db) (hstep : RawStep s call s')
    (hr : s.db.unreleased mac = some r) (hkind : r.leaseKind = .lease)
    (hkeep : RawKeepsLease mac s call) :
    ∃ r', s'.db.unreleased mac = some r' ∧ r'.leaseKind = .lease ∧ r'.id = r.id := by
  cases hop : call.op.op? with
  | some op =>
    refine step_of_lease hsound (hstep.step hop) hr hkind
      { not_released := fun hrel => hkeep.not_released (.inl ⟨op, hop, hrel⟩)
        not_pinned := ?_
        not_removed := ?_
        not_expired := hkeep.not_expired }
    · rintro req rfl
      exact hkeep.not_pinned req hop
    · rintro mac' rfl
      exact hkeep.not_removed mac' hop
  | none =>
    have hact := hkeep.not_expired r hr
    have hhold : (s.db.standing mac).hold = some r := hr
    have hbroken := hstep.broken hop mac
    change ∃ r', (s'.db.standing mac).hold = some r' ∧ r'.leaseKind = .lease ∧ r'.id = r.id
    generalize s.db.standing mac = before at hbroken hhold
    generalize s'.db.standing mac = after at hbroken
    cases hbroken with
    | keep => exact ⟨r, hhold, hkind, rfl⟩
    | lapse _ hinactive =>
      cases hhold
      rw [hact] at hinactive
      cases hinactive
    | free hrelease hnamed => exact absurd (.inr ⟨_, _, hrelease, hnamed⟩) hkeep.not_released
    | unpin hfails => exact absurd hfails hkeep.writable

theorem lease_of_rawRun {calls : List RawCall}
    (hrun : Run (Restrict RawStep (RawKeepsLease mac)) s calls s') (hsound : Sound s.db)
    (hr : s.db.unreleased mac = some r) (hkind : r.leaseKind = .lease) :
    ∃ r', s'.db.unreleased mac = some r' ∧ r'.leaseKind = .lease ∧ r'.id = r.id := by
  induction hrun with
  | nil => exact ⟨r, hr, hkind, rfl⟩
  | snoc hrun hstep ih =>
    obtain ⟨r₁, hr₁, hkind₁, hid₁⟩ := ih
    obtain ⟨r₂, hr₂, hkind₂, hid₂⟩ :=
      rawStep_of_lease (sound_rawRuns hrun.of_restrict hsound) hstep.1 hr₁ hkind₁ hstep.2
    exact ⟨r₂, hr₂, hkind₂, hid₂.trans hid₁⟩

/-- The call is `reserve`. -/
def RawOperation.IsReserve (op : RawOperation) : Prop :=
  (∃ req, op = .texts (.reserve req)) ∨ ∃ req, op = .reserve req

/-- A machine under an active lease is not returned by `reserve`. -/
theorem not_reserved_rawStep (hsound : Sound s.db) (hstep : RawStep s call s')
    (hop : call.op.IsReserve) {ms : List Machine} (hvalue : call.value = .ok (.machines ms))
    (hr : s.db.unreleased mac = some r) (hact : r.isActive call.time = true) :
    ∀ m ∈ ms, m.mac ≠ mac := by
  -- The call of the registry, when the texts have UTF-8.
  have htexts : ∀ req : ReserveRequest, call.op.op? = some (.reserve req) →
      ∀ m ∈ ms, m.mac ≠ mac := by
    intro req hreq
    have hrun := (hstep.step hreq).run
    dsimp only at hrun
    rw [hvalue, Operation.run] at hrun
    have hmap := congrArg Outcome.value hrun
    cases hv : (reserve call.time req s.db).value with
    | error err => simp [Outcome.map, hv, Except.map] at hmap
    | ok ms' =>
      obtain rfl : ms' = ms := by simpa [Outcome.map, hv, Except.map] using hmap
      exact not_reserved_of_lease hsound hv hr hact
  obtain ⟨req, hreq⟩ | ⟨req, hreq⟩ := hop
  · exact htexts req (by rw [hreq]; rfl)
  · cases hencoded : req.texts with
    | some req' => exact htexts req' (by rw [hreq, RawOperation.op?, hencoded]; rfl)
    | none =>
      have hrun := congrArg Outcome.value hstep.run
      rw [hreq, RawOperation.run, hvalue] at hrun
      have hcases := reserveRaw_cases call.time hencoded s.db
      generalize reserveRaw call.time req s.db = out at hcases hrun
      cases hcases with
      | refused => cases hrun
      | nobody =>
        cases hrun
        exact fun _ hm => by cases hm
      | cleared => cases hrun

/-- **Permanent holds and leases.** From every reachable state:

* a permanently held machine is permanently held after every run without a `release_to_pool` or
  `remove` of it and without a `pin` of it that has a text without UTF-8; no `reserve`, `renew`,
  `release` or `reap_expired` of such a run changes its reservation or its row; and after such a
  `pin` nobody holds the machine;
* a leased machine is not returned by a `reserve` after any run whose calls do not release its
  lease, pin it, remove it or come after the expiry. -/
theorem holds_safe (hs : RawReachable s) (mac : String) (r : Reservation)
    (hr : s.db.unreleased mac = some r) :
    (r.leaseKind = .permanent →
      (∀ calls s', Run RawStep s calls s' →
        (∀ call ∈ calls, ¬ call.op.GivesUp mac ∧ ¬ call.op.FailsToPin mac) →
        ∃ r', s'.db.unreleased mac = some r' ∧ r'.leaseKind = .permanent ∧
          r'.isActive s'.clock = true ∧
          ∀ call s'', RawStep s' call s'' → call.op.isPoolCall = true →
            s''.db.unreleased mac = some r' ∧ s''.db.machine mac = s'.db.machine mac) ∧
      ∀ call s', RawStep s call s' → ¬ call.op.GivesUp mac →
        ((∃ r', s'.db.unreleased mac = some r' ∧ r'.leaseKind = .permanent) ↔
          ¬ call.op.FailsToPin mac)) ∧
    (r.leaseKind = .lease → ∀ calls s', Run (Restrict RawStep (RawKeepsLease mac)) s calls s' →
      ∃ r', s'.db.unreleased mac = some r' ∧ r'.leaseKind = .lease ∧ r'.id = r.id ∧
        ∀ call s'' ms, RawStep s' call s'' → call.op.IsReserve →
          call.value = .ok (.machines ms) → r'.isActive call.time = true →
          ∀ m ∈ ms, m.mac ≠ mac) := by
  have hsound := hs.sound
  refine ⟨fun hkind => ⟨fun calls s' hrun hkeep => ?_, fun call s' hstep hkeep => ?_⟩,
    fun hkind calls s' hrun => ?_⟩
  · obtain ⟨r', hr', hkind'⟩ := permanent_of_rawRun hrun hsound hr hkind hkeep
    have hsound' := sound_rawRuns hrun hsound
    exact ⟨r', hr', hkind', hsound'.isActive_of_permanent hr' hkind' _,
      fun call s'' hstep hpool => rawStep_of_permanent hsound' hstep hpool hr' hkind'⟩
  · exact permanent_rawStep_iff hsound hstep hr hkind hkeep
  · obtain ⟨r', hr', hkind', hid⟩ := lease_of_rawRun hrun hsound hr hkind
    exact ⟨r', hr', hkind', hid, fun call s'' ms hstep hop hvalue hact =>
      not_reserved_rawStep (sound_rawRuns hrun.of_restrict hsound) hstep hop hvalue hr' hact⟩

/-- **`reserve` is exact** on texts that have UTF-8. In every reachable state it leases the first
machines, in the order of their MACs, that nobody holds and that match the filter. -/
theorem reserve_exact (hs : RawReachable s) {now : Timestamp} {req : RawReserve}
    {texts : ReserveRequest} (htexts : req.texts = some texts) (hreq : texts.Sensible now) :
    ∃ free : List String, free.Pairwise (· < ·) ∧
      (∀ mac, mac ∈ free ↔ Reservable now texts.architecture s.db mac) ∧
      ExactlyLeased now texts (free.take (min texts.count.toNat free.length)) s.db
        (reserveRaw now req s.db) := by
  rw [RawReserve.texts_eq_some_iff.mp htexts, reserveRaw_raw]
  exact exactlyLeased_reserve hs.sound hreq

end Steps

section Examples

attribute [local instance] ascii noNetworks

/-- The desktop is enrolled. -/
def deskRegistry : Registry := newRegistry.after 5 (.enroll desktop)

theorem deskRegistry_reachable : RawReachable deskRegistry :=
  Reachable.raw ⟨newRegistry, _, newRegistry_opened, .single (Registry.step_after (by decide) _)⟩

/-- JSON's `"\ud800"`. -/
def loneSurrogate : RawText := [.surrogate 0]

/-- An admin pins the desktop once more, for a purpose that has no UTF-8. -/
def pinForSurrogate : RawOperation :=
  .pin { mac := desktop.mac, holder := .ofString "admin", purpose := some loneSurrogate }

theorem holds_safe_desktop :
    (∃ r, (deskRegistry.afterRaw 9 (.texts .reapExpired)).db.unreleased "52:54:00:12:34:56" =
      some r ∧ r.leaseKind = .permanent) ∧
    ¬ ∃ r, (deskRegistry.afterRaw 9 pinForSurrogate).db.unreleased "52:54:00:12:34:56" =
      some r ∧ r.leaseKind = .permanent := by
  have hheld : deskRegistry.db.unreleased "52:54:00:12:34:56" =
      some (desktop.pin.row 1 5) := by decide
  obtain ⟨hruns, hstep⟩ := (holds_safe deskRegistry_reachable _ _ hheld).1 rfl
  constructor
  · obtain ⟨r, hr, hkind, -⟩ := hruns _ _
      (.single (Registry.rawStep_after (show _ ≤ 9 by decide) (.texts .reapExpired))) (by
        intro call hcall
        rw [List.mem_singleton.mp hcall]
        constructor
        · rintro ⟨op, hop, mac', h | h, -⟩ <;> cases hop <;> cases h
        · rintro ⟨req, hpin, -⟩
          cases hpin)
    exact ⟨r, hr, hkind⟩
  · refine mt (hstep _ _ (Registry.rawStep_after (show _ ≤ 9 by decide) pinForSurrogate) ?_).mp
      (not_not_intro ⟨_, rfl, by decide +kernel, by decide +kernel, by decide +kernel⟩)
    rintro ⟨op, hop, -⟩
    cases hop

/-- The pin is no `release_to_pool` and no `remove`, and the hold is gone: the next `reserve`
leases the desktop. -/
theorem not_holds_safe : RawReachable deskRegistry ∧
    deskRegistry.db.unreleased "52:54:00:12:34:56" = some (desktop.pin.row 1 5) ∧
    (desktop.pin.row 1 5).leaseKind = .permanent ∧
    ¬ pinForSurrogate.GivesUp "52:54:00:12:34:56" ∧
    (deskRegistry.afterRaw 9 pinForSurrogate).db.unreleased "52:54:00:12:34:56" = none ∧
    (reserve 10 { profile := "worker", count := 1, holder := "agent", ttlSeconds := 60 }
      (deskRegistry.afterRaw 9 pinForSurrogate).db).value.toOption.map (List.map Machine.mac) =
        some ["52:54:00:12:34:56"] := by
  refine ⟨deskRegistry_reachable, by decide +kernel, rfl, ?_, by decide +kernel,
    by decide +kernel⟩
  rintro ⟨op, hop, -⟩
  cases hop

def twoDesktops : ReserveRequest :=
  { profile := "worker", count := 2, holder := " agent ", ttlSeconds := 60,
    architecture := some "amd64" }

theorem desktopInPool_reachable : RawReachable desktopInPool :=
  Reachable.raw ⟨newRegistry, _, newRegistry_opened,
    (Run.single (Registry.step_after (by decide) _)).snoc
      (Registry.step_after (show _ ≤ 6 by decide) _)⟩

/-- Whoever asks for two machines of its architecture gets the desktop. -/
theorem reserve_exact_desktop : ∃ free : List String, "52:54:00:12:34:56" ∈ free ∧
    ExactlyLeased 7 twoDesktops (free.take (min 2 free.length)) desktopInPool.db
      (reserveRaw 7 twoDesktops.raw desktopInPool.db) := by
  have hreq : twoDesktops.Sensible 7 :=
    ⟨by decide, by decide, by decide, by decide, by decide, 67, by decide⟩
  obtain ⟨free, -, hfree, hexact⟩ :=
    reserve_exact desktopInPool_reachable (RawReserve.texts_eq_some_iff.mpr rfl) hreq
  refine ⟨free, (hfree _).mpr ?_, hexact⟩
  rw [← mem_reservableMacs_iff]
  decide +kernel

/-- A holder that is not blank and has no UTF-8 gets an exception, although the desktop is free. -/
theorem not_reserve_exact : RawReachable desktopInPool ∧
    Reservable 7 none desktopInPool.db "52:54:00:12:34:56" ∧
    loneSurrogate.strip ≠ [] ∧
    (reserveRaw 7
      { profile := .ofString "worker", count := 1, holder := loneSurrogate, ttlSeconds := 60 }
      desktopInPool.db).value.isOk = false := by
  refine ⟨desktopInPool_reachable, ?_, by decide, by decide +kernel⟩
  rw [← mem_reservableMacs_iff]
  decide +kernel

end Examples

end Fleetboot
