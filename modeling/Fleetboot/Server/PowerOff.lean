import Fleetboot.Server.Power

/-!
# Powering off what was freed

`release_machines`, the dashboard's release-lease and the reaper first free leases, under the
write lock, and then power the freed machines off, one command after the other and outside the
lock. Here the two are separate steps, and the power-offs that are still to come may be issued in
any order.

* `powerOff_spares`: no power-off reaches a later reservation as long as no call reserves or pins
  a machine whose power-off is still to come, and as soon as one does, that power-off reaches it.
-/

set_option autoImplicit false

namespace Fleetboot

open Python Relational Transition

/-! ## Steps -/

/-- A power-off that is still to come: the MAC whose lease was freed, and the first id that a
reservation made after that can have. -/
structure PowerOff where
  mac : String
  freedId : Nat
  deriving DecidableEq

/-- The file, and what its callers have still to power off. -/
structure Server where
  clock : Timestamp
  db : Database
  pending : List PowerOff

/-- The server that starts on a registry. -/
def Registry.server (s : Registry) : Server := ⟨s.clock, s.db, []⟩

inductive ServerAction
  | call (op : Operation)
  | powerOff (off : PowerOff) (outcome : CommandOutcome)

structure ServerEvent where
  time : Timestamp
  action : ServerAction

/-- The calls on reservations, each made under the write lock. -/
def Operation.isHoldCall : Operation → Bool
  | reserve _ | renew _ _ | release _ _ | reapExpired | pin _ | releaseToPool _ => true
  | _ => false

/-- The MACs that the caller of `release` or `reap_expired` goes on to power off. -/
def freedMacs : Operation → Except Exception Reply → List String
  | .release _ _, .ok (.macs freed) => freed
  | .reapExpired, .ok (.macs freed) => freed
  | _, _ => []

section Steps

variable [Unicode] [IpAddress]

def ServerEvent.Enabled (s : Server) (event : ServerEvent) : Prop :=
  match event.action with
  | .call op => op.isHoldCall = true
  | .powerOff off _ => off ∈ s.pending

/-- The state after a step. -/
def Server.after (s : Server) (event : ServerEvent) : Server :=
  match event.action with
  | .call op =>
    let out := op.run event.time s.db
    { clock := event.time
      db := out.db
      pending := s.pending ++
        (freedMacs op out.value).map fun mac => ⟨mac, out.db.nextReservationId⟩ }
  | .powerOff off outcome =>
    { clock := event.time
      db := (powerMachine off.mac PowerAction.off.text false outcome s.db).db
      pending := s.pending.erase off }

/-- One step, at a reading of the clock that is not before the last one. -/
structure ServerStep (s : Server) (event : ServerEvent) (s' : Server) : Prop where
  later : s.clock ≤ event.time
  enabled : event.Enabled s
  after : s' = s.after event

theorem Server.step_after {s : Server} {event : ServerEvent} (hlater : s.clock ≤ event.time)
    (henabled : event.Enabled s) : ServerStep s event (s.after event) :=
  ⟨hlater, henabled, rfl⟩

/-- The power-off reaches a reservation that was made after the lease was freed. -/
def PowerOff.Hits (s : Server) (time : Timestamp) (off : PowerOff) : Prop :=
  ∃ r ∈ s.db.reservations.rows, r.mac = off.mac ∧ r.isActive time = true ∧ off.freedId ≤ r.id

/-- The call takes the MAC: a `reserve` that leases it, a `pin` that pins it. -/
def Operation.Takes (now : Timestamp) (db : Database) (mac : String) : Operation → Prop
  | reserve req => req.check = .ok () ∧ (∃ text, strOfInt req.ttlSeconds = .ok text) ∧
      mac ∈ reserveCandidates now req db
  | pin req => strip req.holder ≠ "" ∧ (db.lookup req.mac).isSome ∧ normaliseMac req.mac = mac
  | _ => False

/-- The step takes no machine whose power-off is still to come. -/
def ServerEvent.Spares (s : Server) (event : ServerEvent) : Prop :=
  ∀ op, event.action = .call op → ∀ off ∈ s.pending, ¬ op.Takes event.time s.db off.mac

end Steps

/-! ## What a call does to a machine whose power-off is still to come -/

section Calls

variable [Unicode] [IpAddress] {now : Timestamp} {db : Database} {mac : String}

/-- A machine that nobody holds is held only by the calls that take it. -/
theorem unreleased_of_not_takes {op : Operation} (hop : op.isHoldCall = true)
    (hnone : db.unreleased mac = none) (htakes : ¬ op.Takes now db mac) :
    (op.run now db).db.unreleased mac = none := by
  cases op with
  | reserve req =>
    simp only [Operation.run, Outcome.db_map]
    have hreserve := reserve_cases now req db
    generalize reserve now req db = out at hreserve
    cases hreserve with
    | refused => exact hnone
    | overlong =>
      rw [unreleased_after_releaseUnreleased, hnone]
      exact ite_self _
    | leased hcheck hdigits hleased =>
      have hout : mac ∉ reserveCandidates now req db := by
        intro hmac
        rcases hdigits with hnil | hdigits
        · rw [hnil] at hmac
          cases hmac
        · exact htakes ⟨hcheck, hdigits, hmac⟩
      rw [hleased.unreleased mac hout, hnone]
  | renew mac' ttlSeconds =>
    simp only [Operation.run, Outcome.db_map]
    rcases renew_cases now mac' ttlSeconds db with ⟨err, hr, -⟩ | ⟨-, hr⟩
    · rw [hr]
      exact hnone
    · rw [hr, Database.unreleased_setExpiry, hnone]
      rfl
  | release macs holder =>
    simp only [Operation.run, Outcome.db_map, release]
    rw [unreleased_releaseTargets, hnone]
    rfl
  | pin req =>
    simp only [Operation.run, Outcome.db_map]
    rcases pin_cases now req db with ⟨-, msg, hp⟩ | ⟨-, hp⟩ | ⟨m, db', hholder, hm, hpin, hp⟩
    · rw [hp]
      exact hnone
    · rw [hp]
      exact hnone
    · have hne : mac ≠ normaliseMac req.mac := fun hmac =>
        htakes ⟨hholder, Option.isSome_iff_exists.mpr ⟨m, hm⟩, hmac.symm⟩
      rw [hp, hpin.unreleased, if_neg hne, hnone]
  | releaseToPool mac' =>
    simp only [Operation.run, Outcome.db_map, releaseToPool_eq]
    rw [Database.unreleased_releaseReservations, hnone]
    rfl
  | reapExpired =>
    obtain ⟨db', hr, hrel⟩ := reapExpired_effect now db
    simp only [Operation.run, Outcome.db_map, hr]
    rw [hrel.unreleased, hnone]
    exact ite_self _
  | _ => cases hop

/-- A call that takes a machine leaves it under a new active reservation. -/
theorem unreleased_of_takes {op : Operation} (htakes : op.Takes now db mac) :
    ∃ r, (op.run now db).db.unreleased mac = some r ∧ r.isActive now = true ∧
      db.nextReservationId ≤ r.id := by
  cases op with
  | reserve req =>
    obtain ⟨hcheck, ⟨text, hdigits⟩, hmac⟩ := htakes
    simp only [Operation.run, Outcome.db_map]
    have hreserve := reserve_cases now req db
    generalize reserve now req db = out at hreserve
    cases hreserve with
    | refused hrefused =>
      rw [hcheck] at hrefused
      cases hrefused
    | overlong hlong =>
      rw [hdigits] at hlong
      cases hlong
    | leased _ _ hleased =>
      obtain ⟨id, hid, hu⟩ := hleased.lease mac hmac
      exact ⟨_, hu, isActive_row_lease hcheck hmac id, hid⟩
  | pin req =>
    obtain ⟨hholder, hsome, rfl⟩ := htakes
    simp only [Operation.run, Outcome.db_map]
    rcases pin_cases now req db with ⟨hblank, -⟩ | ⟨hnone, -⟩ | ⟨m, db', -, -, hpin, hp⟩
    · exact absurd hblank hholder
    · rw [hnone] at hsome
      cases hsome
    · refine ⟨req.hold.row db.nextReservationId now, ?_, rfl, Nat.le_refl _⟩
      rw [hp, hpin.unreleased, if_pos rfl]
  | _ => exact htakes.elim

theorem nextReservationId_run {op : Operation} (hop : op.isHoldCall = true) :
    db.nextReservationId ≤ (op.run now db).db.nextReservationId := by
  cases op with
  | reserve req =>
    simp only [Operation.run, Outcome.db_map]
    have hreserve := reserve_cases now req db
    generalize reserve now req db = out at hreserve
    cases hreserve with
    | refused => exact Nat.le_refl _
    | overlong => exact Nat.le_refl _
    | leased _ _ hleased => exact hleased.nextId
  | renew mac' ttlSeconds =>
    simp only [Operation.run, Outcome.db_map]
    rcases renew_cases now mac' ttlSeconds db with ⟨err, hr, -⟩ | ⟨-, hr⟩
    · rw [hr]
    · rw [hr]
      exact Nat.le_refl _
  | release macs holder =>
    simp only [Operation.run, Outcome.db_map, release]
    rw [nextReservationId_releaseTargets]
  | pin req =>
    simp only [Operation.run, Outcome.db_map]
    rcases pin_cases now req db with ⟨-, msg, hp⟩ | ⟨-, hp⟩ | ⟨m, db', -, -, hpin, hp⟩
    · rw [hp]
    · rw [hp]
    · rw [hp, hpin.nextId]
      exact Nat.le_succ _
  | releaseToPool mac' =>
    simp only [Operation.run, Outcome.db_map, releaseToPool_eq]
    exact Nat.le_refl _
  | reapExpired =>
    obtain ⟨db', hr, hrel⟩ := reapExpired_effect now db
    simp only [Operation.run, Outcome.db_map, hr]
    rw [hrel.nextId]
  | _ => cases hop

/-- What a call freed is held by nobody. -/
theorem unreleased_of_freed {op : Operation}
    (hfreed : mac ∈ freedMacs op (op.run now db).value) :
    (op.run now db).db.unreleased mac = none := by
  cases op with
  | release macs holder =>
    simp only [Operation.run, Outcome.map, release, Except.map, freedMacs] at hfreed
    simp only [Operation.run, Outcome.db_map, release]
    obtain ⟨hmac, r, hr, hlease⟩ := mem_releaseTargets.mp hfreed
    rw [unreleased_releaseTargets, hr, Option.filter_eq_none_iff]
    intro r' hr'
    cases hr'
    simp [hmac, hlease]
  | reapExpired =>
    obtain ⟨db', hr, hrel⟩ := reapExpired_effect now db
    simp only [Operation.run, hr, Outcome.map, Except.map, freedMacs] at hfreed
    simp only [Operation.run, Outcome.db_map, hr]
    rw [hrel.unreleased, if_pos hfreed]
  | _ => cases hfreed

end Calls

/-! ## Runs -/

section Runs

variable [Unicode] [IpAddress]

/-- Nobody holds a machine whose power-off is still to come. -/
def Server.Quiet (s : Server) : Prop := ∀ off ∈ s.pending, s.db.unreleased off.mac = none

/-- The ids of later reservations are still to come as well. -/
def Server.Dated (s : Server) : Prop := ∀ off ∈ s.pending, off.freedId ≤ s.db.nextReservationId

theorem Server.Quiet.of_step {s s' : Server} {event : ServerEvent} (h : s.Quiet)
    (hstep : ServerStep s event s') (hspares : event.Spares s) : s'.Quiet := by
  obtain ⟨time, action⟩ := event
  intro off hoff
  rw [hstep.after] at hoff ⊢
  cases action with
  | call op =>
    rcases List.mem_append.mp hoff with hold | hnew
    · exact unreleased_of_not_takes hstep.enabled (h off hold) (hspares op rfl off hold)
    · obtain ⟨mac, hmac, rfl⟩ := List.mem_map.mp hnew
      exact unreleased_of_freed hmac
  | powerOff off' outcome =>
    have hdb := @db_powerMachine _ off'.mac .off (by decide) outcome s.db
    change (powerMachine off'.mac PowerAction.off.text false outcome s.db).db.unreleased off.mac =
      none
    rw [hdb]
    exact h off (List.mem_of_mem_erase hoff)

theorem Server.Dated.of_step {s s' : Server} {event : ServerEvent} (h : s.Dated)
    (hstep : ServerStep s event s') : s'.Dated := by
  obtain ⟨time, action⟩ := event
  intro off hoff
  rw [hstep.after] at hoff ⊢
  cases action with
  | call op =>
    rcases List.mem_append.mp hoff with hold | hnew
    · exact (h off hold).trans (nextReservationId_run hstep.enabled)
    · obtain ⟨mac, -, rfl⟩ := List.mem_map.mp hnew
      exact Nat.le_refl _
  | powerOff off' outcome =>
    have hdb := @db_powerMachine _ off'.mac .off (by decide) outcome s.db
    change off.freedId ≤
      (powerMachine off'.mac PowerAction.off.text false outcome s.db).db.nextReservationId
    rw [hdb]
    exact h off (List.mem_of_mem_erase hoff)

/-- **Powering off spares later reservations**, from every state of the registry.

* In every run in which no call takes a machine whose power-off is still to come, a power-off that
  is executed reaches no reservation made after the lease was freed.
* After every other call some power-off that is still to come would reach such a reservation. -/
theorem powerOff_spares (s₀ : Registry) :
    (∀ events s, Run (Restrict ServerStep fun s event => event.Spares s) s₀.server events s →
      ∀ event s' off outcome, ServerStep s event s' → event.action = .powerOff off outcome →
        ¬ off.Hits s event.time) ∧
    ∀ events s, Run ServerStep s₀.server events s →
      ∀ event s', ServerStep s event s' → ¬ event.Spares s →
        ∃ off outcome s'', ServerStep s' ⟨event.time, .powerOff off outcome⟩ s'' ∧
          off.Hits s' event.time := by
  refine ⟨fun events s hrun event s' off outcome hstep haction => ?_,
    fun events s hrun event s' hstep hspares => ?_⟩
  · have hquiet : s.Quiet := hrun.invariant (I := Server.Quiet)
      (fun _ _ _ h hstep => h.of_step hstep.1 hstep.2) fun _ h => by cases h
    have hpending : off ∈ s.pending := by
      have := hstep.enabled
      rwa [ServerEvent.Enabled, haction] at this
    rintro ⟨r, hr, hmac, hact, -⟩
    have hu := unreleased_eq_some_iff.mpr ⟨hr, releasedAt_of_isActive hact, hmac⟩
    rw [hquiet off hpending] at hu
    cases hu
  · have hdated : s.Dated := hrun.invariant (I := Server.Dated)
      (fun _ _ _ h hstep => h.of_step hstep) fun _ h => by cases h
    obtain ⟨time, action⟩ := event
    simp only [ServerEvent.Spares, not_forall, not_not] at hspares
    obtain ⟨op, haction, off, hoff, htakes⟩ := hspares
    subst haction
    obtain ⟨r, hr, hact, hid⟩ := unreleased_of_takes htakes
    have hafter := hstep.after
    refine ⟨off, .exited 0, _, ⟨?_, ?_, rfl⟩, r, ?_, Database.mac_of_unreleased hr, hact,
      (hdated off hoff).trans hid⟩
    · rw [hafter]
      exact Nat.le_refl time
    · rw [hafter]
      exact List.mem_append_left _ hoff
    · rw [hafter]
      exact (unreleased_eq_some_iff.mp hr).1

end Runs

section Examples

attribute [local instance] ascii noNetworks

/-- A desktop that was released to the pool. -/
def pooledRegistry : Registry :=
  (newRegistry.after 5 (.enroll desktop)).after 6 (.releaseToPool desktop.mac)

theorem pooledRegistry_reachable : Reachable pooledRegistry := by
  have hrun : Run Step newRegistry _ pooledRegistry :=
    (Run.single (Registry.step_after (by decide) _)).snoc
      (Registry.step_after (show _ ≤ 6 by decide) _)
  exact ⟨newRegistry, _, newRegistry_opened, hrun⟩

def oneMachine (holder : String) (ttlSeconds : Int) : ReserveRequest :=
  { profile := "worker", count := 1, holder, ttlSeconds }

/-- The lease of one agent has expired and was reaped; its machine is to be powered off. -/
def reapedServer : Server :=
  (pooledRegistry.server.after ⟨10, .call (.reserve (oneMachine "agent-a" 1))⟩).after
    ⟨12, .call .reapExpired⟩

/-- The lease of another agent. -/
def nextLease : ServerEvent := ⟨13, .call (.reserve (oneMachine "agent-b" 3600))⟩

theorem reapedServer_run : ∃ events, Run ServerStep pooledRegistry.server events reapedServer := by
  have hlease : ServerStep pooledRegistry.server
      ⟨10, .call (.reserve (oneMachine "agent-a" 1))⟩ _ :=
    Server.step_after (by decide) rfl
  have hreap : ServerStep _ ⟨12, .call .reapExpired⟩ reapedServer :=
    Server.step_after (by decide) rfl
  exact ⟨_, (Run.single hlease).snoc hreap⟩

theorem reapedServer_step : ServerStep reapedServer nextLease (reapedServer.after nextLease) :=
  Server.step_after (by decide) rfl

theorem powerOff_race : Reachable pooledRegistry ∧
    (∃ events, Run ServerStep pooledRegistry.server events (reapedServer.after nextLease)) ∧
    (⟨"52:54:00:12:34:56", 3⟩ : PowerOff) ∈ (reapedServer.after nextLease).pending ∧
    (⟨"52:54:00:12:34:56", 3⟩ : PowerOff).Hits (reapedServer.after nextLease) 14 := by
  obtain ⟨events, hrun⟩ := reapedServer_run
  refine ⟨pooledRegistry_reachable, ⟨_, hrun.snoc reapedServer_step⟩, by decide +kernel, ?_⟩
  unfold PowerOff.Hits
  decide +kernel

theorem powerOff_spares_race : ∃ off outcome s',
    ServerStep (reapedServer.after nextLease) ⟨13, .powerOff off outcome⟩ s' ∧
      off.Hits (reapedServer.after nextLease) 13 := by
  obtain ⟨events, hrun⟩ := reapedServer_run
  refine (powerOff_spares pooledRegistry).2 events _ hrun nextLease _ reapedServer_step
    fun hspares => ?_
  have hpending : (⟨"52:54:00:12:34:56", 3⟩ : PowerOff) ∈ reapedServer.pending := by
    decide +kernel
  exact hspares _ rfl _ hpending ⟨by decide +kernel, ⟨_, strOfInt_of_lt (by decide +kernel)⟩,
    by decide +kernel⟩

end Examples

end Fleetboot
