import Fleetboot.Registry.Effects

/-!
# What enrolling, removing and opening do

The remaining calls that write reservations: `enroll`, `remove` and the constructor of the
registry with its one-time pinning.

* `enroll_cases`: a refusal, a replacement of the row that keeps the reservation, or a new
  machine under a permanent hold.
* `remove_eq`: the row and the reservations of the MAC are gone.
* `execAll_migrationPins`: the pinning holds every machine that nobody held.
* `openRegistry_of_hasRun`: opening a database that was opened before changes no machine and no
  reservation.
-/

set_option autoImplicit false

namespace Fleetboot

open Python Relational

/-! ## `enroll` -/

section Enroll

variable [Unicode]

/-- What `enroll` leaves and returns. -/
inductive Enrolled (now : Timestamp) (args : Enrolment) (db : Database) :
    Outcome Machine → Prop
  /-- The scratch mode is refused. -/
  | refused {message : String} : ScratchMode.ofText args.scratchMode = none →
      Enrolled now args db ⟨db, .error (.valueError message)⟩
  /-- The row is replaced, the carried columns and the reservation stay. -/
  | again {scratch : ScratchMode} {previous : Machine} :
      ScratchMode.ofText args.scratchMode = some scratch →
      db.machine (normaliseMac args.mac) = some previous →
      Enrolled now args db
        ⟨(db.replaceMachine (args.row scratch now)).updateMachine (normaliseMac args.mac)
          (CarriedColumns.select previous).assign (CarriedColumns.mac_assign _),
          .ok ((CarriedColumns.select previous).assign (args.row scratch now))⟩
  /-- A new machine, held permanently. -/
  | new {scratch : ScratchMode} {db' : Database} :
      ScratchMode.ofText args.scratchMode = some scratch →
      db.machine (normaliseMac args.mac) = none →
      Database.Inserted now args.pin (db.replaceMachine (args.row scratch now)) db' →
      Enrolled now args db ⟨db', .ok (args.row scratch now)⟩
  /-- The MAC had a reservation but no machine: the row is written, the pin refused. -/
  | orphan {scratch : ScratchMode} {r : Reservation} :
      ScratchMode.ofText args.scratchMode = some scratch →
      db.machine (normaliseMac args.mac) = none →
      db.unreleased (normaliseMac args.mac) = some r →
      Enrolled now args db
        ⟨db.replaceMachine (args.row scratch now), .error Database.oneActiveViolation⟩

/-- **`enroll`.** -/
theorem enroll_cases (now : Timestamp) (args : Enrolment) (db : Database) :
    Enrolled now args db (enroll now args db) := by
  unfold enroll
  cases hscratch : ScratchMode.ofText args.scratchMode with
  | none => exact .refused hscratch
  | some scratch =>
    have hmac : (args.row scratch now).mac = normaliseMac args.mac := rfl
    dsimp only
    cases hprev : db.lookup args.mac with
    | some previous =>
      have hlook : Database.lookup ((db.replaceMachine (args.row scratch now)).updateMachine
          (normaliseMac args.mac) (CarriedColumns.select previous).assign
          (CarriedColumns.mac_assign _)) args.mac =
          some ((CarriedColumns.select previous).assign (args.row scratch now)) := by
        rw [Database.lookup, Database.machine_updateMachine, if_pos rfl,
          Database.machine_replaceMachine, if_pos hmac.symm, Option.map_some]
      have := @Enrolled.again _ now args db _ _ hscratch hprev
      simpa only [enrollStatements, hprev, Option.map_some, execAll, Outcome.andThen, hlook]
        using this
    | none =>
      cases hunrel : (db.replaceMachine (args.row scratch now)).unreleased args.pin.mac with
      | some r =>
        have := @Enrolled.orphan _ now args db _ r hscratch hprev hunrel
        simpa only [enrollStatements, hprev, Option.map_none, execAll, Outcome.andThen,
          Database.insertReservation_error hunrel] using this
      | none =>
        obtain ⟨reservations, -, hok⟩ := Database.insertReservation_ok now hunrel
        have hins := Database.inserted_of_ok hok
        have hlook := hins.machine (normaliseMac args.mac)
        rw [Database.machine_replaceMachine, if_pos hmac.symm] at hlook
        have := Enrolled.new hscratch hprev hins
        simp only [enrollStatements, hprev, Option.map_none, execAll, Outcome.andThen, hok]
        rw [Database.lookup, hlook]
        exact this

end Enroll

/-! ## `remove` -/

/-- The database without a machine and everything that belongs to it. -/
def Database.withoutMachine (db : Database) (mac : String) : Database :=
  Database.deleteMachine (Database.deleteReservations { db with
    bootEvents := db.bootEvents.delete fun event => event.mac == mac
    bootSessions := db.bootSessions.delete fun session => session.mac == mac } mac) mac

theorem remove_eq [Unicode] (mac : String) (db : Database) : remove mac db =
    ⟨db.withoutMachine (normaliseMac mac), .ok (db.lookup mac).isSome⟩ := rfl

theorem Database.unreleased_withoutMachine (db : Database) (mac k : String) :
    (db.withoutMachine mac).unreleased k = if k = mac then none else db.unreleased k := by
  unfold Database.withoutMachine
  rw [Database.unreleased_deleteMachine, Database.unreleased_deleteReservations]
  rfl

theorem Database.machine_withoutMachine (db : Database) (mac k : String) :
    (db.withoutMachine mac).machine k = if k = mac then none else db.machine k := by
  unfold Database.withoutMachine
  rw [Database.machine_deleteMachine, Database.machine_deleteReservations]
  rfl

/-! ## Opening -/

section Opening

variable (now : Timestamp)

/-- What a sequence of pins does. -/
structure PinnedAll (now : Timestamp) (ms : List Machine) (db db' : Database) : Prop where
  pinned : ∀ m ∈ ms, ∃ id, db'.unreleased m.mac = some ((migrationPin m).row id now)
  unreleased : ∀ k, (∀ m ∈ ms, m.mac ≠ k) → db'.unreleased k = db.unreleased k
  machine : ∀ k, db'.machine k = db.machine k
  rest : SameRest db db'

theorem foldlM_migrationPins (ms : List Machine) (db : Database)
    (hnodup : (ms.map Machine.mac).Nodup) (hfree : ∀ m ∈ ms, db.unreleased m.mac = none) :
    ∃ db', ms.foldlM (fun db m => Database.insertReservation now (migrationPin m) db) db =
        .ok db' ∧ PinnedAll now ms db db' := by
  induction ms generalizing db with
  | nil => exact ⟨db, rfl, by simp, fun _ _ => rfl, fun _ => rfl, SameRest.refl db⟩
  | cons m ms ih =>
    rw [List.map_cons, List.nodup_cons] at hnodup
    have hne : ∀ m' ∈ ms, m'.mac ≠ m.mac := fun m' hm' h =>
      hnodup.1 (h ▸ List.mem_map_of_mem hm')
    obtain ⟨reservations, -, hok⟩ :=
      @Database.insertReservation_ok db now (migrationPin m) (hfree m List.mem_cons_self)
    have hins := Database.inserted_of_ok hok
    obtain ⟨db', hrun, hall⟩ := ih _ hnodup.2 fun m' hm' => by
      rw [hins.unreleased]
      exact (if_neg (hne m' hm')).trans (hfree m' (List.mem_cons_of_mem _ hm'))
    refine ⟨db', ?_, fun m' hm' => ?_, fun k hk => ?_,
      fun k => (hall.machine k).trans (hins.machine k), hins.sameRest.trans hall.rest⟩
    · rw [List.foldlM_cons, hok]
      exact hrun
    · rcases List.mem_cons.mp hm' with rfl | hm'
      · refine ⟨db.nextReservationId, ?_⟩
        rw [hall.unreleased _ hne, hins.unreleased]
        exact if_pos rfl
      · exact hall.pinned m' hm'
    · rw [hall.unreleased k fun m' hm' => hk m' (List.mem_cons_of_mem _ hm'),
        hins.unreleased, if_neg fun h => hk m List.mem_cons_self h.symm]

/-- **The pinning statement** holds every machine that nobody held and touches no other hold. -/
theorem execAll_migrationPins (db : Database) : ∃ db', insertMigrationPins now db = .ok db' ∧
    (∀ k r, db.unreleased k = some r → db'.unreleased k = some r) ∧
    (∀ k m, db.machine k = some m → db.unreleased k = none →
      ∃ id, db'.unreleased k = some ((migrationPin m).row id now)) ∧
    (∀ k, db.machine k = none → db'.unreleased k = db.unreleased k) ∧
    (∀ k, db'.machine k = db.machine k) ∧ SameRest db db' := by
  have hrows : ((db.machines.rows.filter fun m => (db.unreleased m.mac).isNone).map
      Machine.mac).Nodup := by
    have := db.machines.unique
    rw [List.filter_eq_self.mpr (by simp)] at this
    exact this.sublist (List.filter_sublist.map _)
  obtain ⟨db', hrun, hall⟩ := foldlM_migrationPins now _ db hrows fun m hm => by
    simpa using (List.mem_filter.mp hm).2
  refine ⟨db', hrun, ?_, ?_, ?_, hall.machine, hall.rest⟩
  · intro k r hr
    rw [hall.unreleased k, hr]
    rintro m hm rfl
    simpa [hr] using (List.mem_filter.mp hm).2
  · intro k m hm hfree
    obtain ⟨hrow, rfl⟩ := machine_eq_some_iff.mp hm
    exact hall.pinned m (List.mem_filter.mpr ⟨hrow, by simp [hfree]⟩)
  · intro k hk
    refine hall.unreleased k fun m hm hmac => ?_
    rw [machine_eq_some_iff.mpr ⟨(List.mem_filter.mp hm).1, hmac⟩] at hk
    cases hk

/-- The one-time pinning has run on this file. -/
structure HasRun (db : Database) : Prop where
  pinned : (db.settings.lookup pinnedFlag).isSome
  hardwareSpecAdded : db.hardwareSpecAdded = true

/-- Opening a file again renames old boot events at most. -/
theorem openRegistry_of_hasRun {db : Database} (h : HasRun db) :
    openRegistry now db = ⟨renameBootEvents db, .ok ()⟩ := by
  unfold openRegistry addHardwareSpecColumn pinExistingStatements
  simp only [h.hardwareSpecAdded, if_true, h.pinned]
  rfl

/-- The backfill writes no other column. -/
theorem addHardwareSpecColumn_machine {α : Type} (db : Database) (column : Machine → α)
    (hcolumn : ∀ (m : Machine) spec, column { m with hardwareSpec := spec } = column m)
    (k : String) :
    ((addHardwareSpecColumn db).machine k).map column = (db.machine k).map column := by
  unfold addHardwareSpecColumn
  split
  · rfl
  · unfold Database.machine
    rw [Table.lookup_update]
    cases db.machines.lookup k with
    | none => rfl
    | some m =>
      simp only [Option.map_some, Option.filter, if_true]
      split
      · rfl
      · rw [hcolumn]

theorem settings_addHardwareSpecColumn (db : Database) :
    (addHardwareSpecColumn db).settings = db.settings := by
  unfold addHardwareSpecColumn
  split <;> rfl

theorem unreleased_addHardwareSpecColumn (db : Database) (k : String) :
    (addHardwareSpecColumn db).unreleased k = db.unreleased k := by
  unfold addHardwareSpecColumn
  split <;> rfl

theorem hardwareSpecAdded_addHardwareSpecColumn (db : Database) :
    (addHardwareSpecColumn db).hardwareSpecAdded = true := by
  unfold addHardwareSpecColumn
  split
  · assumption
  · rfl

/-- The flag is written once. -/
theorem insertPinnedFlag_ok {db : Database} (h : db.settings.lookup pinnedFlag = none) :
    ∃ settings, insertPinnedFlag now db = .ok { db with settings } ∧
      (settings.lookup pinnedFlag).isSome = true := by
  let flag : Setting :=
    { key := pinnedFlag, value := Calendar.datetimeText now, updatedAt := now }
  obtain ⟨settings, hsettings⟩ := Option.isSome_iff_exists.mp
    ((@Table.insert_isSome_iff _ _ _ _ _ db.settings flag rfl).mpr h)
  refine ⟨settings, ?_, ?_⟩
  · simp only [insertPinnedFlag]
    rw [show db.settings.insert _ = some settings from hsettings]
  · rw [Table.lookup_insert hsettings rfl, if_pos rfl]
    rfl

theorem pinExistingStatements_of_unpinned {db : Database}
    (h : db.settings.lookup pinnedFlag = none) :
    pinExistingStatements now db = [insertMigrationPins now, insertPinnedFlag now] := by
  unfold pinExistingStatements
  rw [h]
  rfl

/-- **Opening a file on which the pinning has not run**: it succeeds, every machine stays
enrolled, every machine that nobody held is now held permanently. -/
theorem openRegistry_unpinned {db : Database} (h : db.settings.lookup pinnedFlag = none) :
    ∃ db', openRegistry now db = ⟨db', .ok ()⟩ ∧ HasRun db' ∧
      (∀ k, db'.machine k = (addHardwareSpecColumn db).machine k) ∧
      (∀ k r, db.unreleased k = some r → db'.unreleased k = some r) ∧
      (∀ k m, db.machine k = some m → db.unreleased k = none →
        ∃ r, db'.unreleased k = some r ∧ r.leaseKind = .permanent ∧ r.expiresAt = none) ∧
      (∀ k, db.machine k = none → db'.unreleased k = db.unreleased k) := by
  have hunrel := unreleased_addHardwareSpecColumn db
  have hunpinned : (addHardwareSpecColumn db).settings.lookup pinnedFlag = none := by
    rw [settings_addHardwareSpecColumn, h]
  obtain ⟨db₁, hrun, hkeep, hpin, hnone, hmachine, hrest⟩ :=
    execAll_migrationPins now (addHardwareSpecColumn db)
  have hfresh : db₁.settings.lookup pinnedFlag = none := by
    rw [hrest.settings, hunpinned]
  obtain ⟨settings, hflag, hpinned⟩ := insertPinnedFlag_ok now hfresh
  have hmap := addHardwareSpecColumn_machine db Machine.mac fun _ _ => rfl
  refine ⟨renameBootEvents { db₁ with settings }, ?_, ⟨hpinned, ?_⟩, fun k => ?_, fun k r hr => ?_,
    fun k m hm hfree => ?_, fun k hk => ?_⟩
  · unfold openRegistry
    dsimp only
    rw [pinExistingStatements_of_unpinned now hunpinned, execAll_cons_ok hrun,
      execAll_cons_ok hflag]
    rfl
  · exact hrest.hardwareSpecAdded.trans (hardwareSpecAdded_addHardwareSpecColumn db)
  · exact hmachine k
  · exact hkeep k r ((hunrel k).trans hr)
  · have hsome : ((addHardwareSpecColumn db).machine k).isSome := by
      have := hmap k
      rw [hm] at this
      cases hs : (addHardwareSpecColumn db).machine k with
      | none => simp [hs] at this
      | some _ => rfl
    obtain ⟨m', hm'⟩ := Option.isSome_iff_exists.mp hsome
    obtain ⟨id, hid⟩ := hpin k m' hm' ((hunrel k).trans hfree)
    exact ⟨_, hid, rfl, rfl⟩
  · have hnone' : (addHardwareSpecColumn db).machine k = none := by
      have := hmap k
      rw [hk, Option.map_none, Option.map_eq_none_iff] at this
      exact this
    exact (hnone k hnone').trans (hunrel k)

end Opening

end Fleetboot
