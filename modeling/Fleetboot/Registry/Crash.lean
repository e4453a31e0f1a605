import Fleetboot.Registry.Pool

/-!
# Stopping between two statements

The connection is in autocommit mode, so a process that stops in the middle of a call leaves the
statements before the stop and none after it. `remove` says of its deletes that the cleanup is
atomic, and `enroll` that a machine is protected from the pool by default; both hold of whole
calls only. Here every prefix of the statements is followed by the reopening of the file.

* `crashSafe_iff`: the cuts after which a machine is unprotected, or has lost its reservation or
  its wiring, are exactly those of `UnsafeCut`; the one-time pinning has none.
-/

set_option autoImplicit false

namespace Fleetboot

open Python Relational Transition

/-! ## The calls that write in several statements -/

/-- The columns by which a machine is powered. -/
structure Wiring where
  powerOnCommand : Option String
  powerOffCommand : Option String
  rebootCommand : Option String
  pduAlias : Option String
  deriving DecidableEq

def Machine.wiring (m : Machine) : Wiring :=
  { powerOnCommand := m.powerOnCommand
    powerOffCommand := m.powerOffCommand
    rebootCommand := m.rebootCommand
    pduAlias := m.pduAlias }

inductive Interruptible
  | enroll (args : Enrolment)
  | pin (req : PinRequest)
  | remove (mac : String)

section Statements

variable [Unicode]

/-- The MAC that the call is about. -/
def Interruptible.mac : Interruptible → String
  | enroll args => normaliseMac args.mac
  | pin req => normaliseMac req.mac
  | remove mac => normaliseMac mac

def Interruptible.isRemove : Interruptible → Bool
  | remove _ => true
  | _ => false

/-- The statements of the call. A refused call has none. -/
def Interruptible.statements (now : Timestamp) (db : Database) : Interruptible → List Statement
  | enroll args =>
    match ScratchMode.ofText args.scratchMode with
    | none => []
    | some scratch => enrollStatements now args scratch db
  | pin req =>
    if strip req.holder = "" then []
    else match db.lookup req.mac with
      | none => []
      | some _ => pinStatements now req
  | remove mac => removeStatements mac

/-- The file that a stop after `k` statements leaves. -/
def Interruptible.cut (now : Timestamp) (op : Interruptible) (k : Nat) (db : Database) :
    Database :=
  (execAll ((op.statements now db).take k) db).db

theorem enroll_eq_statements (now : Timestamp) (args : Enrolment) (db : Database) :
    (enroll now args db).db =
      (execAll ((Interruptible.enroll args).statements now db) db).db := by
  simp only [enroll, Interruptible.statements]
  cases ScratchMode.ofText args.scratchMode with
  | none => rfl
  | some scratch =>
    simp only [Outcome.andThen]
    split
    · split <;> rfl
    · rfl

theorem pin_eq_statements (now : Timestamp) (req : PinRequest) (db : Database) :
    (pin now req db).db = (execAll ((Interruptible.pin req).statements now db) db).db := by
  simp only [pin, Interruptible.statements]
  split
  · rfl
  · cases db.lookup req.mac with
    | none => rfl
    | some m =>
      obtain ⟨db', hrun, -⟩ := execAll_pinStatements now req db
      simp only [hrun, Outcome.andThen]

theorem remove_eq_statements (now : Timestamp) (mac : String) (db : Database) :
    (remove mac db).db = (execAll ((Interruptible.remove mac).statements now db) db).db := rfl

end Statements

/-! ## What a stop may leave -/

section Safe

attribute [local irreducible] normaliseMac blankToNone

variable [Unicode]

/-- What must be true of a file after a stop and a reopening: an enrolled machine that was not
released to the pool is not available, and a machine that is not being removed still has its
active reservation and its wiring. -/
structure CrashSafe (pooled : String → Bool) (now : Timestamp) (removing : String → Prop)
    (before after : Database) : Prop where
  unavailable : ∀ mac m, after.machine mac = some m → pooled mac = false →
    ∀ t, after.isFree t mac = false
  reservation : ∀ mac m r, ¬ removing mac → before.machine mac = some m →
    before.unreleased mac = some r → r.isActive now = true →
    ∃ r', after.unreleased mac = some r' ∧ r'.isActive now = true
  wiring : ∀ mac m, ¬ removing mac → before.machine mac = some m →
    ∃ m', after.machine mac = some m' ∧ m'.wiring = m.wiring

/-- The same for one MAC. -/
structure Survives (pooled : Bool) (now : Timestamp) (removing : Prop)
    (before after : Standing) : Prop where
  unavailable : ∀ m, after.row = some m → pooled = false →
    ∀ t, ∃ r, after.hold = some r ∧ r.isActive t = true
  reservation : ¬ removing → ∀ m r, before.row = some m → before.hold = some r →
    r.isActive now = true → ∃ r', after.hold = some r' ∧ r'.isActive now = true
  wiring : ¬ removing → ∀ m, before.row = some m →
    ∃ m', after.row = some m' ∧ m'.wiring = m.wiring

omit [Unicode] in
theorem isFree_eq_false_iff {db : Database} {t : Timestamp} {mac : String} :
    db.isFree t mac = false ↔ ∃ r, db.unreleased mac = some r ∧ r.isActive t = true := by
  rw [← Bool.not_eq_true, isFree_iff]
  simp only [not_forall, Bool.not_eq_false, exists_prop]

omit [Unicode] in
theorem crashSafe_iff_survives {pooled : String → Bool} {now : Timestamp}
    {removing : String → Prop} {before after : Database} :
    CrashSafe pooled now removing before after ↔ ∀ mac,
      Survives (pooled mac) now (removing mac) (before.standing mac) (after.standing mac) := by
  constructor
  · intro h mac
    exact ⟨fun m hm hp t => isFree_eq_false_iff.mp (h.unavailable mac m hm hp t),
      fun hr m r hm hu hact => h.reservation mac m r hr hm hu hact,
      fun hr m hm => h.wiring mac m hr hm⟩
  · intro h
    exact ⟨fun mac m hm hp t => isFree_eq_false_iff.mpr ((h mac).unavailable m hm hp t),
      fun mac m r hr hm hu hact => (h mac).reservation hr m r hm hu hact,
      fun mac m hr hm => (h mac).wiring hr m hm⟩

/-- A machine that the stop did not touch survives it. -/
theorem Survives.refl {pooled : Bool} {now : Timestamp} {removing : Prop} {mac : String}
    {s : Standing} (hs : s.Sound mac) (hrel : ∀ r, s.hold = some r → r.releasedAt = none)
    (hpool : Pooled pooled s) : Survives pooled now removing s s := by
  refine ⟨fun m hm hp t => ?_, fun _ m r _ hr hact => ⟨r, hr, hact⟩, fun _ m hm => ⟨m, hm, rfl⟩⟩
  obtain ⟨r, hr, hkind⟩ := hpool.held hp m hm
  exact ⟨r, hr, isActive_of_unexpiring t (hrel r hr) (hs.unexpiring r hr hkind)⟩

omit [Unicode] in
/-- Whoever has a permanent hold and the same wiring afterwards survives. -/
theorem Survives.of_permanent {pooled : Bool} {now : Timestamp} {removing : Prop}
    {before : Standing} {row : Option Machine} {r : Reservation}
    (hr : ∀ t, r.isActive t = true)
    (hwiring : ∀ m, before.row = some m → ∃ m', row = some m' ∧ m'.wiring = m.wiring) :
    Survives pooled now removing before ⟨row, some r⟩ :=
  ⟨fun _ _ _ t => ⟨r, rfl, hr t⟩, fun _ _ _ _ _ _ => ⟨r, rfl, hr now⟩,
    fun _ m hm => hwiring m hm⟩

/-- The stop touched one machine only, so it is safe when that machine survives. -/
theorem crashSafe_iff_target {pooled : String → Bool} {now : Timestamp} {target : String}
    {removing : String → Prop} {before after : Database} (hsound : Sound before)
    (hpool : ∀ mac, Pooled (pooled mac) (before.standing mac))
    (hothers : ∀ mac, mac ≠ target → after.standing mac = before.standing mac) :
    CrashSafe pooled now removing before after ↔
      Survives (pooled target) now (removing target) (before.standing target)
        (after.standing target) := by
  rw [crashSafe_iff_survives]
  refine ⟨fun h => h target, fun h mac => ?_⟩
  by_cases hmac : mac = target
  · rw [hmac]
    exact h
  · rw [hothers mac hmac]
    exact Survives.refl (hsound.standing mac) (fun _ => Database.releasedAt_of_unreleased)
      (hpool mac)

/-! ## Reopening -/

omit [Unicode] in
/-- Reopening changes no machine and no reservation. -/
theorem standing_reopen {db : Database} (h : HasRun db) (t : Timestamp) (mac : String) :
    (openRegistry t db).db.standing mac = db.standing mac := by
  rw [openRegistry_of_hasRun t h]
  rfl

/-! ## The cuts of `enroll` -/

/-- The cuts that break the rule: a new machine before it is pinned, a machine with any wiring
before its columns are carried over, a held machine between its release and its new pin, and a
permanently held machine after its reservation is deleted and before it is. -/
def Interruptible.UnsafeCut (now : Timestamp) (db : Database) (k : Nat) : Interruptible → Prop
  | enroll args => k = 1 ∧ (ScratchMode.ofText args.scratchMode).isSome ∧
      ∀ m, db.machine (normaliseMac args.mac) = some m → m.wiring ≠ ⟨none, none, none, none⟩
  | pin req => k = 1 ∧ strip req.holder ≠ "" ∧
      ∃ r, db.unreleased (normaliseMac req.mac) = some r ∧ r.isActive now = true
  | remove mac => k = 3 ∧
      ∃ r, db.unreleased (normaliseMac mac) = some r ∧ r.leaseKind = .permanent

/-- The MACs that the call removes. -/
def Interruptible.Removes (op : Interruptible) (mac : String) : Prop :=
  op.isRemove = true ∧ op.mac = mac

theorem survives_enroll_row {now : Timestamp} {db : Database} {args : Enrolment}
    {scratch : ScratchMode} {pooled : Bool} (hsound : Sound db)
    (hpool : Pooled pooled (db.standing (normaliseMac args.mac))) :
    Survives pooled now False (db.standing (normaliseMac args.mac))
      ((db.replaceMachine (args.row scratch now)).standing (normaliseMac args.mac)) ↔
      ¬ ∀ m, db.machine (normaliseMac args.mac) = some m →
        m.wiring ≠ ⟨none, none, none, none⟩ := by
  have hafter : (db.replaceMachine (args.row scratch now)).standing (normaliseMac args.mac) =
      ⟨some (args.row scratch now), db.unreleased (normaliseMac args.mac)⟩ := by
    unfold Database.standing
    rw [Database.machine_replaceMachine, if_pos (by rfl), Database.unreleased_replaceMachine]
  rw [hafter]
  cases hm : db.machine (normaliseMac args.mac) with
  | none =>
    refine iff_of_false (fun h => ?_) (by simp)
    -- Not enrolled before, so not in the pool and not held.
    have hpooled : pooled = false := by
      cases pooled with
      | false => rfl
      | true =>
        obtain ⟨m, hrow⟩ := hpool.enrolled rfl
        change db.machine _ = some m at hrow
        rw [hm] at hrow
        cases hrow
    obtain ⟨r, hr, -⟩ := h.unavailable _ rfl hpooled 0
    obtain ⟨m, hrow⟩ := hsound.machine_of_unreleased hr
    rw [hm] at hrow
    cases hrow
  | some m =>
    have hself := @Survives.refl _ pooled now False _ _
      (hsound.standing (normaliseMac args.mac)) (fun _ => Database.releasedAt_of_unreleased) hpool
    constructor
    · intro h hall
      obtain ⟨m', hm', hwiring⟩ := h.wiring id m hm
      cases hm'
      exact hall m rfl hwiring.symm
    · intro h
      have hwired : m.wiring = ⟨none, none, none, none⟩ := by
        by_contra hne
        exact h fun m' hm' => by
          cases hm'
          exact hne
      refine ⟨fun m' _ hp t => hself.unavailable m hm hp t, hself.reservation, fun _ m' hm' => ?_⟩
      rw [show (db.standing (normaliseMac args.mac)).row = some m from hm] at hm'
      cases hm'
      exact ⟨_, rfl, hwired.symm⟩

/-- A cut is safe when it leaves the other machines and the settings alone and the machine of the
call survives it. -/
theorem crashSafe_cut_iff {pooled : String → Bool} {now t : Timestamp} {op : Interruptible}
    {db db' : Database} (hsound : Sound db) (hpool : ∀ mac, Pooled (pooled mac) (db.standing mac))
    (hrun : HasRun db') (hothers : ∀ mac, mac ≠ op.mac → db'.standing mac = db.standing mac) :
    CrashSafe pooled now op.Removes db (openRegistry t db').db ↔
      Survives (pooled op.mac) now (op.Removes op.mac) (db.standing op.mac)
        (db'.standing op.mac) := by
  rw [crashSafe_iff_target hsound hpool fun mac hmac =>
    (standing_reopen hrun t mac).trans (hothers mac hmac), standing_reopen hrun]

theorem crashSafe_cut_self {pooled : String → Bool} {now t : Timestamp} {op : Interruptible}
    {db : Database} (hsound : Sound db) (hpool : ∀ mac, Pooled (pooled mac) (db.standing mac)) :
    CrashSafe pooled now op.Removes db (openRegistry t db).db :=
  (crashSafe_cut_iff hsound hpool hsound.hasRun fun _ _ => rfl).mpr
    (Survives.refl (hsound.standing _) (fun _ => Database.releasedAt_of_unreleased) (hpool _))

/-- For the calls that remove nothing, with the standing that the cut leaves. -/
theorem crashSafe_kept_iff {pooled : String → Bool} {now t : Timestamp} {op : Interruptible}
    {db db' : Database} {after : Standing} (hsound : Sound db)
    (hpool : ∀ mac, Pooled (pooled mac) (db.standing mac)) (hkeep : op.isRemove = false)
    (hrun : HasRun db') (htarget : db'.standing op.mac = after)
    (hothers : ∀ mac, mac ≠ op.mac → db'.standing mac = db.standing mac) :
    CrashSafe pooled now op.Removes db (openRegistry t db').db ↔
      Survives (pooled op.mac) now False (db.standing op.mac) after := by
  have hremoves : op.Removes op.mac = False := by
    simp [Interruptible.Removes, hkeep]
  rw [crashSafe_cut_iff hsound hpool hrun hothers, hremoves, htarget]

/-- The whole of `enroll` is safe. -/
theorem survives_enroll {now : Timestamp} {db : Database} {args : Enrolment} {pooled : Bool}
    (hsound : Sound db) (hpool : Pooled pooled (db.standing (normaliseMac args.mac))) :
    Survives pooled now False (db.standing (normaliseMac args.mac))
      ((enroll now args db).db.standing (normaliseMac args.mac)) := by
  have hself := @Survives.refl _ pooled now False _ _
    (hsound.standing (normaliseMac args.mac)) (fun _ => Database.releasedAt_of_unreleased) hpool
  have h := enroll_cases now args db
  generalize enroll now args db = out at h
  cases h with
  | refused => exact hself
  | @again scratch previous hscratch hprev =>
    have hafter : ((db.replaceMachine (args.row scratch now)).updateMachine
        (normaliseMac args.mac) (CarriedColumns.select previous).assign
        (CarriedColumns.mac_assign _)).standing (normaliseMac args.mac) =
        ⟨some ((CarriedColumns.select previous).assign (args.row scratch now)),
          db.unreleased (normaliseMac args.mac)⟩ := by
      unfold Database.standing
      rw [Database.machine_updateMachine, if_pos rfl, Database.machine_replaceMachine,
        if_pos (by rfl), Database.unreleased_updateMachine, Database.unreleased_replaceMachine]
      rfl
    rw [hafter]
    refine ⟨fun m _ hp t => hself.unavailable previous hprev hp t, hself.reservation,
      fun _ m hm => ?_⟩
    rw [show (db.standing (normaliseMac args.mac)).row = some previous from hprev] at hm
    cases hm
    exact ⟨_, rfl, rfl⟩
  | @new scratch db' hscratch hnone hins =>
    unfold Database.standing
    rw [hins.unreleased, if_pos (by rfl)]
    exact Survives.of_permanent (fun t => isActive_of_unexpiring t rfl rfl) fun m hm => by
      rw [hnone] at hm
      cases hm
  | orphan _ hnone hu =>
    obtain ⟨m, hm⟩ := hsound.machine_of_unreleased hu
    rw [hnone] at hm
    cases hm

theorem standing_enroll_of_ne {now : Timestamp} {db : Database} {args : Enrolment}
    {mac : String} (hmac : mac ≠ normaliseMac args.mac) :
    (enroll now args db).db.standing mac = db.standing mac := by
  have h := enroll_cases now args db
  generalize enroll now args db = out at h
  unfold Database.standing
  cases h with
  | refused => rfl
  | again =>
    rw [Database.machine_updateMachine, if_neg hmac, Database.machine_replaceMachine,
      if_neg (by exact hmac), Database.unreleased_updateMachine,
      Database.unreleased_replaceMachine]
  | new _ _ hins =>
    rw [hins.machine, hins.unreleased, if_neg (by exact hmac), Database.machine_replaceMachine,
      if_neg (by exact hmac), Database.unreleased_replaceMachine]
  | orphan =>
    rw [Database.machine_replaceMachine, if_neg (by exact hmac),
      Database.unreleased_replaceMachine]

theorem crashSafe_enroll {pooled : String → Bool} {now t : Timestamp} {db : Database}
    (hsound : Sound db) (hpool : ∀ mac, Pooled (pooled mac) (db.standing mac))
    (args : Enrolment) (k : Nat) :
    CrashSafe pooled now (Interruptible.enroll args).Removes db
        (openRegistry t ((Interruptible.enroll args).cut now k db)).db ↔
      ¬ (Interruptible.enroll args).UnsafeCut now db k := by
  cases hscratch : ScratchMode.ofText args.scratchMode with
  | none =>
    have hcut : (Interruptible.enroll args).cut now k db = db := by
      simp [Interruptible.cut, Interruptible.statements, hscratch]
    rw [hcut]
    exact iff_of_true (crashSafe_cut_self hsound hpool) fun h => by
      simpa [hscratch] using h.2.1
  | some scratch =>
    match k with
    | 0 => exact iff_of_true (crashSafe_cut_self hsound hpool) fun h => by cases h.1
    | 1 =>
      have hcut : (Interruptible.enroll args).cut now 1 db =
          db.replaceMachine (args.row scratch now) := by
        simp [Interruptible.cut, Interruptible.statements, hscratch, enrollStatements, execAll]
      have hunsafe : (Interruptible.enroll args).UnsafeCut now db 1 ↔
          ∀ m, db.machine (normaliseMac args.mac) = some m →
            m.wiring ≠ ⟨none, none, none, none⟩ := by
        simp [Interruptible.UnsafeCut, hscratch]
      rw [hcut, hunsafe, ← @survives_enroll_row _ now db args scratch _ hsound (hpool _)]
      refine crashSafe_kept_iff hsound hpool rfl
        ⟨hsound.hasRun.pinned, hsound.hasRun.hardwareSpecAdded⟩ rfl fun mac hmac => ?_
      unfold Database.standing
      rw [Database.machine_replaceMachine, if_neg (by exact hmac),
        Database.unreleased_replaceMachine]
    | k + 2 =>
      have hcut : (Interruptible.enroll args).cut now (k + 2) db = (enroll now args db).db := by
        rw [enroll_eq_statements]
        simp [Interruptible.cut, Interruptible.statements, hscratch, enrollStatements]
      rw [hcut]
      refine iff_of_true ?_ fun h => by simpa using h.1
      exact (@crashSafe_kept_iff _ pooled now t (.enroll args) db _ _ hsound hpool rfl
        (hasRun_enroll hsound.hasRun args) rfl fun mac hmac => standing_enroll_of_ne hmac).mpr
        (survives_enroll hsound (hpool (normaliseMac args.mac)))

/-! ## The cuts of `pin` -/

/-- The file after the first two writes of `pin`, and after all of them: the machine is held
permanently and wired as before. -/
theorem survives_pin {now : Timestamp} {req : PinRequest} {db db' : Database} {pooled : Bool}
    {change : Machine → Machine} (hwiring : ∀ m, (change m).wiring = m.wiring)
    (hunrel : db'.unreleased (normaliseMac req.mac) =
      some (req.hold.row db.nextReservationId now))
    (hmachine : db'.machine (normaliseMac req.mac) =
      (db.machine (normaliseMac req.mac)).map change) :
    Survives pooled now False (db.standing (normaliseMac req.mac))
      (db'.standing (normaliseMac req.mac)) := by
  unfold Database.standing
  rw [hunrel, hmachine]
  refine Survives.of_permanent (fun t => isActive_of_unexpiring t rfl rfl) fun m hm => ?_
  rw [show db.machine (normaliseMac req.mac) = some m from hm]
  exact ⟨change m, rfl, hwiring m⟩

/-- The file between the release and the new hold. -/
theorem survives_pin_released {now : Timestamp} {db : Database} {mac : String} {pooled : Bool}
    {m : Machine} (hsound : Sound db) (hpool : Pooled pooled (db.standing mac))
    (hrow : db.machine mac = some m) :
    Survives pooled now False (db.standing mac) ⟨some m, none⟩ ↔
      ¬ ∃ r, db.unreleased mac = some r ∧ r.isActive now = true := by
  constructor
  · rintro hsurvives ⟨r, hr, hact⟩
    obtain ⟨r', hr', -⟩ := hsurvives.reservation id m r hrow hr hact
    cases hr'
  · intro hfree
    refine ⟨fun m' _ hp t => ?_, fun _ _ r _ hr hact => absurd ⟨r, hr, hact⟩ hfree,
      fun _ m' hm' => ?_⟩
    · -- Outside the pool the machine would have had an active hold.
      obtain ⟨r, hr, hkind⟩ := hpool.held hp m hrow
      exact absurd ⟨r, hr, hsound.isActive_of_permanent hr hkind now⟩ hfree
    · rw [show (db.standing mac).row = some m from hrow] at hm'
      cases hm'
      exact ⟨m, rfl, rfl⟩

/-- The cuts of a `pin` that is not refused. -/
theorem cut_pin_cases {now : Timestamp} {req : PinRequest} {db : Database} {m : Machine}
    (hholder : strip req.holder ≠ "") (hm : db.lookup req.mac = some m) (k : Nat) :
    (k = 0 ∧ (Interruptible.pin req).cut now k db = db) ∨
    (k = 1 ∧ (Interruptible.pin req).cut now k db = db.releaseReservations now
      fun r => r.mac == normaliseMac req.mac && r.isUnreleased) ∨
    (2 ≤ k ∧ ∃ db', (Interruptible.pin req).cut now k db = db' ∧
      (Swapped now (normaliseMac req.mac) req.hold db db' ∨ Pinned now req db db')) := by
  have hstatements : (Interruptible.pin req).statements now db = pinStatements now req := by
    simp [Interruptible.statements, hholder, hm]
  have hrelease := releaseUnreleased_ok now (normaliseMac req.mac) db
  match k with
  | 0 => exact .inl ⟨rfl, rfl⟩
  | 1 =>
    refine .inr (.inl ⟨rfl, ?_⟩)
    rw [Interruptible.cut, hstatements, pinStatements]
    simp [execAll, hrelease]
  | 2 =>
    obtain ⟨db₁, hok, hswap⟩ :=
      @insertReservation_after_release now (normaliseMac req.mac) req.hold rfl db
    refine .inr (.inr ⟨Nat.le_refl 2, db₁, ?_, .inl hswap⟩)
    rw [Interruptible.cut, hstatements, pinStatements]
    simp only [List.cons_append, List.take_succ_cons, List.take_zero, execAll_cons_ok hrelease,
      execAll_cons_ok hok, execAll_nil]
  | k + 3 =>
    obtain ⟨db₂, hrun, hpin⟩ := execAll_pinStatements now req db
    have hlen : (pinStatements now req).length ≤ k + 3 := by
      unfold pinStatements
      cases blankToNone req.profile <;> simp
    refine .inr (.inr ⟨by omega, db₂, ?_, .inr hpin⟩)
    rw [Interruptible.cut, hstatements, List.take_of_length_le hlen, hrun]

theorem crashSafe_pin {pooled : String → Bool} {now t : Timestamp} {db : Database}
    (hsound : Sound db) (hpool : ∀ mac, Pooled (pooled mac) (db.standing mac))
    (req : PinRequest) (k : Nat) :
    CrashSafe pooled now (Interruptible.pin req).Removes db
        (openRegistry t ((Interruptible.pin req).cut now k db)).db ↔
      ¬ (Interruptible.pin req).UnsafeCut now db k := by
  have hself : CrashSafe pooled now (Interruptible.pin req).Removes db (openRegistry t db).db :=
    crashSafe_cut_self hsound hpool
  by_cases hholder : strip req.holder = ""
  · have hcut : (Interruptible.pin req).cut now k db = db := by
      simp [Interruptible.cut, Interruptible.statements, hholder]
    rw [hcut]
    exact iff_of_true hself fun h => h.2.1 hholder
  cases hm : db.lookup req.mac with
  | none =>
    have hcut : (Interruptible.pin req).cut now k db = db := by
      simp [Interruptible.cut, Interruptible.statements, hm]
    rw [hcut]
    refine iff_of_true hself ?_
    rintro ⟨-, -, r, hr, -⟩
    obtain ⟨m, hm'⟩ := hsound.machine_of_unreleased hr
    rw [Database.lookup, hm'] at hm
    cases hm
  | some m =>
    have hrow : db.machine (normaliseMac req.mac) = some m := hm
    rcases @cut_pin_cases _ now req db m hholder hm k with
      ⟨rfl, hcut⟩ | ⟨rfl, hcut⟩ | ⟨hk, db', hcut, hdb⟩
    · rw [hcut]
      exact iff_of_true hself fun h => by cases h.1
    · have hunsafe : (Interruptible.pin req).UnsafeCut now db 1 ↔
          ∃ r, db.unreleased (normaliseMac req.mac) = some r ∧ r.isActive now = true := by
        simp [Interruptible.UnsafeCut, hholder]
      rw [hcut, hunsafe, ← survives_pin_released hsound (hpool _) hrow]
      refine crashSafe_kept_iff hsound hpool rfl
        ⟨hsound.hasRun.pinned, hsound.hasRun.hardwareSpecAdded⟩ ?_ fun mac hmac => ?_
      · unfold Database.standing
        rw [unreleased_after_releaseUnreleased, if_pos (by rfl),
          Database.machine_releaseReservations]
        rw [show db.machine (Interruptible.pin req).mac = some m from hrow]
      · unfold Database.standing
        rw [unreleased_after_releaseUnreleased, if_neg (by exact hmac),
          Database.machine_releaseReservations]
    · rw [hcut]
      refine iff_of_true ?_ fun h => by
        have := h.1
        omega
      rcases hdb with hswap | hpin
      · refine (@crashSafe_kept_iff _ pooled now t (.pin req) db db' _ hsound hpool rfl
          (hsound.hasRun.of_sameRest hswap.rest) rfl fun mac hmac => ?_).mpr ?_
        · unfold Database.standing
          rw [hswap.unreleased, if_neg (by exact hmac), hswap.machine]
        · exact @survives_pin _ now req db db' _ id (fun _ => rfl)
            ((hswap.unreleased _).trans (if_pos rfl)) ((hswap.machine _).trans (by simp))
      · refine (@crashSafe_kept_iff _ pooled now t (.pin req) db db' _ hsound hpool rfl
          (hsound.hasRun.of_sameRest hpin.rest) rfl fun mac hmac => ?_).mpr ?_
        · unfold Database.standing
          rw [hpin.unreleased, if_neg (by exact hmac), hpin.machine, if_neg (by exact hmac)]
        · exact @survives_pin _ now req db db' _
            (fun m => { m with profileName := (blankToNone req.profile).getD m.profileName })
            (fun _ => rfl) ((hpin.unreleased _).trans (if_pos rfl))
            ((hpin.machine _).trans (if_pos rfl))

/-! ## The cuts of `remove` -/

/-- The cuts of `remove`, by what they leave of the machine and its reservation. -/
theorem cut_remove_cases {now : Timestamp} {mac : String} {db : Database} (k : Nat) :
    (k ≤ 2 ∧ ∀ mac', ((Interruptible.remove mac).cut now k db).standing mac' =
      db.standing mac') ∨
    (k = 3 ∧ ∀ mac', ((Interruptible.remove mac).cut now k db).standing mac' =
      if mac' = normaliseMac mac then ⟨db.machine mac', none⟩ else db.standing mac') ∨
    (4 ≤ k ∧ ∀ mac', ((Interruptible.remove mac).cut now k db).standing mac' =
      if mac' = normaliseMac mac then ⟨none, none⟩ else db.standing mac') := by
  match k with
  | 0 => exact .inl ⟨by decide, fun _ => rfl⟩
  | 1 => exact .inl ⟨by decide, fun _ => rfl⟩
  | 2 => exact .inl ⟨by decide, fun _ => rfl⟩
  | 3 =>
    refine .inr (.inl ⟨rfl, fun mac' => ?_⟩)
    change Standing.mk (db.machine mac') (Database.unreleased (Database.deleteReservations
      { db with bootEvents := _, bootSessions := _ } _) mac') = _
    rw [Database.unreleased_deleteReservations]
    split <;> rfl
  | k + 4 =>
    refine .inr (.inr ⟨by omega, fun mac' => ?_⟩)
    have hcut : (Interruptible.remove mac).cut now (k + 4) db =
        db.withoutMachine (normaliseMac mac) := by
      simp [Interruptible.cut, Interruptible.statements, removeStatements, execAll,
        Database.withoutMachine]
    rw [hcut]
    unfold Database.standing
    rw [Database.unreleased_withoutMachine, Database.machine_withoutMachine]
    split <;> rfl

theorem hasRun_cut_remove {now : Timestamp} {mac : String} {db : Database} (h : HasRun db)
    (k : Nat) : HasRun ((Interruptible.remove mac).cut now k db) := by
  match k with
  | 0 | 1 | 2 | 3 | k + 4 =>
    have hsettings : ∀ db' : Database, db'.settings = db.settings →
        db'.hardwareSpecAdded = db.hardwareSpecAdded → HasRun db' := fun db' hset hspec =>
      ⟨hset ▸ h.pinned, hspec.trans h.hardwareSpecAdded⟩
    apply hsettings
    · simp [Interruptible.cut, Interruptible.statements, removeStatements, execAll,
        Database.deleteReservations, Database.deleteMachine]
    · simp [Interruptible.cut, Interruptible.statements, removeStatements, execAll,
        Database.deleteReservations, Database.deleteMachine]

theorem crashSafe_remove {pooled : String → Bool} {now t : Timestamp} {db : Database}
    (hsound : Sound db) (hpool : ∀ mac, Pooled (pooled mac) (db.standing mac))
    (mac : String) (k : Nat) :
    CrashSafe pooled now (Interruptible.remove mac).Removes db
        (openRegistry t ((Interruptible.remove mac).cut now k db)).db ↔
      ¬ (Interruptible.remove mac).UnsafeCut now db k := by
  have hremoves : (Interruptible.remove mac).Removes (normaliseMac mac) := ⟨rfl, rfl⟩
  have hrun := @hasRun_cut_remove _ now mac db hsound.hasRun k
  rcases @cut_remove_cases _ now mac db k with ⟨hk, hcut⟩ | ⟨rfl, hcut⟩ | ⟨hk, hcut⟩
  · refine iff_of_true ?_ fun h => by
      have := h.1
      omega
    refine (crashSafe_cut_iff hsound hpool hrun fun mac' _ => hcut mac').mpr ?_
    rw [hcut]
    exact Survives.refl (hsound.standing _) (fun _ => Database.releasedAt_of_unreleased) (hpool _)
  · refine (crashSafe_cut_iff hsound hpool hrun fun mac' hmac => ?_).trans ?_
    · rw [hcut, if_neg (by exact hmac)]
    · rw [hcut, if_pos (by rfl)]
      change Survives (pooled (normaliseMac mac)) now _ (db.standing (normaliseMac mac))
        ⟨db.machine (normaliseMac mac), none⟩ ↔ _
      constructor
      · rintro hsurvives ⟨-, r, hr, hkind⟩
        have hpooled := (hpool (normaliseMac mac)).of_permanent hr hkind
        obtain ⟨m, hm⟩ := hsound.machine_of_unreleased hr
        obtain ⟨r', hr', -⟩ := hsurvives.unavailable m hm hpooled 0
        cases hr'
      · intro hfree
        refine ⟨fun m hm hpooled => ?_, fun h => absurd hremoves h, fun h => absurd hremoves h⟩
        obtain ⟨r, hr, hkind⟩ := (hpool (normaliseMac mac)).held hpooled m hm
        exact absurd ⟨rfl, r, hr, hkind⟩ hfree
  · refine iff_of_true ?_ fun h => by
      have := h.1
      omega
    refine (crashSafe_cut_iff hsound hpool hrun fun mac' hmac => ?_).mpr ?_
    · rw [hcut, if_neg (by exact hmac)]
    · rw [hcut, if_pos (by rfl)]
      exact ⟨fun m hm => (by cases hm), fun h => absurd hremoves h, fun h => absurd hremoves h⟩

/-! ## The cuts of the pinning -/

omit [Unicode] in
/-- Before reservations there was none to lose, so it is enough that every machine is held and
wired as it was. -/
theorem crashSafe_of_held {file after : Database} (hfile : PreReservationFile file)
    (now : Timestamp)
    (hheld : ∀ mac m, after.machine mac = some m →
      ∃ r, after.unreleased mac = some r ∧ r.expiresAt = none)
    (hwiring : ∀ mac,
      (after.machine mac).map Machine.wiring = (file.machine mac).map Machine.wiring) :
    CrashSafe (fun _ => false) now (fun _ => False) file after := by
  refine ⟨fun mac m hm _ t => ?_, fun mac m r _ _ hr => ?_, fun mac m _ hm => ?_⟩
  · obtain ⟨r, hr, hexp⟩ := hheld mac m hm
    exact isFree_eq_false_iff.mpr
      ⟨r, hr, isActive_of_unexpiring t (Database.releasedAt_of_unreleased hr) hexp⟩
  · have hrow := (unreleased_eq_some_iff.mp hr).1
    rw [hfile.no_reservations] at hrow
    cases hrow
  · have hmap := hwiring mac
    rw [hm] at hmap
    exact Option.map_eq_some_iff.mp hmap

omit [Unicode] in
/-- Reopening after a stop in the one-time pinning: every machine is held. -/
theorem crashSafe_pinExisting {file : Database} (hfile : PreReservationFile file)
    (now t : Timestamp) (k : Nat) :
    CrashSafe (fun _ => false) now (fun _ => False) file
      (openRegistry t (execAll ((pinExistingStatements now (addHardwareSpecColumn file)).take k)
        (addHardwareSpecColumn file)).db).db := by
  have hwiring : ∀ db mac, ((addHardwareSpecColumn db).machine mac).map Machine.wiring =
      (db.machine mac).map Machine.wiring := fun db =>
    addHardwareSpecColumn_machine db Machine.wiring fun _ _ => rfl
  have hunpinned : (addHardwareSpecColumn file).settings.lookup pinnedFlag = none := by
    rw [settings_addHardwareSpecColumn, hfile.not_pinned]
  have hfree : ∀ mac, file.unreleased mac = none := by
    intro mac
    rw [Database.unreleased, Table.lookup, hfile.no_reservations]
    rfl
  -- A reopening that pins leaves every machine with a hold that does not expire.
  have hreopen : ∀ db : Database, db.settings.lookup pinnedFlag = none →
      (∀ mac, (db.machine mac).map Machine.wiring = (file.machine mac).map Machine.wiring) →
      (∀ mac r, db.unreleased mac = some r → r.expiresAt = none) →
      CrashSafe (fun _ => false) now (fun _ => False) file (openRegistry t db).db := by
    intro db hdb hsame hexp
    obtain ⟨db', hopen, -, hmachine, hkeep, hpinned, -⟩ := openRegistry_unpinned t hdb
    rw [hopen]
    refine crashSafe_of_held hfile now (fun mac m hm => ?_) fun mac => ?_
    · cases hu : db.unreleased mac with
      | some r => exact ⟨r, hkeep mac r hu, hexp mac r hu⟩
      | none =>
        have hmac := addHardwareSpecColumn_machine db Machine.mac (fun _ _ => rfl) mac
        rw [← hmachine, hm, Option.map_some] at hmac
        obtain ⟨m₀, hm₀, -⟩ := Option.map_eq_some_iff.mp hmac.symm
        obtain ⟨r, hr, -, hnone⟩ := hpinned mac m₀ hm₀ hu
        exact ⟨r, hr, hnone⟩
    · rw [hmachine, hwiring, hsame]
  obtain ⟨db₁, hrun, -, hpin, hnone, hmachine, hrest⟩ :=
    execAll_migrationPins now (addHardwareSpecColumn file)
  have hfresh : db₁.settings.lookup pinnedFlag = none := by
    rw [hrest.settings, hunpinned]
  have hheld : ∀ mac r, db₁.unreleased mac = some r → r.expiresAt = none := by
    intro mac r hr
    have hfree' := (unreleased_addHardwareSpecColumn file mac).trans (hfree mac)
    cases hm : (addHardwareSpecColumn file).machine mac with
    | none =>
      rw [hnone mac hm, hfree'] at hr
      cases hr
    | some m =>
      obtain ⟨id, hid⟩ := hpin mac m hm hfree'
      rw [hid] at hr
      cases hr
      rfl
  have hsame : ∀ mac, (db₁.machine mac).map Machine.wiring =
      (file.machine mac).map Machine.wiring := fun mac =>
    (congrArg _ (hmachine mac)).trans (hwiring file mac)
  rw [pinExistingStatements_of_unpinned now hunpinned]
  obtain _ | _ | k := k
  · rw [List.take_zero, execAll_nil]
    refine hreopen _ hunpinned (hwiring file) fun mac r hr => ?_
    rw [unreleased_addHardwareSpecColumn, hfree] at hr
    cases hr
  · rw [List.take_succ_cons, List.take_zero, execAll_cons_ok hrun, execAll_nil]
    exact hreopen db₁ hfresh hsame hheld
  · obtain ⟨settings, hflag, hpinned⟩ := insertPinnedFlag_ok now hfresh
    have hspec := hrest.hardwareSpecAdded.trans (hardwareSpecAdded_addHardwareSpecColumn file)
    have hdone : HasRun { db₁ with settings } := ⟨hpinned, hspec⟩
    rw [List.take_succ_cons, List.take_succ_cons, List.take_nil, execAll_cons_ok hrun,
      execAll_cons_ok hflag, execAll_nil, openRegistry_of_hasRun t hdone]
    refine crashSafe_of_held hfile now (fun mac m hm => ?_) hsame
    have hrow : (addHardwareSpecColumn file).machine mac = some m := (hmachine mac).symm.trans hm
    obtain ⟨id, hid⟩ := hpin mac m hrow
      ((unreleased_addHardwareSpecColumn file mac).trans (hfree mac))
    exact ⟨_, hid, rfl⟩

variable [IpAddress]

/-- **Where a stop breaks the rules.** After any run: a stop inside `enroll`, `pin` or `remove`,
followed by a reopening, leaves a machine unprotected or takes its reservation or its wiring,
exactly at the cuts of `UnsafeCut`. A stop inside the one-time pinning never does. -/
theorem crashSafe_iff {s₀ s : Registry} {calls : List Call} (hopen : Opened s₀)
    (hrun : Run Step s₀ calls s) :
    (∀ (op : Interruptible) (now t : Timestamp) (k : Nat),
      CrashSafe (releasedToPool calls) now op.Removes s.db (openRegistry t (op.cut now k s.db)).db ↔
        ¬ op.UnsafeCut now s.db k) ∧
    ∀ file : Database, PreReservationFile file → ∀ (now t : Timestamp) (k : Nat),
      CrashSafe (fun _ => false) now (fun _ => False) file
        (openRegistry t (execAll ((pinExistingStatements now (addHardwareSpecColumn file)).take k)
          (addHardwareSpecColumn file)).db).db := by
  have hsound := sound_runs hrun hopen.sound
  have hpool := Pooled.of_run hopen hrun
  refine ⟨fun op now t k => ?_, fun file hfile now t k => crashSafe_pinExisting hfile now t k⟩
  cases op with
  | enroll args => exact crashSafe_enroll hsound hpool args k
  | pin req => exact crashSafe_pin hsound hpool req k
  | remove mac => exact crashSafe_remove hsound hpool mac k

end Safe

section Examples

attribute [local instance] ascii noNetworks

/-- A stop after the first write of a first `enroll`: the machine can be reserved. -/
theorem not_crashSafe_enroll : Opened newRegistry ∧ Run Step newRegistry [] newRegistry ∧
    ¬ CrashSafe (releasedToPool []) 5 (Interruptible.enroll desktop).Removes newRegistry.db
      (openRegistry 6 ((Interruptible.enroll desktop).cut 5 1 newRegistry.db)).db := by
  refine ⟨newRegistry_opened, .nil, fun h => ?_⟩
  have hrow : (openRegistry 6 ((Interruptible.enroll desktop).cut 5 1 newRegistry.db)).db.machine
      "52:54:00:12:34:56" = some (desktop.row .volatile 5) := rfl
  have hfree := h.unavailable "52:54:00:12:34:56" _ hrow rfl 7
  revert hfree
  decide

/-- A stop between the two writes of a second `enroll`, of a machine without any wiring. -/
theorem crashSafe_iff_desktop :
    CrashSafe
      (releasedToPool [⟨5, .enroll desktop, ((Operation.enroll desktop).run 5 newRegistry.db).value⟩])
      6 (Interruptible.enroll desktop).Removes (newRegistry.after 5 (.enroll desktop)).db
      (openRegistry 7 ((Interruptible.enroll desktop).cut 6 1
        (newRegistry.after 5 (.enroll desktop)).db)).db := by
  have hwiring : ((newRegistry.after 5 (.enroll desktop)).db.machine (normaliseMac desktop.mac)).map
      Machine.wiring = some ⟨none, none, none, none⟩ := by
    decide +kernel
  obtain ⟨m, hm, hnone⟩ := Option.map_eq_some_iff.mp hwiring
  have hrun : Run Step newRegistry _ (newRegistry.after 5 (.enroll desktop)) :=
    .single (Registry.step_after (by decide) (.enroll desktop))
  exact ((crashSafe_iff newRegistry_opened hrun).1 (.enroll desktop) 6 7 1).mpr fun h =>
    h.2.2 m hm hnone

end Examples

end Fleetboot
