import Fleetboot.Registry.Holds

/-!
# What `reserve` leases

`reserve` selects by a query, then clears, inserts and updates machine after machine. Here is
what all of that amounts to, for the machines it leases and for all the others.

* `mem_reservableMacs_iff`: the query, in terms of the rows.
* `execAll_keeps`: what no statement touches, the whole loop leaves alone.
* `exactlyLeased_reserve`: the first machines in the order of their MACs are leased, nothing else
  moves.
-/

set_option autoImplicit false

namespace Fleetboot

open Python Relational Transition

/-! ## Whom the query selects -/

/-- Two names of one architecture. -/
def SameArchitecture (name name' : String) : Prop :=
  name = name' ∨ (name ∈ ["amd64", "x86_64", "x64"] ∧ name' ∈ ["amd64", "x86_64", "x64"]) ∨
    (name ∈ ["arm64", "aarch64"] ∧ name' ∈ ["arm64", "aarch64"])

theorem mem_architectureAliases_iff {name wanted : String} :
    name ∈ architectureAliases wanted ↔ SameArchitecture name wanted := by
  unfold architectureAliases SameArchitecture
  split
  · rename_i hwanted
    constructor
    · intro hname
      exact .inr (.inl ⟨hname, hwanted⟩)
    · rintro (rfl | ⟨hname, -⟩ | ⟨-, harm⟩)
      · exact hwanted
      · exact hname
      · simp only [List.mem_cons, List.not_mem_nil, or_false] at hwanted harm
        rcases harm with rfl | rfl <;> simp at hwanted
  · rename_i hx86
    split
    · rename_i hwanted
      constructor
      · intro hname
        exact .inr (.inr ⟨hname, hwanted⟩)
      · rintro (rfl | ⟨-, hbad⟩ | ⟨hname, -⟩)
        · exact hwanted
        · exact absurd hbad hx86
        · exact hname
    · rename_i harm
      rw [List.mem_singleton]
      constructor
      · exact .inl
      · rintro (rfl | ⟨-, hbad⟩ | ⟨-, hbad⟩)
        · rfl
        · exact absurd hbad hx86
        · exact absurd hbad harm

theorem matchesFilter_iff {architecture : Option String} {name : String} :
    matchesFilter architecture name = true ↔
      ∀ wanted, architecture = some wanted → wanted ≠ "" → SameArchitecture name wanted := by
  unfold matchesFilter
  split
  · simp
  · simp
  · rename_i wanted hne
    rw [decide_eq_true_iff, mem_architectureAliases_iff]
    constructor
    · rintro hsame _ ⟨⟩ -
      exact hsame
    · intro h
      exact h wanted rfl fun hempty => hne hempty

/-- An enrolled machine that has no active reservation and matches the filter. -/
def Reservable (now : Timestamp) (architecture : Option String) (db : Database) (mac : String) :
    Prop :=
  ∃ m ∈ db.machines.rows, m.mac = mac ∧
    (∀ r ∈ db.reservations.rows, r.mac = mac → r.isActive now = false) ∧
    ∀ wanted, architecture = some wanted → wanted ≠ "" → SameArchitecture m.architecture wanted

/-- The candidate query of `reserve` without its limit. -/
def reservableMacs (now : Timestamp) (architecture : Option String) (db : Database) :
    List String :=
  ((db.machines.rows.filter fun m =>
    db.isFree now m.mac && matchesFilter architecture m.architecture).map
      Machine.mac).insertionSort (· ≤ ·)

section Query

variable {now : Timestamp} {req : ReserveRequest} {db : Database} {mac : String}
  {architecture : Option String}

theorem reserveCandidates_eq :
    reserveCandidates now req db =
      (reservableMacs now req.architecture db).take req.count.toNat := rfl

theorem isFree_iff_rows :
    db.isFree now mac = true ↔
      ∀ r ∈ db.reservations.rows, r.mac = mac → r.isActive now = false := by
  simp [Database.isFree]

theorem mem_reservableMacs_iff :
    mac ∈ reservableMacs now architecture db ↔ Reservable now architecture db mac := by
  unfold reservableMacs Reservable
  rw [List.mem_insertionSort, List.mem_map]
  constructor
  · rintro ⟨m, hm, rfl⟩
    rw [List.mem_filter, Bool.and_eq_true, isFree_iff_rows, matchesFilter_iff] at hm
    exact ⟨m, hm.1, rfl, hm.2.1, hm.2.2⟩
  · rintro ⟨m, hrow, rfl, hfree, hmatches⟩
    refine ⟨m, ?_, rfl⟩
    rw [List.mem_filter, Bool.and_eq_true, isFree_iff_rows, matchesFilter_iff]
    exact ⟨hrow, hfree, hmatches⟩

/-- The selected MACs come in ascending order, each once. -/
theorem ascending_reservableMacs : (reservableMacs now architecture db).Pairwise (· < ·) := by
  have hmacs : (db.machines.rows.map Machine.mac).Nodup := by simpa using db.machines.unique
  have hnodup : (reservableMacs now architecture db).Nodup :=
    (List.perm_insertionSort _ _).nodup_iff.mpr
      (hmacs.sublist (List.filter_sublist.map Machine.mac))
  have hsorted : (reservableMacs now architecture db).Pairwise (· ≤ ·) :=
    List.pairwise_insertionSort _ _
  exact (hsorted.and hnodup).imp fun h => lt_of_le_of_ne h.1 h.2

end Query

/-! ## What the loop leaves alone -/

/-- What every statement keeps, the sequence keeps. -/
theorem execAll_keeps {β : Type} (view : Database → β) {statements : List Statement}
    (h : ∀ statement ∈ statements, ∀ db db', statement db = .ok db' → view db' = view db)
    (db : Database) : view (execAll statements db).db = view db := by
  induction statements generalizing db with
  | nil => rfl
  | cons statement rest ih =>
    obtain ⟨hfirst, hrest⟩ := List.forall_mem_cons.mp h
    cases hrun : statement db with
    | ok db' => rw [execAll_cons_ok hrun, ih hrest, hfirst db db' hrun]
    | error err => rw [execAll_cons_error hrun]

/-- All reservations that a MAC has and had. -/
def Database.reservationsOf (db : Database) (mac : String) : List Reservation :=
  db.reservations.rows.filter fun r => r.mac == mac

theorem reservationsOf_releaseReservations {db : Database} {now : Timestamp}
    {p : Reservation → Bool} {mac : String} (hp : ∀ r, r.mac = mac → p r = false) :
    (db.releaseReservations now p).reservationsOf mac = db.reservationsOf mac := by
  unfold Database.reservationsOf Database.releaseReservations
  rw [Table.rows_update, List.filter_map]
  have hmac : ((fun r : Reservation => r.mac == mac) ∘
      fun r : Reservation => if p r then { r with releasedAt := some now } else r) =
      fun r => r.mac == mac := by
    funext r
    rw [Function.comp_apply]
    split <;> rfl
  rw [hmac]
  refine (List.map_congr_left fun r hr => ?_).trans (List.map_id _)
  have hrmac : r.mac = mac := by simpa using (List.mem_filter.mp hr).2
  simp [hp r hrmac]

theorem reservationsOf_insertReservation {db db' : Database} {now : Timestamp}
    {new : Database.NewReservation} {mac : String} (hmac : new.mac ≠ mac)
    (h : Database.insertReservation now new db = .ok db') :
    db'.reservationsOf mac = db.reservationsOf mac := by
  have hins := Database.inserted_of_ok h
  unfold Database.reservationsOf
  rw [hins.rows, List.filter_append]
  simp [Database.NewReservation.row, hmac]

/-- The statements for one candidate concern that candidate's reservations only. -/
theorem reservationsOf_leaseStatements {now : Timestamp} {req : ReserveRequest}
    {mac mac' : String} (hne : mac ≠ mac') :
    ∀ statement ∈ leaseStatements now req mac, ∀ db db', statement db = .ok db' →
      db'.reservationsOf mac' = db.reservationsOf mac' := by
  intro statement hmem db db' hrun
  simp only [leaseStatements, List.mem_cons, List.not_mem_nil, or_false] at hmem
  rcases hmem with rfl | rfl | rfl
  · cases hrun
    refine reservationsOf_releaseReservations fun r hr => ?_
    rw [Bool.and_eq_false_iff, beq_eq_false_iff_ne, hr]
    exact .inl hne.symm
  · unfold insertLease at hrun
    split at hrun
    · cases hrun
    · exact reservationsOf_insertReservation hne hrun
  · cases hrun
    rfl

theorem reservationsOf_reserve [Unicode] {now : Timestamp} {req : ReserveRequest}
    {db : Database} {mac : String} (hmac : mac ∉ reserveCandidates now req db) :
    (reserve now req db).db.reservationsOf mac = db.reservationsOf mac := by
  unfold reserve
  cases req.check with
  | error err => rfl
  | ok checked =>
    dsimp only
    have hloop := @execAll_keeps _ (fun db => db.reservationsOf mac)
      ((reserveCandidates now req db).flatMap (leaseStatements now req))
      (fun statement hmem => by
        obtain ⟨mac', hmac', hmem'⟩ := List.mem_flatMap.mp hmem
        refine reservationsOf_leaseStatements ?_ statement hmem'
        rintro rfl
        exact hmac hmac') db
    unfold Outcome.andThen
    split <;> exact hloop

/-! ## What it leases -/

/-- The arguments that `reserve` accepts: within SQLite's integers and dates, and not blank. -/
structure ReserveRequest.Sensible (now : Timestamp) (req : ReserveRequest) : Prop where
  profile : strip req.profile ≠ ""
  holder : strip req.holder ≠ ""
  count : 0 < req.count
  countInteger : req.count < 2 ^ 63
  ttl : 0 < req.ttlSeconds
  ttlDate : ∃ expiry, datetimePlus now req.ttlSeconds = some expiry

/-- `reserve` has leased the machines `leased`, and did nothing else. -/
structure ExactlyLeased (now : Timestamp) (req : ReserveRequest) (leased : List String)
    (db : Database) (out : Outcome (List Machine)) : Prop where
  /-- It returns their rows. -/
  returned : ∃ machines, out.value = .ok machines ∧ machines.map Machine.mac = leased ∧
    ∀ m ∈ machines, out.db.machine m.mac = some m
  /-- Each has one unreleased reservation, the lease asked for. -/
  held : ∀ mac ∈ leased, ∃ r,
    (out.db.reservationsOf mac).filter Reservation.isUnreleased = [r] ∧
      r.isActive now = true ∧ r.leaseKind = .lease ∧ r.holder = strip req.holder ∧
      r.purpose = req.purpose ∧ r.profile = some (strip req.profile) ∧
      r.expiresAt = datetimePlus now req.ttlSeconds
  /-- Only the profile of their rows changes. -/
  switched : ∀ mac ∈ leased, ∃ m, db.machine mac = some m ∧
    out.db.machine mac = some { m with profileName := strip req.profile }
  others : ∀ mac, mac ∉ leased → out.db.machine mac = db.machine mac ∧
    out.db.reservationsOf mac = db.reservationsOf mac
  rest : SameRest db out.db

section Exact

variable {now : Timestamp} {req : ReserveRequest} {db : Database} {mac : String}

theorem ReserveRequest.Sensible.check_eq (h : req.Sensible now) : req.check = .ok () := by
  have httl : ¬(0 < req.count ∧ req.ttlSeconds ≤ 0) := fun hbad => by
    have := h.ttl
    omega
  have hcount : ¬2 ^ 63 ≤ req.count := Int.not_le.mpr h.countInteger
  unfold ReserveRequest.check
  rw [if_neg h.profile, if_neg h.holder, if_neg httl, if_neg hcount]

/-- An expiry that is a date has few digits. -/
theorem ReserveRequest.Sensible.digits (h : req.Sensible now) :
    ∃ text, strOfInt req.ttlSeconds = .ok text := by
  obtain ⟨expiry, hexpiry⟩ := h.ttlDate
  refine ⟨_, strOfInt_of_lt ?_⟩
  have hpos := h.ttl
  have hle : req.ttlSeconds ≤ lastTimestamp := by
    unfold datetimePlus at hexpiry
    split at hexpiry
    · rename_i hrange
      have hnow : (0 : Int) ≤ (now : Int) := Int.natCast_nonneg now
      omega
    · cases hexpiry
  have hdate : req.ttlSeconds.natAbs ≤ lastTimestamp := by omega
  have hlast : lastTimestamp < 10 ^ 12 := by decide
  have hpow : 10 ^ 12 ≤ 10 ^ maxStrDigits := Nat.pow_le_pow_right (by decide) (by decide)
  exact (Nat.lt_of_le_of_lt hdate hlast).trans_le hpow

/-- The unreleased reservation of a MAC is its only one. -/
theorem filter_isUnreleased_reservationsOf {r : Reservation} (h : db.unreleased mac = some r) :
    (db.reservationsOf mac).filter Reservation.isUnreleased = [r] := by
  have hle := Table.length_filter_key_le_one db.reservations mac
  have hrow := unreleased_eq_some_iff.mp h
  have hmem : r ∈ db.reservations.rows.filter
      fun r => r.isUnreleased && decide (r.mac = mac) := by
    rw [List.mem_filter]
    exact ⟨hrow.1, by simp [Reservation.isUnreleased, hrow.2.1, hrow.2.2]⟩
  unfold Database.reservationsOf
  rw [List.filter_filter]
  have hsame : (fun r : Reservation => r.isUnreleased && (r.mac == mac)) =
      fun r => r.isUnreleased && decide (r.mac = mac) := rfl
  rw [hsame]
  obtain ⟨r', hr'⟩ := List.length_eq_one_iff.mp
    (Nat.le_antisymm hle (List.length_pos_of_mem hmem))
  rw [hr'] at hmem ⊢
  rw [List.mem_singleton.mp hmem]

variable [Unicode]

/-- The MAC of a machine that nobody holds is in normal form. -/
theorem Sound.normaliseMac_of_free (hsound : Sound db) (hfree : db.isFree now mac = true)
    {m : Machine} (hm : db.machine mac = some m) : normaliseMac mac = mac := by
  have hstanding := hsound.standing mac
  rcases hstanding.normal m hm with hnormal | ⟨r, hr, hkind⟩
  · exact hnormal
  · have hactive := isActive_of_unexpiring now (Database.releasedAt_of_unreleased hr)
      (hstanding.unexpiring r hr hkind)
    rw [isFree_iff.mp hfree r hr] at hactive
    cases hactive

/-- Looking up the leased MACs again finds their rows. -/
theorem filterMap_lookup {macs : List String} {db' : Database}
    (hfound : ∀ mac ∈ macs, normaliseMac mac = mac ∧ ∃ m, db'.machine mac = some m) :
    (macs.filterMap db'.lookup).map Machine.mac = macs ∧
      ∀ m ∈ macs.filterMap db'.lookup, db'.machine m.mac = some m := by
  induction macs with
  | nil => exact ⟨rfl, by simp⟩
  | cons mac macs ih =>
    obtain ⟨⟨hnormal, m, hm⟩, hrest⟩ := List.forall_mem_cons.mp hfound
    obtain ⟨hmacs, hrows⟩ := ih hrest
    have hlookup : db'.lookup mac = some m := by
      unfold Database.lookup
      rw [hnormal, hm]
    have hmac : m.mac = mac := Database.mac_of_machine hm
    rw [List.filterMap_cons_some hlookup, List.map_cons, hmacs, hmac]
    refine ⟨rfl, ?_⟩
    rw [List.forall_mem_cons]
    exact ⟨by rw [hmac, hm], hrows⟩

/-- What the effect of the loop amounts to. -/
theorem Leased.exactlyLeased {db' : Database} (hsound : Sound db) (hcheck : req.check = .ok ())
    (h : Leased now req (reserveCandidates now req db) db db')
    (hothers : ∀ mac, mac ∉ reserveCandidates now req db →
      db'.reservationsOf mac = db.reservationsOf mac) :
    ExactlyLeased now req (reserveCandidates now req db) db
      ⟨db', .ok ((reserveCandidates now req db).filterMap db'.lookup)⟩ := by
  have hswitched : ∀ mac ∈ reserveCandidates now req db, ∃ m, db.machine mac = some m ∧
      db'.machine mac = some { m with profileName := strip req.profile } := by
    intro mac hmac
    obtain ⟨-, m, hm⟩ := mem_reserveCandidates hmac
    refine ⟨m, hm, ?_⟩
    rw [h.machine, if_pos hmac, hm, Option.map_some]
  have hfound : ∀ mac ∈ reserveCandidates now req db,
      normaliseMac mac = mac ∧ ∃ m, db'.machine mac = some m := by
    intro mac hmac
    obtain ⟨hfree, m, hm⟩ := mem_reserveCandidates hmac
    obtain ⟨m', -, hm'⟩ := hswitched mac hmac
    exact ⟨hsound.normaliseMac_of_free hfree hm, _, hm'⟩
  refine
    { returned := ⟨_, rfl, filterMap_lookup hfound⟩
      held := ?_
      switched := hswitched
      others := fun mac hmac => ⟨?_, hothers mac hmac⟩
      rest := h.rest }
  · intro mac hmac
    obtain ⟨id, -, hlease⟩ := h.lease mac hmac
    exact ⟨_, filter_isUnreleased_reservationsOf hlease, isActive_row_lease hcheck hmac id,
      rfl, rfl, rfl, rfl, rfl⟩
  · change db'.machine mac = db.machine mac
    rw [h.machine, if_neg hmac]

/-- **`reserve` is exact.** In every sound database it leases the first machines, in the order
of their MACs, that nobody holds and that match the filter. -/
theorem exactlyLeased_reserve (hsound : Sound db) (hreq : req.Sensible now) :
    ∃ free : List String, free.Pairwise (· < ·) ∧
      (∀ mac, mac ∈ free ↔ Reservable now req.architecture db mac) ∧
      ExactlyLeased now req (free.take (min req.count.toNat free.length)) db
        (reserve now req db) := by
  refine ⟨reservableMacs now req.architecture db, ascending_reservableMacs,
    fun mac => mem_reservableMacs_iff, ?_⟩
  rw [← List.take_eq_take_min, ← reserveCandidates_eq]
  have hothers : ∀ mac, mac ∉ reserveCandidates now req db →
      (reserve now req db).db.reservationsOf mac = db.reservationsOf mac :=
    fun mac hmac => reservationsOf_reserve hmac
  rcases hcases : reserve now req db with ⟨db', value⟩
  have hreserved := reserve_cases now req db
  rw [hcases] at hreserved hothers
  cases hreserved with
  | refused hrefused =>
    rw [hreq.check_eq] at hrefused
    cases hrefused
  | overlong hlong _ =>
    obtain ⟨text, htext⟩ := hreq.digits
    rw [htext] at hlong
    cases hlong
  | leased hcheck _ hleased => exact hleased.exactlyLeased hsound hcheck hothers

end Exact

section Examples

attribute [local instance] ascii noNetworks

/-- A desktop in the pool. -/
def desktopInPool : Registry :=
  (newRegistry.after 5 (.enroll desktop)).after 6 (.releaseToPool desktop.mac)

end Examples

end Fleetboot
