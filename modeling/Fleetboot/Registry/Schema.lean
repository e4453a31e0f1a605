import Fleetboot.Library.Table
import Fleetboot.Library.Serial
import Fleetboot.BootStates
import Fleetboot.HardwareSpec

/-!
# The registry database

The rows and tables of `registry.py` and of the session store that shares its file, and the
few SQL statements that the registry's methods are made of. Timestamps are whole seconds, as
`datetime('now')` stores them; the text comparison of two timestamps is the comparison of the
seconds they stand for, which is sound inside the range that SQLite can print.

The partial unique index `idx_reservations_one_active` and the primary keys are carried by the
tables. So `db.unreleased mac` is *the* reservation of a MAC with `released_at` NULL, expired or
not, and the effect of each statement on it is one equation.

* `Database.unreleased_releaseReservations`, `unreleased_setExpiry`,
  `unreleased_deleteReservations`, `insertReservation_ok`: the statements on reservations.
* `Database.machine_updateMachine`, `machine_replaceMachine`, `machine_deleteMachine`: the
  statements on machines.
* `normaliseMac_normaliseMac`: a stored MAC looks up itself.
-/

set_option autoImplicit false

namespace Fleetboot

open Python Relational

/-! ## Time -/

/-- Seconds since the epoch, as `datetime('now')` reads the clock. -/
abbrev Timestamp := Nat

/-- `9999-12-31 23:59:59`, the last second SQLite's date functions can print. -/
def lastTimestamp : Timestamp := 253402300799

/-- `datetime('now', '+N seconds')`: NULL outside the supported range, and for the malformed
modifier `+-N seconds`. -/
def datetimePlus (now : Timestamp) (seconds : Int) : Option Timestamp :=
  if 0 ≤ seconds ∧ (now : Int) + seconds ≤ lastTimestamp then some (now + seconds.toNat) else none

/-! ## Rows -/

inductive ScratchMode
  | volatile
  | persistent
  | off
  deriving DecidableEq

namespace ScratchMode

def text : ScratchMode → String
  | volatile => "volatile"
  | persistent => "persistent"
  | off => "off"

/-- `scratch_mode in ("volatile", "persistent", "off")`, as a reading of the text. -/
def ofText (text : String) : Option ScratchMode :=
  [volatile, persistent, off].find? fun mode => mode.text == text

theorem ofText_text (mode : ScratchMode) : ofText mode.text = some mode := by
  cases mode <;> decide

theorem text_of_ofText {text : String} {mode : ScratchMode} (h : ofText text = some mode) :
    mode.text = text := by
  simpa using List.find?_some h

theorem isSome_ofText_iff {text : String} :
    (ofText text).isSome ↔ text ∈ ["volatile", "persistent", "off"] := by
  have htexts : ["volatile", "persistent", "off"] =
      [volatile, persistent, off].map ScratchMode.text := rfl
  rw [ofText, List.find?_isSome, htexts, List.mem_map]
  simp only [beq_iff_eq]

end ScratchMode

inductive LeaseKind
  | permanent
  | lease
  deriving DecidableEq

/-- A row of `machines`. -/
structure Machine where
  mac : String
  profileName : String
  architecture : String
  platform : String
  serialConsole : Bool := false
  enrolledBy : String := "manual"
  hostname : Option String := none
  hostnameSeenAt : Option Timestamp := none
  bootVersion : Option String := none
  bootVersionSeenAt : Option Timestamp := none
  scratchMode : ScratchMode := .volatile
  lastDiagnostics : Option String := none
  lastDiagnosticsAt : Option Timestamp := none
  lastHardware : Option Fields := none
  lastHardwareAt : Option Timestamp := none
  hardwareSpec : Option Fields := none
  lastIp : Option String := none
  lastIpAt : Option Timestamp := none
  rebootCommand : Option String := none
  powerOnCommand : Option String := none
  powerOffCommand : Option String := none
  pduAlias : Option String := none
  pendingReboot : Bool := false
  createdAt : Timestamp

/-- A row of `reservations`. -/
structure Reservation where
  id : Nat
  mac : String
  holder : String
  purpose : Option String
  leaseKind : LeaseKind
  profile : Option String
  acquiredAt : Timestamp
  expiresAt : Option Timestamp
  releasedAt : Option Timestamp
  deriving DecidableEq

/-- `released_at IS NULL`, the rows `idx_reservations_one_active` covers. -/
def Reservation.isUnreleased (r : Reservation) : Bool := r.releasedAt.isNone

/-- `_ACTIVE_RESERVATION_WHERE`. -/
def Reservation.isActive (now : Timestamp) (r : Reservation) : Bool :=
  r.releasedAt.isNone && (match r.expiresAt with
    | none => true
    | some expiry => decide (now < expiry))

inductive MatchKind
  | macPrefix
  | ipCidr
  deriving DecidableEq

/-- A row of `auto_enrol_rules`. -/
structure AutoEnrolRule where
  id : Nat
  name : String
  matchKind : MatchKind
  matchValue : String
  profileName : String
  architecture : String
  platform : String
  serialConsole : Bool
  createdAt : Timestamp
  scratchMode : ScratchMode
  deriving DecidableEq

/-- A row of `boot_events`. -/
structure BootEvent where
  id : Nat
  mac : String
  state : String
  detail : Option String
  occurredAt : Timestamp
  deriving DecidableEq

/-- A row of `settings`. -/
structure Setting where
  key : String
  value : String
  updatedAt : Timestamp
  deriving DecidableEq

/-- A row of `boot_sessions`. -/
structure SessionRow where
  token : String
  mac : String
  mintedAt : Timestamp
  latestState : Option BootState
  latestStateAt : Option Timestamp
  deriving DecidableEq

/-- The database file. `nextReservationId` is the `AUTOINCREMENT` sequence of `reservations`;
`hardwareSpecAdded` says that the `hardware_spec` column exists, and so was backfilled. -/
structure Database where
  machines : Table Machine String (fun _ => true) Machine.mac
  reservations : Table Reservation String Reservation.isUnreleased Reservation.mac
  nextReservationId : Nat
  settings : Table Setting String (fun _ => true) Setting.key
  rules : Serial AutoEnrolRule AutoEnrolRule.id
  bootEvents : Serial BootEvent BootEvent.id
  bootSessions : Table SessionRow String (fun _ => true) SessionRow.token
  hardwareSpecAdded : Bool

/-! ## Outcomes -/

/-- What a call leaves: the database as far as its statements got, and what the call
returned or raised. The connection is in autocommit mode, so an exception undoes nothing. -/
structure Outcome (α : Type) where
  db : Database
  value : Except Exception α

/-- One SQL statement: it takes effect as a whole or raises and has none. -/
abbrev Statement := Database → Except Exception Database

/-- Statement after statement, up to the first that raises. -/
def execAll : List Statement → Database → Outcome Unit
  | [], db => ⟨db, .ok ()⟩
  | statement :: rest, db =>
    match statement db with
    | .ok db' => execAll rest db'
    | .error err => ⟨db, .error err⟩

/-- Go on with what a call returned, or pass its exception up. -/
def Outcome.andThen {α β : Type} (out : Outcome α) (next : α → Database → Outcome β) :
    Outcome β :=
  match out.value with
  | .ok a => next a out.db
  | .error err => ⟨out.db, .error err⟩

/-! ## MAC addresses -/

section Mac

variable [Unicode]

/-- `_normalise_mac`: lower case, colons for separators. -/
def normaliseMac (mac : String) : String :=
  strip (lower (replaceChar (replaceChar mac '-' ':') '.' ':'))

/-- The separators that are replaced do not come back. -/
theorem not_separator_of_mem_normaliseMac {mac : String} {c : Char}
    (hc : c ∈ (normaliseMac mac).toList) : c ≠ '-' ∧ c ≠ '.' := by
  have hreplaced : ∀ d ∈ (replaceChar (replaceChar mac '-' ':') '.' ':').toList,
      d ≠ '-' ∧ d ≠ '.' := by
    intro d hd
    simp only [replaceChar, String.toList_ofList, List.map_map, List.mem_map,
      Function.comp_apply] at hd
    obtain ⟨e, -, rfl⟩ := hd
    by_cases hdash : e = '-'
    · subst hdash
      decide
    · by_cases hdot : e = '.'
      · subst hdot
        decide
      · simp [hdash, hdot]
  rw [normaliseMac, strip, lower, String.toList_ofList, String.toList_ofList] at hc
  have hmem := (stripChars_isInfix _).subset hc
  constructor
  · intro h
    exact (hreplaced c (Unicode.mem_of_mem_lower _ c (Or.inl h) hmem)).1 h
  · intro h
    exact (hreplaced c (Unicode.mem_of_mem_lower _ c (Or.inr h) hmem)).2 h

theorem normaliseMac_normaliseMac (mac : String) :
    normaliseMac (normaliseMac mac) = normaliseMac mac := by
  obtain ⟨cs, hmac⟩ : ∃ cs : List Char,
      normaliseMac mac = String.ofList (stripChars (Unicode.lower cs)) :=
    ⟨_, by rw [normaliseMac, strip, lower, String.toList_ofList]⟩
  -- Nothing is left to replace, lower or strip in a normalised MAC.
  have hsep : ∀ c ∈ stripChars (Unicode.lower cs), c ≠ '-' ∧ c ≠ '.' := by
    intro c hc
    refine @not_separator_of_mem_normaliseMac _ mac c ?_
    rw [hmac, String.toList_ofList]
    exact hc
  have hrep : (stripChars (Unicode.lower cs)).map
      ((fun c => if c == '.' then ':' else c) ∘ fun c => if c == '-' then ':' else c) =
      stripChars (Unicode.lower cs) := by
    rw [List.map_congr_left (g := id) fun c hc => ?_, List.map_id]
    simp [(hsep c hc).1, (hsep c hc).2]
  rw [hmac]
  simp only [normaliseMac, replaceChar, strip, lower, String.toList_ofList, List.map_map, hrep,
    lower_strip_lower, stripChars_stripChars]

end Mac

/-! ## Statements on machines -/

namespace Database

/-- `UPDATE machines SET … WHERE mac = ?`. -/
def updateMachine (db : Database) (mac : String) (f : Machine → Machine)
    (hmac : ∀ m, (f m).mac = m.mac := by intro _; rfl) : Database :=
  { db with
    machines := db.machines.update (fun m => if m.mac = mac then f m else m)
      (fun _ _ => rfl) (fun m => by split <;> simp [hmac]) }

/-- `INSERT OR REPLACE INTO machines`. -/
def replaceMachine (db : Database) (row : Machine) : Database :=
  { db with machines := db.machines.replace row }

/-- `DELETE FROM machines WHERE mac = ?`. -/
def deleteMachine (db : Database) (mac : String) : Database :=
  { db with machines := db.machines.delete fun m => m.mac == mac }

/-- The row of a MAC as stored. -/
def machine (db : Database) (mac : String) : Option Machine := db.machines.lookup mac

theorem mac_of_machine {db : Database} {mac : String} {m : Machine}
    (h : db.machine mac = some m) : m.mac = mac :=
  Table.key_of_lookup h

theorem machine_updateMachine (db : Database) (mac : String) (f : Machine → Machine)
    (hmac : ∀ m, (f m).mac = m.mac) (k : String) :
    (db.updateMachine mac f hmac).machine k =
      if k = mac then (db.machine k).map f else db.machine k := by
  unfold machine updateMachine
  rw [Table.lookup_update]
  cases h : db.machines.lookup k with
  | none => simp
  | some m =>
    have hk := Table.key_of_lookup h
    by_cases hm : k = mac <;> simp [hk, hm]

theorem machine_replaceMachine (db : Database) (row : Machine) (k : String) :
    (db.replaceMachine row).machine k = if k = row.mac then some row else db.machine k := by
  unfold machine replaceMachine
  rw [Table.lookup_replace _ rfl]
  simp only [eq_comm]

theorem machine_deleteMachine (db : Database) (mac k : String) :
    (db.deleteMachine mac).machine k = if k = mac then none else db.machine k := by
  unfold machine deleteMachine
  rw [Table.lookup_delete]
  cases h : db.machines.lookup k with
  | none => simp
  | some m =>
    have hk := Table.key_of_lookup h
    by_cases hm : k = mac <;> simp [Option.filter, hk, hm]

/-! ## Statements on reservations -/

/-- The message of `sqlite3.IntegrityError` for `idx_reservations_one_active`. -/
def oneActiveViolation : Exception :=
  .integrityError "UNIQUE constraint failed: reservations.mac"

/-- A reservation row before the database gives it an id and an `acquired_at`. -/
structure NewReservation where
  mac : String
  holder : String
  purpose : Option String
  leaseKind : LeaseKind
  profile : Option String
  expiresAt : Option Timestamp := none

/-- The row that `INSERT INTO reservations` writes. -/
def NewReservation.row (new : NewReservation) (id : Nat) (now : Timestamp) : Reservation :=
  { id, mac := new.mac, holder := new.holder, purpose := new.purpose,
    leaseKind := new.leaseKind, profile := new.profile, acquiredAt := now,
    expiresAt := new.expiresAt, releasedAt := none }

/-- `INSERT INTO reservations`, refused by the partial unique index when the MAC has an
unreleased reservation. -/
def insertReservation (now : Timestamp) (new : NewReservation) : Statement := fun db =>
  match db.reservations.insert (new.row db.nextReservationId now) with
  | some reservations =>
    .ok { db with reservations, nextReservationId := db.nextReservationId + 1 }
  | none => .error oneActiveViolation

/-- `UPDATE reservations SET released_at = datetime('now') WHERE …`. -/
def releaseReservations (db : Database) (now : Timestamp) (p : Reservation → Bool) : Database :=
  { db with
    reservations := db.reservations.update
      (fun r => if p r then { r with releasedAt := some now } else r)
      (fun r => by split <;> simp [Reservation.isUnreleased])
      (fun r => by split <;> rfl) }

/-- `UPDATE reservations SET expires_at = ? WHERE …`. -/
def setExpiry (db : Database) (expiresAt : Option Timestamp) (p : Reservation → Bool) :
    Database :=
  { db with
    reservations := db.reservations.update
      (fun r => if p r then { r with expiresAt } else r)
      (fun r => by split <;> exact id)
      (fun r => by split <;> rfl) }

/-- `DELETE FROM reservations WHERE mac = ?`. -/
def deleteReservations (db : Database) (mac : String) : Database :=
  { db with reservations := db.reservations.delete fun r => r.mac == mac }

/-- The reservation of a MAC with `released_at` NULL, expired or not. -/
def unreleased (db : Database) (mac : String) : Option Reservation := db.reservations.lookup mac

theorem mac_of_unreleased {db : Database} {mac : String} {r : Reservation}
    (h : db.unreleased mac = some r) : r.mac = mac :=
  Table.key_of_lookup h

theorem releasedAt_of_unreleased {db : Database} {mac : String} {r : Reservation}
    (h : db.unreleased mac = some r) : r.releasedAt = none := by
  simpa [Reservation.isUnreleased] using Table.covered_of_lookup h

theorem insertReservation_ok {db : Database} (now : Timestamp) {new : NewReservation}
    (hfree : db.unreleased new.mac = none) :
    ∃ reservations, db.reservations.insert (new.row db.nextReservationId now) =
        some reservations ∧
      insertReservation now new db =
        .ok { db with reservations, nextReservationId := db.nextReservationId + 1 } := by
  have hs : (db.reservations.insert (new.row db.nextReservationId now)).isSome = true :=
    (Table.insert_isSome_iff rfl).mpr hfree
  obtain ⟨reservations, hr⟩ := Option.isSome_iff_exists.mp hs
  exact ⟨reservations, hr, by simp only [insertReservation, hr]⟩

theorem insertReservation_error {db : Database} {now : Timestamp} {new : NewReservation}
    {r : Reservation} (htaken : db.unreleased new.mac = some r) :
    insertReservation now new db = .error oneActiveViolation := by
  have hn : db.reservations.insert (new.row db.nextReservationId now) = none := by
    rw [← Option.not_isSome_iff_eq_none, Table.insert_isSome_iff rfl]
    change ¬ db.unreleased new.mac = none
    simp [htaken]
  simp only [insertReservation, hn]

/-- What a successful insertion does: the MAC has the new row, everything else stays. -/
structure Inserted (now : Timestamp) (new : NewReservation) (db db' : Database) : Prop where
  unreleased : ∀ k, db'.unreleased k =
    if k = new.mac then some (new.row db.nextReservationId now) else db.unreleased k
  rows : db'.reservations.rows = db.reservations.rows ++ [new.row db.nextReservationId now]
  nextId : db'.nextReservationId = db.nextReservationId + 1
  frame : db' = { db with reservations := db'.reservations,
                          nextReservationId := db'.nextReservationId }

theorem inserted_of_ok {db db' : Database} {now : Timestamp} {new : NewReservation}
    (h : insertReservation now new db = .ok db') : Inserted now new db db' := by
  unfold insertReservation at h
  split at h
  · rename_i reservations hr
    cases h
    refine ⟨fun k => ?_, Table.rows_insert hr, rfl, rfl⟩
    unfold Database.unreleased
    rw [Table.lookup_insert hr rfl]
    simp only [NewReservation.row, eq_comm]
  · cases h

theorem unreleased_releaseReservations (db : Database) (now : Timestamp)
    (p : Reservation → Bool) (k : String) :
    (db.releaseReservations now p).unreleased k = (db.unreleased k).filter fun r => !p r := by
  unfold unreleased releaseReservations
  rw [Table.lookup_update]
  cases h : db.reservations.lookup k with
  | none => rfl
  | some r =>
    have hr := Table.covered_of_lookup h
    cases hp : p r with
    | true => simp [Option.filter, hp, Reservation.isUnreleased]
    | false => simp [Option.filter, hp, hr]

theorem unreleased_setExpiry (db : Database) (expiresAt : Option Timestamp)
    (p : Reservation → Bool) (k : String) :
    (db.setExpiry expiresAt p).unreleased k =
      (db.unreleased k).map fun r => if p r then { r with expiresAt } else r := by
  unfold unreleased setExpiry
  rw [Table.lookup_update]
  cases h : db.reservations.lookup k with
  | none => rfl
  | some r =>
    have hr := Table.covered_of_lookup h
    have hc : (if p r = true then { r with expiresAt } else r).isUnreleased = true := by
      split <;> exact hr
    simp [Option.filter, hc]

theorem unreleased_deleteReservations (db : Database) (mac k : String) :
    (db.deleteReservations mac).unreleased k = if k = mac then none else db.unreleased k := by
  unfold unreleased deleteReservations
  rw [Table.lookup_delete]
  cases h : db.reservations.lookup k with
  | none => simp
  | some r =>
    have hk := Table.key_of_lookup h
    by_cases hm : k = mac <;> simp [Option.filter, hk, hm]

/-! ## What a statement leaves alone -/

section Frame

variable (db : Database) (mac : String) (f : Machine → Machine)
  (hmac : ∀ m, (f m).mac = m.mac) (row : Machine) (now : Timestamp)
  (p : Reservation → Bool) (expiresAt : Option Timestamp) (k : String)

@[simp] theorem unreleased_updateMachine :
    (db.updateMachine mac f hmac).unreleased k = db.unreleased k := rfl

@[simp] theorem unreleased_replaceMachine :
    (db.replaceMachine row).unreleased k = db.unreleased k := rfl

@[simp] theorem unreleased_deleteMachine :
    (db.deleteMachine mac).unreleased k = db.unreleased k := rfl

@[simp] theorem machine_releaseReservations :
    (db.releaseReservations now p).machine k = db.machine k := rfl

@[simp] theorem machine_setExpiry : (db.setExpiry expiresAt p).machine k = db.machine k := rfl

@[simp] theorem machine_deleteReservations :
    (db.deleteReservations mac).machine k = db.machine k := rfl

end Frame

end Database

end Fleetboot
