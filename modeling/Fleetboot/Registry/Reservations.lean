import Fleetboot.Registry.Machines
import Mathlib.Data.String.Basic

/-!
# The reservations of the registry

`reserve`, `renew`, `release`, `pin`, `release_to_pool` and `reap_expired`, each as one call
under the write lock at one reading of the clock.
-/

set_option autoImplicit false

namespace Fleetboot

open Python Relational

/-! ## Architectures -/

/-- `ARCHITECTURE_ALIASES` and `architecture_aliases`. -/
def architectureAliases (architecture : String) : List String :=
  if architecture ∈ ["amd64", "x86_64", "x64"] then ["amd64", "x86_64", "x64"]
  else if architecture ∈ ["arm64", "aarch64"] then ["arm64", "aarch64"]
  else [architecture]

/-- The `AND m.architecture IN (…)` clause: none when the filter is absent or empty. -/
def matchesFilter (architecture : Option String) (candidate : String) : Bool :=
  match architecture with
  | none => true
  | some "" => true
  | some wanted => decide (candidate ∈ architectureAliases wanted)

/-! ## Reading -/

/-- `active_reservation`: `ORDER BY id DESC LIMIT 1` among the active rows of the MAC. -/
def activeReservation [Unicode] (db : Database) (now : Timestamp) (mac : String) :
    Option Reservation :=
  ((db.reservations.rows.filter fun r => r.mac == normaliseMac mac && r.isActive now).insertionSort
    fun r r' => r'.id ≤ r.id).head?

/-- `all_active_reservations`. -/
def allActiveReservations (db : Database) (now : Timestamp) : List Reservation :=
  db.reservations.rows.filter (Reservation.isActive now)

inductive Availability
  | permanent
  | reserved
  | available
  deriving DecidableEq

def Availability.text : Availability → String
  | permanent => "permanent"
  | reserved => "reserved"
  | available => "available"

/-- `availability_of`. -/
def availabilityOf : Option Reservation → Availability
  | none => .available
  | some r => match r.leaseKind with
    | .permanent => .permanent
    | .lease => .reserved

/-! ## Reserving -/

/-- The arguments of `reserve`. -/
structure ReserveRequest where
  profile : String
  count : Int
  holder : String
  ttlSeconds : Int
  purpose : Option String := none
  architecture : Option String := none

/-- No active reservation: the `NOT EXISTS` of the candidate query. -/
def Database.isFree (db : Database) (now : Timestamp) (mac : String) : Bool :=
  !db.reservations.rows.any fun r => r.mac == mac && r.isActive now

/-- The candidate query of `reserve`: free machines that match the filter, by MAC, the first
`count` of them. -/
def reserveCandidates (now : Timestamp) (req : ReserveRequest) (db : Database) : List String :=
  (((db.machines.rows.filter fun m =>
      db.isFree now m.mac && matchesFilter req.architecture m.architecture).map
    Machine.mac).insertionSort (· ≤ ·)).take req.count.toNat

/-- `_release_unreleased`. -/
def releaseUnreleased (now : Timestamp) (mac : String) : Statement := fun db =>
  .ok (db.releaseReservations now fun r => r.mac == mac && r.isUnreleased)

/-- `UPDATE machines SET profile_name = ? WHERE mac = ?`. -/
def switchProfile (mac profile : String) : Statement := fun db =>
  .ok (db.updateMachine mac fun m => { m with profileName := profile })

/-- The row that `reserve` inserts for a MAC. -/
def ReserveRequest.lease (req : ReserveRequest) (now : Timestamp) (mac : String) :
    Database.NewReservation :=
  { mac
    holder := strip req.holder
    purpose := req.purpose
    leaseKind := .lease
    profile := some (strip req.profile)
    expiresAt := datetimePlus now req.ttlSeconds }

/-- The lease that `reserve` writes for one candidate. Spelling out the modifier
`+N seconds` is what raises when `N` has too many digits. -/
def insertLease (now : Timestamp) (req : ReserveRequest) (mac : String) : Statement := fun db =>
  match strOfInt req.ttlSeconds with
  | .error err => .error err
  | .ok _ => Database.insertReservation now (req.lease now mac) db

/-- The writes of `reserve` for one candidate. -/
def leaseStatements (now : Timestamp) (req : ReserveRequest) (mac : String) : List Statement :=
  [releaseUnreleased now mac,
    insertLease now req mac,
    switchProfile mac (strip req.profile)]

/-- The argument checks of `reserve`, before it takes the lock. -/
def ReserveRequest.check (req : ReserveRequest) : Except Exception Unit :=
  if strip req.profile = "" then .error (.valueError "profile must not be empty")
  else if strip req.holder = "" then .error (.valueError "holder must not be empty")
  else if 0 < req.count ∧ req.ttlSeconds ≤ 0 then
    .error (.valueError "ttl_seconds must be positive")
  else if 2 ^ 63 ≤ req.count then
    .error (.overflowError "Python int too large to convert to SQLite INTEGER")
  else .ok ()

/-- `reserve`: the machines leased, as their rows are afterwards. -/
def reserve [Unicode] (now : Timestamp) (req : ReserveRequest) (db : Database) :
    Outcome (List Machine) :=
  match req.check with
  | .error err => ⟨db, .error err⟩
  | .ok () =>
    let leased := reserveCandidates now req db
    (execAll (leased.flatMap (leaseStatements now req)) db).andThen fun _ db =>
      ⟨db, .ok (leased.filterMap db.lookup)⟩

/-! ## Renewing and releasing -/

/-- The rows that `renew` and `release` update: an active lease of the MAC. -/
def isActiveLeaseOf (now : Timestamp) (mac : String) (r : Reservation) : Bool :=
  r.mac == mac && r.leaseKind == .lease && r.isActive now

/-- `renew`: whether there was an active lease. -/
def renew [Unicode] (now : Timestamp) (mac : String) (ttlSeconds : Int) (db : Database) :
    Outcome Bool :=
  if ttlSeconds ≤ 0 then ⟨db, .error (.valueError "ttl_seconds must be positive")⟩
  else match strOfInt ttlSeconds with
    | .error err => ⟨db, .error err⟩
    | .ok _ =>
      ⟨db.setExpiry (datetimePlus now ttlSeconds) (isActiveLeaseOf now (normaliseMac mac)),
        .ok (db.reservations.rows.any (isActiveLeaseOf now (normaliseMac mac)))⟩

/-- The loop of `release`: target after target, the MACs whose lease was freed. -/
def releaseTargets (now : Timestamp) : List String → Database → Database × List String
  | [], db => (db, [])
  | mac :: rest, db =>
    let freed := db.reservations.rows.any (isActiveLeaseOf now mac)
    let (db', macs) :=
      releaseTargets now rest (db.releaseReservations now (isActiveLeaseOf now mac))
    (db', if freed then mac :: macs else macs)

/-- The targets of `release`: a MAC list, else all of a holder's active leases. -/
def releaseTargetsOf [Unicode] (now : Timestamp) (macs : Option (List String))
    (holder : Option String) (db : Database) : List String :=
  match macs.getD [] with
  | mac :: rest => (mac :: rest).map normaliseMac
  | [] =>
    match holder.getD "" with
    | "" => []
    -- The unreleased rows are read through their index, which is by MAC.
    | holder => ((db.reservations.rows.filter fun r =>
        r.holder == holder && r.leaseKind == .lease && r.isActive now).map
          Reservation.mac).insertionSort (· ≤ ·)

/-- `release`: the MACs actually freed. -/
def release [Unicode] (now : Timestamp) (macs : Option (List String)) (holder : Option String)
    (db : Database) : Outcome (List String) :=
  let (db', freed) := releaseTargets now (releaseTargetsOf now macs holder db) db
  ⟨db', .ok freed⟩

/-! ## Pinning -/

/-- The arguments of `pin`. -/
structure PinRequest where
  mac : String
  holder : String
  profile : Option String := none
  purpose : Option String := none

/-- The permanent hold that `pin` writes. -/
def PinRequest.hold [Unicode] (req : PinRequest) : Database.NewReservation :=
  { mac := normaliseMac req.mac
    holder := strip req.holder
    purpose := req.purpose
    leaseKind := .permanent
    profile := req.profile }

/-- The writes of `pin` on an enrolled machine. -/
def pinStatements [Unicode] (now : Timestamp) (req : PinRequest) : List Statement :=
  [releaseUnreleased now (normaliseMac req.mac),
    Database.insertReservation now req.hold] ++
  match blankToNone req.profile with
  | some profile => [switchProfile (normaliseMac req.mac) profile]
  | none => []

/-- `pin`: the new reservation, or `none` when the MAC is unknown. -/
def pin [Unicode] (now : Timestamp) (req : PinRequest) (db : Database) :
    Outcome (Option Reservation) :=
  if strip req.holder = "" then ⟨db, .error (.valueError "holder must not be empty")⟩
  else match db.lookup req.mac with
    | none => ⟨db, .ok none⟩
    | some _ => (execAll (pinStatements now req) db).andThen fun _ db =>
        ⟨db, .ok (activeReservation db now req.mac)⟩

/-- `release_to_pool`: whether a permanent hold was released. -/
def releaseToPool [Unicode] (now : Timestamp) (mac : String) (db : Database) : Outcome Bool :=
  let isHold := fun r : Reservation =>
    r.mac == normaliseMac mac && r.leaseKind == .permanent && r.isActive now
  ⟨db.releaseReservations now isHold, .ok (db.reservations.rows.any isHold)⟩

/-! ## Reaping -/

/-- A lease whose expiry has passed: the rows that `reap_expired` selects. -/
def Reservation.isReapable (now : Timestamp) (r : Reservation) : Bool :=
  r.isUnreleased && r.leaseKind == .lease && (match r.expiresAt with
    | none => false
    | some expiry => decide (expiry ≤ now))

/-- `reap_expired`: the MACs of the leases it released. -/
def reapExpired (now : Timestamp) (db : Database) : Outcome (List String) :=
  let macs := ((db.reservations.rows.filter (Reservation.isReapable now)).map
    Reservation.mac).insertionSort (· ≤ ·)
  (execAll (macs.map (releaseUnreleased now)) db).andThen fun _ db => ⟨db, .ok macs⟩

end Fleetboot
