import Fleetboot.Library.Sheet
import Fleetboot.Registry.Machines

/-!
# Opening files of older versions

The table of machines has gained nineteen columns since its first version. The constructor adds
those that a file lacks, one statement after the other, and fills the last of them from the stored
inventories. Each statement commits by itself, so a stop leaves the file between two versions.

* `upgrade_reads`: after the opening every row reads as it was meant, and `addHardwareSpecColumn`
  says what has become of the machines.
* `reopened_rows`: what a stop and a second opening leave of each machine.
* `upgrade_resumed_iff`: when that is what the first would have left.
-/

set_option autoImplicit false

namespace Fleetboot

open Python Relational

/-! ## Rows -/

/-- The columns of the first version. -/
structure FirstColumns where
  mac : String
  profileName : String
  architecture : String
  platform : String
  createdAt : Timestamp

/-- The columns that came later. -/
inductive LaterColumn
  | serialConsole | enrolledBy | hostname | hostnameSeenAt | bootVersion | bootVersionSeenAt
  | scratchMode | lastDiagnostics | lastDiagnosticsAt | lastHardware | lastHardwareAt | lastIp
  | lastIpAt | rebootCommand | pendingReboot | powerOnCommand | powerOffCommand | pduAlias
  | hardwareSpec
  deriving DecidableEq

/-- What a column holds; where it may be NULL, an option. -/
def LaterColumn.Value : LaterColumn → Type
  | serialConsole | pendingReboot => Bool
  | enrolledBy => String
  | scratchMode => ScratchMode
  | hostnameSeenAt | bootVersionSeenAt | lastDiagnosticsAt | lastHardwareAt | lastIpAt =>
    Option Timestamp
  | lastHardware | hardwareSpec => Option Fields
  | hostname | bootVersion | lastDiagnostics | lastIp | rebootCommand | powerOnCommand
  | powerOffCommand | pduAlias => Option String

/-- The `DEFAULT` of the column, else NULL. -/
def LaterColumn.default : (c : LaterColumn) → c.Value
  | serialConsole | pendingReboot => false
  | enrolledBy => "manual"
  | scratchMode => ScratchMode.volatile
  | hostnameSeenAt | bootVersionSeenAt | lastDiagnosticsAt | lastHardwareAt | lastIpAt
  | lastHardware | hardwareSpec | hostname | bootVersion | lastDiagnostics | lastIp
  | rebootCommand | powerOnCommand | powerOffCommand | pduAlias => none

abbrev MachineSheet := Sheet FirstColumns LaterColumn.Value

abbrev MachineRow := FirstColumns × ∀ c : LaterColumn, Option c.Value

/-- `row["enrolled_by"] if row["enrolled_by"] else "manual"`. -/
def enrolledByOf (text : String) : String := if text = "" then "manual" else text

/-- `_row_to_machine`, which raises where a row lacks a column that it must have. -/
def rowToMachine (row : MachineRow) : Option Machine := do
  let serialConsole ← row.2 .serialConsole
  let enrolledBy ← row.2 .enrolledBy
  let hostname ← row.2 .hostname
  let hostnameSeenAt ← row.2 .hostnameSeenAt
  let bootVersion ← row.2 .bootVersion
  let bootVersionSeenAt ← row.2 .bootVersionSeenAt
  let scratchMode ← row.2 .scratchMode
  let lastDiagnostics ← row.2 .lastDiagnostics
  let lastDiagnosticsAt ← row.2 .lastDiagnosticsAt
  let lastHardware ← row.2 .lastHardware
  let lastHardwareAt ← row.2 .lastHardwareAt
  let lastIp ← row.2 .lastIp
  let lastIpAt ← row.2 .lastIpAt
  let rebootCommand ← row.2 .rebootCommand
  return {
    mac := row.1.mac
    profileName := row.1.profileName
    architecture := row.1.architecture
    platform := row.1.platform
    serialConsole
    enrolledBy := enrolledByOf enrolledBy
    hostname
    hostnameSeenAt
    bootVersion
    bootVersionSeenAt
    scratchMode
    lastDiagnostics
    lastDiagnosticsAt
    lastHardware
    lastHardwareAt
    hardwareSpec := (row.2 .hardwareSpec).getD none
    lastIp
    lastIpAt
    rebootCommand
    powerOnCommand := (row.2 .powerOnCommand).getD none
    powerOffCommand := (row.2 .powerOffCommand).getD none
    pduAlias := (row.2 .pduAlias).getD none
    pendingReboot := (row.2 .pendingReboot).getD false
    createdAt := row.1.createdAt }

/-- What a row of any version says of its machine: a column that it lacks says its default. -/
def meaning (first : FirstColumns) (later : (c : LaterColumn) → c.Value) : Machine :=
  { mac := first.mac
    profileName := first.profileName
    architecture := first.architecture
    platform := first.platform
    serialConsole := later .serialConsole
    enrolledBy := enrolledByOf (later .enrolledBy)
    hostname := later .hostname
    hostnameSeenAt := later .hostnameSeenAt
    bootVersion := later .bootVersion
    bootVersionSeenAt := later .bootVersionSeenAt
    scratchMode := later .scratchMode
    lastDiagnostics := later .lastDiagnostics
    lastDiagnosticsAt := later .lastDiagnosticsAt
    lastHardware := later .lastHardware
    lastHardwareAt := later .lastHardwareAt
    hardwareSpec := later .hardwareSpec
    lastIp := later .lastIp
    lastIpAt := later .lastIpAt
    rebootCommand := later .rebootCommand
    powerOnCommand := later .powerOnCommand
    powerOffCommand := later .powerOffCommand
    pduAlias := later .pduAlias
    pendingReboot := later .pendingReboot
    createdAt := first.createdAt }

/-- The machine that a row means. -/
def MachineRow.machine (row : MachineRow) : Machine :=
  meaning row.1 (Sheet.fill LaterColumn.default row.2)

/-- A row that lacks nothing reads as it is meant. -/
theorem rowToMachine_of_complete {row : MachineRow} (h : ∀ c, (row.2 c).isSome = true) :
    rowToMachine row = some (MachineRow.machine row) := by
  have hcolumn : ∀ c, row.2 c = some (Sheet.fill LaterColumn.default row.2 c) := by
    intro c
    obtain ⟨value, hvalue⟩ := Option.isSome_iff_exists.mp (h c)
    rw [Sheet.fill, hvalue]
    rfl
  unfold rowToMachine
  simp only [hcolumn]
  rfl

/-- The machines that a file means. -/
def machinesOf (t : MachineSheet) : List Machine := t.rows.map MachineRow.machine

/-- What `SELECT *` and `_row_to_machine` make of the file. -/
def readsOf (t : MachineSheet) : List (Option Machine) := t.rows.map rowToMachine

theorem readsOf_of_complete {t : MachineSheet} (h : ∀ c, c ∈ t.columns) :
    readsOf t = (machinesOf t).map some := by
  unfold readsOf machinesOf
  rw [List.map_map]
  exact List.map_congr_left fun row hrow =>
    rowToMachine_of_complete fun c => (t.shaped row hrow c).mpr (h c)

/-! ## The statements of the constructor -/

/-- The columns that are added before the spec, in this order. -/
def addedColumns : List LaterColumn :=
  [.serialConsole, .enrolledBy, .hostname, .hostnameSeenAt, .bootVersion, .bootVersionSeenAt,
    .scratchMode, .lastDiagnostics, .lastDiagnosticsAt, .lastHardware, .lastHardwareAt, .lastIp,
    .lastIpAt, .rebootCommand, .pendingReboot, .powerOnCommand, .powerOffCommand, .pduAlias]

/-- `ALTER TABLE machines ADD COLUMN`; that the column is there already is no error. -/
def addColumn (c : LaterColumn) (t : MachineSheet) : MachineSheet := t.ensure c c.default

/-- What the migration writes of a row that `SELECT mac, last_hardware` has returned. -/
def storedSpec (row : MachineRow) : Option (String × Fields) :=
  match specFromInventory ((row.2 .lastHardware).getD none) with
  | [] => none
  | spec => some (row.1.mac, spec)

/-- The value of the column for a spec. -/
def specValue (spec : Fields) : LaterColumn.Value .hardwareSpec := some spec

/-- `UPDATE machines SET hardware_spec = ? WHERE mac = ?`. -/
def setSpec (entry : String × Fields) (t : MachineSheet) : MachineSheet :=
  t.assign (fun first => first.mac == entry.1) .hardwareSpec (specValue entry.2)

/-- `_add_hardware_spec_column_if_missing`. -/
def specStatements (t : MachineSheet) : List (MachineSheet → MachineSheet) :=
  if .hardwareSpec ∈ t.columns then []
  else addColumn .hardwareSpec :: (t.rows.filterMap storedSpec).map setSpec

def runStatements (statements : List (MachineSheet → MachineSheet)) (t : MachineSheet) :
    MachineSheet :=
  statements.foldl (fun t statement => statement t) t

/-- What the constructor does to the table of machines. -/
def upgradeStatements (t : MachineSheet) : List (MachineSheet → MachineSheet) :=
  addedColumns.map addColumn ++ specStatements (runStatements (addedColumns.map addColumn) t)

def upgrade (t : MachineSheet) : MachineSheet := runStatements (upgradeStatements t) t

/-- The file that a stop after `k` statements leaves. -/
def stopped (k : Nat) (t : MachineSheet) : MachineSheet :=
  runStatements ((upgradeStatements t).take k) t

/-- The file after a stop and an opening that runs through. -/
def reopened (k : Nat) (t : MachineSheet) : MachineSheet := upgrade (stopped k t)

/-! ## What they do to the machines -/

section Effects

variable {t : MachineSheet}

theorem runStatements_append (statements statements' : List (MachineSheet → MachineSheet)) :
    runStatements (statements ++ statements') t =
      runStatements statements' (runStatements statements t) :=
  List.foldl_append

theorem runStatements_cons (statement : MachineSheet → MachineSheet)
    (statements : List (MachineSheet → MachineSheet)) :
    runStatements (statement :: statements) t = runStatements statements (statement t) := rfl

theorem runStatements_addColumns (cs : List LaterColumn) :
    runStatements (cs.map addColumn) t = t.ensureAll LaterColumn.default cs :=
  List.foldl_map

theorem machinesOf_eq_filled :
    machinesOf t = (t.filled LaterColumn.default).map fun row => meaning row.1 row.2 := by
  unfold machinesOf Sheet.filled
  rw [List.map_map]
  rfl

theorem machinesOf_ensureAll (cs : List LaterColumn) :
    machinesOf (t.ensureAll LaterColumn.default cs) = machinesOf t := by
  rw [machinesOf_eq_filled, Sheet.filled_ensureAll, ← machinesOf_eq_filled]

/-- The entry for a machine that has a stored inventory. -/
def specEntry (m : Machine) : Option (String × Fields) :=
  match specFromInventory m.lastHardware with
  | [] => none
  | spec => some (m.mac, spec)

/-- The specs that are to be written. -/
def pendingSpecs (ms : List Machine) : List (String × Fields) := ms.filterMap specEntry

theorem filterMap_storedSpec : t.rows.filterMap storedSpec = pendingSpecs (machinesOf t) := by
  unfold pendingSpecs machinesOf
  rw [List.filterMap_map]
  rfl

/-- A machine with the spec that is written for its MAC, if one is. -/
def withSpec (entries : List (String × Fields)) (m : Machine) : Machine :=
  match entries.lookup m.mac with
  | none => m
  | some spec => { m with hardwareSpec := some spec }

theorem withSpec_of_some {entries : List (String × Fields)} {m : Machine} {spec : Fields}
    (h : entries.lookup m.mac = some spec) :
    withSpec entries m = { m with hardwareSpec := some spec } := by
  rw [withSpec, h]

theorem withSpec_of_none {entries : List (String × Fields)} {m : Machine}
    (h : entries.lookup m.mac = none) : withSpec entries m = m := by
  rw [withSpec, h]

theorem machinesOf_setSpec {entry : String × Fields} (h : .hardwareSpec ∈ t.columns) :
    machinesOf (setSpec entry t) = (machinesOf t).map (withSpec [entry]) := by
  unfold machinesOf setSpec
  rw [Sheet.rows_assign h, List.map_map, List.map_map]
  refine List.map_congr_left fun row _ => ?_
  show MachineRow.machine (if (row.1.mac == entry.1) = true then _ else row) =
    withSpec [entry] (MachineRow.machine row)
  have hlookup : [entry].lookup (MachineRow.machine row).mac =
      if (row.1.mac == entry.1) = true then some entry.2 else none := by
    show [entry].lookup row.1.mac = _
    rw [List.lookup_cons]
    cases row.1.mac == entry.1 <;> rfl
  rw [withSpec, hlookup]
  cases row.1.mac == entry.1 <;> rfl

theorem withSpec_cons {entry : String × Fields} {entries : List (String × Fields)}
    (hnew : entry.1 ∉ entries.map Prod.fst) (m : Machine) :
    withSpec entries (withSpec [entry] m) = withSpec (entry :: entries) m := by
  obtain ⟨mac, spec⟩ := entry
  by_cases hmac : m.mac = mac
  · have hrest : entries.lookup m.mac = none := by
      rw [List.lookup_eq_none_iff]
      intro other hother
      rw [hmac, bne_iff_ne]
      rintro rfl
      exact hnew (show other.1 ∈ entries.map Prod.fst from List.mem_map_of_mem hother)
    have hfirst : withSpec [(mac, spec)] m = { m with hardwareSpec := some spec } :=
      withSpec_of_some (by rw [hmac, List.lookup_cons_self])
    have hall : withSpec ((mac, spec) :: entries) m = { m with hardwareSpec := some spec } :=
      withSpec_of_some (by rw [hmac, List.lookup_cons_self])
    rw [hfirst, hall]
    exact withSpec_of_none hrest
  · have hne : (m.mac == mac) = false := beq_eq_false_iff_ne.mpr hmac
    have hfirst : withSpec [(mac, spec)] m = m :=
      withSpec_of_none (by rw [List.lookup_cons, hne]; rfl)
    rw [hfirst, withSpec, withSpec, List.lookup_cons, hne]

/-- The specs are written one after the other. -/
theorem machinesOf_setSpecs {entries : List (String × Fields)} (h : .hardwareSpec ∈ t.columns)
    (hnodup : (entries.map Prod.fst).Nodup) :
    machinesOf (runStatements (entries.map setSpec) t) = (machinesOf t).map (withSpec entries) := by
  induction entries generalizing t with
  | nil =>
    have hnone : withSpec [] = id := rfl
    rw [hnone, List.map_id]
    rfl
  | cons entry entries ih =>
    rw [List.map_cons, List.nodup_cons] at hnodup
    show machinesOf (runStatements (entries.map setSpec) (setSpec entry t)) = _
    rw [ih (by rw [setSpec, Sheet.columns_assign]; exact h) hnodup.2, machinesOf_setSpec h,
      List.map_map]
    exact List.map_congr_left fun m _ => withSpec_cons hnodup.1 m

theorem columns_setSpecs (entries : List (String × Fields)) :
    (runStatements (entries.map setSpec) t).columns = t.columns := by
  induction entries generalizing t with
  | nil => rfl
  | cons entry entries ih =>
    show (runStatements (entries.map setSpec) (setSpec entry t)).columns = _
    rw [ih, setSpec, Sheet.columns_assign]

/-! ## Stops -/

/-- The file once the first columns are added. -/
def withColumns (t : MachineSheet) : MachineSheet := t.ensureAll LaterColumn.default addedColumns

theorem mem_columns_withColumns {c : LaterColumn} :
    c ∈ (withColumns t).columns ↔ c ∈ t.columns ∨ c ∈ addedColumns :=
  Sheet.mem_columns_ensureAll

theorem hardwareSpec_withColumns :
    .hardwareSpec ∈ (withColumns t).columns ↔ .hardwareSpec ∈ t.columns := by
  rw [mem_columns_withColumns, or_iff_left (by decide)]

theorem mem_addedColumns {c : LaterColumn} (hc : c ≠ .hardwareSpec) : c ∈ addedColumns := by
  revert hc
  cases c <;> decide

theorem upgradeStatements_eq (t : MachineSheet) :
    upgradeStatements t = addedColumns.map addColumn ++ specStatements (withColumns t) := by
  rw [upgradeStatements, runStatements_addColumns]
  rfl

theorem upgrade_eq (t : MachineSheet) :
    upgrade t = runStatements (specStatements (withColumns t)) (withColumns t) := by
  rw [upgrade, upgradeStatements_eq, runStatements_append, runStatements_addColumns]
  rfl

/-- A file that has every column is left alone. -/
theorem upgrade_of_complete (h : ∀ c, c ∈ t.columns) : upgrade t = t := by
  have hsame : withColumns t = t := Sheet.ensureAll_of_subset fun c _ => h c
  rw [upgrade_eq, hsame, specStatements, if_pos (h .hardwareSpec)]
  rfl

theorem stopped_eq (k : Nat) (t : MachineSheet) : stopped k t =
    runStatements ((specStatements (withColumns t)).take (k - addedColumns.length))
      (t.ensureAll LaterColumn.default (addedColumns.take k)) := by
  rw [stopped, upgradeStatements_eq, List.take_append, runStatements_append, ← List.map_take,
    runStatements_addColumns, List.length_map]

/-- A stop before the spec's column is there is made good. -/
theorem reopened_of_le {k : Nat} (hk : k ≤ addedColumns.length) : reopened k t = upgrade t := by
  have hstopped : stopped k t = t.ensureAll LaterColumn.default (addedColumns.take k) := by
    rw [stopped_eq, Nat.sub_eq_zero_of_le hk]
    rfl
  have hsame : withColumns (stopped k t) = withColumns t := by
    rw [hstopped]
    exact Sheet.ensureAll_resume k
  rw [reopened, upgrade_eq, hsame, ← upgrade_eq]

/-- What a later stop leaves. -/
theorem stopped_of_lt {k : Nat} (hk : addedColumns.length < k) : stopped k t =
    runStatements ((specStatements (withColumns t)).take (k - addedColumns.length))
      (withColumns t) := by
  rw [stopped_eq, List.take_of_length_le (Nat.le_of_lt hk)]
  rfl

/-- The specs that stand in the file after a stop and an opening. -/
def writtenSpecs (k : Nat) (t : MachineSheet) : List (String × Fields) :=
  if .hardwareSpec ∈ t.columns then []
  else if k ≤ addedColumns.length then pendingSpecs (machinesOf t)
  else (pendingSpecs (machinesOf t)).take (k - addedColumns.length - 1)

theorem fst_of_specEntry {m : Machine} {entry : String × Fields} (h : specEntry m = some entry) :
    entry.1 = m.mac := by
  unfold specEntry at h
  split at h
  · cases h
  · cases h
    rfl

theorem sublist_pendingSpecs (ms : List Machine) :
    ((pendingSpecs ms).map Prod.fst).Sublist (ms.map Machine.mac) := by
  induction ms with
  | nil => exact .slnil
  | cons m ms ih =>
    rw [pendingSpecs, List.filterMap_cons]
    cases hentry : specEntry m with
    | none => exact ih.cons _
    | some entry =>
      dsimp only
      rw [List.map_cons, List.map_cons, fst_of_specEntry hentry]
      exact ih.cons_cons _

theorem nodup_pendingSpecs {ms : List Machine} (h : (ms.map Machine.mac).Nodup) :
    ((pendingSpecs ms).map Prod.fst).Nodup := h.sublist (sublist_pendingSpecs ms)

theorem take_specStatements {j : Nat} (hnew : .hardwareSpec ∉ t.columns) :
    (specStatements (withColumns t)).take (j + 1) =
      addColumn .hardwareSpec :: ((pendingSpecs (machinesOf t)).take j).map setSpec := by
  rw [specStatements, if_neg (hardwareSpec_withColumns.not.mpr hnew), filterMap_storedSpec,
    withColumns, machinesOf_ensureAll, List.take_succ_cons, ← List.map_take]

theorem mem_columns_addSpec (c : LaterColumn) :
    c ∈ (addColumn .hardwareSpec (withColumns t)).columns := by
  rw [addColumn, Sheet.mem_columns_ensure, mem_columns_withColumns]
  by_cases hc : c = .hardwareSpec
  · exact .inr hc
  · exact .inl (.inr (mem_addedColumns hc))

theorem stopped_of_old {k : Nat} (hk : addedColumns.length < k)
    (hold : .hardwareSpec ∈ t.columns) : stopped k t = withColumns t := by
  rw [stopped_of_lt hk, specStatements, if_pos (hardwareSpec_withColumns.mpr hold), List.take_nil,
    runStatements, List.foldl_nil]

theorem stopped_of_new {k : Nat} (hk : addedColumns.length < k)
    (hnew : .hardwareSpec ∉ t.columns) : stopped k t =
      runStatements (((pendingSpecs (machinesOf t)).take (k - addedColumns.length - 1)).map setSpec)
        (addColumn .hardwareSpec (withColumns t)) := by
  obtain ⟨j, hj⟩ : ∃ j, k - addedColumns.length = j + 1 := ⟨k - addedColumns.length - 1, by omega⟩
  rw [stopped_of_lt hk, hj, take_specStatements hnew, runStatements_cons, Nat.add_sub_cancel]

theorem mem_columns_stopped {k : Nat} (hk : addedColumns.length < k) (c : LaterColumn) :
    c ∈ (stopped k t).columns := by
  by_cases hold : .hardwareSpec ∈ t.columns
  · rw [stopped_of_old hk hold, mem_columns_withColumns]
    by_cases hc : c = .hardwareSpec
    · exact .inl (hc ▸ hold)
    · exact .inr (mem_addedColumns hc)
  · rw [stopped_of_new hk hold, columns_setSpecs]
    exact mem_columns_addSpec c

theorem machinesOf_addSpec :
    machinesOf (addColumn .hardwareSpec (withColumns t)) = machinesOf t := by
  rw [machinesOf_eq_filled, addColumn, Sheet.filled_ensure, ← machinesOf_eq_filled, withColumns,
    machinesOf_ensureAll]

theorem machinesOf_stopped {k : Nat} (hk : addedColumns.length < k)
    (hunique : ((machinesOf t).map Machine.mac).Nodup) :
    machinesOf (stopped k t) = (machinesOf t).map (withSpec (writtenSpecs k t)) := by
  rw [writtenSpecs]
  by_cases hold : .hardwareSpec ∈ t.columns
  · have hnothing : withSpec [] = id := rfl
    rw [if_pos hold, stopped_of_old hk hold, withColumns, machinesOf_ensureAll, hnothing,
      List.map_id]
  · have hnodup : (((pendingSpecs (machinesOf t)).take (k - addedColumns.length - 1)).map
        Prod.fst).Nodup := by
      rw [List.map_take]
      exact (nodup_pendingSpecs hunique).sublist (List.take_sublist ..)
    rw [if_neg hold, if_neg (Nat.not_le.mpr hk), stopped_of_new hk hold,
      machinesOf_setSpecs (mem_columns_addSpec .hardwareSpec) hnodup, machinesOf_addSpec]

/-- All statements of an opening. -/
theorem length_upgradeStatements (t : MachineSheet) :
    (upgradeStatements t).length ≤
      addedColumns.length + ((pendingSpecs (machinesOf t)).length + 1) := by
  rw [upgradeStatements_eq, List.length_append, List.length_map]
  refine Nat.add_le_add_left ?_ _
  rw [specStatements]
  split
  · exact Nat.zero_le _
  · rw [List.length_cons, List.length_map, filterMap_storedSpec, withColumns,
      machinesOf_ensureAll]

theorem upgrade_eq_stopped (t : MachineSheet) :
    upgrade t = stopped (addedColumns.length + ((pendingSpecs (machinesOf t)).length + 1)) t := by
  rw [upgrade, stopped, List.take_of_length_le (length_upgradeStatements t)]

/-- **After a stop and an opening** every machine reads as it was meant, with its spec where this
was written. -/
theorem reopened_rows (hunique : ((machinesOf t).map Machine.mac).Nodup) (k : Nat) :
    readsOf (reopened k t) =
      (machinesOf t).map fun m => some (withSpec (writtenSpecs k t) m) := by
  have hlate : ∀ k, addedColumns.length < k → readsOf (stopped k t) =
      (machinesOf t).map fun m => some (withSpec (writtenSpecs k t) m) := by
    intro k hk
    rw [readsOf_of_complete (mem_columns_stopped hk), machinesOf_stopped hk hunique, List.map_map]
    rfl
  by_cases hk : k ≤ addedColumns.length
  · rw [reopened_of_le hk, upgrade_eq_stopped, hlate _ (by omega)]
    have hall : writtenSpecs (addedColumns.length + ((pendingSpecs (machinesOf t)).length + 1)) t =
        writtenSpecs k t := by
      unfold writtenSpecs
      rw [if_pos hk, if_neg (Nat.not_le.mpr (Nat.lt_add_of_pos_right (Nat.succ_pos _))),
        List.take_of_length_le (by omega)]
    rw [hall]
  · have hk := Nat.not_le.mp hk
    rw [reopened, upgrade_of_complete (mem_columns_stopped hk), hlate k hk]

/-! ## What an opening leaves -/

theorem lookup_pendingSpecs {ms : List Machine} (hunique : (ms.map Machine.mac).Nodup)
    {m : Machine} (hm : m ∈ ms) :
    (pendingSpecs ms).lookup m.mac = (specEntry m).map Prod.snd := by
  induction ms with
  | nil => cases hm
  | cons m' ms ih =>
    rw [List.map_cons, List.nodup_cons] at hunique
    rw [pendingSpecs, List.filterMap_cons]
    have hother : m ∈ ms → m.mac ≠ m'.mac := fun hms heq =>
      hunique.1 (heq ▸ List.mem_map_of_mem hms)
    rcases List.mem_cons.mp hm with rfl | hms
    · cases hentry : specEntry m with
      | none =>
        refine List.lookup_eq_none_iff.mpr fun entry hentry' => ?_
        rw [bne_iff_ne]
        rintro heq
        exact hunique.1 (heq ▸ (sublist_pendingSpecs ms).subset (List.mem_map_of_mem hentry'))
      | some entry =>
        obtain ⟨mac, spec⟩ := entry
        obtain rfl : mac = m.mac := fst_of_specEntry hentry
        exact List.lookup_cons_self
    · cases hentry : specEntry m' with
      | none => exact ih hunique.2 hms
      | some entry =>
        obtain ⟨mac, spec⟩ := entry
        obtain rfl : mac = m'.mac := fst_of_specEntry hentry
        dsimp only
        rw [List.lookup_cons, beq_eq_false_iff_ne.mpr (hother hms)]
        exact ih hunique.2 hms

theorem withSpec_pendingSpecs {ms : List Machine} (hunique : (ms.map Machine.mac).Nodup)
    {m : Machine} (hm : m ∈ ms) : withSpec (pendingSpecs ms) m =
      match specFromInventory m.lastHardware with
      | [] => m
      | spec => { m with hardwareSpec := some spec } := by
  rw [withSpec, lookup_pendingSpecs hunique hm, specEntry]
  cases specFromInventory m.lastHardware with
  | nil => rfl
  | cons field fields => rfl

theorem readsOf_upgrade (hunique : ((machinesOf t).map Machine.mac).Nodup) :
    readsOf (upgrade t) = (machinesOf t).map fun m => some (withSpec (writtenSpecs 0 t) m) := by
  rw [← reopened_of_le (Nat.zero_le _), reopened_rows hunique]

/-- **Every row of an old file** reads, once it is opened, as a machine, and as the one that
`addHardwareSpecColumn` makes of what the row meant. -/
theorem upgrade_reads {db : Database} (hmachines : db.machines.rows = machinesOf t)
    (hadded : db.hardwareSpecAdded = true ↔ .hardwareSpec ∈ t.columns) :
    readsOf (upgrade t) = (addHardwareSpecColumn db).machines.rows.map some := by
  have hunique : ((machinesOf t).map Machine.mac).Nodup := by
    have h := db.machines.unique
    rwa [List.filter_true, hmachines] at h
  rw [readsOf_upgrade hunique, addHardwareSpecColumn]
  by_cases hold : .hardwareSpec ∈ t.columns
  · rw [if_pos (hadded.mpr hold), hmachines, writtenSpecs, if_pos hold]
    rfl
  · rw [if_neg (hadded.not.mpr hold), Table.rows_update, List.map_map, hmachines]
    refine List.map_congr_left fun m hm => congrArg some ?_
    rw [writtenSpecs, if_neg hold, if_pos (Nat.zero_le _)]
    exact withSpec_pendingSpecs hunique hm

theorem hardwareSpec_of_new (hnew : .hardwareSpec ∉ t.columns) {m : Machine}
    (hm : m ∈ machinesOf t) : m.hardwareSpec = none := by
  obtain ⟨row, hrow, rfl⟩ := List.mem_map.mp hm
  have hnone : row.2 .hardwareSpec = none := by
    rw [← Option.not_isSome_iff_eq_none, t.shaped row hrow]
    exact hnew
  show Sheet.fill LaterColumn.default row.2 .hardwareSpec = none
  rw [Sheet.fill, hnone]
  rfl

/-- A spec that was left to be written is missing. -/
theorem withSpec_take_ne {ms : List Machine} (hunique : (ms.map Machine.mac).Nodup) {j : Nat}
    (hj : j < (pendingSpecs ms).length) : ∃ m ∈ ms, withSpec ((pendingSpecs ms).take j) m = m ∧
      ∃ spec, withSpec (pendingSpecs ms) m = { m with hardwareSpec := some spec } := by
  obtain ⟨m, hm, hentry⟩ := List.mem_filterMap.mp ((pendingSpecs ms).getElem_mem hj)
  have hmac := fst_of_specEntry hentry
  have hsplit : (pendingSpecs ms).take j ++ (pendingSpecs ms)[j] :: (pendingSpecs ms).drop (j + 1) =
      pendingSpecs ms := by
    rw [List.getElem_cons_drop, List.take_append_drop]
  have hnodup : (((pendingSpecs ms).take j ++
      (pendingSpecs ms)[j] :: (pendingSpecs ms).drop (j + 1)).map Prod.fst).Nodup :=
    hsplit.symm ▸ nodup_pendingSpecs hunique
  rw [List.map_append, List.map_cons] at hnodup
  refine ⟨m, hm, withSpec_of_none ?_, (pendingSpecs ms)[j].2, withSpec_of_some ?_⟩
  · rw [List.lookup_eq_none_iff]
    intro entry hbefore
    rw [bne_iff_ne, ← hmac]
    exact ((List.nodup_append.mp hnodup).2.2 _ (List.mem_map_of_mem hbefore) _
      (List.mem_cons_self ..)).symm
  · rw [lookup_pendingSpecs hunique hm, hentry]
    rfl

/-- **A stop in the midst of an opening** is made good by the next opening exactly when no spec
was left to be written in its column. -/
theorem upgrade_resumed_iff (hunique : ((machinesOf t).map Machine.mac).Nodup) (k : Nat) :
    readsOf (reopened k t) = readsOf (upgrade t) ↔
      .hardwareSpec ∈ t.columns ∨ k ≤ addedColumns.length ∨
        (pendingSpecs (machinesOf t)).length ≤ k - addedColumns.length - 1 := by
  rw [reopened_rows hunique, readsOf_upgrade hunique]
  constructor
  · intro h
    by_contra hnot
    push Not at hnot
    obtain ⟨hnew, hk, hleft⟩ := hnot
    obtain ⟨m, hm, hbefore, spec, hafter⟩ := withSpec_take_ne hunique hleft
    have hsame := Option.some.inj (List.map_inj_left.mp h m hm)
    rw [writtenSpecs, if_neg hnew, if_neg (Nat.not_le.mpr hk), writtenSpecs, if_neg hnew,
      if_pos (Nat.zero_le _), hbefore, hafter] at hsame
    have hnone := hardwareSpec_of_new hnew hm
    rw [hsame] at hnone
    cases hnone
  · intro h
    have hwritten : writtenSpecs k t = writtenSpecs 0 t := by
      unfold writtenSpecs
      rcases h with hold | hk | hall
      · rw [if_pos hold, if_pos hold]
      · rw [if_pos hk, if_pos (Nat.zero_le _)]
      · rw [List.take_of_length_le hall, ite_self, if_pos (Nat.zero_le _)]
    rw [hwritten]

end Effects

section Examples

/-- A machine of a file that has the inventories but not the specs. -/
def oldRow : MachineRow :=
  (⟨"52:54:00:12:34:56", "school", "x86_64", "efi", 3⟩, fun
    | .lastHardware => some (some [("mem_total_mb", .int 15894)] : Option Fields)
    | _ => none)

def oldSheet : MachineSheet :=
  { columns := [.lastHardware]
    rows := [oldRow]
    shaped := by
      intro row hrow c
      rw [List.mem_singleton.mp hrow]
      cases c <;> decide }

/-- The same file, as the registry is modelled. -/
def oldDatabase : Database :=
  { emptyFile with
    machines := ⟨machinesOf oldSheet, by simp [machinesOf, oldSheet]⟩
    hardwareSpecAdded := false }

theorem upgrade_reads_old : readsOf (upgrade oldSheet) =
    (addHardwareSpecColumn oldDatabase).machines.rows.map some :=
  upgrade_reads rfl ⟨by simp [oldDatabase], by simp [oldSheet]⟩

/-- A stop between the new column and the spec. -/
theorem upgrade_resumed_iff_old :
    readsOf (reopened 5 oldSheet) = readsOf (upgrade oldSheet) ∧
      readsOf (reopened 19 oldSheet) ≠ readsOf (upgrade oldSheet) := by
  have hunique : ((machinesOf oldSheet).map Machine.mac).Nodup := by
    simp [machinesOf, oldSheet]
  refine ⟨(upgrade_resumed_iff hunique 5).mpr (.inr (.inl (by decide))), fun h => ?_⟩
  have hcases := (upgrade_resumed_iff hunique 19).mp h
  revert hcases
  decide +kernel

end Examples

end Fleetboot
