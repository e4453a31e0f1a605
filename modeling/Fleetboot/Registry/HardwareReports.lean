import Fleetboot.Registry.Columns
import Fleetboot.Registry.Holds

/-!
# Hardware reports over a run

The spec of a machine is folded from the inventories that are reported for it, through every
other call that may come in between, a new enrolment included.

* `hardwareSpec_run`: the spec after a run is the fold of the inventories reported in it.
* `get?_foldReports`: a section holds what was emitted for it last.
* `carried_eq_some_iff`: what an inventory carries for a section, by its members.
* `specKept_iff`: no section is emitted empty and none is lost exactly if no inventory is hollow.
-/

set_option autoImplicit false

namespace Fleetboot

open Python Relational Transition

/-! ## Sections over reports -/

/-- A section of a stored spec. -/
def specSection (spec : Option Fields) (key : String) : Option Json :=
  Json.get? (spec.getD []) key

/-- What an inventory puts into a section, be it empty. -/
def emitted (key : String) (inventory : Fields) : Option Json :=
  Json.get? (specFromInventory (some inventory)) key

/-- The data that an inventory carries for a section. -/
def carried (key : String) (inventory : Fields) : Option Json :=
  (emitted key inventory).filter Json.truthy

/-- The data of the last inventory that carried any for a section. -/
def lastCarried (key : String) (inventories : List Fields) : Option Json :=
  (inventories.filterMap (carried key)).getLast?

theorem specSection_foldReport (spec : Option Fields) (inventory : Fields) (key : String) :
    specSection (foldReport spec inventory) key =
      (emitted key inventory).or (specSection spec key) := by
  have hmerged : (foldReport spec inventory).getD [] =
      mergeSpec spec (specFromInventory (some inventory)) := by
    unfold foldReport
    dsimp only
    split
    · rename_i hempty
      exact (List.isEmpty_iff.mp hempty).symm
    · rfl
  rw [specSection, hmerged, get?_mergeSpec (nodup_specFromInventory _)]
  rfl

/-- **A section holds what was emitted for it last.** -/
theorem specSection_foldReports (spec : Option Fields) (inventories : List Fields)
    (key : String) : specSection (inventories.foldl foldReport spec) key =
      ((inventories.filterMap (emitted key)).getLast?).or (specSection spec key) := by
  induction inventories generalizing spec with
  | nil => rfl
  | cons inventory inventories ih =>
    rw [List.foldl_cons, ih, specSection_foldReport, List.filterMap_cons]
    cases emitted key inventory with
    | none => rfl
    | some value =>
      rw [List.getLast?_cons]
      cases (inventories.filterMap (emitted key)).getLast? <;> rfl

theorem carried_eq_emitted {inventory : Fields} (hfull : ¬ Hollow inventory) (key : String) :
    carried key inventory = emitted key inventory := by
  unfold carried
  cases hemitted : emitted key inventory with
  | none => rfl
  | some value =>
    obtain ⟨part, hpart, rfl⟩ := Option.map_eq_some_iff.mp hemitted
    exact Option.filter_some_pos
      (truthy_specFromInventory_iff.mpr hfull part (List.mem_of_find?_eq_some hpart))

theorem get?_eq_some_iff {fields : Fields} (hnodup : (fields.map Prod.fst).Nodup) {key : String}
    {value : Json} : Json.get? fields key = some value ↔ (key, value) ∈ fields := by
  unfold Json.get?
  constructor
  · intro h
    obtain ⟨field, hfield, rfl⟩ := Option.map_eq_some_iff.mp h
    have hkey : field.1 = key := by simpa using List.find?_some hfield
    exact hkey ▸ List.mem_of_find?_eq_some hfield
  · intro h
    cases hfind : fields.find? fun field => field.1 == key with
    | none => exact absurd (List.find?_eq_none.mp hfind _ h) (by simp)
    | some field =>
      have hkey : field.1 = key := by simpa using List.find?_some hfind
      have hsame := List.inj_on_of_nodup_map hnodup (List.mem_of_find?_eq_some hfind) h hkey
      rw [hsame]
      rfl

/-- **What an inventory carries**, by its members. -/
theorem carried_eq_some_iff {key : String} {inventory : Fields} {value : Json} :
    carried key inventory = some value ↔ Carries inventory key value := by
  unfold carried emitted
  rw [Option.filter_eq_some_iff, get?_eq_some_iff (nodup_specFromInventory _)]
  exact mem_specFromInventory_iff

/-- Of some inventories, the last one with data for a section carries the value. -/
def CarriesLast (inventories : List Fields) (key : String) (value : Json) : Prop :=
  ∃ before inventory after, inventories = before ++ inventory :: after ∧
    Carries inventory key value ∧ ∀ later ∈ after, ∀ value', ¬ Carries later key value'

theorem carriesLast_of_lastCarried {key : String} {inventories : List Fields} {value : Json}
    (h : lastCarried key inventories = some value) : CarriesLast inventories key value := by
  induction inventories using List.reverseRecOn with
  | nil => cases h
  | append_singleton past inventory ih =>
    unfold lastCarried at h
    rw [List.filterMap_append, List.getLast?_append] at h
    cases hcarried : carried key inventory with
    | some value' =>
      rw [List.filterMap_cons_some hcarried] at h
      obtain rfl : value' = value := Option.some.inj h
      exact ⟨past, inventory, [], rfl, carried_eq_some_iff.mp hcarried, by simp⟩
    | none =>
      rw [List.filterMap_cons_none hcarried] at h
      obtain ⟨before, last, after, rfl, hlast, hnone⟩ := ih h
      refine ⟨before, last, after ++ [inventory], by simp, hlast, fun later hlater value' => ?_⟩
      rcases List.mem_append.mp hlater with hlater | hlater
      · exact hnone later hlater value'
      · rw [List.mem_singleton.mp hlater, ← carried_eq_some_iff, hcarried]
        simp

theorem truthy_of_lastCarried {key : String} {inventories : List Fields} {value : Json}
    (h : lastCarried key inventories = some value) : value.truthy = true := by
  obtain ⟨inventory, -, hcarried⟩ := List.mem_filterMap.mp (List.mem_of_getLast? h)
  exact (Option.filter_eq_some_iff.mp hcarried).2

/-- What was carried once is there for good, or replaced by later data. -/
theorem lastCarried_append {key : String} {past future : List Fields} {value : Json}
    (h : lastCarried key past = some value) :
    ∃ value', lastCarried key (past ++ future) = some value' := by
  unfold lastCarried at h ⊢
  rw [List.filterMap_append, List.getLast?_append, h]
  exact ⟨_, Option.or_some⟩

/-- When no inventory is hollow, a section holds the data that was carried for it last. -/
theorem specSection_eq_lastCarried {inventories : List Fields}
    (hfull : ∀ inventory ∈ inventories, ¬ Hollow inventory) (key : String) :
    specSection (inventories.foldl foldReport none) key = lastCarried key inventories := by
  rw [specSection_foldReports, lastCarried, List.filterMap_congr fun inventory hinventory =>
    carried_eq_emitted (hfull inventory hinventory) key]
  exact Option.or_none

/-! ## Reports in a run -/

section Reports

variable [Unicode]

/-- The inventory that a call reports for a machine. -/
def Operation.inventory (mac : String) : Operation → Option Fields
  | updateHardware mac' hardware => if normaliseMac mac' = mac then some hardware else none
  | _ => none

/-- The inventories that are reported for a machine, oldest first. -/
def inventoriesOf (mac : String) (calls : List Call) : List Fields :=
  calls.filterMap fun call => call.op.inventory mac

theorem inventoriesOf_append (mac : String) (past future : List Call) :
    inventoriesOf mac (past ++ future) = inventoriesOf mac past ++ inventoriesOf mac future :=
  List.filterMap_append

/-- The call removes the machine. -/
def Operation.Unenrols (mac : String) : Operation → Prop
  | remove mac' => normaliseMac mac' = mac
  | _ => False

variable [IpAddress] {mac : String}

/-- The stored spec of a machine, if it is enrolled. -/
def Database.hardwareSpecOf (db : Database) (mac : String) : Option (Option Fields) :=
  (db.machine mac).map Machine.hardwareSpec

omit [Unicode] [IpAddress] in
theorem hardwareSpecOf_eq_map_origin (db : Database) :
    db.hardwareSpecOf mac = ((db.machine mac).map Machine.origin).map Prod.snd := by
  rw [Database.hardwareSpecOf, Option.map_map]
  rfl

theorem hardwareSpecOf_of_steady {now : Timestamp} {op : Operation} {db : Database}
    (hrun : HasRun db) (hop : op.isSteady = true) :
    (op.run now db).db.hardwareSpecOf mac = db.hardwareSpecOf mac := by
  rw [hardwareSpecOf_eq_map_origin, (steady_run hrun hop).origin, ← hardwareSpecOf_eq_map_origin]

/-- **One call** folds in the inventory that it reports, if any. -/
theorem hardwareSpec_run {now : Timestamp} {op : Operation} {db : Database}
    {spec : Option Fields} (hrun : HasRun db) (hspec : db.hardwareSpecOf mac = some spec)
    (hop : ¬ op.Unenrols mac) : (op.run now db).db.hardwareSpecOf mac =
      some ((op.inventory mac).elim spec (foldReport spec)) := by
  obtain ⟨m, hm, hmspec⟩ := Option.map_eq_some_iff.mp hspec
  cases op with
  | enroll args =>
    show (enroll now args db).db.hardwareSpecOf mac = some spec
    cases hmode : ScratchMode.ofText args.scratchMode with
    | none => rw [enroll_of_refused hmode, hspec]
    | some scratch =>
      rw [hardwareSpecOf_eq_map_origin, (enroll_columns hmode).1]
      by_cases hmac : mac = normaliseMac args.mac
      · rw [if_pos hmac, Database.lookup, ← hmac, hm, Option.map_some, Option.bind_some, hmspec]
      · rw [if_neg hmac, ← hardwareSpecOf_eq_map_origin, hspec]
  | remove mac' =>
    show (remove mac' db).db.hardwareSpecOf mac = some spec
    rw [hardwareSpecOf_eq_map_origin, (remove_columns mac').1, if_neg (Ne.symm hop),
      ← hardwareSpecOf_eq_map_origin, hspec]
  | updateHardware mac' hardware =>
    show (updateHardware now mac' hardware db).hardwareSpecOf mac = _
    rw [hardwareSpecOf_eq_map_origin, (updateHardware_columns mac' hardware).1, Operation.inventory]
    by_cases hmac : mac = normaliseMac mac'
    · rw [if_pos hmac, if_pos hmac.symm, hm, Option.map_some, Option.map_some, hmspec]
      rfl
    · rw [if_neg hmac, if_neg (Ne.symm hmac), ← hardwareSpecOf_eq_map_origin, hspec]
      rfl
  | addAutoEnrolRule req =>
    show (addAutoEnrolRule now req db).db.hardwareSpecOf mac = some spec
    rw [← hspec, addAutoEnrolRule]
    split
    · rfl
    · dsimp only
      split <;> rfl
  | updateAutoEnrolRule id req =>
    show (updateAutoEnrolRule id req db).db.hardwareSpecOf mac = some spec
    rw [← hspec]
    exact hardwareSpec_updateAutoEnrolRule id req mac
  | removeAutoEnrolRule id => exact hspec
  | _ => exact (hardwareSpecOf_of_steady hrun rfl).trans hspec

/-- **A run** folds in the inventories that are reported in it. -/
theorem hardwareSpec_runs {s s' : Registry} {calls : List Call} {spec : Option Fields}
    (hruns : Run Step s calls s') (hs : HasRun s.db)
    (hspec : s.db.hardwareSpecOf mac = some spec)
    (hcalls : ∀ call ∈ calls, ¬ call.op.Unenrols mac) : HasRun s'.db ∧
      s'.db.hardwareSpecOf mac = some ((inventoriesOf mac calls).foldl foldReport spec) := by
  induction hruns with
  | nil => exact ⟨hs, hspec⟩
  | @snoc past call middle last hpast hstep ih =>
    obtain ⟨hmiddle, hfolded⟩ := ih fun call hcall => hcalls call (List.mem_append_left _ hcall)
    have hdb : last.db = (call.op.run call.time middle.db).db := by rw [hstep.run]
    have hcall := hcalls call (List.mem_append_right _ (List.mem_singleton.mpr rfl))
    refine ⟨hdb ▸ hasRun_run hmiddle call.op, ?_⟩
    rw [hdb, hardwareSpec_run hmiddle hfolded hcall, inventoriesOf_append, List.foldl_append]
    have hlast : inventoriesOf mac [call] = (call.op.inventory mac).toList := by
      cases hinventory : call.op.inventory mac <;> simp [inventoriesOf, hinventory]
    rw [hlast]
    cases call.op.inventory mac <;> rfl

/-! ## What is kept -/

/-- In a run no section is emitted empty, and a section that has data in some state has data at
the end: that of the last inventory that carried any. -/
structure SpecKept (mac : String) (s : Registry) (calls : List Call) (s' : Registry) : Prop where
  emitted : ∀ inventory ∈ inventoriesOf mac calls,
    ∀ part ∈ specFromInventory (some inventory), part.2.truthy = true
  kept : ∀ past future middle, calls = past ++ future → Run Step s past middle →
    ∀ earlier, middle.db.hardwareSpecOf mac = some earlier → ∀ key value,
    specSection earlier key = some value → value.truthy = true →
    ∃ later, s'.db.hardwareSpecOf mac = some later ∧ ∃ value', specSection later key = some value' ∧
      value'.truthy = true ∧ CarriesLast (inventoriesOf mac calls) key value'

/-- **The hardware spec.** Let a machine be enrolled with no spec yet, and let it stay enrolled
through a run. What is emitted is never empty and no section is lost exactly if no inventory that
is reported for it is hollow. -/
theorem specKept_iff {s s' : Registry} {calls : List Call} (hs : Reachable s)
    (hnew : s.db.hardwareSpecOf mac = some none) (hruns : Run Step s calls s')
    (hcalls : ∀ call ∈ calls, ¬ call.op.Unenrols mac) :
    SpecKept mac s calls s' ↔ ∀ inventory ∈ inventoriesOf mac calls, ¬ Hollow inventory := by
  constructor
  · intro h inventory hinventory
    exact truthy_specFromInventory_iff.mp (h.emitted inventory hinventory)
  · intro hfull
    refine ⟨fun inventory hinventory => truthy_specFromInventory_iff.mpr (hfull _ hinventory), ?_⟩
    rintro past future middle rfl hpast earlier hearlier key value hvalue htruthy
    have hfolded := (hardwareSpec_runs hpast hs.sound.hasRun hnew fun call hcall =>
      hcalls call (List.mem_append_left _ hcall)).2
    refine ⟨_, (hardwareSpec_runs hruns hs.sound.hasRun hnew hcalls).2, ?_⟩
    obtain rfl := Option.some.inj (hearlier.symm.trans hfolded)
    rw [inventoriesOf_append] at hfull ⊢
    have hcarried : lastCarried key (inventoriesOf mac past) = some value := by
      rw [← specSection_eq_lastCarried fun inventory hinventory =>
        hfull inventory (List.mem_append_left _ hinventory)]
      exact hvalue
    obtain ⟨value', hvalue'⟩ := @lastCarried_append key _ (inventoriesOf mac future) _ hcarried
    exact ⟨value', (specSection_eq_lastCarried hfull key).trans hvalue',
      truthy_of_lastCarried hvalue', carriesLast_of_lastCarried hvalue'⟩

end Reports

section Examples

attribute [local instance] ascii noNetworks

/-- What the reporter sends of a machine with one disk. -/
def oneDisk : Fields :=
  [("mem_total_mb", .int 15894), ("disks", .arr [.obj [("name", .str "sda")]])]

/-- What it sends when it could not list the disks. -/
def noDisks : Fields := [("mem_total_mb", .int 15894), ("disks", .arr [])]

def reportCall (time : Timestamp) (inventory : Fields) : Call :=
  ⟨time, .updateHardware "52:54:00:12:34:56" inventory, .ok .done⟩

/-- The desktop, enrolled. -/
def enrolledDesktop : Registry := newRegistry.after 5 (.enroll desktop)

theorem enrolledDesktop_reachable : Reachable enrolledDesktop :=
  ⟨newRegistry, _, newRegistry_opened, .single (Registry.step_after (by decide) _)⟩

def reportedDesktop : Registry :=
  enrolledDesktop.after 6 (.updateHardware "52:54:00:12:34:56" oneDisk)

theorem step_reportCall {s : Registry} {time : Timestamp} (h : s.clock ≤ time)
    (inventory : Fields) : Step s (reportCall time inventory)
      (s.after time (.updateHardware "52:54:00:12:34:56" inventory)) :=
  ⟨h, rfl, rfl⟩

theorem inventoriesOf_reportCall (time : Timestamp) (inventory : Fields) :
    inventoriesOf "52:54:00:12:34:56" [reportCall time inventory] = [inventory] := by
  have hnormal : normaliseMac "52:54:00:12:34:56" = "52:54:00:12:34:56" := by decide +kernel
  refine List.filterMap_cons_some ?_
  show (if normaliseMac "52:54:00:12:34:56" = "52:54:00:12:34:56" then some inventory else none) = _
  exact if_pos hnormal

theorem hardwareSpecOf_enrolledDesktop :
    enrolledDesktop.db.hardwareSpecOf "52:54:00:12:34:56" = some none := by
  have hnone : (enrolledDesktop.db.machine "52:54:00:12:34:56").map
      (fun m => m.hardwareSpec.isNone) = some true := by
    decide +kernel
  obtain ⟨m, hm, hspec⟩ := Option.map_eq_some_iff.mp hnone
  rw [Database.hardwareSpecOf, hm, Option.map_some, Option.isNone_iff_eq_none.mp hspec]

theorem not_unenrols_reportCall (time : Timestamp) (inventory : Fields) :
    ∀ call ∈ [reportCall time inventory], ¬ call.op.Unenrols "52:54:00:12:34:56" := by
  intro call hcall
  rw [List.mem_singleton.mp hcall]
  exact id

/-- A report without disks empties the section that an earlier one filled. -/
theorem not_specKept : Reachable enrolledDesktop ∧
    Run Step enrolledDesktop [reportCall 6 oneDisk, reportCall 7 noDisks]
      (reportedDesktop.after 7 (.updateHardware "52:54:00:12:34:56" noDisks)) ∧
    ¬ SpecKept "52:54:00:12:34:56" enrolledDesktop [reportCall 6 oneDisk, reportCall 7 noDisks]
      (reportedDesktop.after 7 (.updateHardware "52:54:00:12:34:56" noDisks)) := by
  have hfirst : Run Step enrolledDesktop [reportCall 6 oneDisk] reportedDesktop :=
    .single (step_reportCall (by decide) _)
  have hsecond : Run Step reportedDesktop [reportCall 7 noDisks]
      (reportedDesktop.after 7 (.updateHardware "52:54:00:12:34:56" noDisks)) :=
    .single (step_reportCall (by decide) _)
  refine ⟨enrolledDesktop_reachable, hfirst.append hsecond, fun h => ?_⟩
  obtain ⟨hrun, hspec⟩ := hardwareSpec_runs hfirst enrolledDesktop_reachable.sound.hasRun
    hardwareSpecOf_enrolledDesktop (not_unenrols_reportCall _ _)
  have hthen := (hardwareSpec_runs hsecond hrun hspec (not_unenrols_reportCall _ _)).2
  obtain ⟨later, hlater, value, hvalue, htruthy, -⟩ := h.kept _ _ _ rfl hfirst _ hspec "disks"
    (.arr [.obj [("name", .str "sda")]])
    (by
      rw [specSection_foldReports, inventoriesOf_reportCall]
      rfl) rfl
  obtain rfl := Option.some.inj (hthen.symm.trans hlater)
  rw [specSection_foldReports, inventoriesOf_reportCall] at hvalue
  have hempty : some (Json.arr []) = some value := hvalue
  cases hempty
  cases htruthy

/-- What an image from before sends of the processor, and of nothing else. -/
def processorOnly : Fields := [("cpu_model", .str "i5-7500"), ("cpu_count", .int 4)]

/-- A second report without disks or memory leaves these as they were. -/
theorem specKept_oneDisk :
    SpecKept "52:54:00:12:34:56" enrolledDesktop [reportCall 6 oneDisk, reportCall 7 processorOnly]
      (reportedDesktop.after 7 (.updateHardware "52:54:00:12:34:56" processorOnly)) := by
  have hfirst : Run Step enrolledDesktop [reportCall 6 oneDisk] reportedDesktop :=
    .single (step_reportCall (by decide) _)
  have hsecond : Run Step reportedDesktop [reportCall 7 processorOnly]
      (reportedDesktop.after 7 (.updateHardware "52:54:00:12:34:56" processorOnly)) :=
    .single (step_reportCall (by decide) _)
  refine (specKept_iff enrolledDesktop_reachable hardwareSpecOf_enrolledDesktop
    (hfirst.append hsecond) fun call hcall => ?_).mpr fun inventory hinventory => ?_
  · rcases List.mem_append.mp hcall with hcall | hcall
    · exact not_unenrols_reportCall _ _ call hcall
    · exact not_unenrols_reportCall _ _ call hcall
  · rw [inventoriesOf_append, inventoriesOf_reportCall, inventoriesOf_reportCall] at hinventory
    rcases List.mem_append.mp hinventory with hinventory | hinventory
    · rw [List.mem_singleton.mp hinventory]
      rintro (⟨disks, hdisks, hnone⟩ | ⟨board, -, hboard, -⟩)
      · cases hdisks
        exact hnone _ (List.mem_singleton.mpr rfl)
      · cases hboard
    · rw [List.mem_singleton.mp hinventory]
      rintro (⟨disks, hdisks, -⟩ | ⟨board, -, hboard, -⟩)
      · cases hdisks
      · cases hboard

end Examples

end Fleetboot
