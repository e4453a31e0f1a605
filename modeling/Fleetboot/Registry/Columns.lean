import Fleetboot.Registry.Operations

/-!
# The columns that few calls write

Who enrolled a machine and what it is made of: `enrolled_by` and `hardware_spec` are written when
a machine is enrolled, and otherwise each by one call only.

* `steady_run`: the other calls leave both columns of every machine alone, and the rules.
* `enroll_columns`, `updateHardware_columns`, `updateAutoEnrolRule_of_checked`, `remove_columns`:
  what these calls write.
-/

set_option autoImplicit false

namespace Fleetboot

open Python Relational

/-! ## The calls that write neither -/

/-- The two columns. -/
def Machine.origin (m : Machine) : String × Option Fields := (m.enrolledBy, m.hardwareSpec)

theorem Machine.origin_eq {m m' : Machine} (henrolledBy : m.enrolledBy = m'.enrolledBy)
    (hhardwareSpec : m.hardwareSpec = m'.hardwareSpec) : m.origin = m'.origin :=
  Prod.ext henrolledBy hhardwareSpec

/-- Both columns of every machine are the same, and so are the rules. -/
structure Steady (db db' : Database) : Prop where
  origin : ∀ k, (db'.machine k).map Machine.origin = (db.machine k).map Machine.origin
  rules : db'.rules = db.rules

theorem Steady.refl (db : Database) : Steady db db := ⟨fun _ => rfl, rfl⟩

theorem Steady.of_machine {db db' : Database} (hmachine : ∀ k, db'.machine k = db.machine k)
    (hrules : db'.rules = db.rules) : Steady db db' :=
  ⟨fun k => congrArg _ (hmachine k), hrules⟩

/-- The rows of some machines change, but not in the two columns. -/
theorem Steady.of_rows {db db' : Database} {changes : String → Prop}
    [DecidablePred changes] {f : Machine → Machine}
    (hmachine : ∀ k, db'.machine k = if changes k then (db.machine k).map f else db.machine k)
    (horigin : ∀ m, (f m).origin = m.origin) (hrules : db'.rules = db.rules) : Steady db db' := by
  refine ⟨fun k => ?_, hrules⟩
  rw [hmachine]
  split
  · rw [Option.map_map]
    exact congrArg (fun g => (db.machine k).map g) (funext horigin)
  · rfl

theorem steady_updateMachine (db : Database) (mac : String) (f : Machine → Machine)
    (hmac : ∀ m, (f m).mac = m.mac) (horigin : ∀ m, (f m).origin = m.origin) :
    Steady db (db.updateMachine mac f hmac) :=
  .of_rows (fun k => Database.machine_updateMachine db mac f hmac k) horigin rfl

/-- The calls that write neither of the two columns and no rule. -/
def Operation.isSteady : Operation → Bool
  | enroll _ | remove _ | updateHardware _ _ | addAutoEnrolRule _ | updateAutoEnrolRule _ _
  | removeAutoEnrolRule _ => false
  | _ => true

section Run

variable [Unicode] [IpAddress] {now : Timestamp} {db : Database}

/-- **The other calls** leave the two columns and the rules alone. -/
theorem steady_run {op : Operation} (hrun : HasRun db) (hop : op.isSteady = true) :
    Steady db (op.run now db).db := by
  cases op with
  | reopen =>
    rw [Operation.run, openRegistry_of_hasRun now hrun]
    exact .of_machine (fun _ => rfl) rfl
  | reserve req =>
    rw [Operation.run, Outcome.db_map]
    have h := reserve_cases now req db
    generalize reserve now req db = out at h
    cases h with
    | refused => exact .refl db
    | overlong => exact .of_machine (fun _ => rfl) rfl
    | leased _ _ hleased =>
      exact .of_rows hleased.machine (fun _ => Machine.origin_eq rfl rfl) hleased.rest.rules
  | renew mac ttlSeconds =>
    rw [Operation.run, Outcome.db_map]
    rcases renew_cases now mac ttlSeconds db with ⟨err, hrenew, -⟩ | ⟨-, hrenew⟩
    · rw [hrenew]
      exact .refl db
    · rw [hrenew]
      exact .of_machine (fun _ => rfl) rfl
  | release macs holder =>
    exact .of_machine (machine_releaseTargets _ db) (sameRest_releaseTargets _ db).rules
  | pin req =>
    rw [Operation.run, Outcome.db_map]
    rcases pin_cases now req db with
      ⟨-, message, hpin⟩ | ⟨-, hpin⟩ | ⟨m, db', -, -, hpinned, hpin⟩
    · rw [hpin]
      exact .refl db
    · rw [hpin]
      exact .refl db
    · rw [hpin]
      exact .of_rows hpinned.machine (fun _ => Machine.origin_eq rfl rfl) hpinned.rest.rules
  | releaseToPool mac => exact .of_machine (fun _ => rfl) rfl
  | reapExpired =>
    obtain ⟨db', hreap, hreleased⟩ := reapExpired_effect now db
    rw [Operation.run, Outcome.db_map, hreap]
    exact .of_machine hreleased.machine hreleased.rest.rules
  | setProfile mac profileName =>
    simp only [Operation.run, Outcome.db_map, setProfile]
    split
    · exact .refl db
    · dsimp only
      exact steady_updateMachine db _ _ _ fun _ => Machine.origin_eq rfl rfl
  | updateHostname mac hostname =>
    simp only [Operation.run, Outcome.done, updateHostname]
    split
    · exact .refl db
    · exact steady_updateMachine db _ _ _ fun _ => Machine.origin_eq rfl rfl
  | updateLastIp mac ip =>
    simp only [Operation.run, Outcome.done, updateLastIp]
    split
    · exact .refl db
    · exact steady_updateMachine db _ _ _ fun _ => Machine.origin_eq rfl rfl
  | updateBootVersion mac bootVersion =>
    simp only [Operation.run, Outcome.done, updateBootVersion]
    split
    · exact .refl db
    · exact steady_updateMachine db _ _ _ fun _ => Machine.origin_eq rfl rfl
  | updateDiagnostics mac diagnostics =>
    simp only [Operation.run, Outcome.done, updateDiagnostics]
    split
    · exact .refl db
    · exact steady_updateMachine db _ _ _ fun _ => Machine.origin_eq rfl rfl
  | setPendingReboot mac pending =>
    simp only [Operation.run, Outcome.done, setPendingReboot]
    exact steady_updateMachine db _ _ _ fun _ => Machine.origin_eq rfl rfl
  | setPowerCommand mac action command =>
    simp only [Operation.run, Outcome.done, setPowerCommand]
    refine steady_updateMachine db _ _ _ fun m => ?_
    cases action <;> exact Machine.origin_eq rfl rfl
  | setPduAlias mac pduAlias =>
    simp only [Operation.run, Outcome.done, setPduAlias]
    exact steady_updateMachine db _ _ _ fun _ => Machine.origin_eq rfl rfl
  | setPdudaemonHost host =>
    simp only [Operation.run, Outcome.done, setSetting]
    split <;> exact .of_machine (fun _ => rfl) rfl
  | logBootEvent mac state detail =>
    simp only [Operation.run, Outcome.done, logBootEvent]
    split
    · exact .of_machine (fun _ => rfl) rfl
    · split <;> exact .of_machine (fun _ => rfl) rfl
  | mint token mac =>
    simp only [Operation.run, Outcome.db_map, mint]
    split <;> exact .of_machine (fun _ => rfl) rfl
  | recordState token state =>
    simp only [Operation.run]
    cases hrecord : recordState now token state db with
    | none => exact .refl db
    | some result =>
      obtain ⟨row, -, hrow⟩ := Option.map_eq_some_iff.mp hrecord
      obtain rfl := hrow
      exact .of_machine (fun _ => rfl) rfl
  | endSession token => exact .of_machine (fun _ => rfl) rfl
  | enroll | remove | updateHardware | addAutoEnrolRule | updateAutoEnrolRule
  | removeAutoEnrolRule => cases hop

/-! ## The calls that write them -/

omit [IpAddress] in
/-- A machine that is enrolled again keeps its spec; a new one has none. -/
theorem enroll_columns {args : Enrolment} {scratch : ScratchMode}
    (hmode : ScratchMode.ofText args.scratchMode = some scratch) :
    (∀ k, ((enroll now args db).db.machine k).map Machine.origin =
      if k = normaliseMac args.mac then
        some (args.enrolledBy, (db.lookup args.mac).bind Machine.hardwareSpec)
      else (db.machine k).map Machine.origin) ∧
    (enroll now args db).db.rules = db.rules := by
  have hrow : ∀ k, ((db.replaceMachine (args.row scratch now)).machine k).map Machine.origin =
      if k = normaliseMac args.mac then some (args.enrolledBy, none)
      else (db.machine k).map Machine.origin := by
    intro k
    rw [Database.machine_replaceMachine]
    by_cases hk : k = normaliseMac args.mac
    · rw [if_pos hk, if_pos (show k = (args.row scratch now).mac from hk)]
      rfl
    · rw [if_neg hk, if_neg (show k ≠ (args.row scratch now).mac from hk)]
  have h := enroll_cases now args db
  generalize enroll now args db = out at h
  cases h with
  | refused hrefused =>
    rw [hmode] at hrefused
    cases hrefused
  | again hscratch hprevious =>
    obtain rfl := Option.some.inj (hmode.symm.trans hscratch)
    refine ⟨fun k => ?_, rfl⟩
    rw [Database.machine_updateMachine, Database.lookup, hprevious]
    by_cases hk : k = normaliseMac args.mac
    · rw [if_pos hk, if_pos hk, Database.machine_replaceMachine,
        if_pos (show k = (args.row scratch now).mac from hk)]
      rfl
    · rw [if_neg hk, hrow k, if_neg hk, if_neg hk]
  | new hscratch hunknown hinserted =>
    obtain rfl := Option.some.inj (hmode.symm.trans hscratch)
    refine ⟨fun k => ?_, hinserted.sameRest.rules⟩
    rw [hinserted.machine, hrow k, Database.lookup, hunknown]
    rfl
  | orphan hscratch hunknown _ =>
    obtain rfl := Option.some.inj (hmode.symm.trans hscratch)
    refine ⟨fun k => ?_, rfl⟩
    rw [hrow k, Database.lookup, hunknown]
    rfl

omit [IpAddress] in
/-- An enrolment that is refused changes nothing. -/
theorem enroll_of_refused {args : Enrolment} (hmode : ScratchMode.ofText args.scratchMode = none) :
    (enroll now args db).db = db := by
  unfold enroll
  rw [hmode]

/-- The spec that a stored one becomes by a report. -/
def foldReport (spec : Option Fields) (hardware : Fields) : Option Fields :=
  let merged := mergeSpec spec (specFromInventory (some hardware))
  if merged.isEmpty then none else some merged

omit [IpAddress] in
theorem updateHardware_columns (mac : String) (hardware : Fields) :
    (∀ k, ((updateHardware now mac hardware db).machine k).map Machine.origin =
      if k = normaliseMac mac then
        (db.machine k).map fun m => (m.enrolledBy, foldReport m.hardwareSpec hardware)
      else (db.machine k).map Machine.origin) ∧
    (updateHardware now mac hardware db).rules = db.rules := by
  refine ⟨fun k => ?_, rfl⟩
  unfold updateHardware
  rw [Database.machine_updateMachine]
  split
  · rw [Option.map_map]
    rfl
  · rfl

omit [Unicode] [IpAddress] in
/-- What an update that is not refused does to a machine. -/
def carryName (old new : String) (m : Machine) : Machine :=
  if old = new then m
  else if m.enrolledBy = "rule:" ++ old then { m with enrolledBy := "rule:" ++ new } else m

theorem updateAutoEnrolRule_of_checked {id : Nat} {req : RuleRequest} {checked : CheckedRule}
    {rule : AutoEnrolRule} (hchecked : req.check = .ok checked)
    (hrule : getAutoEnrolRule db id = some rule) :
    (∀ k, (updateAutoEnrolRule id req db).db.machine k =
      (db.machine k).map (carryName rule.name req.name)) ∧
    (∀ id', getAutoEnrolRule (updateAutoEnrolRule id req db).db id' =
      if id' = id then some (req.row checked rule.createdAt id) else getAutoEnrolRule db id') ∧
    ∃ f hkey, (updateAutoEnrolRule id req db).db.rules = db.rules.update f hkey := by
  have hrules : ∀ id', ((db.rules.update (fun rule =>
      if rule.id = id then req.row checked rule.createdAt rule.id else rule)
      (fun rule => by split <;> rfl)).find id') =
      if id' = id then some (req.row checked rule.createdAt id) else getAutoEnrolRule db id' := by
    intro id'
    rw [Serial.find_update]
    by_cases hid : id' = id
    · have hkey := (Serial.mem_of_find hrule).2
      rw [if_pos hid, hid, show db.rules.find id = some rule from hrule, Option.map_some,
        if_pos hkey, hkey]
    · rw [if_neg hid]
      cases hother : db.rules.find id' with
      | none =>
        rw [Option.map_none]
        exact hother.symm
      | some other =>
        have hkey := (Serial.mem_of_find hother).2
        rw [Option.map_some, if_neg (show other.id ≠ id from hkey ▸ hid)]
        exact hother.symm
  unfold updateAutoEnrolRule
  rw [hchecked]
  dsimp only
  rw [hrule]
  dsimp only
  split
  · rename_i hsame
    refine ⟨fun k => ?_, hrules, _, fun rule => by split <;> rfl, rfl⟩
    have hkept : carryName rule.name req.name = fun m => m := funext fun m => if_pos hsame
    rw [hkept, Option.map_id']
    rfl
  · rename_i hrenamed
    refine ⟨fun k => ?_, hrules, _, fun rule => by split <;> rfl, rfl⟩
    unfold Database.machine
    dsimp only
    rw [Table.lookup_update]
    cases db.machines.lookup k with
    | none => rfl
    | some m =>
      rw [Option.map_some, Option.map_some, carryName, if_neg hrenamed]
      rfl

/-- An update of a rule leaves every spec alone. -/
theorem hardwareSpec_updateAutoEnrolRule (id : Nat) (req : RuleRequest) (k : String) :
    ((updateAutoEnrolRule id req db).db.machine k).map Machine.hardwareSpec =
      (db.machine k).map Machine.hardwareSpec := by
  cases hchecked : req.check with
  | error err => rw [updateAutoEnrolRule, hchecked]
  | ok checked =>
    cases hrule : getAutoEnrolRule db id with
    | none =>
      rw [updateAutoEnrolRule, hchecked]
      dsimp only
      rw [hrule]
    | some rule =>
      rw [(updateAutoEnrolRule_of_checked hchecked hrule).1, Option.map_map]
      refine congrArg (fun f => (db.machine k).map f) (funext fun m => ?_)
      unfold carryName
      rw [Function.comp_apply]
      split
      · rfl
      · split <;> rfl

omit [IpAddress] in
theorem remove_columns (mac : String) :
    (∀ k, ((remove mac db).db.machine k).map Machine.origin =
      if k = normaliseMac mac then none else (db.machine k).map Machine.origin) ∧
    (remove mac db).db.rules = db.rules := by
  refine ⟨fun k => ?_, rfl⟩
  rw [remove_eq]
  dsimp only
  rw [Database.machine_withoutMachine]
  split <;> rfl

end Run

end Fleetboot
