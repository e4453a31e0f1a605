import Fleetboot.Registry.Operations

/-!
# The profile names in the registry

Which profile names the rows of machines and rules hold, and which of them a call brings in.

* `writesName_run`: a call keeps the names that are there and brings in one at most.
* `stores_storedName`: that name is stored.
-/

set_option autoImplicit false

namespace Fleetboot

open Python Relational

/-- A machine or a rule has the profile name. -/
def Stores (db : Database) (name : String) : Prop :=
  (∃ mac m, db.machine mac = some m ∧ m.profileName = name) ∨
    ∃ rule ∈ db.rules.rows, rule.profileName = name

/-- Every profile name in the new database was there, or is the one that is written. -/
structure WritesName (name : Option String) (db db' : Database) : Prop where
  machine : ∀ k m', db'.machine k = some m' →
    (∃ m, db.machine k = some m ∧ m.profileName = m'.profileName) ∨ name = some m'.profileName
  rule : ∀ rule' ∈ db'.rules.rows,
    (∃ rule ∈ db.rules.rows, rule.profileName = rule'.profileName) ∨
      name = some rule'.profileName

section Names

variable {name : Option String} {db db' : Database}

theorem WritesName.stores (h : WritesName name db db') {stored : String}
    (hstored : Stores db' stored) : Stores db stored ∨ name = some stored := by
  rcases hstored with ⟨mac, m', hm', rfl⟩ | ⟨rule', hrule', rfl⟩
  · rcases h.machine mac m' hm' with ⟨m, hm, hsame⟩ | hname
    · exact .inl (.inl ⟨mac, m, hm, hsame⟩)
    · exact .inr hname
  · rcases h.rule rule' hrule' with ⟨rule, hrule, hsame⟩ | hname
    · exact .inl (.inr ⟨rule, hrule, hsame⟩)
    · exact .inr hname

/-- Rows that keep their names write none. -/
theorem WritesName.of_same
    (hmachine : ∀ k, (db'.machine k).map Machine.profileName =
      (db.machine k).map Machine.profileName)
    (hrules : ∀ rule ∈ db'.rules.rows, rule ∈ db.rules.rows) : WritesName name db db' := by
  refine ⟨fun k m' hm' => .inl ?_, fun rule hrule => .inl ⟨rule, hrules rule hrule, rfl⟩⟩
  have hmap := hmachine k
  rw [hm', Option.map_some] at hmap
  exact Option.map_eq_some_iff.mp hmap.symm

theorem WritesName.refl (name : Option String) (db : Database) : WritesName name db db :=
  .of_same (fun _ => rfl) fun _ h => h

theorem WritesName.of_sameRest (hmachine : ∀ k, db'.machine k = db.machine k)
    (hrest : db'.rules = db.rules) : WritesName name db db' :=
  .of_same (fun k => by rw [hmachine]) fun rule h => hrest ▸ h

/-- An update of one row that keeps its name. -/
theorem writesName_updateMachine (mac : String) (f : Machine → Machine)
    (hmac : ∀ m, (f m).mac = m.mac) (hname : ∀ m, (f m).profileName = m.profileName) :
    WritesName name db (db.updateMachine mac f hmac) := by
  refine .of_same (fun k => ?_) fun _ h => h
  rw [Database.machine_updateMachine]
  split
  · cases db.machine k <;> simp [hname]
  · rfl

theorem writesName_columnsWritten {written : Option String} {db db' : Database}
    (h : ColumnsWritten db db') : WritesName written db db' := by
  cases h with
  | nothing => exact .refl _ db
  | row mac f hmac hprofile => exact writesName_updateMachine _ _ _ hprofile

/-- Rows that are as they were, or have the name that is written. -/
theorem WritesName.of_machine {profile : String}
    (hmachine : ∀ k m', db'.machine k = some m' →
      m'.profileName = profile ∨ db.machine k = some m')
    (hrules : db'.rules = db.rules) : WritesName (some profile) db db' := by
  refine ⟨fun k m' hm' => ?_, fun rule hrule => .inl ⟨rule, hrules ▸ hrule, rfl⟩⟩
  rcases hmachine k m' hm' with hprofile | hold
  · exact .inr (congrArg some hprofile.symm)
  · exact .inl ⟨m', hold, rfl⟩

end Names

/-! ## What a call brings in -/

section Calls

variable [Unicode] [IpAddress]

/-- The profile name that a call stores, if it stores one. -/
def Operation.storedName (now : Timestamp) (db : Database) : Operation → Option String
  | enroll args =>
    if (ScratchMode.ofText args.scratchMode).isSome then some args.profileName else none
  | setProfile mac profileName =>
    if strip profileName ≠ "" ∧ (db.lookup mac).isSome then some (strip profileName) else none
  | reserve req =>
    match req.check, strOfInt req.ttlSeconds with
    | .ok (), .ok _ => if reserveCandidates now req db = [] then none else some (strip req.profile)
    | _, _ => none
  | pin req =>
    if strip req.holder ≠ "" ∧ (db.lookup req.mac).isSome then blankToNone req.profile else none
  | addAutoEnrolRule req => req.check.toOption.map fun _ => req.profileName
  | updateAutoEnrolRule id req =>
    match req.check with
    | .ok _ => (getAutoEnrolRule db id).map fun _ => req.profileName
    | .error _ => none
  | _ => none

section Stored

variable {now : Timestamp} {db : Database}

theorem storedName_enroll (args : Enrolment) :
    (Operation.enroll args).storedName now db =
      if (ScratchMode.ofText args.scratchMode).isSome then some args.profileName else none := rfl

theorem storedName_setProfile (mac profileName : String) :
    (Operation.setProfile mac profileName).storedName now db =
      if strip profileName ≠ "" ∧ (db.lookup mac).isSome then some (strip profileName)
      else none := rfl

theorem storedName_reserve {req : ReserveRequest} {text : String} (hcheck : req.check = .ok ())
    (htext : strOfInt req.ttlSeconds = .ok text) :
    (Operation.reserve req).storedName now db =
      if reserveCandidates now req db = [] then none else some (strip req.profile) := by
  change (match req.check, strOfInt req.ttlSeconds with
    | .ok (), .ok _ => if reserveCandidates now req db = [] then none else some (strip req.profile)
    | _, _ => none) = _
  rw [hcheck, htext]

theorem storedName_pin (req : PinRequest) :
    (Operation.pin req).storedName now db =
      if strip req.holder ≠ "" ∧ (db.lookup req.mac).isSome then blankToNone req.profile
      else none := rfl

theorem storedName_addAutoEnrolRule (req : RuleRequest) :
    (Operation.addAutoEnrolRule req).storedName now db =
      req.check.toOption.map fun _ => req.profileName := rfl

theorem storedName_updateAutoEnrolRule {id : Nat} {req : RuleRequest} {checked : CheckedRule}
    (hcheck : req.check = .ok checked) :
    (Operation.updateAutoEnrolRule id req).storedName now db =
      (getAutoEnrolRule db id).map fun _ => req.profileName := by
  change (match req.check with
    | .ok _ => (getAutoEnrolRule db id).map fun _ => req.profileName
    | .error _ => none) = _
  rw [hcheck]

/-- When `reserve` stores a name. -/
theorem storedName_reserve_eq_some {req : ReserveRequest} {name : String}
    (h : (Operation.reserve req).storedName now db = some name) :
    ∃ text, req.check = .ok () ∧ strOfInt req.ttlSeconds = .ok text ∧
      reserveCandidates now req db ≠ [] ∧ strip req.profile = name := by
  change (match req.check, strOfInt req.ttlSeconds with
    | .ok (), .ok _ => if reserveCandidates now req db = [] then none else some (strip req.profile)
    | _, _ => none) = some name at h
  split at h
  · rename_i text hcheck htext
    obtain ⟨hsome, hname⟩ := Option.ite_none_left_eq_some.mp h
    exact ⟨text, hcheck, htext, hsome, Option.some.inj hname⟩
  · cases h

/-- When editing a rule stores a name. -/
theorem storedName_updateAutoEnrolRule_eq_some {id : Nat} {req : RuleRequest} {name : String}
    (h : (Operation.updateAutoEnrolRule id req).storedName now db = some name) :
    ∃ checked rule, req.check = .ok checked ∧ getAutoEnrolRule db id = some rule ∧
      req.profileName = name := by
  change (match req.check with
    | .ok _ => (getAutoEnrolRule db id).map fun _ => req.profileName
    | .error _ => none) = some name at h
  split at h
  · rename_i checked hcheck
    obtain ⟨rule, hrule, hname⟩ := Option.map_eq_some_iff.mp h
    exact ⟨checked, rule, hcheck, hrule, hname⟩
  · cases h

end Stored

/-! What it takes that the name a call stores has a property. -/

section Forall

variable {now : Timestamp} {db : Database} {P : String → Prop}

theorem forall_storedName_enroll {args : Enrolment} :
    (∀ name, (Operation.enroll args).storedName now db = some name → P name) ↔
      ((ScratchMode.ofText args.scratchMode).isSome → P args.profileName) := by
  rw [storedName_enroll]
  simp

theorem forall_storedName_setProfile {mac profileName : String} :
    (∀ name, (Operation.setProfile mac profileName).storedName now db = some name → P name) ↔
      (strip profileName ≠ "" → (db.lookup mac).isSome → P (strip profileName)) := by
  rw [storedName_setProfile]
  simp

theorem forall_storedName_reserve {req : ReserveRequest} :
    (∀ name, (Operation.reserve req).storedName now db = some name → P name) ↔
      (req.check = .ok () → (strOfInt req.ttlSeconds).toOption.isSome →
        reserveCandidates now req db ≠ [] → P (strip req.profile)) := by
  constructor
  · intro h hcheck hdigits hsome
    obtain ⟨text, htext⟩ := Option.isSome_iff_exists.mp hdigits
    refine h _ ?_
    rw [storedName_reserve hcheck (eq_ok_of_toOption htext), if_neg hsome]
  · intro h name hname
    obtain ⟨text, hcheck, htext, hsome, rfl⟩ := storedName_reserve_eq_some hname
    exact h hcheck (by rw [htext]; rfl) hsome

theorem forall_storedName_pin {req : PinRequest} :
    (∀ name, (Operation.pin req).storedName now db = some name → P name) ↔
      (strip req.holder ≠ "" → (db.lookup req.mac).isSome →
        ∀ name, blankToNone req.profile = some name → P name) := by
  simp only [storedName_pin, Option.ite_none_right_eq_some]
  exact ⟨fun h hholder hknown name hname => h name ⟨⟨hholder, hknown⟩, hname⟩,
    fun h name hname => h hname.1.1 hname.1.2 name hname.2⟩

theorem forall_storedName_addAutoEnrolRule {req : RuleRequest} :
    (∀ name, (Operation.addAutoEnrolRule req).storedName now db = some name → P name) ↔
      (req.check.toOption.isSome → P req.profileName) := by
  rw [storedName_addAutoEnrolRule]
  cases req.check.toOption <;> simp

theorem forall_storedName_updateAutoEnrolRule {id : Nat} {req : RuleRequest} :
    (∀ name, (Operation.updateAutoEnrolRule id req).storedName now db = some name → P name) ↔
      (req.check.toOption.isSome → (getAutoEnrolRule db id).isSome → P req.profileName) := by
  constructor
  · intro h hcheck hrule
    obtain ⟨checked, hchecked⟩ := Option.isSome_iff_exists.mp hcheck
    obtain ⟨rule, hrule⟩ := Option.isSome_iff_exists.mp hrule
    refine h _ ?_
    rw [storedName_updateAutoEnrolRule (eq_ok_of_toOption hchecked), hrule, Option.map_some]
  · intro h name hname
    obtain ⟨checked, rule, hcheck, hrule, rfl⟩ := storedName_updateAutoEnrolRule_eq_some hname
    exact h (by rw [hcheck]; rfl) (by rw [hrule]; rfl)

end Forall

theorem writesName_enroll (now : Timestamp) (args : Enrolment) (db : Database) :
    WritesName ((Operation.enroll args).storedName now db) db (enroll now args db).db := by
  have hstored : ∀ {scratch : ScratchMode}, ScratchMode.ofText args.scratchMode = some scratch →
      (Operation.enroll args).storedName now db = some args.profileName := by
    intro scratch hscratch
    rw [storedName_enroll, hscratch]
    rfl
  have hmac : ∀ scratch, normaliseMac args.mac = (args.row scratch now).mac := fun _ => rfl
  have hreplaced : ∀ scratch k m', (db.replaceMachine (args.row scratch now)).machine k = some m' →
      m'.profileName = args.profileName ∨ db.machine k = some m' := by
    intro scratch k m' hm'
    rw [Database.machine_replaceMachine] at hm'
    split at hm'
    · cases hm'
      exact .inl rfl
    · exact .inr hm'
  have h := enroll_cases now args db
  generalize enroll now args db = out at h
  cases h with
  | refused => exact .refl _ db
  | again hscratch _ =>
    rw [hstored hscratch]
    refine .of_machine (fun k m' hm' => ?_) rfl
    rw [Database.machine_updateMachine] at hm'
    split at hm'
    · obtain ⟨m, hm, rfl⟩ := Option.map_eq_some_iff.mp hm'
      rename_i hk
      rw [hk, Database.machine_replaceMachine, if_pos (hmac _)] at hm
      cases hm
      exact .inl rfl
    · exact hreplaced _ k m' hm'
  | new hscratch _ hins =>
    rw [hstored hscratch]
    refine .of_machine (fun k m' hm' => ?_) hins.sameRest.rules
    rw [hins.machine] at hm'
    exact hreplaced _ k m' hm'
  | orphan hscratch _ _ =>
    rw [hstored hscratch]
    exact .of_machine (fun k m' hm' => hreplaced _ k m' hm') rfl

theorem writesName_reserve (now : Timestamp) (req : ReserveRequest) (db : Database) :
    WritesName ((Operation.reserve req).storedName now db) db (reserve now req db).db := by
  have h := reserve_cases now req db
  generalize reserve now req db = out at h
  cases h with
  | refused => exact .refl _ db
  | overlong => exact .of_sameRest (fun _ => rfl) rfl
  | leased hcheck hdigits hleased =>
    by_cases hnone : reserveCandidates now req db = []
    · refine .of_sameRest (fun k => ?_) hleased.rest.rules
      rw [hleased.machine, hnone, if_neg List.not_mem_nil]
    · obtain ⟨text, htext⟩ := hdigits.resolve_left hnone
      have hstored : (Operation.reserve req).storedName now db = some (strip req.profile) := by
        rw [storedName_reserve hcheck htext, if_neg hnone]
      rw [hstored]
      refine .of_machine (fun k m' hm' => ?_) hleased.rest.rules
      rw [hleased.machine] at hm'
      split at hm'
      · obtain ⟨m, -, rfl⟩ := Option.map_eq_some_iff.mp hm'
        exact .inl rfl
      · exact .inr hm'

theorem writesName_pin (now : Timestamp) (req : PinRequest) (db : Database) :
    WritesName ((Operation.pin req).storedName now db) db (pin now req db).db := by
  rcases pin_cases now req db with
    ⟨-, message, hpin⟩ | ⟨-, hpin⟩ | ⟨m, db', hholder, hm, hpinned, hpin⟩
  · rw [hpin]
    exact .refl _ db
  · rw [hpin]
    exact .refl _ db
  · have hlookup : db.lookup req.mac = some m := hm
    have hstored : (Operation.pin req).storedName now db = blankToNone req.profile := by
      rw [storedName_pin, hlookup]
      exact if_pos ⟨hholder, rfl⟩
    rw [hpin, hstored]
    refine ⟨fun k m' hm' => ?_, fun rule hrule => .inl ⟨rule, hpinned.rest.rules ▸ hrule, rfl⟩⟩
    rw [hpinned.machine] at hm'
    split at hm'
    · obtain ⟨m₁, hm₁, rfl⟩ := Option.map_eq_some_iff.mp hm'
      cases hprofile : blankToNone req.profile with
      | none => exact .inl ⟨m₁, hm₁, rfl⟩
      | some profile => exact .inr rfl
    · exact .inl ⟨m', hm', rfl⟩

theorem writesName_setProfile (now : Timestamp) (mac profileName : String) (db : Database) :
    WritesName ((Operation.setProfile mac profileName).storedName now db) db
      (setProfile mac profileName db).db := by
  unfold setProfile
  dsimp only
  split
  · exact .refl _ db
  · rename_i hname
    cases hm : db.lookup mac with
    | none =>
      refine .of_sameRest (fun k => ?_) rfl
      rw [Database.machine_updateMachine]
      split
      · rename_i hk
        rw [hk, show db.machine (normaliseMac mac) = none from hm]
        rfl
      · rfl
    | some m =>
      have hstored : (Operation.setProfile mac profileName).storedName now db =
          some (strip profileName) := by
        rw [storedName_setProfile, hm]
        exact if_pos ⟨hname, rfl⟩
      rw [hstored]
      refine .of_machine (fun k m' hm' => ?_) rfl
      rw [Database.machine_updateMachine] at hm'
      split at hm'
      · obtain ⟨m₁, -, rfl⟩ := Option.map_eq_some_iff.mp hm'
        exact .inl rfl
      · exact .inr hm'

theorem writesName_addAutoEnrolRule (now : Timestamp) (req : RuleRequest) (db : Database) :
    WritesName ((Operation.addAutoEnrolRule req).storedName now db) db
      (addAutoEnrolRule now req db).db := by
  unfold addAutoEnrolRule
  cases hcheck : req.check with
  | error err => exact .refl _ db
  | ok checked =>
    have hstored : (Operation.addAutoEnrolRule req).storedName now db = some req.profileName := by
      rw [storedName_addAutoEnrolRule, hcheck]
      rfl
    rw [hstored]
    dsimp only
    split <;>
    · refine ⟨fun k m' hm' => .inl ⟨m', hm', rfl⟩, fun rule hrule => ?_⟩
      rcases List.mem_append.mp hrule with hold | hnew
      · exact .inl ⟨rule, hold, rfl⟩
      · rw [List.mem_singleton.mp hnew]
        exact .inr rfl

theorem writesName_updateAutoEnrolRule (now : Timestamp) (id : Nat) (req : RuleRequest)
    (db : Database) : WritesName ((Operation.updateAutoEnrolRule id req).storedName now db) db
      (updateAutoEnrolRule id req db).db := by
  unfold updateAutoEnrolRule
  cases hcheck : req.check with
  | error err => exact .refl _ db
  | ok checked =>
    cases hprevious : getAutoEnrolRule db id with
    | none => exact .refl _ db
    | some previous =>
      have hstored : (Operation.updateAutoEnrolRule id req).storedName now db =
          some req.profileName := by
        rw [storedName_updateAutoEnrolRule hcheck, hprevious, Option.map_some]
      rw [hstored]
      have hrule : ∀ rule' ∈ db.rules.rows.map (fun rule =>
          if rule.id = id then req.row checked rule.createdAt rule.id else rule),
          (∃ rule ∈ db.rules.rows, rule.profileName = rule'.profileName) ∨
            some req.profileName = some rule'.profileName := by
        intro rule' hrule'
        obtain ⟨rule, hrule, rfl⟩ := List.mem_map.mp hrule'
        split
        · exact .inr rfl
        · exact .inl ⟨rule, hrule, rfl⟩
      dsimp only
      split
      · exact ⟨fun k m' hm' => .inl ⟨m', hm', rfl⟩, hrule⟩
      · refine ⟨fun k m' hm' => .inl ?_, hrule⟩
        unfold Database.machine at hm' ⊢
        rw [Table.lookup_update] at hm'
        cases hm : db.machines.lookup k with
        | none =>
          rw [hm] at hm'
          cases hm'
        | some m =>
          rw [hm] at hm'
          simp only [Option.map_some, Option.filter, if_true] at hm'
          cases hm'
          exact ⟨m, rfl, by split <;> rfl⟩

/-- **What a call brings in**: no profile name but the one that it stores. -/
theorem writesName_run {now : Timestamp} {op : Operation} {db : Database} (hrun : HasRun db) :
    WritesName (op.storedName now db) db (op.run now db).db := by
  cases op with
  | enroll args =>
    rw [Operation.run, Outcome.db_map]
    exact writesName_enroll now args db
  | reserve req =>
    rw [Operation.run, Outcome.db_map]
    exact writesName_reserve now req db
  | pin req =>
    rw [Operation.run, Outcome.db_map]
    exact writesName_pin now req db
  | setProfile mac profileName =>
    rw [Operation.run, Outcome.db_map]
    exact writesName_setProfile now mac profileName db
  | addAutoEnrolRule req =>
    rw [Operation.run, Outcome.db_map]
    exact writesName_addAutoEnrolRule now req db
  | updateAutoEnrolRule id req =>
    rw [Operation.run, Outcome.db_map]
    exact writesName_updateAutoEnrolRule now id req db
  | reopen =>
    rw [Operation.run, openRegistry_of_hasRun now hrun]
    exact .of_sameRest (fun _ => rfl) rfl
  | remove mac =>
    rw [Operation.run, Outcome.db_map, remove_eq]
    refine ⟨fun k m' hm' => .inl ?_, fun rule hrule => .inl ⟨rule, hrule, rfl⟩⟩
    rw [Database.machine_withoutMachine] at hm'
    split at hm'
    · cases hm'
    · exact ⟨m', hm', rfl⟩
  | renew mac ttlSeconds =>
    rw [Operation.run, Outcome.db_map]
    rcases renew_cases now mac ttlSeconds db with ⟨err, hrenew, -⟩ | ⟨-, hrenew⟩
    · rw [hrenew]
      exact .refl _ db
    · rw [hrenew]
      exact .of_sameRest (fun _ => rfl) rfl
  | release macs holder =>
    exact .of_sameRest (machine_releaseTargets _ db) (sameRest_releaseTargets _ db).rules
  | releaseToPool mac => exact .of_sameRest (fun _ => rfl) rfl
  | reapExpired =>
    obtain ⟨db', hreap, hreleased⟩ := reapExpired_effect now db
    rw [Operation.run, Outcome.db_map, hreap]
    exact .of_sameRest hreleased.machine hreleased.rest.rules
  | updateHostname | updateLastIp | updateBootVersion | updateDiagnostics | updateHardware
  | setPendingReboot | setPowerCommand | setPduAlias =>
    exact writesName_columnsWritten (columnsWritten_run now db rfl)
  | setPdudaemonHost host =>
    simp only [Operation.run, Outcome.done, setSetting]
    split <;> exact .of_sameRest (fun _ => rfl) rfl
  | logBootEvent mac state detail =>
    simp only [Operation.run, Outcome.done, logBootEvent]
    split
    · exact .of_sameRest (fun _ => rfl) rfl
    · split <;> exact .of_sameRest (fun _ => rfl) rfl
  | removeAutoEnrolRule id =>
    exact .of_same (fun _ => rfl) fun rule hrule => (List.mem_filter.mp hrule).1
  | mint token mac =>
    simp only [Operation.run, Outcome.db_map, mint]
    split <;> exact .of_sameRest (fun _ => rfl) rfl
  | recordState token state =>
    simp only [Operation.run]
    cases hrecord : recordState now token state db with
    | none => exact .refl _ db
    | some result =>
      obtain ⟨row, -, hrow⟩ := Option.map_eq_some_iff.mp hrecord
      obtain rfl := hrow
      exact .of_sameRest (fun _ => rfl) rfl
  | endSession token => exact .of_sameRest (fun _ => rfl) rfl

omit [IpAddress] in
theorem stores_enroll {now : Timestamp} {args : Enrolment} {db : Database}
    (hscratch : (ScratchMode.ofText args.scratchMode).isSome) :
    Stores (enroll now args db).db args.profileName := by
  have hreplaced : ∀ scratch, (db.replaceMachine (args.row scratch now)).machine
      (normaliseMac args.mac) = some (args.row scratch now) := by
    intro scratch
    have hmac : normaliseMac args.mac = (args.row scratch now).mac := rfl
    rw [Database.machine_replaceMachine, if_pos hmac]
  have h := enroll_cases now args db
  generalize enroll now args db = out at h
  cases h with
  | refused hrefused =>
    rw [hrefused] at hscratch
    cases hscratch
  | @again scratch previous _ _ =>
    have hrow := Database.machine_updateMachine (db.replaceMachine (args.row scratch now))
      (normaliseMac args.mac) (CarriedColumns.select previous).assign
      (CarriedColumns.mac_assign _) (normaliseMac args.mac)
    rw [if_pos rfl, hreplaced, Option.map_some] at hrow
    exact .inl ⟨_, _, hrow, rfl⟩
  | new _ _ hins => exact .inl ⟨_, _, (hins.machine _).trans (hreplaced _), rfl⟩
  | orphan _ _ _ => exact .inl ⟨_, _, hreplaced _, rfl⟩

omit [IpAddress] in
theorem stores_reserve {now : Timestamp} {req : ReserveRequest} {db : Database} {text : String}
    (hcheck : req.check = .ok ()) (htext : strOfInt req.ttlSeconds = .ok text)
    (hsome : reserveCandidates now req db ≠ []) :
    Stores (reserve now req db).db (strip req.profile) := by
  have h := reserve_cases now req db
  generalize reserve now req db = out at h
  cases h with
  | refused hrefused => cases hrefused.symm.trans hcheck
  | overlong hoverlong _ => cases hoverlong.symm.trans htext
  | leased _ _ hleased =>
    obtain ⟨mac, hmac⟩ := List.exists_mem_of_ne_nil _ hsome
    obtain ⟨-, m, hm⟩ := mem_reserveCandidates hmac
    refine .inl ⟨mac, { m with profileName := strip req.profile }, ?_, rfl⟩
    rw [hleased.machine, if_pos hmac, hm, Option.map_some]

omit [IpAddress] in
theorem stores_pin {now : Timestamp} {req : PinRequest} {db : Database} {profile : String}
    (hholder : strip req.holder ≠ "") (hknown : (db.lookup req.mac).isSome)
    (hprofile : blankToNone req.profile = some profile) :
    Stores (pin now req db).db profile := by
  rcases pin_cases now req db with ⟨hblank, -⟩ | ⟨hnone, -⟩ | ⟨m, db', -, hm, hpinned, hpin⟩
  · exact absurd hblank hholder
  · rw [hnone] at hknown
    cases hknown
  · rw [hpin]
    refine .inl ⟨normaliseMac req.mac, { m with profileName := profile }, ?_, rfl⟩
    rw [hpinned.machine, if_pos rfl, hm, hprofile]
    rfl

omit [IpAddress] in
theorem stores_setProfile {mac profileName : String} {db : Database}
    (hname : strip profileName ≠ "") (hknown : (db.lookup mac).isSome) :
    Stores (setProfile mac profileName db).db (strip profileName) := by
  obtain ⟨m, hm⟩ := Option.isSome_iff_exists.mp hknown
  have hrow : db.machine (normaliseMac mac) = some m := hm
  unfold setProfile
  dsimp only
  rw [if_neg hname]
  refine .inl ⟨normaliseMac mac, { m with profileName := strip profileName }, ?_, rfl⟩
  rw [Database.machine_updateMachine, if_pos rfl, hrow, Option.map_some]

theorem stores_addAutoEnrolRule {now : Timestamp} {req : RuleRequest} {db : Database}
    {checked : CheckedRule} (hcheck : req.check = .ok checked) :
    Stores (addAutoEnrolRule now req db).db req.profileName := by
  unfold addAutoEnrolRule
  rw [hcheck]
  dsimp only
  have hnew : req.row checked now db.rules.next ∈
      (db.rules.append (req.row checked now) fun _ => rfl).rows :=
    List.mem_append_right _ (List.mem_singleton_self _)
  split <;> exact .inr ⟨_, hnew, rfl⟩

theorem stores_updateAutoEnrolRule {id : Nat} {req : RuleRequest} {db : Database}
    {checked : CheckedRule} {previous : AutoEnrolRule} (hcheck : req.check = .ok checked)
    (hprevious : getAutoEnrolRule db id = some previous) :
    Stores (updateAutoEnrolRule id req db).db req.profileName := by
  obtain ⟨hmem, hid⟩ := Serial.mem_of_find hprevious
  have hnew : req.row checked previous.createdAt previous.id ∈ db.rules.rows.map (fun rule =>
      if rule.id = id then req.row checked rule.createdAt rule.id else rule) :=
    List.mem_map.mpr ⟨previous, hmem, if_pos hid⟩
  unfold updateAutoEnrolRule
  rw [hcheck, hprevious]
  dsimp only
  split <;> exact .inr ⟨_, hnew, rfl⟩

/-- **That name is stored.** -/
theorem stores_storedName {now : Timestamp} {op : Operation} {db : Database} {name : String}
    (h : op.storedName now db = some name) : Stores (op.run now db).db name := by
  cases op with
  | enroll args =>
    obtain ⟨hscratch, hname⟩ := Option.ite_none_right_eq_some.mp h
    cases hname
    rw [Operation.run, Outcome.db_map]
    exact stores_enroll hscratch
  | setProfile mac profileName =>
    obtain ⟨⟨hname, hknown⟩, hstripped⟩ := Option.ite_none_right_eq_some.mp h
    cases hstripped
    rw [Operation.run, Outcome.db_map]
    exact stores_setProfile hname hknown
  | reserve req =>
    obtain ⟨text, hcheck, htext, hsome, rfl⟩ := storedName_reserve_eq_some h
    rw [Operation.run, Outcome.db_map]
    exact stores_reserve hcheck htext hsome
  | pin req =>
    obtain ⟨⟨hholder, hknown⟩, hprofile⟩ := Option.ite_none_right_eq_some.mp h
    rw [Operation.run, Outcome.db_map]
    exact stores_pin hholder hknown hprofile
  | addAutoEnrolRule req =>
    obtain ⟨checked, hchecked, rfl⟩ := Option.map_eq_some_iff.mp h
    rw [Operation.run, Outcome.db_map]
    exact stores_addAutoEnrolRule (eq_ok_of_toOption hchecked)
  | updateAutoEnrolRule id req =>
    obtain ⟨checked, previous, hcheck, hprevious, rfl⟩ := storedName_updateAutoEnrolRule_eq_some h
    rw [Operation.run, Outcome.db_map]
    exact stores_updateAutoEnrolRule hcheck hprevious
  | _ => cases h

end Calls

end Fleetboot
