import Fleetboot.Library.Json

/-!
# The hardware spec

`hardware_spec.py`: the stable part of a reporter's inventory, section by section, and the
merge that keeps a section the latest report says nothing about.
-/

set_option autoImplicit false

namespace Fleetboot

open Python

/-- A JSON object: its members in insertion order. -/
abbrev Fields := List (String × Json)

/-- The facts a disk keeps in the spec (`_DISK_FIELDS`). -/
def diskFields : List String :=
  ["name", "size_bytes", "size_gb", "vendor", "model", "firmware",
    "connection", "media", "link_speed", "removable"]

def isPositiveWholeNumber : Option Json → Bool
  | some (.int value) => decide (0 < value)
  | _ => false

/-- `value` as a non-empty string. -/
def nonEmptyString : Option Json → Option String
  | some (.str value) => if value = "" then none else some value
  | _ => none

def cpuSpec (inventory : Fields) : Fields :=
  match Json.get? inventory "cpu" with
  | some (.obj (field :: fields)) => field :: fields
  | _ =>
    -- Older reporters send a model string and a count of hardware threads.
    (match nonEmptyString (Json.get? inventory "cpu_model") with
      | some model => [("model", .str model)]
      | none => []) ++
    (match Json.get? inventory "cpu_count" with
      | some count => if isPositiveWholeNumber (some count) then [("threads", count)] else []
      | none => [])

/-- The known facts of one disk, in the order of `diskFields`. -/
def diskSpec (disk : Fields) : Fields :=
  diskFields.filterMap fun key => (Json.get? disk key).map fun value => (key, value)

/-- The sections an inventory can tell about, in the order they are set. -/
def specFromInventory : Option Fields → Fields
  | none => []
  | some inventory =>
    (match Json.get? inventory "mem_total_mb" with
      | some total => if isPositiveWholeNumber (some total) then [("ram_total_mb", total)] else []
      | none => []) ++
    (match cpuSpec inventory with
      | [] => []
      | cpu => [("cpu", .obj cpu)]) ++
    (match Json.get? inventory "motherboard" with
      | some (.obj (field :: fields)) =>
        [("motherboard", .obj ((field :: fields).filter fun member =>
          (nonEmptyString (some member.2)).isSome))]
      | _ => []) ++
    (match Json.get? inventory "disks" with
      | some (.arr disks) =>
        [("disks", .arr (disks.filterMap fun disk =>
          match disk with
          | .obj fields => some (.obj (diskSpec fields))
          | _ => none))]
      | _ => [])

/-- `merged[key] = value`: in place where the key is known, at the end where it is new. -/
def setField (fields : Fields) (key : String) (value : Json) : Fields :=
  if (Json.get? fields key).isSome then
    fields.map fun field => if field.1 == key then (key, value) else field
  else fields ++ [(key, value)]

/-- Section by section, the latest report wins where it has something to say. -/
def mergeSpec (previous : Option Fields) (latest : Fields) : Fields :=
  latest.foldl (fun merged section_ => setField merged section_.1 section_.2)
    (previous.getD [])

/-! ## Sections -/

/-- `SPEC_SECTIONS`. -/
def specSections : List String := ["ram_total_mb", "cpu", "motherboard", "disks"]

theorem keys_specFromInventory (inventory : Option Fields) :
    ((specFromInventory inventory).map Prod.fst).Sublist specSections := by
  cases inventory with
  | none => exact List.nil_sublist _
  | some inventory =>
    have hsections : specSections = ["ram_total_mb"] ++ ["cpu"] ++ ["motherboard"] ++ ["disks"] :=
      rfl
    rw [hsections, specFromInventory, List.map_append, List.map_append, List.map_append]
    refine .append (.append (.append ?_ ?_) ?_) ?_
    · split
      · split
        · exact List.Sublist.refl _
        · exact List.nil_sublist _
      · exact List.nil_sublist _
    · split
      · exact List.nil_sublist _
      · exact List.Sublist.refl _
    · split
      · exact List.Sublist.refl _
      · exact List.nil_sublist _
    · split
      · exact List.Sublist.refl _
      · exact List.nil_sublist _

theorem nodup_specFromInventory (inventory : Option Fields) :
    ((specFromInventory inventory).map Prod.fst).Nodup :=
  (keys_specFromInventory inventory).nodup (by decide)

/-- The inventory has a list of disks in which there is no object, or a motherboard section none
of whose members is a non-empty string. -/
def Hollow (inventory : Fields) : Prop :=
  (∃ disks, Json.get? inventory "disks" = some (.arr disks) ∧ ∀ fields, .obj fields ∉ disks) ∨
    ∃ board, board ≠ [] ∧ Json.get? inventory "motherboard" = some (.obj board) ∧
      ∀ member ∈ board, nonEmptyString (some member.2) = none

theorem truthy_of_isPositiveWholeNumber {value : Json}
    (h : isPositiveWholeNumber (some value) = true) : value.truthy = true := by
  cases value with
  | int value =>
    have hpos : 0 < value := of_decide_eq_true h
    exact decide_eq_true (by omega)
  | _ => cases h

theorem truthy_boardSpec_iff {board : Fields} :
    (Json.obj (board.filter fun member => (nonEmptyString (some member.2)).isSome)).truthy =
      true ↔ ¬ ∀ member ∈ board, nonEmptyString (some member.2) = none := by
  simp [Json.truthy, List.filter_eq_nil_iff, Option.isSome_iff_ne_none]

theorem truthy_disksSpec_iff {disks : List Json} :
    (Json.arr (disks.filterMap fun disk =>
      match disk with
      | .obj fields => some (.obj (diskSpec fields))
      | _ => none)).truthy = true ↔ ¬ ∀ fields, .obj fields ∉ disks := by
  simp only [Json.truthy, Bool.not_eq_true', List.isEmpty_eq_false_iff, ne_eq,
    List.filterMap_eq_nil_iff]
  refine not_congr ⟨fun hnone fields hfields => ?_, fun hother disk hdisk => ?_⟩
  · exact absurd (hnone _ hfields) (by simp)
  · cases disk with
    | obj fields => exact absurd hdisk (hother fields)
    | _ => rfl

/-- **What is emitted is never empty**, unless the inventory is hollow. -/
theorem truthy_specFromInventory_iff {inventory : Fields} :
    (∀ part ∈ specFromInventory (some inventory), part.2.truthy = true) ↔ ¬ Hollow inventory := by
  unfold specFromInventory Hollow
  simp only [List.mem_append, or_imp, forall_and, not_or]
  constructor
  · rintro ⟨⟨-, hboard⟩, hdisks⟩
    refine ⟨?_, ?_⟩
    · rintro ⟨disks, hget, hnone⟩
      rw [hget] at hdisks
      exact truthy_disksSpec_iff.mp (hdisks _ (List.mem_singleton.mpr rfl)) hnone
    · rintro ⟨board, hnonempty, hget, hnone⟩
      obtain ⟨field, fields, rfl⟩ := List.exists_cons_of_ne_nil hnonempty
      rw [hget] at hboard
      exact truthy_boardSpec_iff.mp (hboard _ (List.mem_singleton.mpr rfl)) hnone
  · rintro ⟨hdisks, hboard⟩
    refine ⟨⟨⟨fun part hpart => ?_, fun part hpart => ?_⟩, fun part hpart => ?_⟩,
      fun part hpart => ?_⟩
    · split at hpart
      · split at hpart
        · rename_i hpositive
          rw [List.mem_singleton.mp hpart]
          exact truthy_of_isPositiveWholeNumber hpositive
        · cases hpart
      · cases hpart
    · split at hpart
      · cases hpart
      · rename_i hcpu
        obtain ⟨field, fields, hfields⟩ := List.exists_cons_of_ne_nil hcpu
        rw [List.mem_singleton.mp hpart, hfields]
        rfl
    · split at hpart
      · rename_i field fields hget
        rw [List.mem_singleton.mp hpart]
        exact truthy_boardSpec_iff.mpr fun hnone => hboard ⟨_, List.cons_ne_nil _ _, hget, hnone⟩
      · cases hpart
    · split at hpart
      · rename_i disks hget
        rw [List.mem_singleton.mp hpart]
        exact truthy_disksSpec_iff.mpr fun hnone => hdisks ⟨_, hget, hnone⟩
      · cases hpart

/-- The data for a section in the members of an inventory. -/
inductive Carries (inventory : Fields) : String → Json → Prop
  | ram {total : Json} : Json.get? inventory "mem_total_mb" = some total →
      isPositiveWholeNumber (some total) = true → Carries inventory "ram_total_mb" total
  | cpu : cpuSpec inventory ≠ [] → Carries inventory "cpu" (.obj (cpuSpec inventory))
  | motherboard {board : Fields} : Json.get? inventory "motherboard" = some (.obj board) →
      (¬ ∀ member ∈ board, nonEmptyString (some member.2) = none) →
      Carries inventory "motherboard"
        (.obj (board.filter fun member => (nonEmptyString (some member.2)).isSome))
  | disks {disks : List Json} : Json.get? inventory "disks" = some (.arr disks) →
      (¬ ∀ fields, .obj fields ∉ disks) → Carries inventory "disks"
        (.arr (disks.filterMap fun disk =>
          match disk with
          | .obj fields => some (.obj (diskSpec fields))
          | _ => none))

/-- What is emitted and not empty is what the members say. -/
theorem mem_specFromInventory_iff {inventory : Fields} {key : String} {value : Json} :
    (key, value) ∈ specFromInventory (some inventory) ∧ value.truthy = true ↔
      Carries inventory key value := by
  unfold specFromInventory
  simp only [List.mem_append]
  constructor
  · rintro ⟨((hram | hcpu) | hboard) | hdisks, htruthy⟩
    · split at hram
      · rename_i total hget
        split at hram
        · rename_i hpositive
          cases List.mem_singleton.mp hram
          exact .ram hget hpositive
        · cases hram
      · cases hram
    · split at hcpu
      · cases hcpu
      · rename_i hne
        cases List.mem_singleton.mp hcpu
        exact .cpu hne
    · split at hboard
      · rename_i field fields hget
        cases List.mem_singleton.mp hboard
        exact .motherboard hget (truthy_boardSpec_iff.mp htruthy)
      · cases hboard
    · split at hdisks
      · rename_i disks hget
        cases List.mem_singleton.mp hdisks
        exact .disks hget (truthy_disksSpec_iff.mp htruthy)
      · cases hdisks
  · intro h
    cases h with
    | ram hget hpositive =>
      refine ⟨.inl (.inl (.inl ?_)), truthy_of_isPositiveWholeNumber hpositive⟩
      rw [hget]
      dsimp only
      rw [if_pos hpositive]
      exact List.mem_singleton_self _
    | cpu hne =>
      obtain ⟨field, fields, hfields⟩ := List.exists_cons_of_ne_nil hne
      refine ⟨.inl (.inl (.inr ?_)), by rw [hfields]; rfl⟩
      rw [hfields]
      exact List.mem_singleton_self _
    | @motherboard board hget hsome =>
      cases board with
      | nil => exact absurd (by simp) hsome
      | cons field fields =>
        refine ⟨.inl (.inr ?_), truthy_boardSpec_iff.mpr hsome⟩
        rw [hget]
        exact List.mem_singleton_self _
    | disks hget hsome =>
      refine ⟨.inr ?_, truthy_disksSpec_iff.mpr hsome⟩
      rw [hget]
      exact List.mem_singleton_self _

/-! ## Merging -/

theorem get?_setField (fields : Fields) (key : String) (value : Json) (k : String) :
    Json.get? (setField fields key value) k =
      if key = k then some value else Json.get? fields k := by
  unfold setField
  split
  · rename_i hknown
    obtain ⟨old, hold⟩ := Option.isSome_iff_exists.mp hknown
    -- The keys stay where they are.
    have hkeys : ((fun field : String × Json => field.1 == k) ∘ fun field =>
        if field.1 == key then (key, value) else field) = fun field => field.1 == k := by
      funext field
      by_cases hfield : field.1 = key
      · simp [hfield]
      · simp [hfield]
    unfold Json.get? at hold ⊢
    rw [List.find?_map, hkeys]
    by_cases hk : key = k
    · subst hk
      obtain ⟨field, hfield, -⟩ := Option.map_eq_some_iff.mp hold
      have hkey := List.find?_some hfield
      rw [if_pos rfl, hfield, Option.map_some, Option.map_some, if_pos hkey]
    · rw [if_neg hk, Option.map_map]
      cases hfield : fields.find? fun field => field.1 == k with
      | none => rfl
      | some field =>
        have hkey : field.1 = k := by simpa using List.find?_some hfield
        rw [Option.map_some, Option.map_some, Function.comp_apply, if_neg]
        simpa [hkey] using Ne.symm hk
  · rename_i hnew
    have hnone : Json.get? fields key = none := Option.not_isSome_iff_eq_none.mp hnew
    unfold Json.get? at hnone ⊢
    rw [List.find?_append, Option.map_or]
    by_cases hk : key = k
    · subst hk
      rw [if_pos rfl, hnone]
      simp
    · rw [if_neg hk]
      simp [hk]

/-- What is read after a merge. -/
theorem get?_mergeSpec {previous : Option Fields} {latest : Fields}
    (hdistinct : (latest.map Prod.fst).Nodup) (k : String) :
    Json.get? (mergeSpec previous latest) k =
      (Json.get? latest k).or (Json.get? (previous.getD []) k) := by
  unfold mergeSpec
  generalize previous.getD [] = merged
  induction latest generalizing merged with
  | nil => rfl
  | cons part latest ih =>
    obtain ⟨hnew, hdistinct⟩ := List.nodup_cons.mp hdistinct
    rw [List.foldl_cons, ih hdistinct, get?_setField, Json.get?_cons]
    by_cases hk : part.1 = k
    · have hnone : Json.get? latest k = none := by
        rw [Json.get?_eq_none_iff, ← hk]
        exact hnew
      rw [if_pos hk, if_pos hk, hnone]
      rfl
    · rw [if_neg hk, if_neg hk]

end Fleetboot
