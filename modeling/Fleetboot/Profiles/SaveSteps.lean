import Fleetboot.Library.KeyedSteps
import Fleetboot.Server.BugFiles
import Fleetboot.Server.Tools
import Fleetboot.TftpGlue.GrubTemplate

/-!
# The steps of `save_profile`

The tool `save_profile` of `mcp.py` over the bytes of the files, with every way in which it may
stop: an argument of a wrong type, text that has no UTF-8, and what the disk refuses. The directory
of the profiles exists and there are no links in it. What stands in the directories of a profile,
as in `overlay/`, is of any type: the tool does not touch it.

* `saveProfileFiles_whole_iff`: when a call that fails leaves everything as it was.
-/

set_option autoImplicit false

namespace Fleetboot

open Python KeyedSteps

/-! ## Arguments -/

/-- A value that JSON sends, whose texts may have surrogates. -/
inductive RawJson
  | null
  | bool (value : Bool)
  | int (value : Int)
  | float (value : Float64)
  | str (text : RawText)
  | arr (items : List RawJson)
  | obj (fields : List (RawText × RawJson))

namespace RawJson

/-- `d.get(key)` on the fields of an object. -/
def get? (fields : List (RawText × RawJson)) (key : String) : Option RawJson :=
  (fields.find? fun field => field.1 == RawText.ofString key).map Prod.snd

/-- `bool(value)`. -/
def truthy : RawJson → Bool
  | null => false
  | bool value => value
  | int value => decide (value ≠ 0)
  | float value => value.truthy
  | str text => !text.isEmpty
  | arr items => !items.isEmpty
  | obj fields => !fields.isEmpty

/-- `type(value).__name__`. -/
def typeName : RawJson → String
  | null => "NoneType"
  | bool _ => "bool"
  | int _ => "int"
  | float _ => "float"
  | str _ => "str"
  | arr _ => "list"
  | obj _ => "dict"

end RawJson

abbrev RawFields := List (RawText × RawJson)

/-- Why a save fails: a `_ToolError`, an exception of the interpreter, or one of a file. -/
inductive SaveFailure
  | toolError (message : String)
  | raised (err : Exception)
  | file (err : Raised)
  deriving DecidableEq

/-- `_require(args, "name", str)`. -/
def requireName (args : RawFields) : Except SaveFailure RawText :=
  match RawJson.get? args "name" with
  | none => .error (.toolError "missing argument: name")
  | some (.str name) => .ok name
  | some _ => .error (.toolError "argument name must be str")

/-! ## Files -/

/-- What stands in the directory of a profile. -/
inductive ProfileEntry (δ : Type)
  | file (bytes : ByteArray) (mode : Nat)
  | directory (content : δ)

/-- The directory of a profile. -/
abbrev ProfileFolder (δ : Type) := String → Option (ProfileEntry δ)

/-- What stands in the directory of the profiles. -/
inductive RootEntry (δ : Type)
  | profile (files : ProfileFolder δ)
  | file (bytes : ByteArray) (mode : Nat)

/-- The directory of the profiles. A name that is not UTF-8 has surrogates. -/
abbrev ProfilesRoot (δ : Type) := RawText → Option (RootEntry δ)

/-- What the disk makes of what is asked of it. -/
structure Disk where
  makesDirectory : Bool
  listsDirectory : Bool
  write : String → WriteOutcome
  changesMode : Bool
  unlinks : String → Bool
  /-- The mode of a new file. -/
  newMode : Nat

namespace Disk

/-- A disk that refuses nothing. -/
def working : Disk where
  makesDirectory := true
  listsDirectory := true
  write _ := .complete
  changesMode := true
  unlinks _ := true
  newMode := 0o644

variable (disk : Disk)

/-- The bytes that `write_text` leaves in a file that it has opened. -/
def written (path : String) (text : RawText) : ByteArray :=
  match text.encode with
  | none => .empty
  | some text =>
    match disk.write path with
    | .torn written => text.toUTF8.extract 0 written
    | _ => text.toUTF8

/-- How `write_text` fails, if it does. -/
def writeFailure (path : String) (text : RawText) : Option SaveFailure :=
  match disk.write path, text.encode with
  | .notOpened, _ => some (.file .osError)
  | _, none => some (.file .unicodeEncodeError)
  | .complete, some _ => none
  | .torn _, some _ => some (.file .osError)

end Disk

section Steps

variable {δ : Type}

namespace ProfileEntry

def mode (newMode : Nat) : Option (ProfileEntry δ) → Nat
  | some (.file _ mode) => mode
  | _ => newMode

/-- `Path.is_file()`. -/
def isFile : Option (ProfileEntry δ) → Bool
  | some (.file _ _) => true
  | _ => false

/-- `Path.is_dir()`. -/
def isDirectory : Option (ProfileEntry δ) → Bool
  | some (.directory _) => true
  | _ => false

end ProfileEntry

/-- What is done with one file of a profile. -/
inductive FileChange
  /-- `path.write_text(text)`, and `path.chmod(0o755)` for a script. -/
  | write (text : RawText) (script : Bool)
  /-- `if path.is_file(): path.unlink()`. -/
  | unlink
  /-- An exception before the file is touched. -/
  | fail (failure : SaveFailure)

def FileChange.run (disk : Disk) (path : String) (entry : Option (ProfileEntry δ)) :
    FileChange → StepResult (Option (ProfileEntry δ)) SaveFailure
  | fail failure => ⟨entry, some failure⟩
  | unlink =>
    if ProfileEntry.isFile entry then
      if disk.unlinks path then ⟨none, none⟩ else ⟨entry, some (.file .osError)⟩
    else ⟨entry, none⟩
  | write text script =>
    if ProfileEntry.isDirectory entry then ⟨entry, some (.file .osError)⟩
    else if disk.write path = .notOpened then ⟨entry, some (.file .osError)⟩
    else
      let mode := ProfileEntry.mode disk.newMode entry
      match disk.writeFailure path text with
      | some failure => ⟨some (.file (disk.written path text) mode), some failure⟩
      | none =>
        if script then
          if disk.changesMode then ⟨some (.file (disk.written path text) 0o755), none⟩
          else ⟨some (.file (disk.written path text) mode), some (.file .osError)⟩
        else ⟨some (.file (disk.written path text) mode), none⟩

/-- A change of the file at a path. -/
structure PathChange where
  path : String
  change : FileChange

def PathChange.keyed (disk : Disk) (step : PathChange) :
    KeyedStep String (Option (ProfileEntry δ)) SaveFailure :=
  ⟨step.path, fun entry => step.change.run disk step.path entry⟩

end Steps

/-! ## The tool -/

/-- `write_text(args[key] or "")`, and an empty file for a new profile. -/
def writtenArg (existed : Bool) (args : RawFields) (key : String) : Option FileChange :=
  match RawJson.get? args key with
  | none => if existed then none else some (.write [] false)
  | some value =>
    if value.truthy then
      match value with
      | .str text => some (.write text false)
      | value => some (.fail (.raised (.typeError ("data must be str, not " ++ value.typeName))))
    else some (.write [] false)

/-- `args[key] or ""`, on which `strip` is called. -/
def rawTextOrEmpty (value : RawJson) : Except SaveFailure RawText :=
  if value.truthy then
    match value with
    | .str text => .ok text
    | value => .error (.raised (.attributeError ("'" ++ value.typeName ++
        "' object has no attribute 'strip'")))
  else .ok []

/-- `setup-chroot` is there only when the script has something in it. -/
def setupChrootChange (args : RawFields) : Option FileChange :=
  match RawJson.get? args "setup_chroot" with
  | none => none
  | some value =>
    match rawTextOrEmpty value with
    | .error failure => some (.fail failure)
    | .ok script => if script.strip = [] then some .unlink else some (.write script true)

def suiteChange (args : RawFields) : Option FileChange :=
  match RawJson.get? args "suite" with
  | none => none
  | some value =>
    match rawTextOrEmpty value with
    | .error failure => some (.fail failure)
    | .ok text => if text.strip = [] then some .unlink
        else some (.write (text.strip ++ RawText.ofString "\n") false)

/-- `[p for p in parents_arg if p in known]`: only strings are known, and what has no hash cannot
be looked up. -/
def knownAmong (known : RawText → Bool) : List RawJson → Except SaveFailure (List RawText)
  | [] => .ok []
  | .str parent :: rest => do
    let cleaned ← knownAmong known rest
    return if known parent then parent :: cleaned else cleaned
  | .arr _ :: _ => .error (.raised (.typeError "unhashable type: 'list'"))
  | .obj _ :: _ => .error (.raised (.typeError "unhashable type: 'dict'"))
  | _ :: rest => knownAmong known rest

/-- The parents that are kept of `args["parents"] or []`. -/
def parentsArgument (disk : Disk) (known : RawText → Bool) (value : RawJson) :
    Except SaveFailure (List RawText) :=
  let items : Except SaveFailure (List RawJson) :=
    if value.truthy then
      match value with
      | .arr items => .ok items
      | _ => .error (.toolError "parents must be a list of strings")
    else .ok []
  items.bind fun items =>
    if disk.listsDirectory then knownAmong known items else .error (.file .osError)

def parentsChange (disk : Disk) (known : RawText → Bool) (args : RawFields) :
    Option FileChange :=
  match RawJson.get? args "parents" with
  | none => none
  | some value =>
    match parentsArgument disk known value with
    | .error failure => some (.fail failure)
    | .ok [] => some .unlink
    | .ok cleaned => some (.write ((RawText.ofString "\n").intercalate cleaned ++
        RawText.ofString "\n") false)

/-- The files of a profile in the order in which the tool comes to them, with what it does. -/
def fileChanges (disk : Disk) (existed : Bool) (known : RawText → Bool) (args : RawFields) :
    List (String × Option FileChange) :=
  [("extra-packages.list", writtenArg existed args "extra_packages"),
    ("README.md", writtenArg existed args "readme"),
    ("setup-chroot", setupChrootChange args), ("parent", parentsChange disk known args),
    ("suite", suiteChange args)]

/-- The steps of the tool. -/
def saveSteps (disk : Disk) (existed : Bool) (known : RawText → Bool) (args : RawFields) :
    List PathChange :=
  (fileChanges disk existed known args).filterMap fun file =>
    file.2.map fun change => ⟨file.1, change⟩

section Tool

variable [Unicode] {δ : Type}

omit [Unicode] in
/-- `p in set(_list_profile_names(profiles_root)) - {name}`. -/
def knownBeside (root : ProfilesRoot δ) (name parent : RawText) : Bool :=
  match root parent with
  | some (.profile _) => parent != name
  | _ => false

/-- `_profile_dir`: a name has to be text, since a surrogate is not alphanumeric. -/
def acceptsName (name : RawText) : Bool :=
  match name.encode with
  | some name => isProfileName name
  | none => false

omit [Unicode] in
/-- The directory of a profile, when there is one. -/
def folderOf (root : ProfilesRoot δ) (name : RawText) : Option (ProfileFolder δ) :=
  match root name with
  | some (.profile files) => some files
  | _ => none

omit [Unicode] in
/-- Whether `mkdir(parents=True, exist_ok=True)` gets through. -/
def mkdirSucceeds (disk : Disk) (root : ProfilesRoot δ) (name : RawText) : Bool :=
  match root name with
  | some (.profile _) => true
  | some (.file _ _) => false
  | none => disk.makesDirectory

/-- What a save leaves, and what it returns. -/
structure Saved (δ : Type) where
  root : ProfilesRoot δ
  value : Except SaveFailure Json

omit [Unicode] in
/-- The files of a profile, of which a new one has none. -/
def filesInProfile (root : ProfilesRoot δ) (name : RawText) : ProfileFolder δ :=
  (folderOf root name).getD fun _ => none

omit [Unicode] in
/-- The steps for a profile. What is known is the same after `mkdir`, which makes no other. -/
def stepsFor (disk : Disk) (args : RawFields) (root : ProfilesRoot δ) (name : RawText) :
    List PathChange :=
  saveSteps disk (folderOf root name).isSome (knownBeside root name) args

omit [Unicode] in
/-- The steps in the directory of the profile, which is there by now. -/
def saveIn (disk : Disk) (args : RawFields) (root : ProfilesRoot δ) (name : RawText) : Saved δ :=
  let run := runSteps ((stepsFor disk args root name).map (PathChange.keyed disk))
    (filesInProfile root name)
  ⟨Function.update root name (some (.profile run.state)),
    match run.failure with
    | some failure => .error failure
    | none => .ok (.obj [("name", .str (name.encode.getD "")),
        ("created", .bool (folderOf root name).isNone)])⟩

/-- `save_profile` of `mcp.py`. -/
def saveProfileFiles (disk : Disk) (args : RawFields) (root : ProfilesRoot δ) : Saved δ :=
  match requireName args with
  | .error failure => ⟨root, .error failure⟩
  | .ok name =>
    if acceptsName name = false then ⟨root, .error (.toolError "invalid profile name")⟩
    else if mkdirSucceeds disk root name = false then ⟨root, .error (.file .osError)⟩
    else saveIn disk args root name

/-- What the dispatcher makes of a call: a result, a result that says it is an error, or an error
of the protocol. -/
inductive CallAnswer
  | result (payload : Json)
  | errorResult (payload : Json)
  | internalError

omit [Unicode] in
/-- The end of `_dispatch`. -/
def callAnswer : Except SaveFailure Json → CallAnswer
  | .ok payload => .result payload
  | .error (.toolError message) => .errorResult (.obj [("error", .str message)])
  | .error _ => .internalError

/-- Whether an answer is an error. -/
def CallAnswer.IsError : CallAnswer → Prop
  | .result _ => False
  | .errorResult _ | .internalError => True

/-- A call that answers with an error leaves everything as it was. -/
def SavesWhole (disk : Disk) (args : RawFields) (root : ProfilesRoot δ) : Prop :=
  (callAnswer (saveProfileFiles disk args root).value).IsError →
    (saveProfileFiles disk args root).root = root

end Tool

/-! ## What one step does -/

section Changes

variable {δ : Type} {disk : Disk} {path : String} {entry : Option (ProfileEntry δ)}
  {change : FileChange}

/-- When a step gets through. -/
def FileChange.Succeeds (disk : Disk) (path : String) (entry : Option (ProfileEntry δ)) :
    FileChange → Prop
  | fail _ => False
  | unlink => ProfileEntry.isFile entry = true → disk.unlinks path = true
  | write text script => ProfileEntry.isDirectory entry = false ∧ disk.write path = .complete ∧
      (∃ s, text.encode = some s) ∧ (script = true → disk.changesMode = true)

/-- When a step leaves its file as it was: it does not come to touch it, or the bytes that it
writes are those that the file had, with the mode that a script gets. -/
def FileChange.Leaves (disk : Disk) (path : String) (entry : Option (ProfileEntry δ)) :
    FileChange → Prop
  | fail _ => True
  | unlink => ProfileEntry.isFile entry = true → disk.unlinks path = false
  | write text script => ProfileEntry.isDirectory entry = true ∨ disk.write path = .notOpened ∨
      ∃ mode, entry = some (.file (disk.written path text) mode) ∧
        (script = true → disk.changesMode = true → disk.writeFailure path text = none →
          mode = 0o755)

theorem writeFailure_eq_none_iff {text : RawText} : disk.writeFailure path text = none ↔
    disk.write path = .complete ∧ ∃ s, text.encode = some s := by
  unfold Disk.writeFailure
  cases disk.write path <;> cases text.encode <;> simp

theorem failure_run_eq_none_iff :
    (change.run disk path entry).failure = none ↔ change.Succeeds disk path entry := by
  cases change with
  | fail failure => simp [FileChange.run, FileChange.Succeeds]
  | unlink =>
    simp only [FileChange.run, FileChange.Succeeds]
    cases ProfileEntry.isFile entry <;> cases disk.unlinks path <;> simp
  | write text script =>
    simp only [FileChange.run, FileChange.Succeeds]
    cases hdirectory : ProfileEntry.isDirectory entry with
    | true => simp
    | false =>
      by_cases hopened : disk.write path = .notOpened
      · simp [hopened]
      · cases hfailure : disk.writeFailure path text with
        | some failure =>
          have hfails : ¬ (disk.write path = .complete ∧ ∃ s, text.encode = some s) := by
            rw [← writeFailure_eq_none_iff, hfailure]
            exact Option.some_ne_none _
          simp only [hopened, Bool.false_eq_true, if_false, reduceCtorEq, true_and, false_iff]
          exact fun h => hfails ⟨h.1, h.2.1⟩
        | none =>
          obtain ⟨hcomplete, hencode⟩ := writeFailure_eq_none_iff.mp hfailure
          simp only [hcomplete, hencode, Bool.false_eq_true, if_false, reduceCtorEq, true_and]
          cases script <;> cases disk.changesMode <;> simp

theorem value_run_eq_iff :
    (change.run disk path entry).value = entry ↔ change.Leaves disk path entry := by
  cases change with
  | fail failure => simp [FileChange.run, FileChange.Leaves]
  | unlink =>
    simp only [FileChange.run, FileChange.Leaves]
    cases hfile : ProfileEntry.isFile entry with
    | false => simp
    | true =>
      have hentry : entry ≠ none := by
        rintro rfl
        cases hfile
      cases disk.unlinks path <;> simp [hentry.symm]
  | write text script =>
    simp only [FileChange.run, FileChange.Leaves]
    cases hdirectory : ProfileEntry.isDirectory entry with
    | true => simp
    | false =>
      by_cases hopened : disk.write path = .notOpened
      · simp [hopened]
      · -- the mode of the file that is written to is the one that it has
        have hkeeps : some (ProfileEntry.file (disk.written path text)
            (ProfileEntry.mode disk.newMode entry)) = entry ↔
            ∃ mode, entry = some (.file (disk.written path text) mode) := by
          constructor
          · exact fun h => ⟨_, h.symm⟩
          · rintro ⟨mode, rfl⟩
            rfl
        simp only [hopened, Bool.false_eq_true, if_false, false_or]
        cases hfailure : disk.writeFailure path text with
        | some failure => simpa using hkeeps
        | none =>
          cases hscript : script && disk.changesMode with
          | false =>
            cases script <;> cases hmode : disk.changesMode <;> simp_all
          | true =>
            obtain ⟨rfl, hmode⟩ := Bool.and_eq_true_iff.mp hscript
            simp only [hmode, if_true, forall_const]
            constructor
            · rintro rfl
              exact ⟨_, rfl, rfl⟩
            · rintro ⟨mode, rfl, rfl⟩
              rfl

end Changes

/-! ## What a call does -/

section Calls

variable {δ : Type} {disk : Disk} {args : RawFields} {root : ProfilesRoot δ} {name : RawText}

theorem path_filterMap_sublist (files : List (String × Option FileChange)) :
    ((files.filterMap fun file => file.2.map fun change =>
      PathChange.mk file.1 change).map PathChange.path).Sublist (files.map Prod.fst) := by
  induction files with
  | nil => exact .slnil
  | cons file files ih =>
    obtain ⟨path, change⟩ := file
    cases change with
    | none => exact ih.cons path
    | some change => exact ih.cons_cons path

/-- No file is come to twice. -/
theorem nodup_path_saveSteps (existed : Bool) (known : RawText → Bool) :
    ((saveSteps disk existed known args).map PathChange.path).Nodup := by
  refine List.Nodup.sublist (path_filterMap_sublist _) ?_
  simp [fileChanges]

theorem nodup_key_stepsFor : (((stepsFor disk args root name).map
    (PathChange.keyed (δ := δ) disk)).map KeyedStep.key).Nodup := by
  rw [List.map_map]
  exact nodup_path_saveSteps _ _

/-- A step that is come to: every step before it gets through. -/
def ComesTo (disk : Disk) (files : ProfileFolder δ) (steps : List PathChange) (step : PathChange) :
    Prop :=
  ∃ before after, steps = before ++ step :: after ∧
    ∀ other ∈ before, other.change.Succeeds disk other.path (files other.path)

theorem reached_keyed_iff {files : ProfileFolder δ} {steps : List PathChange}
    {keyed : KeyedStep String (Option (ProfileEntry δ)) SaveFailure} :
    Reached (steps.map (PathChange.keyed disk)) files keyed ↔
      ∃ step, ComesTo disk files steps step ∧ keyed = step.keyed disk := by
  constructor
  · rintro ⟨before, after, heq, hbefore⟩
    obtain ⟨before, rest, rfl, rfl, hrest⟩ := List.map_eq_append_iff.mp heq
    obtain ⟨step, after, rfl, rfl, rfl⟩ := List.map_eq_cons_iff.mp hrest
    refine ⟨step, ⟨before, after, rfl, fun other hother => ?_⟩, rfl⟩
    exact failure_run_eq_none_iff.mp (hbefore _ (List.mem_map_of_mem hother))
  · rintro ⟨step, ⟨before, after, rfl, hbefore⟩, rfl⟩
    refine ⟨before.map (PathChange.keyed disk), after.map (PathChange.keyed disk), ?_, ?_⟩
    · rw [List.map_append, List.map_cons]
    · rintro _ hmem
      obtain ⟨other, hother, rfl⟩ := List.mem_map.mp hmem
      exact failure_run_eq_none_iff.mpr (hbefore other hother)

/-- When a call leaves no half of its work: the call is refused before the directory is made, or
every step gets through, or the profile was there and the steps that are come to leave their files
as they were. -/
def LeavesNothingBehind [Unicode] (disk : Disk) (args : RawFields) (root : ProfilesRoot δ) :
    Prop :=
  ∀ name, requireName args = .ok name → acceptsName name = true →
    mkdirSucceeds disk root name = true →
    (∀ step ∈ stepsFor disk args root name,
        step.change.Succeeds disk step.path (filesInProfile root name step.path)) ∨
      ((folderOf root name).isSome = true ∧
        ∀ step, ComesTo disk (filesInProfile root name) (stepsFor disk args root name) step →
          step.change.Leaves disk step.path (filesInProfile root name step.path))

theorem isError_callAnswer_iff {value : Except SaveFailure Json} :
    (callAnswer value).IsError ↔ ∃ failure, value = .error failure := by
  rcases value with (message | err | err) | payload <;>
    simp [callAnswer, CallAnswer.IsError]

theorem isError_saveIn_iff : (callAnswer (saveIn disk args root name).value).IsError ↔
    ¬ ∀ step ∈ stepsFor disk args root name,
      step.change.Succeeds disk step.path (filesInProfile root name step.path) := by
  have hall : (runSteps ((stepsFor disk args root name).map (PathChange.keyed disk))
      (filesInProfile root name)).failure = none ↔ ∀ step ∈ stepsFor disk args root name,
        step.change.Succeeds disk step.path (filesInProfile root name step.path) := by
    rw [failure_runSteps_eq_none_iff nodup_key_stepsFor, List.forall_mem_map]
    exact forall₂_congr fun step _ => failure_run_eq_none_iff
  rw [isError_callAnswer_iff, ← hall]
  simp only [saveIn]
  cases hfailure : (runSteps ((stepsFor disk args root name).map (PathChange.keyed disk))
    (filesInProfile root name)).failure with
  | none => simp
  | some failure => simp

theorem root_saveIn_eq_iff : (saveIn disk args root name).root = root ↔
    (folderOf root name).isSome = true ∧
      ∀ step, ComesTo disk (filesInProfile root name) (stepsFor disk args root name) step →
        step.change.Leaves disk step.path (filesInProfile root name step.path) := by
  have hstate := @state_runSteps_eq_iff _ _ _ _
    ((stepsFor disk args root name).map (PathChange.keyed disk)) (filesInProfile root name)
    nodup_key_stepsFor
  have hleaves : (∀ keyed, Reached ((stepsFor disk args root name).map (PathChange.keyed disk))
      (filesInProfile root name) keyed →
        (keyed.run (filesInProfile root name keyed.key)).value =
          filesInProfile root name keyed.key) ↔
      ∀ step, ComesTo disk (filesInProfile root name) (stepsFor disk args root name) step →
        step.change.Leaves disk step.path (filesInProfile root name step.path) := by
    constructor
    · intro h step hstep
      exact value_run_eq_iff.mp (h _ (reached_keyed_iff.mpr ⟨step, hstep, rfl⟩))
    · intro h keyed hkeyed
      obtain ⟨step, hstep, rfl⟩ := reached_keyed_iff.mp hkeyed
      exact value_run_eq_iff.mpr (h step hstep)
  rw [← hleaves, ← hstate]
  unfold saveIn
  rw [Function.update_eq_iff]
  simp only [implies_true, and_true]
  unfold filesInProfile folderOf
  cases root name with
  | none => simp
  | some entry =>
    cases entry with
    | file bytes mode => simp
    | profile files => simp

/-- A call that comes to its steps. -/
theorem savesWhole_iff_of_accepted [Unicode] (hname : requireName args = .ok name)
    (haccepts : acceptsName name = true) (hmkdir : mkdirSucceeds disk root name = true) :
    SavesWhole disk args root ↔
      (∀ step ∈ stepsFor disk args root name,
          step.change.Succeeds disk step.path (filesInProfile root name step.path)) ∨
        ((folderOf root name).isSome = true ∧
          ∀ step, ComesTo disk (filesInProfile root name) (stepsFor disk args root name) step →
            step.change.Leaves disk step.path (filesInProfile root name step.path)) := by
  have hsave : saveProfileFiles disk args root = saveIn disk args root name := by
    simp only [saveProfileFiles, hname, haccepts, hmkdir, Bool.true_eq_false, if_false]
  unfold SavesWhole
  rw [hsave, isError_saveIn_iff, root_saveIn_eq_iff, ← or_iff_not_imp_left]

/-- **When a save is all or nothing.** -/
theorem saveProfileFiles_whole_iff [Unicode] (disk : Disk) (args : RawFields)
    (root : ProfilesRoot δ) :
    SavesWhole disk args root ↔ LeavesNothingBehind disk args root := by
  constructor
  · intro h name hname haccepts hmkdir
    exact (savesWhole_iff_of_accepted hname haccepts hmkdir).mp h
  · intro h
    cases hname : requireName args with
    | error failure => exact fun _ => by simp only [saveProfileFiles, hname]
    | ok name =>
      cases haccepts : acceptsName name with
      | false => exact fun _ => by simp only [saveProfileFiles, hname, haccepts, if_true]
      | true =>
        cases hmkdir : mkdirSucceeds disk root name with
        | false =>
          exact fun _ => by
            simp only [saveProfileFiles, hname, haccepts, hmkdir, Bool.true_eq_false, if_false,
              if_true]
        | true =>
          exact (savesWhole_iff_of_accepted hname haccepts hmkdir).mpr
            (h name hname haccepts hmkdir)

end Calls

section Examples

attribute [local instance] ascii

/-- Parents that are not a list are refused when the directory and two of its files are there. -/
theorem not_savesWhole :
    ¬ ∀ (args : RawFields) (root : ProfilesRoot Unit), SavesWhole Disk.working args root := by
  intro h
  have hwhole := h [(RawText.ofString "name", .str (RawText.ofString "lab")),
    (RawText.ofString "parents", .str (RawText.ofString "base"))] fun _ => none
  have hname : acceptsName (RawText.ofString "lab") = true := by decide +kernel
  rcases (@savesWhole_iff_of_accepted _ _ _ _ (RawText.ofString "lab") _ rfl hname rfl).mp hwhole
    with hsucceeds | ⟨hfolder, -⟩
  · have hfail : (⟨"parent", .fail (.toolError "parents must be a list of strings")⟩ : PathChange) ∈
        stepsFor Disk.working [(RawText.ofString "name", .str (RawText.ofString "lab")),
          (RawText.ofString "parents", .str (RawText.ofString "base"))]
          (fun _ => none : ProfilesRoot Unit) (RawText.ofString "lab") := by
      exact .tail _ (.tail _ (.head _))
    exact hsucceeds _ hfail
  · cases hfolder

end Examples

end Fleetboot
