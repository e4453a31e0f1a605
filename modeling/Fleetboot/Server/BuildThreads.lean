import Fleetboot.Server.BuildJobs

/-!
# The build threads, statement by statement

`start`, `start_with_downstream`, `_run_single` and `_run_cascade` of `build_jobs.py` once more,
at a finer grain than `BuildStep`: each read of a `parent` file and each write to a job is a step
of its own, the profiles change in between, and every statement may raise.

* `scan_computeBuildCascade`: on profiles that stay as they are, the reads give the cascade.
* `buildLock_kept_iff`: when the lock is held by a thread or free, in every state of a run.
* `leaked_forever`: what becomes of the lock otherwise.
* `published_last_iff`: when a job that reads as ended has all that it will ever have.
-/

set_option autoImplicit false

namespace Fleetboot

open Transition Python Digraph

/-! ## The profiles on disk -/

/-- What stands under the name of a `parent` file. -/
inductive ParentFile
  | absent
  | unreadable (exc : Exception)
  | holds (bytes : ByteArray)

/-- A `UnicodeDecodeError` is a `ValueError`. -/
def decodeUtf8 (bytes : ByteArray) : Except Exception String :=
  match String.fromUTF8? bytes with
  | some text => .ok text
  | none => .error (.valueError "'utf-8' codec can't decode the file")

/-- `parent_file.read_text()`, where there is a file. -/
def ParentFile.text : ParentFile → Except Exception (Option String)
  | absent => .ok none
  | unreadable exc => .error exc
  | holds bytes => (decodeUtf8 bytes).map some

/-- A directory under `profiles_root`. -/
structure ParentEntry where
  name : String
  parent : ParentFile

/-- The parents that a text declares, with the implicit one. -/
def parentsOf (text : Option String) (hasBase : Bool) (name : String) : List String :=
  let parents := match text with
    | none => []
    | some text => ((splitLines text).map strip).filter fun stripped =>
      stripped != "" && !startsWith stripped "#"
  if name ≠ baseProfile ∧ baseProfile ∉ parents ∧ hasBase then baseProfile :: parents else parents

/-- The text of the `parent` file of a profile. -/
def parentTextNow (entries : List ParentEntry) (name : String) :
    Except Exception (Option String) :=
  match entries.find? fun entry => entry.name == name with
  | none => .ok none
  | some entry => entry.parent.text

/-- `_read_profile_parents`, of the profiles as they are at the moment. -/
def readParentsNow (entries : List ParentEntry) (name : String) :
    Except Exception (List String) :=
  (parentTextNow entries name).map fun text =>
    parentsOf text (entries.any fun entry => entry.name == baseProfile) name

/-- `children.get(parent, [])`, from what the first loop has read. -/
def childrenRead (read : List (String × List String)) (parent : String) : List String :=
  read.flatMap fun entry => (entry.2.filter (· == parent)).map fun _ => entry.1

/-- `in_set`, from what the first loop has read. -/
def foundFrom (read : List (String × List String)) (root : String) : List String :=
  let children := childrenRead read
  collect children
    ((children root).length + ∑ x ∈ (read.map Prod.fst).toFinset, (children x).length + 1)
    (children root).reverse [root]

/-- `ordered`, from what was read for `remaining_parents`. -/
def orderedFrom (read : List (String × List String)) : List String :=
  layers (List.insertionSort (· ≤ ·)) read.length
    (read.map fun entry => (entry.1, entry.2.filter (· ∈ read.map Prod.fst))) []

/-! ## Calls -/

/-- Where a call is, once it has taken the lock. -/
inductive CallPoint
  | listing
  /-- The first loop of `compute_build_cascade`: the profiles left to read, and what was read. -/
  | scanning (left : List String) (read : List (String × List String))
  /-- The reads for `remaining_parents`. -/
  | sorting (left : List String) (read : List (String × List String))
  | creating (names : List String) (created : List Nat)
  /-- The thread runs. -/
  | returning

/-- The lock is taken, and no thread has it yet. -/
def CallPoint.holds : CallPoint → Bool
  | returning => false
  | _ => true

/-- A call that is under way. -/
structure ActiveCall where
  call : BuildCall
  point : CallPoint

/-- `start` has no cascade to compute. -/
def BuildCall.firstPoint (call : BuildCall) : CallPoint :=
  if call.downstream then .listing else .creating [call.profile] []

/-- A step of `compute_build_cascade`, on the profiles as they are. -/
inductive Reads (entries : Option (List ParentEntry)) (root : String) :
    CallPoint → CallPoint → Prop
  | absent : entries = none → Reads entries root .listing (.creating [root] [])
  | list {dirs : List ParentEntry} : entries = some dirs →
      Reads entries root .listing (.scanning (dirs.map ParentEntry.name) [])
  | scan {name : String} {left parents : List String} {read : List (String × List String)} :
      readParentsNow (entries.getD []) name = .ok parents →
      Reads entries root (.scanning (name :: left) read)
        (.scanning left (read ++ [(name, parents)]))
  -- A set has its elements in any order.
  | collect {read : List (String × List String)} {inSet : List String} :
      inSet.Perm (foundFrom read root) →
      Reads entries root (.scanning [] read) (.sorting inSet [])
  | sort {name : String} {left parents : List String} {read : List (String × List String)} :
      readParentsNow (entries.getD []) name = .ok parents →
      Reads entries root (.sorting (name :: left) read)
        (.sorting left (read ++ [(name, parents)]))
  | order {read : List (String × List String)} :
      Reads entries root (.sorting [] read) (.creating (orderedFrom read) [])

/-! ## Threads -/

/-- One assignment to a field of a job, or one line appended to its log. -/
inductive JobWrite
  | state (after : JobState)
  | startedAt (now : Timestamp)
  | finishedAt (now : Timestamp)
  | exitCode (code : Int)
  | autoRebootArmed (armed : Nat)
  | line (text : String)

def JobWrite.apply : JobWrite → BuildJob → BuildJob
  | state after, job => { job with state := after }
  | startedAt now, job => { job with startedAt := now }
  | finishedAt now, job => { job with finishedAt := some now }
  | exitCode code, job => { job with exitCode := some code }
  | autoRebootArmed armed, job => { job with autoRebootArmed := some armed }
  | line text, job => job.appendLine text

/-- Where a thread is: in `_execute` of a job, in the branch that skips one, or about to leave.
An outcome is SUCCEEDED or FAILED. -/
inductive ThreadPoint
  | between
  | begun (job : Nat)
  | building (job : Nat)
  | exited (job : Nat) (code : Int)
  | crashed (job : Nat)
  | calling (job : Nat)
  | publishing (job : Nat) (succeeded : Bool)
  | finished (job : Nat) (succeeded : Bool)
  | skipping (job : Nat)
  | explaining (job : Nat)
  | leaving

/-- The body of the `try` in `_execute` of a job. -/
def ThreadPoint.inTry (job : Nat) : ThreadPoint → Bool
  | building other => other == job
  | exited other _ => other == job
  | _ => false

/-- `_run_cascade`; `_run_single` is the same of a single job. -/
structure BuildThread where
  jobs : List Nat
  left : List Nat
  rootOk : Option Bool
  point : ThreadPoint

/-- `_execute` after a build: the callback is called for a success, where there is one. -/
def pointAfter (onSuccess : Bool) (job : Nat) (code : Int) : ThreadPoint :=
  if code = 0 ∧ onSuccess = true then .calling job else .publishing job (code == 0)

def outcomeState (succeeded : Bool) : JobState := if succeeded then .succeeded else .failed

/-- The next write of a thread to a job. -/
inductive Writes (onSuccess : Bool) (rootProfile : Option String) :
    BuildThread → Nat → JobWrite → BuildThread → Prop
  | begin {jobs rest : List Nat} {rootOk : Option Bool} {job : Nat} : rootOk ≠ some false →
      Writes onSuccess rootProfile ⟨jobs, job :: rest, rootOk, .between⟩ job (.state .running)
        ⟨jobs, rest, rootOk, .begun job⟩
  | start {jobs left : List Nat} {rootOk : Option Bool} {job : Nat} (now : Timestamp) :
      Writes onSuccess rootProfile ⟨jobs, left, rootOk, .begun job⟩ job (.startedAt now)
        ⟨jobs, left, rootOk, .building job⟩
  | output {jobs left : List Nat} {rootOk : Option Bool} {job : Nat} (text : String) :
      Writes onSuccess rootProfile ⟨jobs, left, rootOk, .building job⟩ job (.line text)
        ⟨jobs, left, rootOk, .building job⟩
  | exit {jobs left : List Nat} {rootOk : Option Bool} {job : Nat} (code : Int) :
      Writes onSuccess rootProfile ⟨jobs, left, rootOk, .building job⟩ job (.exitCode code)
        ⟨jobs, left, rootOk, .exited job code⟩
  -- The handler of the `try`, from any statement in it.
  | crash {jobs left : List Nat} {rootOk : Option Bool} {job : Nat} {point : ThreadPoint}
      (exc : String) : point.inTry job = true →
      Writes onSuccess rootProfile ⟨jobs, left, rootOk, point⟩ job
        (.line ("build job crashed: " ++ exc)) ⟨jobs, left, rootOk, .crashed job⟩
  | failed {jobs left : List Nat} {rootOk : Option Bool} {job : Nat} :
      Writes onSuccess rootProfile ⟨jobs, left, rootOk, .crashed job⟩ job (.exitCode (-1))
        ⟨jobs, left, rootOk, .publishing job false⟩
  | arm {jobs left : List Nat} {rootOk : Option Bool} {job : Nat} (armed : Nat) :
      Writes onSuccess rootProfile ⟨jobs, left, rootOk, .calling job⟩ job (.autoRebootArmed armed)
        ⟨jobs, left, rootOk, .calling job⟩
  | report {jobs left : List Nat} {rootOk : Option Bool} {job : Nat} (text : String) :
      Writes onSuccess rootProfile ⟨jobs, left, rootOk, .calling job⟩ job (.line text)
        ⟨jobs, left, rootOk, .calling job⟩
  | callFailed {jobs left : List Nat} {rootOk : Option Bool} {job : Nat} (exc : String) :
      Writes onSuccess rootProfile ⟨jobs, left, rootOk, .calling job⟩ job
        (.line ("on_success callback failed: " ++ exc))
        ⟨jobs, left, rootOk, .publishing job true⟩
  | finish {jobs left : List Nat} {rootOk : Option Bool} {job : Nat} {succeeded : Bool}
      (now : Timestamp) :
      Writes onSuccess rootProfile ⟨jobs, left, rootOk, .publishing job succeeded⟩ job
        (.finishedAt now) ⟨jobs, left, rootOk, .finished job succeeded⟩
  -- `root_ok` is read from the root's state right after this was published.
  | publish {jobs left : List Nat} {rootOk : Option Bool} {job : Nat} {succeeded : Bool} :
      Writes onSuccess rootProfile ⟨jobs, left, rootOk, .finished job succeeded⟩ job
        (.state (outcomeState succeeded)) ⟨jobs, left, some (rootOk.getD succeeded), .between⟩
  | skip {jobs rest : List Nat} {job : Nat} :
      Writes onSuccess rootProfile ⟨jobs, job :: rest, some false, .between⟩ job (.state .skipped)
        ⟨jobs, rest, some false, .skipping job⟩
  | skipped {jobs left : List Nat} {rootOk : Option Bool} {job : Nat} (now : Timestamp) :
      Writes onSuccess rootProfile ⟨jobs, left, rootOk, .skipping job⟩ job (.finishedAt now)
        ⟨jobs, left, rootOk, .explaining job⟩
  | explain {jobs left : List Nat} {rootOk : Option Bool} {job : Nat} {root : String} :
      rootProfile = some root →
      Writes onSuccess rootProfile ⟨jobs, left, rootOk, .explaining job⟩ job
        (.line ("skipped: cascade root build '" ++ root ++ "' did not succeed"))
        ⟨jobs, left, rootOk, .between⟩

/-- A step of a thread that writes nothing. -/
inductive Proceeds (onSuccess : Bool) : BuildThread → BuildThread → Prop
  | judge {jobs left : List Nat} {rootOk : Option Bool} {job : Nat} {code : Int} :
      Proceeds onSuccess ⟨jobs, left, rootOk, .exited job code⟩
        ⟨jobs, left, rootOk, pointAfter onSuccess job code⟩
  | returned {jobs left : List Nat} {rootOk : Option Bool} {job : Nat} :
      Proceeds onSuccess ⟨jobs, left, rootOk, .calling job⟩
        ⟨jobs, left, rootOk, .publishing job true⟩
  | done {jobs : List Nat} {rootOk : Option Bool} :
      Proceeds onSuccess ⟨jobs, [], rootOk, .between⟩ ⟨jobs, [], rootOk, .leaving⟩
  -- What no handler catches goes through the `finally`, from any statement.
  | unwind {thread : BuildThread} : Proceeds onSuccess thread { thread with point := .leaving }

/-! ## Steps -/

structure BuildThreads where
  /-- The directory `image/profiles`, if there is one. -/
  entries : Option (List ParentEntry)
  jobs : List BuildJob
  /-- `_running_lock`. -/
  locked : Bool
  calls : List ActiveCall
  threads : List BuildThread

def idleThreads (entries : Option (List ParentEntry)) : BuildThreads :=
  { entries, jobs := [], locked := false, calls := [], threads := [] }

def BuildThreads.profileOf (s : BuildThreads) (job : Nat) : Option String :=
  s.jobs[job]?.map BuildJob.profile

inductive ThreadEvent
  | edit
  | acquire (call : BuildCall)
  | refuse (call : BuildCall)
  | read
  | create (jobId profile : String)
  | spawn (jobs : List Nat)
  | answer
  | raise (point : CallPoint) (exc : Exception)
  | write (job : Nat) (write : JobWrite)
  | proceed
  | release

/-- One step of a call, of a thread, or of whoever changes the profiles. -/
inductive ThreadStep (onSuccess : Bool) (s : BuildThreads) : ThreadEvent → BuildThreads → Prop
  | edit (entries : Option (List ParentEntry)) : ThreadStep onSuccess s .edit { s with entries }
  | acquire {call : BuildCall} : s.locked = false →
      ThreadStep onSuccess s (.acquire call)
        { s with locked := true, calls := ⟨call, call.firstPoint⟩ :: s.calls }
  | refuse {call : BuildCall} : s.locked = true → ThreadStep onSuccess s (.refuse call) s
  | read {call : BuildCall} {point point' : CallPoint} {before after : List ActiveCall} :
      s.calls = before ++ ⟨call, point⟩ :: after → Reads s.entries call.profile point point' →
      ThreadStep onSuccess s .read { s with calls := before ++ ⟨call, point'⟩ :: after }
  | create {call : BuildCall} {names : List String} {name : String} {created : List Nat}
      {before after : List ActiveCall} (jobId : String) :
      s.calls = before ++ ⟨call, .creating names created⟩ :: after →
      names[created.length]? = some name →
      ThreadStep onSuccess s (.create jobId name)
        { s with
          jobs := s.jobs ++ [newJob jobId name call names]
          calls := before ++ ⟨call, .creating names (created ++ [s.jobs.length])⟩ :: after }
  | spawn {call : BuildCall} {names : List String} {created : List Nat}
      {before after : List ActiveCall} :
      s.calls = before ++ ⟨call, .creating names created⟩ :: after →
      created.length = names.length → created ≠ [] →
      ThreadStep onSuccess s (.spawn created)
        { s with
          calls := before ++ ⟨call, .returning⟩ :: after
          threads := ⟨created, created, none, .between⟩ :: s.threads }
  | answer {call : BuildCall} {before after : List ActiveCall} :
      s.calls = before ++ ⟨call, .returning⟩ :: after →
      ThreadStep onSuccess s .answer { s with calls := before ++ after }
  -- Nothing between the lock and the thread gives the lock back.
  | raise {active : ActiveCall} {before after : List ActiveCall} (exc : Exception) :
      s.calls = before ++ active :: after →
      ThreadStep onSuccess s (.raise active.point exc) { s with calls := before ++ after }
  | write {thread thread' : BuildThread} {job : Nat} {write : JobWrite}
      {before after : List BuildThread} :
      s.threads = before ++ thread :: after →
      Writes onSuccess (thread.jobs.head?.bind s.profileOf) thread job write thread' →
      ThreadStep onSuccess s (.write job write)
        { s with
          jobs := s.jobs.modify job write.apply
          threads := before ++ thread' :: after }
  | proceed {thread thread' : BuildThread} {before after : List BuildThread} :
      s.threads = before ++ thread :: after → Proceeds onSuccess thread thread' →
      ThreadStep onSuccess s .proceed { s with threads := before ++ thread' :: after }
  | release {thread : BuildThread} {before after : List BuildThread} :
      s.threads = before ++ thread :: after → thread.point = .leaving →
      ThreadStep onSuccess s .release
        { s with locked := false, threads := before ++ after }

/-! ## The reads -/

section Reads

variable {dirs : List ProfileDir}

/-- Profiles whose `parent` files can be read. -/
def entriesOf (dirs : List ProfileDir) : List ParentEntry :=
  dirs.map fun dir => ⟨dir.name,
    match dir.files.find? fun file => file.1 == "parent" with
    | none => .absent
    | some file => .holds file.2.toUTF8⟩

theorem decodeUtf8_toUTF8 (text : String) : decodeUtf8 text.toUTF8 = .ok text := by
  have hvalid : text.toUTF8.IsValidUTF8 := text.isValidUTF8
  unfold decodeUtf8 String.fromUTF8?
  rw [dif_pos hvalid]
  rfl

theorem parentTextNow_entriesOf (name : String) :
    parentTextNow (entriesOf dirs) name = .ok ((ProfilesTree.ofDirs dirs).parentText name) := by
  unfold parentTextNow entriesOf ProfilesTree.ofDirs
  rw [List.find?_map]
  simp only [Function.comp_def]
  cases dirs.find? fun dir => dir.name == name with
  | none => rfl
  | some dir =>
    simp only [Option.map_some, Option.bind_some]
    cases dir.files.find? fun file => file.1 == "parent" with
    | none => rfl
    | some file => exact congrArg (Except.map some) (decodeUtf8_toUTF8 file.2)

theorem readParentsNow_entriesOf (name : String) :
    readParentsNow (entriesOf dirs) name = .ok (readProfileParents (.ofDirs dirs) name) := by
  have hbase : (entriesOf dirs).any (fun entry => entry.name == baseProfile) =
      (ProfilesTree.ofDirs dirs).isDir baseProfile := by
    simp [entriesOf, ProfilesTree.ofDirs, List.any_map, Function.comp_def]
  unfold readParentsNow
  rw [hbase, parentTextNow_entriesOf]
  rfl

theorem childrenRead_map (tree : ProfilesTree) (profiles : List String) :
    childrenRead (profiles.map fun name => (name, readProfileParents tree name)) =
      buildChildren tree profiles := by
  funext parent
  simp only [childrenRead, buildChildren, List.flatMap_map]

theorem foundFrom_map (tree : ProfilesTree) (profiles : List String) (root : String) :
    foundFrom (profiles.map fun name => (name, readProfileParents tree name)) root =
      cascadeSet tree profiles root := by
  have hkeys : (profiles.map fun name => (name, readProfileParents tree name)).map Prod.fst =
      profiles := by
    rw [List.map_map]
    exact List.map_id _
  unfold foundFrom cascadeSet
  rw [childrenRead_map, hkeys]

/-- Reads of all that is left, one after the other. -/
theorem reads_all {entries : Option (List ParentEntry)} {root : String} {f : String → List String}
    (hread : ∀ name, readParentsNow (entries.getD []) name = .ok (f name))
    (left : List String) (read : List (String × List String)) :
    Relation.ReflTransGen (Reads entries root) (.scanning left read)
        (.scanning [] (read ++ left.map fun name => (name, f name))) ∧
      Relation.ReflTransGen (Reads entries root) (.sorting left read)
        (.sorting [] (read ++ left.map fun name => (name, f name))) := by
  induction left generalizing read with
  | nil => exact ⟨by rw [List.map_nil, List.append_nil], by rw [List.map_nil, List.append_nil]⟩
  | cons name left ih =>
    obtain ⟨hscan, hsort⟩ := ih (read ++ [(name, f name)])
    rw [List.append_assoc] at hscan hsort
    exact ⟨.head (.scan (hread name)) hscan, .head (.sort (hread name)) hsort⟩

/-- **The reads give the cascade**, on profiles that stay as they are and can be read. -/
theorem scan_computeBuildCascade (root : String) :
    Relation.ReflTransGen (Reads (some (entriesOf dirs)) root) .listing
      (.creating (computeBuildCascade (some dirs) root) []) := by
  have hread : ∀ name, readParentsNow ((some (entriesOf dirs)).getD []) name =
      .ok (readProfileParents (.ofDirs dirs) name) := readParentsNow_entriesOf
  have hnames : (entriesOf dirs).map ParentEntry.name = dirs.map ProfileDir.name := by
    simp [entriesOf]
  have hscan := (@reads_all _ root _ hread (dirs.map ProfileDir.name) []).1
  have hsort := (@reads_all _ root _ hread
    (cascadeSet (.ofDirs dirs) (dirs.map ProfileDir.name) root) []).2
  rw [List.nil_append] at hscan hsort
  have horder : orderedFrom ((cascadeSet (.ofDirs dirs) (dirs.map ProfileDir.name) root).map
      fun name => (name, readProfileParents (.ofDirs dirs) name)) =
      computeBuildCascade (some dirs) root := by
    simp [orderedFrom, computeBuildCascade, Function.comp_def]
  have hfound : (cascadeSet (.ofDirs dirs) (dirs.map ProfileDir.name) root).Perm
      (foundFrom ((dirs.map ProfileDir.name).map fun name =>
        (name, readProfileParents (.ofDirs dirs) name)) root) := by
    rw [foundFrom_map]
  have hlisted := @Reads.list (some (entriesOf dirs)) root _ rfl
  rw [hnames] at hlisted
  refine (Relation.ReflTransGen.head hlisted hscan).trans (.head (.collect hfound) ?_)
  refine hsort.tail ?_
  rw [← horder]
  exact .order

/-- The reads as steps of a call. -/
theorem run_of_reads {onSuccess : Bool} {s : BuildThreads} {call : BuildCall}
    {point point' : CallPoint} {before after : List ActiveCall}
    (hcalls : s.calls = before ++ ⟨call, point⟩ :: after)
    (hreads : Relation.ReflTransGen (Reads s.entries call.profile) point point') :
    ∃ count, Run (ThreadStep onSuccess) s (List.replicate count .read)
      { s with calls := before ++ ⟨call, point'⟩ :: after } := by
  induction hreads with
  | refl => exact ⟨0, hcalls ▸ .nil⟩
  | tail _ hread ih =>
    obtain ⟨count, hrun⟩ := ih
    refine ⟨count + 1, ?_⟩
    rw [List.replicate_succ']
    exact hrun.snoc (.read rfl hread)

end Reads

/-! ## The lock -/

section Lock

variable {onSuccess : Bool} {s s' : BuildThreads} {event : ThreadEvent}

/-- How many calls and threads have the lock. -/
def BuildThreads.holders (s : BuildThreads) : Nat :=
  (s.calls.filter fun active => active.point.holds).length + s.threads.length

/-- The lock is held by one call or thread, or free. -/
def LockHeld (s : BuildThreads) : Prop := s.holders = if s.locked = true then 1 else 0

/-- With no call on its way to start a thread, the lock is held if and only if a thread runs; and
when it is free the next call takes it. -/
structure LockKept (onSuccess : Bool) (s : BuildThreads) : Prop where
  held_iff : (∀ active ∈ s.calls, active.point.holds = false) →
    (s.locked = true ↔ s.threads ≠ [])
  accepts : (∀ active ∈ s.calls, active.point.holds = false) → s.threads = [] →
    ∀ call, ∃ s', ThreadStep onSuccess s (.acquire call) s'

/-- The event is not an exception between taking the lock and starting the thread. -/
def KeepsLock (event : ThreadEvent) : Prop :=
  ∀ point exc, event = .raise point exc → point.holds = false

/-- A call has the lock or it has not. -/
def CallPoint.count (point : CallPoint) : Nat := if point.holds = true then 1 else 0

theorem holders_of_calls {active : ActiveCall} {before after : List ActiveCall}
    (hcalls : s.calls = before ++ active :: after) :
    s.holders = active.point.count + BuildThreads.holders { s with calls := before ++ after } := by
  unfold BuildThreads.holders CallPoint.count
  simp only [hcalls, List.filter_append, List.filter_cons, List.length_append]
  split
  · rw [List.length_cons]
    omega
  · omega

theorem holders_of_threads {thread : BuildThread} {before after : List BuildThread}
    (hthreads : s.threads = before ++ thread :: after) :
    s.holders = BuildThreads.holders { s with threads := before ++ after } + 1 := by
  unfold BuildThreads.holders
  simp only [hthreads, List.length_append, List.length_cons]
  omega

/-- No call or thread has the lock. -/
theorem holders_eq_zero_iff : s.holders = 0 ↔
    (∀ active ∈ s.calls, active.point.holds = false) ∧ s.threads = [] := by
  unfold BuildThreads.holders
  rw [Nat.add_eq_zero_iff, List.length_eq_zero_iff, List.length_eq_zero_iff,
    List.filter_eq_nil_iff]
  simp only [Bool.not_eq_true]

theorem Reads.holds {entries : Option (List ParentEntry)} {root : String}
    {point point' : CallPoint} (h : Reads entries root point point') :
    point.count = 1 ∧ point'.count = 1 := by
  cases h <;> exact ⟨rfl, rfl⟩

theorem LockHeld.kept (h : LockHeld s) : LockKept onSuccess s := by
  have hfree : (∀ active ∈ s.calls, active.point.holds = false) → s.threads = [] →
      s.locked = false := by
    intro hcalls hthreads
    have hzero := holders_eq_zero_iff.mpr ⟨hcalls, hthreads⟩
    rw [LockHeld, hzero] at h
    by_contra hlocked
    rw [if_pos (by simpa using hlocked)] at h
    omega
  refine ⟨fun hcalls => ⟨fun hlocked hthreads => ?_, fun hthreads => ?_⟩,
    fun hcalls hthreads call => ⟨_, .acquire (hfree hcalls hthreads)⟩⟩
  · rw [hfree hcalls hthreads] at hlocked
    cases hlocked
  · by_contra hlocked
    rw [LockHeld, if_neg hlocked] at h
    exact hthreads (holders_eq_zero_iff.mp h).2

/-- What the count is after a change to the calls and threads. -/
theorem LockHeld.of_count (h : LockHeld s) (hlocked : s'.locked = s.locked)
    (hcount : s'.holders = s.holders) : LockHeld s' := by
  rw [LockHeld, hlocked, hcount]
  exact h

theorem LockHeld.rethread (h : LockHeld s) {thread : BuildThread} {before after : List BuildThread}
    (hthreads : s.threads = before ++ thread :: after) (thread' : BuildThread)
    (jobs : List BuildJob) :
    LockHeld { s with jobs, threads := before ++ thread' :: after } := by
  have hold := holders_of_threads hthreads
  have hnew := @holders_of_threads { s with jobs, threads := before ++ thread' :: after }
    thread' before after rfl
  exact h.of_count rfl (hnew.trans hold.symm)

/-- Every step but such an exception keeps count of the lock. -/
theorem LockHeld.step (h : LockHeld s) (hstep : ThreadStep onSuccess s event s')
    (hkeeps : KeepsLock event) : LockHeld s' := by
  cases hstep with
  | edit _ => exact h
  | refuse _ => exact h
  | @acquire call hfree =>
    have hzero : s.holders = 0 := by
      rw [LockHeld, hfree] at h
      exact h
    have hpoint : call.firstPoint.count = 1 := by
      unfold BuildCall.firstPoint
      split <;> rfl
    have hnew := @holders_of_calls
      { s with locked := true, calls := ⟨call, call.firstPoint⟩ :: s.calls }
      ⟨call, call.firstPoint⟩ [] s.calls rfl
    rw [LockHeld, hnew, hpoint]
    exact congrArg (1 + ·) hzero
  | @read call point point' before after hcalls hreads =>
    have hold := holders_of_calls hcalls
    have hnew := @holders_of_calls { s with calls := before ++ ⟨call, point'⟩ :: after }
      ⟨call, point'⟩ before after rfl
    refine h.of_count rfl ?_
    rw [hnew, hold, hreads.holds.1, hreads.holds.2]
  | @create call names name created before after jobId hcalls _ =>
    have hold := holders_of_calls hcalls
    have hnew := @holders_of_calls
      { s with
        jobs := s.jobs ++ [newJob jobId name call names]
        calls := before ++ ⟨call, .creating names (created ++ [s.jobs.length])⟩ :: after }
      ⟨call, .creating names (created ++ [s.jobs.length])⟩ before after rfl
    refine h.of_count rfl ?_
    rw [hnew, hold]
    rfl
  | @spawn call names created before after hcalls _ _ =>
    have hold := holders_of_calls hcalls
    have hnew := @holders_of_calls
      { s with
        calls := before ++ ⟨call, .returning⟩ :: after
        threads := ⟨created, created, none, .between⟩ :: s.threads }
      ⟨call, .returning⟩ before after rfl
    have hcreating : (CallPoint.creating names created).count = 1 := rfl
    have hreturning : CallPoint.returning.count = 0 := rfl
    refine h.of_count rfl ?_
    rw [hnew, hold, hcreating, hreturning]
    simp only [BuildThreads.holders, List.length_cons]
    omega
  | @answer call before after hcalls =>
    have hold := holders_of_calls hcalls
    refine h.of_count rfl ?_
    rw [hold]
    simp [CallPoint.count, CallPoint.holds]
  | @raise active before after exc hcalls =>
    have hold := holders_of_calls hcalls
    have hfree : active.point.count = 0 := by
      rw [CallPoint.count, hkeeps _ exc rfl]
      rfl
    refine h.of_count rfl ?_
    rw [hold, hfree, Nat.zero_add]
  | write hthreads _ => exact h.rethread hthreads _ _
  | proceed hthreads _ => exact h.rethread hthreads _ _
  | release hthreads _ =>
    have hold := holders_of_threads hthreads
    have hone : s.holders ≤ 1 := by
      rw [h]
      split <;> omega
    unfold LockHeld
    simp only [BuildThreads.holders] at hold hone ⊢
    rw [if_neg Bool.false_ne_true]
    omega

/-- The lock is taken, and nobody is left to give it back. -/
structure Leaked (s : BuildThreads) : Prop where
  locked : s.locked = true
  calls : ∀ active ∈ s.calls, active.point.holds = false
  threads : s.threads = []

/-- Such an exception leaves the lock to nobody. -/
theorem LockHeld.leaks (h : LockHeld s) (hstep : ThreadStep onSuccess s event s')
    (hleaks : ¬ KeepsLock event) :
    Leaked s' := by
  obtain ⟨point, exc, rfl, hholds⟩ : ∃ point exc, event = .raise point exc ∧
      point.holds = true := by
    unfold KeepsLock at hleaks
    push Not at hleaks
    simpa using hleaks
  cases hstep with
  | @raise active before after _ hcalls =>
    have hold := holders_of_calls hcalls
    have hlocked : s.locked = true := by
      by_contra hlocked
      rw [LockHeld, if_neg hlocked, hold, CallPoint.count, if_pos hholds] at h
      omega
    rw [LockHeld, if_pos hlocked, hold, CallPoint.count, if_pos hholds] at h
    have hzero : BuildThreads.holders { s with calls := before ++ after } = 0 := by omega
    obtain ⟨hnone, hthreads⟩ := holders_eq_zero_iff.mp hzero
    exact ⟨hlocked, hnone, hthreads⟩

theorem Leaked.not_holds (h : Leaked s) {call : BuildCall} {point : CallPoint}
    {before after : List ActiveCall} (hcalls : s.calls = before ++ ⟨call, point⟩ :: after) :
    point.holds = false :=
  h.calls ⟨call, point⟩ (mem_taken hcalls)

theorem Leaked.not_running (h : Leaked s) {thread : BuildThread} {before after : List BuildThread}
    (hthreads : s.threads = before ++ thread :: after) : False := by
  rw [h.threads] at hthreads
  simp at hthreads

theorem Leaked.step (h : Leaked s) (hstep : ThreadStep onSuccess s event s') :
    Leaked s' ∧ ∀ call, event ≠ .acquire call := by
  cases hstep with
  | edit _ => exact ⟨⟨h.locked, h.calls, h.threads⟩, by simp⟩
  | refuse _ => exact ⟨h, by simp⟩
  | acquire hfree =>
    rw [h.locked] at hfree
    cases hfree
  | read hcalls hreads =>
    have hcount := hreads.holds.1
    rw [CallPoint.count, h.not_holds hcalls] at hcount
    cases hcount
  | create _ hcalls _ => cases h.not_holds hcalls
  | spawn hcalls _ _ => cases h.not_holds hcalls
  | answer hcalls =>
    exact ⟨⟨h.locked, fun active hmem => h.calls active (mem_of_mem_rest hcalls hmem), h.threads⟩,
      by simp⟩
  | raise exc hcalls =>
    exact ⟨⟨h.locked, fun active hmem => h.calls active (mem_of_mem_rest hcalls hmem), h.threads⟩,
      by simp⟩
  | write hthreads _ => exact (h.not_running hthreads).elim
  | proceed hthreads _ => exact (h.not_running hthreads).elim
  | release hthreads _ => exact (h.not_running hthreads).elim

/-- **A lock that is left to nobody stays so**: no call is ever accepted again. -/
theorem leaked_forever {events : List ThreadEvent} (hrun : Run (ThreadStep onSuccess) s events s')
    (h : Leaked s) : Leaked s' ∧ ∀ call, ThreadEvent.acquire call ∉ events := by
  have hkeep : ∀ s event s', Leaked s → ThreadStep onSuccess s event s' → Leaked s' :=
    fun _ _ _ h hstep => (h.step hstep).1
  have hlabel : ∀ s event s', Leaked s → ThreadStep onSuccess s event s' →
      ∀ call, event ≠ .acquire call := fun _ _ _ h hstep => (h.step hstep).2
  exact ⟨hrun.invariant hkeep h,
    fun call hmem => hrun.labels_forall hkeep hlabel h _ hmem call rfl⟩

theorem lockHeld_idleThreads (entries : Option (List ParentEntry)) :
    LockHeld (idleThreads entries) := rfl

end Lock

/-- **When the lock is kept.** In a run of the build manager the lock is held by a running thread or
free, in every state with no call on its way to start one, if and only if no call has raised
between taking the lock and starting its thread. What a thread raises does no harm. -/
theorem buildLock_kept_iff {onSuccess : Bool} {entries : Option (List ParentEntry)}
    {events : List ThreadEvent} {s : BuildThreads}
    (hrun : Run (ThreadStep onSuccess) (idleThreads entries) events s) :
    Throughout (ThreadStep onSuccess) (LockKept onSuccess) (idleThreads entries) events s ↔
      ∀ event ∈ events, KeepsLock event := by
  refine @throughout_iff _ _ (ThreadStep onSuccess) LockHeld (LockKept onSuccess) KeepsLock
    (fun _ _ _ h hstep hkeeps => h.step hstep hkeeps) (fun _ h => h.kept)
    (fun _ _ _ h hstep hleaks hkept => ?_) _ _ _ hrun (lockHeld_idleThreads entries)
  have hleaked := h.leaks hstep hleaks
  exact (hkept.held_iff hleaked.calls).mp hleaked.locked hleaked.threads

/-! ## What is published -/

section Publishing

variable {onSuccess : Bool} {s s' : BuildThreads} {event : ThreadEvent}

/-- The job of the statement a thread is at. -/
def ThreadPoint.current : ThreadPoint → List Nat
  | begun job | building job | exited job _ | crashed job | calling job | publishing job _
  | finished job _ | skipping job | explaining job => [job]
  | between | leaving => []

/-- The jobs that a thread may still write to. -/
def BuildThread.ahead (thread : BuildThread) : List Nat := thread.point.current ++ thread.left

def CallPoint.created : CallPoint → List Nat
  | creating _ created => created
  | _ => []

/-- The jobs that a call or a thread may still write to. -/
def BuildThreads.pending (s : BuildThreads) : List Nat :=
  s.calls.flatMap (fun active => active.point.created) ++ s.threads.flatMap BuildThread.ahead

/-- The jobs that no thread has come to. -/
def BuildThreads.waiting (s : BuildThreads) : List Nat :=
  s.calls.flatMap (fun active => active.point.created) ++ s.threads.flatMap BuildThread.left

/-- The job has not ended, and `finished` says whether its time of ending is set. -/
def Open (jobs : List BuildJob) (job : Nat) (finished : Bool) : Prop :=
  ∃ b, jobs[job]? = some b ∧ b.state.isEnded = false ∧ b.finishedAt.isSome = finished

/-- The thread's job is open, and has its time of ending right before its state is set. -/
def ThreadPoint.Fits (jobs : List BuildJob) : ThreadPoint → Prop
  | begun job | building job | exited job _ | crashed job | calling job | publishing job _ =>
    Open jobs job false
  | finished job _ => Open jobs job true
  | skipping _ | explaining _ => False
  | between | leaving => True

/-- What an ended job has. -/
def EndedComplete (jobs : List BuildJob) : Prop :=
  ∀ (job : Nat) (b : BuildJob), jobs[job]? = some b → b.state.isEnded = true →
    b.finishedAt.isSome = true

/-- As long as nothing is skipped: no two places write to one job, those waiting are untouched, and
what has ended is complete. -/
structure Accounted (s : BuildThreads) : Prop where
  nodup : s.pending.Nodup
  waiting : ∀ job ∈ s.waiting, Open s.jobs job false
  points : ∀ thread ∈ s.threads, thread.point.Fits s.jobs
  complete : EndedComplete s.jobs

/-- The event does not set the state of a job to SKIPPED. -/
def NotSkipped (event : ThreadEvent) : Prop :=
  ∀ job, event ≠ .write job (.state .skipped)

theorem Open.modify {jobs : List BuildJob} {job k : Nat} {finished : Bool} {f : BuildJob → BuildJob}
    (h : Open jobs k finished) (hne : k ≠ job) : Open (jobs.modify job f) k finished := by
  obtain ⟨b, hb, hstate, hfinished⟩ := h
  refine ⟨b, ?_, hstate, hfinished⟩
  rw [List.getElem?_modify, hb]
  simp [hne.symm]

/-- What the write makes of an open job. -/
theorem Open.modify_self {jobs : List BuildJob} {job : Nat} {finished finished' : Bool}
    {f : BuildJob → BuildJob} (h : Open jobs job finished)
    (hf : ∀ b, b.state.isEnded = false → b.finishedAt.isSome = finished →
      (f b).state.isEnded = false ∧ (f b).finishedAt.isSome = finished') :
    Open (jobs.modify job f) job finished' := by
  obtain ⟨b, hb, hstate, hfinished⟩ := h
  refine ⟨f b, ?_, hf b hstate hfinished⟩
  rw [List.getElem?_modify, hb]
  simp

theorem Open.append {jobs : List BuildJob} {k : Nat} {finished : Bool} (h : Open jobs k finished)
    (b : BuildJob) : Open (jobs ++ [b]) k finished := by
  obtain ⟨b', hb', hstate, hfinished⟩ := h
  have hlt : k < jobs.length := (List.getElem?_eq_some_iff.mp hb').1
  exact ⟨b', by rwa [List.getElem?_append_left hlt], hstate, hfinished⟩

theorem Open.lt {jobs : List BuildJob} {k : Nat} {finished : Bool} (h : Open jobs k finished) :
    k < jobs.length := by
  obtain ⟨b, hb, -, -⟩ := h
  exact (List.getElem?_eq_some_iff.mp hb).1

/-- A point fits other jobs when these still have its job open. -/
theorem ThreadPoint.Fits.congr {jobs jobs' : List BuildJob} {point : ThreadPoint}
    (h : point.Fits jobs)
    (hopen : ∀ job ∈ point.current, ∀ finished, Open jobs job finished → Open jobs' job finished) :
    point.Fits jobs' := by
  cases point with
  | begun job | building job | exited job code | crashed job | calling job
  | publishing job _ => exact hopen job (List.mem_singleton_self job) false h
  | finished job _ => exact hopen job (List.mem_singleton_self job) true h
  | skipping job | explaining job => exact h
  | between | leaving => trivial

theorem ThreadPoint.Fits.open_current {jobs : List BuildJob} {point : ThreadPoint}
    (h : point.Fits jobs) : ∀ job ∈ point.current, ∃ finished, Open jobs job finished := by
  intro job hjob
  cases point with
  | begun other | building other | exited other code | crashed other | calling other
  | publishing other _ => exact ⟨false, List.mem_singleton.mp hjob ▸ h⟩
  | finished other _ => exact ⟨true, List.mem_singleton.mp hjob ▸ h⟩
  | skipping other | explaining other => exact h.elim
  | between | leaving => cases hjob

/-- The places that may write, one of the threads first. -/
theorem pending_perm {thread : BuildThread} {before after : List BuildThread}
    (hthreads : s.threads = before ++ thread :: after) :
    s.pending.Perm
      (thread.ahead ++ BuildThreads.pending { s with threads := before ++ after }) := by
  unfold BuildThreads.pending
  simp only [hthreads, List.flatMap_append, List.flatMap_cons]
  exact (List.Perm.append_left _ (List.perm_append_comm_assoc _ _ _)).trans
    (List.perm_append_comm_assoc _ _ _)

/-- No other place writes to a job of a thread. -/
theorem Accounted.ne_of_ahead (h : Accounted s) {thread : BuildThread}
    {before after : List BuildThread}
    (hthreads : s.threads = before ++ thread :: after) {job : Nat} (hjob : job ∈ thread.ahead) :
    ∀ k ∈ BuildThreads.pending { s with threads := before ++ after }, k ≠ job := by
  have hnodup := (pending_perm hthreads).nodup_iff.mp h.nodup
  rintro k hk rfl
  exact (List.nodup_append.mp hnodup).2.2 k hjob k hk rfl

theorem Accounted.nodup_ahead (h : Accounted s) {thread : BuildThread}
    {before after : List BuildThread} (hthreads : s.threads = before ++ thread :: after) :
    thread.ahead.Nodup :=
  (List.nodup_append.mp ((pending_perm hthreads).nodup_iff.mp h.nodup)).1

theorem left_subset_ahead {thread : BuildThread} : thread.left ⊆ thread.ahead :=
  List.subset_append_right _ _

theorem Accounted.open_of_pending (h : Accounted s) {k : Nat} (hk : k ∈ s.pending) :
    ∃ finished, Open s.jobs k finished := by
  rcases List.mem_append.mp hk with hk | hk
  · exact ⟨false, h.waiting k (List.mem_append_left _ hk)⟩
  · obtain ⟨thread, hthread, hahead⟩ := List.mem_flatMap.mp hk
    rcases List.mem_append.mp hahead with hcurrent | hleft
    · exact (h.points thread hthread).open_current k hcurrent
    · refine ⟨false, h.waiting k (List.mem_append_right _ ?_)⟩
      exact List.mem_flatMap.mpr ⟨thread, hthread, hleft⟩

/-- Fewer places that may write, and the jobs as they were. -/
theorem Accounted.shrink (h : Accounted s) (hjobs : s'.jobs = s.jobs)
    (hpending : s'.pending.Subperm s.pending) (hwaiting : s'.waiting ⊆ s.waiting)
    (hpoints : ∀ thread ∈ s'.threads, thread.point.Fits s.jobs) : Accounted s' := by
  refine ⟨?_, fun job hjob => ?_, ?_, ?_⟩
  · obtain ⟨l, hperm, hsub⟩ := hpending
    exact hperm.nodup_iff.mp (h.nodup.sublist hsub)
  · rw [hjobs]
    exact h.waiting job (hwaiting hjob)
  · rwa [hjobs]
  · rw [hjobs]
    exact h.complete

/-- A thread goes on, and may write to a job on the way that it may write to. -/
theorem Accounted.work (h : Accounted s) {thread thread' : BuildThread}
    {before after : List BuildThread} (hthreads : s.threads = before ++ thread :: after)
    {job : Nat} {f : BuildJob → BuildJob} (hjob : job ∈ thread.ahead)
    (hahead : thread'.ahead.Sublist thread.ahead) (hleft : thread'.left ⊆ thread.left)
    (hnot : job ∉ thread'.left) (hfits : thread'.point.Fits (s.jobs.modify job f))
    (hcomplete : ∀ b, s.jobs[job]? = some b → (f b).state.isEnded = true →
      (f b).finishedAt.isSome = true) :
    Accounted { s with jobs := s.jobs.modify job f, threads := before ++ thread' :: after } := by
  have hothers := h.ne_of_ahead hthreads hjob
  have hcalls : ∀ k ∈ s.calls.flatMap (fun active => active.point.created), k ≠ job :=
    fun k hk => hothers k (List.mem_append_left _ hk)
  have hthread : ∀ other ∈ before ++ after, ∀ k ∈ other.ahead, k ≠ job := fun other hother k hk =>
    hothers k (List.mem_append_right _ (List.mem_flatMap.mpr ⟨other, hother, hk⟩))
  have hmem : ∀ other, other ∈ before ++ thread' :: after →
      other = thread' ∨ other ∈ before ++ after := by
    intro other hother
    simp only [List.mem_append, List.mem_cons] at hother ⊢
    tauto
  have hold : ∀ other ∈ before ++ after, other ∈ s.threads := fun other hother =>
    mem_of_mem_rest hthreads hother
  refine ⟨?_, fun k hk => ?_, fun other hother => ?_, fun k b hb hended => ?_⟩
  · refine h.nodup.sublist (List.Sublist.append_left ?_ _)
    simp only [hthreads, List.flatMap_append, List.flatMap_cons]
    exact List.Sublist.append_left (hahead.append_right _) _
  · rcases List.mem_append.mp hk with hk | hk
    · exact (h.waiting k (List.mem_append_left _ hk)).modify (hcalls k hk)
    · obtain ⟨other, hother, hin⟩ := List.mem_flatMap.mp hk
      have hwaits : ∀ t ∈ s.threads, k ∈ t.left → Open s.jobs k false := fun t ht hin =>
        h.waiting k (List.mem_append_right _ (List.mem_flatMap.mpr ⟨t, ht, hin⟩))
      rcases hmem other hother with rfl | hother
      · refine (hwaits thread (mem_taken hthreads) (hleft hin)).modify ?_
        rintro rfl
        exact hnot hin
      · exact (hwaits other (hold other hother) hin).modify
          (hthread other hother k (left_subset_ahead hin))
  · rcases hmem other hother with rfl | hother
    · exact hfits
    · refine (h.points other (hold other hother)).congr fun k hk finished hopen => ?_
      exact hopen.modify (hthread other hother k (List.mem_append_left _ hk))
  · by_cases hk : job = k
    · subst hk
      rw [List.getElem?_modify] at hb
      obtain ⟨b', hb', rfl⟩ := Option.map_eq_some_iff.mp hb
      rw [if_pos rfl] at hended ⊢
      exact hcomplete b' hb' hended
    · rw [List.getElem?_modify] at hb
      obtain ⟨b', hb', rfl⟩ := Option.map_eq_some_iff.mp hb
      rw [if_neg hk] at hended ⊢
      exact h.complete k b' hb' hended

/-- The state that a write sets, if it sets one, is not one of an ended job. -/
def JobWrite.LeavesOpen (write : JobWrite) : Prop :=
  ∀ after, write = .state after → after.isEnded = false

/-- Whether the write sets the time of ending. -/
def JobWrite.finishes : JobWrite → Bool
  | finishedAt _ => true
  | _ => false

theorem JobWrite.LeavesOpen.apply {write : JobWrite} (h : write.LeavesOpen) (b : BuildJob)
    (hb : b.state.isEnded = false) : (write.apply b).state.isEnded = false ∧
      (write.apply b).finishedAt.isSome = (b.finishedAt.isSome || write.finishes) := by
  cases write with
  | state after => exact ⟨h after rfl, (Bool.or_false _).symm⟩
  | finishedAt now => exact ⟨hb, (Bool.or_true _).symm⟩
  | startedAt _ | exitCode _ | autoRebootArmed _ => exact ⟨hb, (Bool.or_false _).symm⟩
  | line text =>
    simp only [JobWrite.apply, BuildJob.appendLine, JobWrite.finishes, Bool.or_false, and_true]
    exact hb

/-- A write that leaves its job open. -/
theorem Accounted.write_open (h : Accounted s) {thread thread' : BuildThread}
    {before after : List BuildThread} (hthreads : s.threads = before ++ thread :: after)
    {job : Nat} {finished : Bool} {write : JobWrite} (hwrite : write.LeavesOpen)
    (hopen : Open s.jobs job finished) (hahead : thread'.ahead = thread.ahead)
    (hcurrent : job ∈ thread'.point.current) (hleft : thread'.left ⊆ thread.left)
    (hfits : ∀ jobs, Open jobs job (finished || write.finishes) → thread'.point.Fits jobs) :
    Accounted
      { s with
        jobs := s.jobs.modify job write.apply
        threads := before ++ thread' :: after } := by
  have hnodup := h.nodup_ahead hthreads
  rw [← hahead] at hnodup
  refine h.work hthreads (hahead ▸ List.mem_append_left _ hcurrent) (hahead ▸ List.Sublist.refl _)
    hleft (fun hin => (List.nodup_append.mp hnodup).2.2 job hcurrent job hin rfl)
    (hfits _ (hopen.modify_self fun b hb hfin => ?_)) fun b hb hended => ?_
  · rw [← hfin]
    exact hwrite.apply b hb
  · obtain ⟨b', hb', hstate, -⟩ := hopen
    obtain rfl := Option.some.inj (hb.symm.trans hb')
    rw [(hwrite.apply b hstate).1] at hended
    cases hended

theorem JobWrite.leavesOpen_of_not_state {write : JobWrite} (h : ∀ after, write ≠ .state after) :
    write.LeavesOpen := fun after heq => absurd heq (h after)

/-- The writes of a thread, but for the one that skips a job. -/
theorem Accounted.write (h : Accounted s) {thread thread' : BuildThread}
    {before after : List BuildThread} (hthreads : s.threads = before ++ thread :: after)
    {root : Option String} {job : Nat} {write : JobWrite}
    (hwrites : Writes onSuccess root thread job write thread') (hskip : write ≠ .state .skipped) :
    Accounted
      { s with
        jobs := s.jobs.modify job write.apply
        threads := before ++ thread' :: after } := by
  have hfits := h.points thread (mem_taken hthreads)
  have hplain : (∀ after, write ≠ .state after) → write.LeavesOpen :=
    JobWrite.leavesOpen_of_not_state
  cases hwrites with
  | @begin jobs rest rootOk job hroot =>
    have hopen := h.waiting job (List.mem_append_right _ (List.mem_flatMap.mpr
      ⟨_, mem_taken hthreads, List.mem_cons_self ..⟩))
    exact h.write_open hthreads (by rintro _ ⟨⟩; rfl) hopen rfl (List.mem_singleton_self _)
      (List.subset_cons_self _ _) fun _ => id
  | start _ | output _ | exit _ | failed | arm _ | report _ | callFailed _ | finish _ =>
    exact h.write_open hthreads (hplain (by simp)) hfits rfl (List.mem_singleton_self _)
      (List.Subset.refl _) fun _ => id
  | @crash jobs left rootOk job point exc htry =>
    have hbody : point.current = [job] ∧ Open s.jobs job false := by
      cases point with
      | building other =>
        obtain rfl : other = job := by simpa [ThreadPoint.inTry] using htry
        exact ⟨rfl, hfits⟩
      | exited other code =>
        obtain rfl : other = job := by simpa [ThreadPoint.inTry] using htry
        exact ⟨rfl, hfits⟩
      | _ => cases htry
    refine h.write_open hthreads (hplain (by simp)) hbody.2 ?_ (List.mem_singleton_self _)
      (List.Subset.refl _) fun _ => id
    rw [BuildThread.ahead, BuildThread.ahead, hbody.1]
    rfl
  | @publish jobs left rootOk job succeeded =>
    -- The last write: the job leaves the hands of the thread with its time of ending set.
    have hnodup := h.nodup_ahead hthreads
    refine h.work hthreads (List.mem_cons_self ..) (List.sublist_cons_self _ _)
      (List.Subset.refl _) (List.nodup_cons.mp hnodup).1 trivial fun b hb _ => ?_
    obtain ⟨b', hb', -, hfinished⟩ := hfits
    obtain rfl := Option.some.inj (hb.symm.trans hb')
    exact hfinished
  | skip => exact absurd rfl hskip
  | skipped now => exact hfits.elim
  | explain hroot => exact hfits.elim

/-- So do the steps of a thread that write nothing. -/
theorem Accounted.proceed (h : Accounted s) {thread thread' : BuildThread}
    {before after : List BuildThread} (hthreads : s.threads = before ++ thread :: after)
    (hproceeds : Proceeds onSuccess thread thread') :
    Accounted { s with threads := before ++ thread' :: after } := by
  have hfits := h.points thread (mem_taken hthreads)
  obtain ⟨hcurrent, hleft, hfits'⟩ : thread'.point.current.Sublist thread.point.current ∧
      thread'.left = thread.left ∧ thread'.point.Fits s.jobs := by
    cases hproceeds with
    | judge =>
      unfold pointAfter
      split
      · exact ⟨List.Sublist.refl _, rfl, hfits⟩
      · exact ⟨List.Sublist.refl _, rfl, hfits⟩
    | returned => exact ⟨List.Sublist.refl _, rfl, hfits⟩
    | done => exact ⟨List.Sublist.refl _, rfl, trivial⟩
    | unwind => exact ⟨List.nil_sublist _, rfl, trivial⟩
  have hahead : thread'.ahead.Sublist thread.ahead := by
    rw [BuildThread.ahead, BuildThread.ahead, hleft]
    exact hcurrent.append_right _
  refine h.shrink rfl (List.Sublist.subperm ?_) ?_ fun other hother => ?_
  · refine List.Sublist.append_left ?_ _
    simp only [hthreads, List.flatMap_append, List.flatMap_cons]
    exact List.Sublist.append_left (hahead.append_right _) _
  · simp only [BuildThreads.waiting, hthreads, List.flatMap_append, List.flatMap_cons, hleft]
    exact List.Subset.refl _
  · rcases List.mem_append.mp hother with hin | hin
    · exact h.points other (hthreads ▸ List.mem_append_left _ hin)
    · rcases List.mem_cons.mp hin with rfl | hin
      · exact hfits'
      · exact h.points other (hthreads ▸ List.mem_append_right _ (List.mem_cons_of_mem _ hin))

theorem Reads.created {entries : Option (List ParentEntry)} {root : String}
    {point point' : CallPoint} (h : Reads entries root point point') :
    point.created = [] ∧ point'.created = [] := by
  cases h <;> exact ⟨rfl, rfl⟩

/-- A call goes on or ends, and has no more jobs than before. -/
theorem Accounted.recall (h : Accounted s) {calls : List ActiveCall}
    (hcreated : (calls.flatMap fun active => active.point.created).Sublist
      (s.calls.flatMap fun active => active.point.created)) :
    Accounted { s with calls } := by
  refine h.shrink rfl (hcreated.append_right _).subperm ?_ h.points
  exact (hcreated.append_right _).subset

/-- The created jobs of the calls, those of one call first. -/
theorem created_split {active : ActiveCall} {before after : List ActiveCall}
    (hcalls : s.calls = before ++ active :: after) :
    s.calls.flatMap (fun active => active.point.created) =
      before.flatMap (fun active => active.point.created) ++
        (active.point.created ++ after.flatMap fun active => active.point.created) := by
  rw [hcalls, List.flatMap_append, List.flatMap_cons]

/-- A job is created: it waits. -/
theorem Accounted.create (h : Accounted s) {call : BuildCall} {names : List String}
    {created : List Nat} {before after : List ActiveCall}
    (hcalls : s.calls = before ++ ⟨call, .creating names created⟩ :: after) {b : BuildJob}
    (hqueued : b.state = .queued) (hnone : b.finishedAt = none) :
    Accounted
      { s with
        jobs := s.jobs ++ [b]
        calls := before ++ ⟨call, .creating names (created ++ [s.jobs.length])⟩ :: after } := by
  have hnew : Open (s.jobs ++ [b]) s.jobs.length false := by
    refine ⟨b, by simp, ?_, ?_⟩
    · rw [hqueued]
      rfl
    · rw [hnone]
      rfl
  have hsplit := created_split hcalls
  have hcreated : ((before ++ ⟨call, .creating names (created ++ [s.jobs.length])⟩ ::
      after).flatMap fun active => active.point.created).Perm
      (s.jobs.length :: s.calls.flatMap fun active => active.point.created) := by
    rw [hsplit, List.flatMap_append, List.flatMap_cons]
    simp only [CallPoint.created]
    refine (List.Perm.append_left _ ?_).trans List.perm_middle
    rw [List.append_assoc]
    exact List.perm_middle
  have hfresh : s.jobs.length ∉ s.pending := by
    intro hin
    obtain ⟨_, hopen⟩ := h.open_of_pending hin
    exact Nat.lt_irrefl _ hopen.lt
  refine ⟨?_, fun k hk => ?_, fun thread hthread => ?_, fun k b' hb' hended => ?_⟩
  · exact (hcreated.append_right _).nodup_iff.mpr (List.nodup_cons.mpr ⟨hfresh, h.nodup⟩)
  · rcases List.mem_cons.mp ((hcreated.append_right _).subset hk) with rfl | hold
    · exact hnew
    · exact (h.waiting k hold).append b
  · exact (h.points thread hthread).congr fun _ _ _ hopen => hopen.append b
  · by_cases hlt : k < s.jobs.length
    · rw [List.getElem?_append_left hlt] at hb'
      exact h.complete k b' hb' hended
    · obtain ⟨b'', hb'', hstate, -⟩ := hnew
      have hk : k < (s.jobs ++ [b]).length := (List.getElem?_eq_some_iff.mp hb').1
      rw [List.length_append, List.length_singleton] at hk
      obtain rfl : k = s.jobs.length := by omega
      obtain rfl := Option.some.inj (hb'.symm.trans hb'')
      rw [hstate] at hended
      cases hended

/-- The jobs of a call go to its thread. -/
theorem Accounted.spawn (h : Accounted s) {call : BuildCall} {names : List String}
    {created : List Nat} {before after : List ActiveCall}
    (hcalls : s.calls = before ++ ⟨call, .creating names created⟩ :: after) :
    Accounted
      { s with
        calls := before ++ ⟨call, .returning⟩ :: after
        threads := ⟨created, created, none, .between⟩ :: s.threads } := by
  have hsplit := created_split hcalls
  have hmoved : ∀ rest : List Nat,
      ((before ++ ⟨call, .returning⟩ :: after).flatMap (fun active => active.point.created) ++
        (created ++ rest)).Perm
      (s.calls.flatMap (fun active => active.point.created) ++ rest) := by
    intro rest
    rw [hsplit, List.flatMap_append, List.flatMap_cons]
    simp only [CallPoint.created, List.nil_append, List.append_assoc]
    exact List.Perm.append_left _ (List.perm_append_comm_assoc _ _ _)
  refine h.shrink rfl ?_ ?_ fun thread hthread => ?_
  · exact (hmoved (s.threads.flatMap BuildThread.ahead)).subperm
  · exact (hmoved (s.threads.flatMap BuildThread.left)).subset
  · rcases List.mem_cons.mp hthread with rfl | hthread
    · trivial
    · exact h.points thread hthread

/-- Every step that skips no job keeps the account. -/
theorem Accounted.step (h : Accounted s) (hstep : ThreadStep onSuccess s event s')
    (hskip : NotSkipped event) : Accounted s' := by
  cases hstep with
  | edit _ => exact ⟨h.nodup, h.waiting, h.points, h.complete⟩
  | refuse _ => exact h
  | @acquire call _ =>
    have hnone : call.firstPoint.created = [] := by
      unfold BuildCall.firstPoint
      split <;> rfl
    have hsame : (⟨call, call.firstPoint⟩ :: s.calls).flatMap
        (fun active => active.point.created) =
        s.calls.flatMap fun active => active.point.created := by
      rw [List.flatMap_cons, hnone, List.nil_append]
    refine h.shrink rfl ?_ ?_ h.points
    · simp only [BuildThreads.pending, hsame]
      exact List.Subperm.refl _
    · simp only [BuildThreads.waiting, hsame]
      exact List.Subset.refl _
  | read hcalls hreads =>
    refine h.recall ?_
    rw [created_split hcalls, List.flatMap_append, List.flatMap_cons, hreads.created.1,
      hreads.created.2]
  | create _ hcalls _ => exact h.create hcalls rfl rfl
  | spawn hcalls _ _ => exact h.spawn hcalls
  | answer hcalls =>
    refine h.recall ?_
    rw [created_split hcalls, List.flatMap_append]
    exact List.Sublist.refl _
  | raise exc hcalls =>
    refine h.recall ?_
    rw [created_split hcalls, List.flatMap_append]
    exact List.Sublist.append_left (List.sublist_append_right _ _) _
  | write hthreads hwrites =>
    exact h.write hthreads hwrites fun heq => hskip _ (congrArg _ heq)
  | proceed hthreads hproceeds => exact h.proceed hthreads hproceeds
  | release hthreads _ =>
    have hahead := pending_perm hthreads
    refine h.shrink rfl ?_ ?_ fun other hother => h.points other (mem_of_mem_rest hthreads hother)
    · exact (List.sublist_append_right _ _).subperm.trans hahead.symm.subperm
    · simp only [BuildThreads.waiting, hthreads, List.flatMap_append, List.flatMap_cons]
      exact (List.Sublist.append_left (List.Sublist.append_left
        (List.sublist_append_right _ _) _) _).subset

theorem Writes.mem_ahead {root : Option String} {thread thread' : BuildThread} {job : Nat}
    {write : JobWrite} (h : Writes onSuccess root thread job write thread') :
    job ∈ thread.ahead := by
  cases h with
  | @crash jobs left rootOk job point exc htry =>
    cases point with
    | building other =>
      obtain rfl : other = job := by simpa [ThreadPoint.inTry] using htry
      exact List.mem_cons_self ..
    | exited other code =>
      obtain rfl : other = job := by simpa [ThreadPoint.inTry] using htry
      exact List.mem_cons_self ..
    | _ => cases htry
  | _ => exact List.mem_cons_self ..

/-- No step writes to a job that has ended. -/
theorem Accounted.ended_kept (h : Accounted s) (hstep : ThreadStep onSuccess s event s') {job : Nat}
    {b : BuildJob} (hb : s.jobs[job]? = some b) (hended : b.state.isEnded = true) :
    s'.jobs[job]? = some b := by
  cases hstep with
  | create _ _ _ =>
    rwa [List.getElem?_append_left (List.getElem?_eq_some_iff.mp hb).1]
  | @write thread thread' other write before after hthreads hwrites =>
    have hne : other ≠ job := by
      rintro rfl
      have hpending : other ∈ s.pending := List.mem_append_right _
        (List.mem_flatMap.mpr ⟨thread, mem_taken hthreads, hwrites.mem_ahead⟩)
      obtain ⟨_, b', hb', hstate, -⟩ := h.open_of_pending hpending
      obtain rfl := Option.some.inj (hb.symm.trans hb')
      rw [hended] at hstate
      cases hstate
    rw [List.getElem?_modify, hb]
    simp [hne]
  | edit | acquire | refuse | read | spawn | answer | raise | proceed | release => exact hb

/-- A write that skips a job publishes its state before its time of ending. -/
theorem Accounted.skip_incomplete (h : Accounted s) (hstep : ThreadStep onSuccess s event s')
    (hskip : ¬ NotSkipped event) : ¬ EndedComplete s'.jobs := by
  obtain ⟨job, rfl⟩ : ∃ job, event = .write job (.state .skipped) := by
    unfold NotSkipped at hskip
    push Not at hskip
    exact hskip
  intro hcomplete
  cases hstep with
  | @write thread thread' _ _ before after hthreads hwrites =>
    obtain ⟨rest, hleft⟩ : ∃ rest, thread.left = job :: rest := by
      generalize hwrite : JobWrite.state .skipped = write at hwrites
      cases hwrites with
      | @publish jobs left rootOk job succeeded =>
        cases succeeded <;> cases hwrite
      | @skip jobs rest job => exact ⟨rest, rfl⟩
      | _ => cases hwrite
    obtain ⟨b, hb, -, hfinished⟩ := h.waiting job (List.mem_append_right _ (List.mem_flatMap.mpr
      ⟨thread, mem_taken hthreads, hleft ▸ List.mem_cons_self ..⟩))
    have hskipped : (s.jobs.modify job (JobWrite.state .skipped).apply)[job]? =
        some { b with state := .skipped } := by
      rw [List.getElem?_modify, hb]
      simp [JobWrite.apply]
    have hset := hcomplete job _ hskipped rfl
    rw [hfinished] at hset
    cases hset

theorem accounted_idleThreads (entries : Option (List ParentEntry)) :
    Accounted (idleThreads entries) := by
  refine ⟨List.nodup_nil, ?_, ?_, ?_⟩
  · intro job hjob
    cases hjob
  · intro thread hthread
    cases hthread
  · intro job b hb
    cases hb

/-- In every state that the run passes through, a job that reads as ended has its time of ending,
and is as it is at the end of the run. -/
def PublishedLast (onSuccess : Bool) (start : BuildThreads) (events : List ThreadEvent)
    (s : BuildThreads) : Prop :=
  ∀ es₁ es₂ s₁, events = es₁ ++ es₂ → Run (ThreadStep onSuccess) start es₁ s₁ →
    Run (ThreadStep onSuccess) s₁ es₂ s → ∀ (job : Nat) (b : BuildJob), s₁.jobs[job]? = some b →
      b.state.isEnded = true → b.finishedAt.isSome = true ∧ s.jobs[job]? = some b

end Publishing

/-- **When the state of a job is published last.** In a run of the build manager every job that
reads as ended is complete and stays as it is, if and only if the run skips no job: success,
failure and exceptions are published in the right order, and the branch that skips is not. -/
theorem published_last_iff {onSuccess : Bool} {entries : Option (List ParentEntry)}
    {events : List ThreadEvent} {s : BuildThreads}
    (hrun : Run (ThreadStep onSuccess) (idleThreads entries) events s) :
    PublishedLast onSuccess (idleThreads entries) events s ↔
      ∀ event ∈ events, NotSkipped event := by
  have hkeep : ∀ s event s', Accounted s → ThreadStep onSuccess s event s' → NotSkipped event →
      Accounted s' := fun _ _ _ h hstep hskip => h.step hstep hskip
  have hstart := accounted_idleThreads entries
  constructor
  · intro hlast
    refine (@throughout_iff _ _ (ThreadStep onSuccess) Accounted (fun s => EndedComplete s.jobs)
      NotSkipped hkeep (fun _ h => h.complete) (fun _ _ _ h hstep => h.skip_incomplete hstep)
      _ _ _ hrun hstart).mp ?_
    exact fun es₁ es₂ s₁ hsplit hfirst hthen job b hb hended =>
      (hlast es₁ es₂ s₁ hsplit hfirst hthen job b hb hended).1
  · rintro hgood es₁ es₂ s₁ rfl hfirst hthen job b hb hended
    have haccounted := hfirst.invariant_of_good hkeep hstart fun event hevent =>
      hgood event (List.mem_append_left _ hevent)
    have hkeep' : ∀ s event s', Accounted s ∧ s.jobs[job]? = some b →
        ThreadStep onSuccess s event s' → NotSkipped event →
        Accounted s' ∧ s'.jobs[job]? = some b := fun _ _ _ h hstep hskip =>
      ⟨h.1.step hstep hskip, h.1.ended_kept hstep h.2 hended⟩
    have hend := hthen.invariant_of_good hkeep' ⟨haccounted, hb⟩ fun event hevent =>
      hgood event (List.mem_append_right _ hevent)
    exact ⟨haccounted.complete job b hb hended, hend.2⟩

section Examples

def buildKiosk : BuildCall :=
  { profile := "kiosk", architecture := "amd64", autoReboot := false, downstream := false }

/-- A build from which nothing is caught. -/
theorem buildLock_kept_kiosk : ∃ events s,
    Run (ThreadStep true) (idleThreads none) events s ∧ s.jobs ≠ [] ∧
      Throughout (ThreadStep true) (LockKept true) (idleThreads none) events s := by
  have hlocked := Run.single (@ThreadStep.acquire true (idleThreads none) buildKiosk rfl)
  have hcreated := hlocked.snoc (@ThreadStep.create _ _ buildKiosk ["kiosk"] "kiosk" [] [] [] "0a"
    rfl rfl)
  have hspawned := hcreated.snoc (@ThreadStep.spawn _ _ buildKiosk ["kiosk"] [0] [] [] rfl rfl
    (by simp))
  have hanswered := hspawned.snoc (@ThreadStep.answer _ _ buildKiosk [] [] rfl)
  have hbegun := hanswered.snoc (@ThreadStep.write _ _ _ _ _ _ [] [] rfl (.begin (by simp)))
  have hunwound := hbegun.snoc (@ThreadStep.proceed _ _ _ _ [] [] rfl .unwind)
  have hreleased := hunwound.snoc (@ThreadStep.release _ _ _ [] [] rfl rfl)
  refine ⟨_, _, hreleased, by simp [idleThreads], (buildLock_kept_iff hreleased).mpr ?_⟩
  simp [KeepsLock]

/-- A `parent` file that is not UTF-8. -/
def undecodable : List ParentEntry := [⟨"gpu", .holds ⟨#[0xff]⟩⟩]

/-- The exception is the only way on, and it leaves the lock to nobody. -/
theorem not_buildLock_kept : ∃ exc s,
    readParentsNow undecodable "gpu" = .error exc ∧
    Run (ThreadStep true) (idleThreads (some undecodable))
      [.acquire rebuildGpu, .read, .raise (.scanning ["gpu"] []) exc] s ∧
    ¬ Throughout (ThreadStep true) (LockKept true) (idleThreads (some undecodable))
      [.acquire rebuildGpu, .read, .raise (.scanning ["gpu"] []) exc] s := by
  have hfails : readParentsNow undecodable "gpu" =
      .error (.valueError "'utf-8' codec can't decode the file") := by
    decide +kernel
  have hlocked := Run.single
    (@ThreadStep.acquire true (idleThreads (some undecodable)) rebuildGpu rfl)
  have hlisted := hlocked.snoc (@ThreadStep.read _ _ rebuildGpu _ _ [] [] rfl (.list rfl))
  have hraised := hlisted.snoc (@ThreadStep.raise _ _ _ [] []
    (.valueError "'utf-8' codec can't decode the file") rfl)
  refine ⟨_, _, hfails, hraised, fun hkept => ?_⟩
  have hlast := hkept _ [] _ (List.append_nil _).symm hraised .nil
  exact (hlast.held_iff (by simp)).mp rfl rfl

/-- A build that succeeds. -/
theorem published_last_kiosk : ∃ events s,
    Run (ThreadStep false) (idleThreads none) events s ∧
      (∃ b, s.jobs[0]? = some b ∧ b.state = .succeeded) ∧
      PublishedLast false (idleThreads none) events s := by
  have hlocked := Run.single (@ThreadStep.acquire false (idleThreads none) buildKiosk rfl)
  have hcreated := hlocked.snoc (@ThreadStep.create _ _ buildKiosk ["kiosk"] "kiosk" [] [] [] "0a"
    rfl rfl)
  have hspawned := hcreated.snoc (@ThreadStep.spawn _ _ buildKiosk ["kiosk"] [0] [] [] rfl rfl
    (by simp))
  have hbegun := hspawned.snoc (@ThreadStep.write _ _ _ _ _ _ [] [] rfl (.begin (by simp)))
  have hstarted := hbegun.snoc (@ThreadStep.write _ _ _ _ _ _ [] [] rfl (.start 7))
  have hexited := hstarted.snoc (@ThreadStep.write _ _ _ _ _ _ [] [] rfl (.exit 0))
  have hjudged := hexited.snoc (@ThreadStep.proceed _ _ _ _ [] [] rfl .judge)
  have hfinished := hjudged.snoc (@ThreadStep.write _ _ _ _ _ _ [] [] rfl (.finish 9))
  have hpublished := hfinished.snoc (@ThreadStep.write _ _ _ _ _ _ [] [] rfl .publish)
  refine ⟨_, _, hpublished, ⟨_, rfl, rfl⟩, (published_last_iff hpublished).mpr ?_⟩
  simp [NotSkipped, outcomeState]

/-- The fragment's build crashes, and the profile reads as skipped with no time of ending. -/
theorem not_published_last : ∃ events s,
    Run (ThreadStep true) (idleThreads (some (entriesOf kioskDirs))) events s ∧
      ¬ PublishedLast true (idleThreads (some (entriesOf kioskDirs))) events s := by
  have hcascade : computeBuildCascade (some kioskDirs) "gpu" = ["gpu", "kiosk"] := by
    decide +kernel
  have hscan := @scan_computeBuildCascade kioskDirs "gpu"
  rw [hcascade] at hscan
  have hlocked := Run.single
    (@ThreadStep.acquire true (idleThreads (some (entriesOf kioskDirs))) rebuildGpu rfl)
  obtain ⟨count, hreads⟩ := @run_of_reads true
    { idleThreads (some (entriesOf kioskDirs)) with
      locked := true
      calls := [⟨rebuildGpu, .listing⟩] } rebuildGpu _ _ [] [] rfl hscan
  have hroot := (hlocked.append hreads).snoc
    (@ThreadStep.create _ _ rebuildGpu ["gpu", "kiosk"] "gpu" [] [] [] "0a" rfl rfl)
  have hboth := hroot.snoc
    (@ThreadStep.create _ _ rebuildGpu ["gpu", "kiosk"] "kiosk" [0] [] [] "0b" rfl rfl)
  have hspawned := hboth.snoc
    (@ThreadStep.spawn _ _ rebuildGpu ["gpu", "kiosk"] [0, 1] [] [] rfl rfl (by simp))
  have hbegun := hspawned.snoc (@ThreadStep.write _ _ _ _ _ _ [] [] rfl (.begin (by simp)))
  have hstarted := hbegun.snoc (@ThreadStep.write _ _ _ _ _ _ [] [] rfl (.start 7))
  have hcrashed := hstarted.snoc
    (@ThreadStep.write _ _ _ _ _ _ [] [] rfl (.crash "OSError()" (beq_self_eq_true 0)))
  have hfailed := hcrashed.snoc (@ThreadStep.write _ _ _ _ _ _ [] [] rfl .failed)
  have hfinished := hfailed.snoc (@ThreadStep.write _ _ _ _ _ _ [] [] rfl (.finish 8))
  have hpublished := hfinished.snoc (@ThreadStep.write _ _ _ _ _ _ [] [] rfl .publish)
  have hskipped := hpublished.snoc (@ThreadStep.write _ _ _ _ _ _ [] [] rfl .skip)
  refine ⟨_, _, hskipped, fun hlast => ?_⟩
  have hcomplete := hlast _ [] _ (List.append_nil _).symm hskipped .nil 1 _ rfl rfl
  cases hcomplete.1

end Examples

end Fleetboot
