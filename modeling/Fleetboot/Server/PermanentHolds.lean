import Fleetboot.Registry.RawRuns
import Fleetboot.Server.Confinement
import Fleetboot.Server.MachineTools

/-!
# Permanent holds under requests

Requests under either token, of any shape, and all other calls of the registry: who ends the
permanent hold of a machine. The texts of a request have UTF-8; of one that has a surrogate, what
counts is the call of the registry that it makes.

* `db_dispatch`: the calls of the registry that a request makes.
* `held_run_iff`, `held_rawRun_iff`: what a call makes of a permanent hold.
* `permanent_holds_end`: such a hold ends by one of three tools of the admin, or by a call that is
  not such a request.
-/

set_option autoImplicit false

namespace Fleetboot

open Python Relational Transition

variable {Build : Type}

/-! ## The tool that a request calls, whoever sends it -/

/-- The name and the arguments in the parameters of `tools/call`. -/
def callOfParams (params : Fields) : Option (String × Fields) :=
  match Json.getD params "name" .null with
  | .str name => (fieldsOrEmpty (Json.getD params "arguments" .null)).map fun args => (name, args)
  | _ => none

def callOfMethod (method : String) (params : Json) : Option (String × Fields) :=
  if method = "tools/call" then (fieldsOrEmpty params).bind callOfParams else none

/-- The tool that a request names, with its arguments. -/
def callOfRequest : Json → Option (String × Fields)
  | .obj fields =>
    match Json.getD fields "method" .null with
    | .str method => callOfMethod method (Json.getD fields "params" .null)
    | _ => none
  | _ => none

section Dispatch

variable [Unicode] (config : McpConfig) (admin : AdminTools Build) (env : RequestEnv) (role : Role)
  (deployment : Deployment Build)

/-- What the call of a tool leaves. -/
def leftByCall : Option (String × Fields) → Deployment Build
  | none => deployment
  | some (name, args) =>
    match PoolTool.ofName name with
    | some tool => (tool.run config env role args deployment).deployment
    | none =>
      if name ∈ adminToolNames ∧ role = .admin then (admin name env args deployment).deployment
      else deployment

theorem left_callTool (id : Json) (params : Fields) :
    (callTool config admin env role id params deployment).deployment =
      leftByCall config admin env role deployment (callOfParams params) := by
  unfold callTool callOfParams
  dsimp only
  cases Json.getD params "name" .null with
  | str name =>
    unfold fieldsOrEmpty
    dsimp only
    cases hpool : PoolTool.ofName name with
    | some tool =>
      dsimp only
      split
      · cases Json.getD params "arguments" .null <;>
          simp only [leftByCall, hpool, Option.map_some, Option.map_none] <;> rfl
      · simp only [leftByCall, hpool, Option.map_some]
        rfl
    | none =>
      dsimp only
      by_cases hgate : name ∈ adminToolNames ∧ role = .admin
      · rw [if_neg (not_not_intro hgate.1), if_neg (not_not_intro hgate.2)]
        split
        · cases Json.getD params "arguments" .null <;>
            simp only [leftByCall, hpool, Option.map_some, Option.map_none, if_pos hgate] <;> rfl
        · simp only [leftByCall, hpool, Option.map_some, if_pos hgate]
          rfl
      · have hleft : ∀ args : Option Fields, leftByCall config admin env role deployment
            (args.map fun args => (name, args)) = deployment := by
          intro args
          cases args with
          | none => rfl
          | some args => simp only [leftByCall, hpool, Option.map_some, if_neg hgate]
        rw [hleft]
        split
        · rfl
        · rename_i hname
          rw [if_pos fun hrole => hgate ⟨not_not.mp hname, hrole⟩]
          rfl
  | _ => rfl

theorem left_dispatchMethod (id : Json) (method : String) (params : Json) :
    (dispatchMethod config admin env role id method params deployment).deployment =
      leftByCall config admin env role deployment (callOfMethod method params) := by
  by_cases hmethod : method = "tools/call"
  · subst hmethod
    have hcall : dispatchMethod config admin env role id "tools/call" params deployment =
        if params.truthy then
          match params with
          | .obj fields => callTool config admin env role id fields deployment
          | _ => .reply deployment (.error id internalError
              ("'" ++ params.typeName ++ "' object has no attribute 'get'"))
        else callTool config admin env role id [] deployment := rfl
    rw [hcall, callOfMethod, if_pos rfl]
    unfold fieldsOrEmpty
    split
    · cases params with
      | obj fields => exact left_callTool config admin env role deployment id fields
      | _ => rfl
    · exact left_callTool config admin env role deployment id []
  · rw [callOfMethod, if_neg hmethod]
    unfold dispatchMethod
    dsimp only
    split
    case h_9 => exact absurd rfl hmethod
    case h_8 =>
      split
      · cases params <;> rfl
      · rfl
    all_goals rfl

theorem left_dispatch (request : Json) :
    (dispatch config admin env role request deployment).deployment =
      leftByCall config admin env role deployment (callOfRequest request) := by
  cases request with
  | obj fields =>
    unfold dispatch callOfRequest
    dsimp only
    cases Json.getD fields "method" .null with
    | str method =>
      dsimp only
      rw [← left_dispatchMethod config admin env role deployment (Json.getD fields "id" .null)]
      split <;> rfl
    | _ =>
      dsimp only
      split <;> rfl
  | _ => rfl

end Dispatch

/-! ## The calls of the registry that it makes -/

theorem MachineTool.name_of_ofName {name : String} {tool : MachineTool}
    (h : MachineTool.ofName name = some tool) : tool.name = name := by
  have := List.find?_some h
  exact eq_of_beq this

theorem MachineTool.name_mem (tool : MachineTool) : tool.name ∈ adminToolNames := by
  cases tool <;> decide +kernel

theorem PoolTool.ofName_machineTool (tool : MachineTool) : PoolTool.ofName tool.name = none := by
  cases tool <;> decide +kernel

theorem MachineTool.ofName_name (tool : MachineTool) : ofName tool.name = some tool := by
  cases tool <;> decide +kernel

section Requests

variable [Unicode] [IpAddress] (config : McpConfig) (textColumn : Json → Except Exception String)
  (files : FileTools Build)

/-- The calls of the registry that a request makes. -/
def requestOperations (env : RequestEnv) (role : Role) (deployment : Deployment Build)
    (request : Json) : List Operation :=
  match callOfRequest request with
  | none => []
  | some (name, args) =>
    match PoolTool.ofName name with
    | some tool => (tool.operation args deployment).toList
    | none =>
      match MachineTool.ofName name with
      | some tool =>
        if role = .admin then tool.operations textColumn env args deployment else []
      | none => []

/-- **A request makes its calls**, one after the other. -/
theorem db_dispatch (env : RequestEnv) (role : Role) (deployment : Deployment Build)
    (request : Json) :
    (dispatch config (adminTools textColumn files) env role request deployment).deployment.db =
      dbAfterAll env.now deployment.db
        (requestOperations textColumn env role deployment request) := by
  rw [left_dispatch]
  unfold leftByCall requestOperations
  cases callOfRequest request with
  | none => rfl
  | some called =>
    obtain ⟨name, args⟩ := called
    dsimp only
    cases PoolTool.ofName name with
    | some tool =>
      exact (tool.performs config env role args deployment).db.trans (dbAfterAll_toList ..).symm
    | none =>
      dsimp only
      unfold adminTools
      cases htool : MachineTool.ofName name with
      | some tool =>
        have hname : name ∈ adminToolNames := MachineTool.name_of_ofName htool ▸ tool.name_mem
        dsimp only
        by_cases hrole : role = .admin
        · rw [if_pos ⟨hname, hrole⟩, if_pos hrole]
          exact tool.db_run textColumn env args deployment
        · rw [if_neg fun h => hrole h.2, if_neg hrole]
          rfl
      | none =>
        dsimp only
        split <;> rfl

end Requests

/-! ## Permanent holds -/

/-- The MAC is held permanently. -/
def HeldPermanently (db : Database) (mac : String) : Prop :=
  ∃ r, db.unreleased mac = some r ∧ r.leaseKind = .permanent

section Holds

variable [Unicode] [IpAddress] {now : Timestamp} {db : Database} {mac : String}

theorem not_held_of_givesUp (hsound : Sound db) {op : Operation} (h : op.GivesUp mac) :
    ¬ HeldPermanently (op.run now db).db mac := by
  obtain ⟨mac', rfl | rfl, hmac⟩ := h
  · rintro ⟨r, hr, hkind⟩
    simp only [Operation.run, releaseToPool_eq, Outcome.db_map,
      Database.unreleased_releaseReservations, hmac] at hr
    obtain ⟨hold, hkept⟩ := Option.filter_eq_some_iff.mp hr
    have hperm : isPermanentHoldOf now mac r = true := by
      have hmac' := Database.mac_of_unreleased hold
      have hact := hsound.isActive_of_permanent hold hkind now
      simp [isPermanentHoldOf, hmac', hkind, hact]
    rw [hperm] at hkept
    cases hkept
  · rintro ⟨r, hr, -⟩
    simp only [Operation.run, remove_eq, Outcome.db_map, Database.unreleased_withoutMachine,
      hmac, if_true] at hr
    cases hr

/-- **What a call makes of a permanent hold.** -/
theorem held_run_iff (hsound : Sound db) (hheld : HeldPermanently db mac) (op : Operation) :
    HeldPermanently (op.run now db).db mac ↔ ¬ op.GivesUp mac := by
  constructor
  · exact fun h hgives => not_held_of_givesUp hsound hgives h
  · obtain ⟨r, hr, hkind⟩ := hheld
    exact ((move_run now hsound op mac).of_permanent hr hkind
      (hsound.isActive_of_permanent hr hkind _)).2

/-- The call ends the permanent hold of a MAC: it gives it up by name, or releases it and then
fails to pin. -/
def RawOperation.EndsHold (op : RawOperation) (mac : String) : Prop :=
  op.GivesUp mac ∨ op.FailsToPin mac

/-- **What a call with any texts makes of a permanent hold.** -/
theorem held_rawRun_iff (hsound : Sound db) (hheld : HeldPermanently db mac)
    (op : RawOperation) : HeldPermanently (op.run now db).db mac ↔ ¬ op.EndsHold mac := by
  by_cases hgives : op.GivesUp mac
  · refine iff_of_false ?_ (not_not_intro (.inl hgives))
    obtain ⟨op', hop, hgives'⟩ := hgives
    rw [RawOperation.run_of_op hop]
    exact not_held_of_givesUp hsound hgives'
  · obtain ⟨r, hr, hkind⟩ := hheld
    have hstep : RawStep ⟨now, db⟩ ⟨now, op, (op.run now db).value⟩ ⟨now, (op.run now db).db⟩ :=
      ⟨Nat.le_refl _, rfl, rfl⟩
    refine (permanent_rawStep_iff hsound hstep hr hkind hgives).trans ?_
    exact not_congr (or_iff_right hgives).symm

theorem sound_dbAfterAll (hsound : Sound db) (ops : List Operation) :
    Sound (dbAfterAll now db ops) := by
  induction ops generalizing db with
  | nil => exact hsound
  | cons op ops ih => exact ih (sound_run now hsound op)

theorem held_dbAfterAll (hsound : Sound db) (hheld : HeldPermanently db mac)
    {ops : List Operation} (hkeep : ∀ op ∈ ops, ¬ op.GivesUp mac) :
    HeldPermanently (dbAfterAll now db ops) mac := by
  induction ops generalizing db with
  | nil => exact hheld
  | cons op ops ih =>
    obtain ⟨hfirst, hrest⟩ := List.forall_mem_cons.mp hkeep
    exact ih (sound_run now hsound op) ((held_run_iff hsound hheld op).mpr hfirst) hrest

end Holds

/-! ## The tools that end one -/

section Frees

variable [Unicode]

/-- A request that ends the permanent hold of a MAC if an admin sends it: it releases the machine
to the pool, deletes it, or has it deleted after its reboot. -/
def Frees (mac : String) (request : Json) : Prop :=
  ∃ tool args mac', callOfRequest request = some (MachineTool.name tool, args) ∧
    requireStr args "mac" = .ok mac' ∧ normaliseMac mac' = mac ∧
    (tool = .releaseToPool ∨ tool = .deleteMachine ∨
      tool = .rebootMachine ∧ deleteAfter args = true)

variable {textColumn : Json → Except Exception String} {env : RequestEnv} {args : Fields}
  {deployment : Deployment Build} {mac : String} {op : Operation}

/-- The tools whose calls give up a hold. -/
theorem MachineTool.frees_of_givesUp {tool : MachineTool}
    (hop : op ∈ tool.operations textColumn env args deployment) (hgives : op.GivesUp mac) :
    ∃ mac', requireStr args "mac" = .ok mac' ∧ normaliseMac mac' = mac ∧
      (tool = .releaseToPool ∨ tool = .deleteMachine ∨
        tool = .rebootMachine ∧ deleteAfter args = true) := by
  obtain ⟨mac', hform, hmac⟩ := hgives
  cases tool with
  | releaseToPool =>
    simp only [operations, operationIfThere] at hop
    cases hnamed : requireStr args "mac" with
    | error message =>
      rw [hnamed] at hop
      simp [Except.toOption] at hop
    | ok named =>
      rw [hnamed] at hop
      simp only [Except.toOption, Option.toList_some, List.flatMap_singleton] at hop
      split at hop
      · obtain rfl := List.mem_singleton.mp hop
        simp only [Operation.releaseToPool.injEq, reduceCtorEq, or_false] at hform
        exact ⟨named, rfl, hform ▸ hmac, .inl rfl⟩
      · cases hop
  | deleteMachine =>
    simp only [operations] at hop
    cases hnamed : requireStr args "mac" with
    | error message =>
      rw [hnamed] at hop
      simp [Except.toOption] at hop
    | ok named =>
      rw [hnamed] at hop
      obtain rfl : op = .remove named := by simpa [Except.toOption] using hop
      simp only [Operation.remove.injEq, reduceCtorEq, false_or] at hform
      exact ⟨named, rfl, hform ▸ hmac, .inr (.inl rfl)⟩
  | rebootMachine =>
    simp only [operations] at hop
    cases hnamed : requireStr args "mac" with
    | error message =>
      rw [hnamed] at hop
      simp [Except.toOption] at hop
    | ok named =>
      rw [hnamed] at hop
      simp only [Except.toOption, Option.bind_some, Option.mem_toList, powerOperation] at hop
      (repeat' split at hop) <;> cases hop
      · rename_i hdelete
        simp only [Operation.remove.injEq, reduceCtorEq, false_or] at hform
        exact ⟨named, rfl, hform ▸ hmac, .inr (.inr ⟨rfl, hdelete⟩)⟩
      · simp at hform
  | enrolMachine =>
    simp only [operations, Option.mem_toList, enrolOperation] at hop
    (repeat' split at hop) <;> cases hop
    simp at hform
  | setMachineProfile =>
    simp only [operations, Option.mem_toList, profileOperation] at hop
    (repeat' split at hop) <;> cases hop
    simp at hform
  | pinMachine =>
    simp only [operations, Option.mem_toList] at hop
    obtain ⟨req, -, rfl⟩ := Option.map_eq_some_iff.mp hop
    simp at hform
  | powerMachine =>
    simp only [operations, Option.mem_toList] at hop
    obtain ⟨named, -, hop⟩ := Option.bind_eq_some_iff.mp hop
    unfold powerOperation at hop
    (repeat' split at hop) <;> cases hop
    · contradiction
    · simp at hform
  | powerFleet =>
    simp only [operations, List.mem_flatMap, List.mem_map] at hop
    obtain ⟨-, -, armed, -, rfl⟩ := hop
    simp at hform
  | setPowerCommand =>
    simp only [operations, operationIfThere, List.mem_flatMap] at hop
    obtain ⟨named, -, hop⟩ := hop
    split at hop
    · obtain rfl := List.mem_singleton.mp hop
      simp at hform
    · cases hop
  | setPduAlias =>
    simp only [operations, operationIfThere, List.mem_flatMap] at hop
    obtain ⟨named, -, hop⟩ := hop
    split at hop
    · obtain rfl := List.mem_singleton.mp hop
      simp at hform
    · cases hop
  | setPendingReboot =>
    simp only [operations, List.mem_map] at hop
    obtain ⟨named, -, rfl⟩ := hop
    simp at hform
  | setRebootCommand =>
    simp only [operations, List.mem_map] at hop
    obtain ⟨named, -, rfl⟩ := hop
    simp at hform

/-- A request whose calls give up a hold is one of an admin that frees the machine. -/
theorem frees_of_givesUp {role : Role} {request : Json}
    (hop : op ∈ requestOperations textColumn env role deployment request)
    (hgives : op.GivesUp mac) : role = .admin ∧ Frees mac request := by
  unfold requestOperations at hop
  cases hcall : callOfRequest request with
  | none =>
    rw [hcall] at hop
    cases hop
  | some called =>
    obtain ⟨name, args⟩ := called
    rw [hcall] at hop
    dsimp only at hop
    split at hop
    · -- The tools of the pool make no such call.
      rename_i tool htool
      have hpool := (isPoolCall_of_operation (Option.mem_toList.mp hop)).1
      obtain ⟨mac', rfl | rfl, -⟩ := hgives <;> cases hpool
    · split at hop
      · rename_i tool htool
        split at hop
        · rename_i hrole
          obtain ⟨mac', hnamed, hmac, htools⟩ := MachineTool.frees_of_givesUp hop hgives
          exact ⟨hrole, tool, args, mac',
            (MachineTool.name_of_ofName htool).symm ▸ hcall, hnamed, hmac, htools⟩
        · cases hop
      · cases hop

/-- Of a machine that is there, and whose power command does not raise, such a request makes one
call, which gives up its hold. -/
theorem operations_of_frees {request : Json} (hfrees : Frees mac request)
    (hthere : (deployment.db.machine mac).isSome)
    (hquiet : ∀ mac' err, env.outcome mac' ≠ .raised err) :
    ∃ op : Operation, op.GivesUp mac ∧
      requestOperations textColumn env .admin deployment request = [op] := by
  obtain ⟨tool, args, mac', hcall, hnamed, hmac, htools⟩ := hfrees
  have hlookup : (deployment.db.lookup mac').isSome := by rwa [Database.lookup, hmac]
  have hops : requestOperations textColumn env .admin deployment request =
      tool.operations textColumn env args deployment := by
    simp only [requestOperations, hcall, PoolTool.ofName_machineTool, MachineTool.ofName_name,
      if_true]
  rw [hops]
  rcases htools with rfl | rfl | ⟨rfl, hdelete⟩
  · refine ⟨.releaseToPool mac', ⟨mac', .inl rfl, hmac⟩, ?_⟩
    simp [MachineTool.operations, operationIfThere, hnamed, Except.toOption, hlookup]
  · refine ⟨.remove mac', ⟨mac', .inr rfl, hmac⟩, ?_⟩
    simp [MachineTool.operations, hnamed, Except.toOption]
  · refine ⟨.remove mac', ⟨mac', .inr rfl, hmac⟩, ?_⟩
    obtain ⟨m, hm⟩ := Option.isSome_iff_exists.mp hlookup
    have hrun : ∃ answer, runRoute (powerRoute deployment.db m .reboot) (env.outcome mac') =
        .ok answer := by
      unfold runRoute
      split
      · exact ⟨_, rfl⟩
      · cases houtcome : env.outcome mac' with
        | exited | timedOut => exact ⟨_, rfl⟩
        | raised err => exact absurd houtcome (hquiet mac' err)
    obtain ⟨answer, hanswer⟩ := hrun
    simp [MachineTool.operations, hnamed, Except.toOption, powerOperation, hm, hanswer, hdelete]

end Frees

/-! ## Runs -/

section Runs

variable [Unicode] [IpAddress] (config : McpConfig) (secrets : McpSecrets)
  (textColumn : Json → Except Exception String) (files : FileTools Build)

/-- A request is posted, somebody calls the registry, with whatever texts, or something happens to
the profiles, the bug reports or the builds. -/
inductive TrafficEvent (Build : Type)
  | post (request : McpRequest) (envs : Nat → RequestEnv)
  | call (time : Timestamp) (op : RawOperation)
  | elsewhere (profiles : List ProfileDir) (bugReports : Option BugReportStore)
      (builds : List Build)

def TrafficEvent.after (deployment : Deployment Build) : TrafficEvent Build → Deployment Build
  | post request envs =>
    (mcpPost config secrets (adminTools textColumn files) envs request deployment).deployment
  | call time op => { deployment with db := (op.run time deployment.db).db }
  | elsewhere profiles bugReports builds => { deployment with profiles, bugReports, builds }

/-- The event ends the permanent hold of a MAC, or may do so. -/
def TrafficEvent.EndsHold (mac : String) : TrafficEvent Build → Prop
  | post request _ => checkAuth secrets request.authorization = .ok .admin ∧
      ∃ entry ∈ request.body.entries, Frees mac entry
  | call _ op => op.EndsHold mac
  | elsewhere _ _ _ => False

variable {mac : String} {deployment : Deployment Build}

omit [IpAddress] in
/-- A property of the deployment that every entry keeps is kept by the whole body. -/
theorem mcpPost_keeps {P : Deployment Build → Prop} {admin : AdminTools Build}
    {envs : Nat → RequestEnv} {request : McpRequest}
    (hkeep : ∀ role env entry deployment, checkAuth secrets request.authorization = .ok role →
      entry ∈ request.body.entries → P deployment →
      P (dispatch config admin env role entry deployment).deployment) (h : P deployment) :
    P (mcpPost config secrets admin envs request deployment).deployment := by
  unfold mcpPost
  cases hauth : checkAuth secrets request.authorization with
  | error answer => exact h
  | ok role =>
    have hentry := fun env entry deployment => hkeep role env entry deployment hauth
    cases hbody : request.body with
    | empty | invalid | raises => exact h
    | json payload =>
      rw [hbody] at hentry
      cases payload with
      | null => exact h
      | arr entries =>
        have hbatch : ∀ (entries' : List Json) envs deployment, entries' ⊆ entries →
            P deployment → P (dispatchBatch config admin role envs entries' deployment).1 := by
          intro entries'
          induction entries' with
          | nil => exact fun _ _ _ h => h
          | cons entry entries' ih =>
            intro envs deployment hsub h
            obtain ⟨hmem, hrest⟩ := List.cons_subset.mp hsub
            exact ih _ _ hrest (hentry (envs 0) entry deployment hmem h)
        exact hbatch entries envs deployment (List.Subset.refl _) h
      | bool | int | float | str | obj =>
        exact hentry (envs 0) _ deployment (List.mem_singleton_self _) h

theorem sound_traffic (hsound : Sound deployment.db) (event : TrafficEvent Build) :
    Sound (event.after config secrets textColumn files deployment).db := by
  cases event with
  | post request envs =>
    refine mcpPost_keeps config secrets (P := fun deployment => Sound deployment.db)
      (fun role env entry deployment _ _ hsound => ?_) hsound
    rw [db_dispatch]
    exact sound_dbAfterAll hsound _
  | call time op => exact sound_rawRun time hsound op
  | elsewhere => exact hsound

theorem held_traffic (hsound : Sound deployment.db) (hheld : HeldPermanently deployment.db mac)
    {event : TrafficEvent Build} (hkeep : ¬ event.EndsHold secrets mac) :
    HeldPermanently (event.after config secrets textColumn files deployment).db mac := by
  cases event with
  | post request envs =>
    refine (mcpPost_keeps config secrets (P := fun deployment =>
      Sound deployment.db ∧ HeldPermanently deployment.db mac) ?_ ⟨hsound, hheld⟩).2
    rintro role env entry deployment hauth hentry ⟨hsound, hheld⟩
    rw [db_dispatch]
    refine ⟨sound_dbAfterAll hsound _, held_dbAfterAll hsound hheld fun op hop hgives => ?_⟩
    obtain ⟨rfl, hfrees⟩ := frees_of_givesUp hop hgives
    exact hkeep ⟨hauth, entry, hentry, hfrees⟩
  | call time op => exact (held_rawRun_iff hsound hheld op).mpr hkeep
  | elsewhere => exact hheld

/-- **Permanent holds end by name.**

* Whatever is posted under whatever token, and whoever else calls the registry: if a MAC is held
  permanently at first and no longer at the end, then an admin has sent a request that releases,
  deletes, or reboots and deletes it, or one of the other calls gave its hold up, or pinned the
  machine with a text that has no UTF-8.
* Every such request of an admin ends the hold, unless a power command raises. -/
theorem permanent_holds_end (mac : String) :
    (∀ s events s', Sound s.db → Run (fun s event s' => s' = TrafficEvent.after config secrets
        textColumn files s event) s events s' →
      HeldPermanently s.db mac → ¬ HeldPermanently s'.db mac →
      ∃ event ∈ events, TrafficEvent.EndsHold secrets mac event) ∧
    ∀ s env request, Sound s.db → HeldPermanently s.db mac → Frees mac request →
      (∀ mac' err, env.outcome mac' ≠ .raised err) →
      ¬ HeldPermanently (dispatch config (adminTools textColumn files) env .admin request
        s).deployment.db mac := by
  constructor
  · intro s events s' hsound hrun hheld hlost
    by_contra hnone
    push Not at hnone
    have hboth : Sound s'.db ∧ HeldPermanently s'.db mac := by
      refine hrun.invariant_of_good (I := fun s => Sound s.db ∧ HeldPermanently s.db mac) ?_
        ⟨hsound, hheld⟩ hnone
      rintro s event s' ⟨hsound, hheld⟩ rfl hkeep
      exact ⟨sound_traffic config secrets textColumn files hsound event,
        held_traffic config secrets textColumn files hsound hheld hkeep⟩
    exact hlost hboth.2
  · intro s env request hsound hheld hfrees hquiet
    obtain ⟨r, hr, -⟩ := hheld
    obtain ⟨m, hm⟩ := hsound.machine_of_unreleased hr
    have hthere : (s.db.machine mac).isSome := by rw [hm, Option.isSome_some]
    obtain ⟨op, hgives, hops⟩ : ∃ op : Operation, op.GivesUp mac ∧
        requestOperations textColumn env .admin s request = [op] :=
      operations_of_frees hfrees hthere hquiet
    rw [db_dispatch, hops]
    exact not_held_of_givesUp hsound hgives

end Runs

section Examples

attribute [local instance] ascii noNetworks

/-- A deployment with the desktop, which was enrolled and so is held permanently. -/
def desktopDeployment : Deployment Unit :=
  ⟨(newRegistry.after 5 (.enroll desktop)).db, [], none, []⟩

def idleFiles : FileTools Unit := fun _ _ _ profiles bugReports builds =>
  ((profiles, bugReports, builds), .ok (.payload .null))

/-- `release_to_pool` for the desktop, with its MAC in another spelling. -/
def releaseDesktop : Json := .obj
  [("method", .str "tools/call"), ("params", .obj
    [("name", .str "release_to_pool"), ("arguments", .obj [("mac", .str "52-54-00-12-34-56")])])]

/-- The request of an admin. -/
def releasePost : TrafficEvent Unit :=
  .post ⟨some "Bearer admin-token", .json releaseDesktop⟩ fun _ => quietEnv 9

theorem frees_releaseDesktop : Frees "52:54:00:12:34:56" releaseDesktop :=
  ⟨.releaseToPool, [("mac", .str "52-54-00-12-34-56")], "52-54-00-12-34-56", rfl, rfl,
    by decide +kernel, .inl rfl⟩

theorem held_desktopDeployment : HeldPermanently desktopDeployment.db "52:54:00:12:34:56" :=
  ⟨_, rfl, rfl⟩

theorem permanent_holds_end_desktop :
    releasePost.EndsHold twoTokens "52:54:00:12:34:56" ∧
    ¬ HeldPermanently (dispatch noDocs (adminTools (fun _ => .ok "") idleFiles) (quietEnv 9) .admin
      releaseDesktop desktopDeployment).deployment.db "52:54:00:12:34:56" := by
  have hreachable : Reachable (newRegistry.after 5 (.enroll desktop)) :=
    ⟨newRegistry, _, newRegistry_opened, .single (Registry.step_after (by decide) _)⟩
  have hsound : Sound desktopDeployment.db := hreachable.sound
  obtain ⟨hruns, hrequests⟩ := permanent_holds_end noDocs twoTokens (fun _ => .ok "") idleFiles
    "52:54:00:12:34:56"
  have hlost := hrequests desktopDeployment (quietEnv 9) releaseDesktop hsound
    held_desktopDeployment frees_releaseDesktop fun _ _ h => by cases h
  refine ⟨?_, hlost⟩
  obtain ⟨event, hevent, hends⟩ := hruns desktopDeployment [releasePost] _ hsound (.single rfl)
    held_desktopDeployment hlost
  exact List.mem_singleton.mp hevent ▸ hends

end Examples

end Fleetboot
