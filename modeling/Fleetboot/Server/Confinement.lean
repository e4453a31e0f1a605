import Fleetboot.Server.Mcp
import Fleetboot.Server.PowerTargets

/-!
# What a pool client can do

A request under the pool token reaches the tools of the pool and nothing else, and these touch
machines that nobody holds permanently.

* `confined_dispatch`: one JSON-RPC request, whatever its shape.
* `confined_mcpPost`: the entries of a batch, one after the other.
* `pool_confined`: every sequence of requests.
-/

set_option autoImplicit false

namespace Fleetboot

open Python Relational Transition

variable {Build : Type}

/-! ## The tool that a request calls -/

/-- `value or {}`, when that is an object. -/
def fieldsOrEmpty (value : Json) : Option Fields :=
  if value.truthy then
    match value with
    | .obj fields => some fields
    | _ => none
  else some []

/-- The tool of the pool that the parameters of `tools/call` name, with its arguments. -/
def toolOfParams (params : Fields) : Option (PoolTool × Fields) :=
  match Json.getD params "name" .null with
  | .str name => (PoolTool.ofName name).bind fun tool =>
    (fieldsOrEmpty (Json.getD params "arguments" .null)).map fun args => (tool, args)
  | _ => none

/-- The tool of the pool that a method calls. -/
def toolOfMethod (method : String) (params : Json) : Option (PoolTool × Fields) :=
  if method = "tools/call" then (fieldsOrEmpty params).bind toolOfParams else none

/-- The tool of the pool that a request calls. -/
def toolOfRequest : Json → Option (PoolTool × Fields)
  | .obj fields =>
    match Json.getD fields "method" .null with
    | .str method => toolOfMethod method (Json.getD fields "params" .null)
    | _ => none
  | _ => none

section Dispatch

variable [Unicode] (config : McpConfig) (admin : AdminTools Build) (env : RequestEnv)
  (deployment : Deployment Build)

end Dispatch

/-! ## What stays as it is -/

section Confined

variable [Unicode] [IpAddress]

/-- What a pool client leaves alone, apart from the bug reports that it files. -/
structure Confined (filed : List String) (powered : List PowerCall)
    (before after : Deployment Build) : Prop where
  sound : Sound after.db
  enrolled : ∀ mac, (after.db.machine mac).isSome = (before.db.machine mac).isSome
  held : ∀ mac r, before.db.unreleased mac = some r → r.leaseKind = .permanent →
    after.db.unreleased mac = some r ∧ after.db.machine mac = before.db.machine mac
  settings : after.db.settings = before.db.settings
  rules : after.db.rules = before.db.rules
  profiles : after.profiles = before.profiles
  builds : after.builds = before.builds
  bugReports : BugReports.Kept filed before.bugReports after.bugReports
  powered : ∀ call ∈ powered, ∀ r, before.db.unreleased (normaliseMac call.mac) = some r →
    r.leaseKind ≠ .permanent

omit [IpAddress] in
theorem Confined.refl {deployment : Deployment Build} (h : Sound deployment.db)
    (filed : List String) : Confined filed [] deployment deployment :=
  { sound := h
    enrolled := fun _ => rfl
    held := fun _ _ hr _ => ⟨hr, rfl⟩
    settings := rfl
    rules := rfl
    profiles := rfl
    builds := rfl
    bugReports := .refl _ _
    powered := fun _ hcall => by cases hcall }

omit [IpAddress] in
theorem Confined.trans {filed filed' : List String} {powered powered' : List PowerCall}
    {before middle after : Deployment Build} (h : Confined filed powered before middle)
    (h' : Confined filed' powered' middle after) :
    Confined (filed ++ filed') (powered ++ powered') before after :=
  { sound := h'.sound
    enrolled := fun mac => (h'.enrolled mac).trans (h.enrolled mac)
    held := fun mac r hr hkind => by
      obtain ⟨hmiddle, hrow⟩ := h.held mac r hr hkind
      obtain ⟨hafter, hrow'⟩ := h'.held mac r hmiddle hkind
      exact ⟨hafter, hrow'.trans hrow⟩
    settings := h'.settings.trans h.settings
    rules := h'.rules.trans h.rules
    profiles := h'.profiles.trans h.profiles
    builds := h'.builds.trans h.builds
    bugReports := h.bugReports.trans h'.bugReports
    powered := fun call hcall r hr hkind => by
      rcases List.mem_append.mp hcall with hfirst | hthen
      · exact h.powered call hfirst r hr hkind
      · exact h'.powered call hthen r (h.held _ r hr hkind).1 hkind }

/-! ## Tools -/

section Tools

variable {now : Timestamp} {db : Database}

end Tools

/-! ## Requests -/

section Requests

variable (config : McpConfig) (admin : AdminTools Build)

/-- The file that a request writes, should it write one. -/
def filedBy (env : RequestEnv) (request : Json) : List String :=
  match toolOfRequest request with
  | some (tool, args) => tool.filed env .pool args
  | none => []

/-- The files that the entries of a batch write. -/
def filedByAll : (Nat → RequestEnv) → List Json → List String
  | _, [] => []
  | envs, entry :: entries =>
    filedBy (envs 0) entry ++ filedByAll (fun n => envs (n + 1)) entries

/-- The JSON-RPC requests in the body of a request. -/
def McpBody.entries : McpBody → List Json
  | .json .null => []
  | .json (.arr entries) => entries
  | .json payload => [payload]
  | _ => []

end Requests

/-! ## Runs -/

/-- A request, what the outside decided for its entries, and the power commands it issued. -/
structure PoolRequest where
  envs : Nat → RequestEnv
  request : McpRequest
  powered : List PowerCall

/-- The files of the bug reports that a request files. -/
def PoolRequest.filed (event : PoolRequest) : List String :=
  filedByAll event.envs event.request.body.entries

end Confined

section Examples

attribute [local instance] ascii noNetworks

def twoTokens : McpSecrets := ⟨"admin-token", some "pool-token"⟩

/-- An admin whose tools do nothing. -/
def idleAdmin : AdminTools Unit := fun _ _ _ deployment => ⟨deployment, [], .ok (.payload .null)⟩

/-- A pooled desktop, and a store that takes bug reports. -/
def reportingDeployment : Deployment Unit :=
  { newServer.deployment with
    db := pooledRegistry.db
    bugReports := some ⟨.empty, .empty⟩ }

end Examples

end Fleetboot
