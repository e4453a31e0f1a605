import Fleetboot.Server.Confinement

/-!
# The replies of the MCP endpoint

What a client that waits on its request ids gets from `_dispatch` and `_mcp_post` of `mcp.py`: one
reply for each request with an id, none for a notification, and an answer to every body.

* `map_id_dispatch`: the id of the reply to one entry.
* `repliesById_iff`: the entries that get the reply they wait for.
* `bodyAnswered_iff`: the bodies that get an answer.
-/

set_option autoImplicit false

namespace Fleetboot

open Python Relational

/-! ## Which reply is waited for -/

def RpcResponse.id : RpcResponse → Json
  | result id _ | error id _ _ => id

/-- The id that an entry waits for: a notification waits for none, and what is no object is
answered under `null`. -/
def awaitedId : Json → Option Json
  | .obj fields => Json.get? fields "id"
  | _ => some .null

/-- The two methods whose branch returns before it looks for an id. -/
def initializedMethods : List String := ["notifications/initialized", "initialized"]

/-- A request of one of these, with an id. -/
def AsksInitialized (entry : Json) : Prop :=
  ∃ fields method, entry = .obj fields ∧ (Json.get? fields "id").isSome ∧
    Json.getD fields "method" .null = .str method ∧ method ∈ initializedMethods

section Dispatch

variable {Build : Type} [Unicode] (config : McpConfig) (admin : AdminTools Build)
  (env : RequestEnv) (role : Role) (id : Json)

omit [Unicode] in
theorem id_toolFailure (failure : ToolFailure) : (failure.response id).id = id := by
  cases failure <;> rfl

omit [Unicode] in
theorem map_id_dispatched (run : ToolRun Build) :
    (run.dispatched id).response.map RpcResponse.id = some id := by
  unfold ToolRun.dispatched
  cases run.value with
  | ok content => rfl
  | error failure => exact congrArg some (id_toolFailure id failure)

/-- A tool is called or refused under the id of the request. -/
theorem map_id_callTool (params : Fields) (deployment : Deployment Build) :
    (callTool config admin env role id params deployment).response.map RpcResponse.id =
      some id := by
  unfold callTool
  dsimp only
  split
  · split
    · split
      · split
        · exact map_id_dispatched id _
        · rfl
      · exact map_id_dispatched id _
    · split
      · rfl
      · split
        · rfl
        · split
          · split
            · exact map_id_dispatched id _
            · rfl
          · exact map_id_dispatched id _
  · rfl

theorem id_readResource (params : Fields) : (readResource config id params).id = id := by
  unfold readResource
  dsimp only
  split <;> rfl

/-- **Every method** but these two answers under the id. -/
theorem map_id_dispatchMethod (method : String) (params : Json) (deployment : Deployment Build) :
    (dispatchMethod config admin env role id method params deployment).response.map RpcResponse.id =
      if method ∈ initializedMethods then none else some id := by
  have hparams : ∀ handle : Fields → Dispatched Build,
      (∀ fields, (handle fields).response.map RpcResponse.id = some id) →
      (if params.truthy then
        match params with
        | .obj fields => handle fields
        | _ => Dispatched.reply deployment (.error id internalError
            ("'" ++ params.typeName ++ "' object has no attribute 'get'"))
      else handle []).response.map RpcResponse.id = some id := by
    intro handle hhandle
    split
    · split
      · exact hhandle _
      · rfl
    · exact hhandle _
  unfold dispatchMethod
  dsimp only
  split
  · rfl
  · rfl
  · rfl
  · rfl
  · rfl
  · rfl
  · rfl
  · exact hparams _ fun fields => congrArg some (id_readResource config id fields)
  · exact hparams _ fun fields => map_id_callTool config admin env role id fields deployment
  · rename_i hnot hinitialized _ _ _ _ _ _
    rw [if_neg]
    · rfl
    · rw [initializedMethods, List.mem_cons, List.mem_singleton]
      exact not_or.mpr ⟨hnot, hinitialized⟩

/-- A request of the two methods gets no reply. -/
theorem response_dispatch_initialized {entry : Json} (h : AsksInitialized entry)
    (deployment : Deployment Build) :
    (dispatch config admin env role entry deployment).response = none := by
  obtain ⟨fields, method, rfl, hid, hmethod, hmem⟩ := h
  have hnone := map_id_dispatchMethod config admin env role (Json.getD fields "id" .null) method
    (Json.getD fields "params" .null) deployment
  rw [if_pos hmem, Option.map_eq_none_iff] at hnone
  unfold dispatch
  dsimp only
  rw [hmethod, if_pos hid]
  exact hnone

/-- Every other entry gets the reply that it waits for. -/
theorem map_id_dispatch {entry : Json} (h : ¬ AsksInitialized entry)
    (deployment : Deployment Build) :
    (dispatch config admin env role entry deployment).response.map RpcResponse.id =
      awaitedId entry := by
  cases entry with
  | obj fields =>
    unfold dispatch awaitedId
    dsimp only
    cases hid : Json.get? fields "id" with
    | none => rfl
    | some id =>
      have hidD : Json.getD fields "id" .null = id := by rw [Json.getD, hid, Option.getD_some]
      rw [if_pos Option.isSome_some, hidD]
      split
      · rename_i method hmethod
        rw [map_id_dispatchMethod, if_neg]
        exact fun hmem => h ⟨fields, method, rfl, by rw [hid]; rfl, hmethod, hmem⟩
      · rfl
  | null => rfl
  | bool => rfl
  | int => rfl
  | float => rfl
  | str => rfl
  | arr => rfl

end Dispatch

/-! ## Batches -/

section Batches

variable {Build : Type} [Unicode] (config : McpConfig) (admin : AdminTools Build) (role : Role)

/-- The entries of a batch as they are dispatched, each on what the one before it left. -/
def entryRuns : (Nat → RequestEnv) → List Json → Deployment Build → List (Dispatched Build)
  | _, [], _ => []
  | envs, entry :: entries, deployment =>
    let first := dispatch config admin (envs 0) role entry deployment
    first :: entryRuns (fun n => envs (n + 1)) entries first.deployment

theorem forall₂_entryRuns (entries : List Json) : ∀ envs (deployment : Deployment Build),
    List.Forall₂ (fun entry run => ∃ env before, run = dispatch config admin env role entry before)
      entries (entryRuns config admin role envs entries deployment) := by
  induction entries with
  | nil => exact fun _ _ => .nil
  | cons entry entries ih => exact fun envs deployment => .cons ⟨_, _, rfl⟩ (ih _ _)

theorem responses_dispatchBatch (entries : List Json) : ∀ envs (deployment : Deployment Build),
    (dispatchBatch config admin role envs entries deployment).2.2 =
      (entryRuns config admin role envs entries deployment).filterMap Dispatched.response := by
  induction entries with
  | nil => exact fun _ _ => rfl
  | cons entry entries ih =>
    intro envs deployment
    rw [entryRuns, List.filterMap_cons, ← ih, dispatchBatch]
    dsimp only
    cases (dispatch config admin (envs 0) role entry deployment).response <;> rfl

/-- The ids that are answered are those that are waited for, in their order. -/
theorem map_id_dispatchBatch {entries : List Json} (h : ∀ entry ∈ entries, ¬ AsksInitialized entry)
    (envs : Nat → RequestEnv) (deployment : Deployment Build) :
    (dispatchBatch config admin role envs entries deployment).2.2.map RpcResponse.id =
      entries.filterMap awaitedId := by
  rw [responses_dispatchBatch, List.map_filterMap]
  have hruns := forall₂_entryRuns config admin role entries envs deployment
  generalize entryRuns config admin role envs entries deployment = runs at hruns ⊢
  induction hruns with
  | nil => rfl
  | @cons entry run entries runs hrun _ ih =>
    obtain ⟨env, before, rfl⟩ := hrun
    have hids := ih fun entry' hmem => h entry' (List.mem_cons_of_mem _ hmem)
    rw [List.filterMap_cons, List.filterMap_cons, hids,
      map_id_dispatch config admin env role (h entry List.mem_cons_self)]

/-- What a client is promised about the entries of a batch, or about one request. -/
structure RepliesById (envs : Nat → RequestEnv) (entries : List Json)
    (deployment : Deployment Build) : Prop where
  entry : ∀ entry ∈ entries, ∀ env before,
    (dispatch config admin env role entry before).response.map RpcResponse.id = awaitedId entry
  ordered : ∃ runs : List (Dispatched Build),
    List.Forall₂ (fun entry run => ∃ env before, run = dispatch config admin env role entry before)
      entries runs ∧
    (dispatchBatch config admin role envs entries deployment).2.2 =
      runs.filterMap Dispatched.response
  ids : (dispatchBatch config admin role envs entries deployment).2.2.map RpcResponse.id =
    entries.filterMap awaitedId

/-- **Replies by id**: exactly the requests of the two methods that have an id are left without
theirs. -/
theorem repliesById_iff (envs : Nat → RequestEnv) (entries : List Json)
    (deployment : Deployment Build) :
    RepliesById config admin role envs entries deployment ↔
      ∀ entry ∈ entries, ¬ AsksInitialized entry := by
  constructor
  · intro h entry hmem hasks
    have hreply := h.entry entry hmem (envs 0) deployment
    rw [response_dispatch_initialized config admin (envs 0) role hasks] at hreply
    obtain ⟨fields, method, rfl, hid, -⟩ := hasks
    have hnone : Json.get? fields "id" = none := hreply.symm
    rw [hnone] at hid
    cases hid
  · intro h
    exact ⟨fun entry hmem env before => map_id_dispatch config admin env role (h entry hmem) before,
      ⟨_, forall₂_entryRuns config admin role entries envs deployment,
        responses_dispatchBatch config admin role entries envs deployment⟩,
      map_id_dispatchBatch config admin role h envs deployment⟩

end Batches

section Examples

attribute [local instance] ascii noNetworks

/-- The method of the notification, with an id. -/
def initializedRequest : Json := .obj [("id", .int 1), ("method", .str "initialized")]

theorem not_repliesById : ¬ RepliesById noDocs idleAdmin .admin (fun _ => quietEnv 20)
    [initializedRequest] reportingDeployment := by
  intro h
  have hreply := h.entry _ List.mem_cons_self (quietEnv 20) reportingDeployment
  have hasks : AsksInitialized initializedRequest :=
    ⟨_, "initialized", rfl, rfl, rfl, by decide⟩
  rw [response_dispatch_initialized _ _ _ _ hasks] at hreply
  cases hreply

end Examples

/-! ## Bodies -/

/-- What `json.loads` raises: text that is no JSON, bytes that are no text, an integer of more
digits than are read, nesting that is too deep. -/
inductive LoadsFailure
  | jsonDecodeError (message : String)
  | unicodeDecodeError (message : String)
  | digitLimit (message : String)
  | recursionError (message : String)

/-- The body as the handler goes on with it. Only a `JSONDecodeError` is caught; the next two are
`ValueError`s beside it. -/
def mcpBody (loads : List UInt8 → Except LoadsFailure Json) (raw : List UInt8) : McpBody :=
  if raw = [] then .empty
  else match loads raw with
    | .ok payload => .json payload
    | .error (.jsonDecodeError _) => .invalid
    | .error (.unicodeDecodeError message) | .error (.digitLimit message) =>
      .raises (.valueError message)
    | .error (.recursionError message) => .raises (.recursionError message)

/-- A JSON-RPC response, some of them, or 202. -/
def McpAnswer.IsReply : McpAnswer → Prop
  | accepted | single _ => True
  | batch responses => responses ≠ []
  | unauthorised _ | failed _ => False

/-- What an authenticated caller is promised for a body. -/
structure BodyAnswered (loads : List UInt8 → Except LoadsFailure Json) (raw : List UInt8)
    (answer : McpAnswer) : Prop where
  isReply : answer.IsReply
  parse : raw ≠ [] → (∀ payload, loads raw ≠ .ok payload) →
    ∃ message, answer = .single (.error .null parseError message)

section Bodies

variable {Build : Type} [Unicode] {config : McpConfig} {secrets : McpSecrets}
  {admin : AdminTools Build} {envs : Nat → RequestEnv} {authorization : Option String} {role : Role}

/-- **Every value** is replied to. -/
theorem isReply_mcpPost_json (hauth : checkAuth secrets authorization = .ok role) (payload : Json)
    (deployment : Deployment Build) :
    (mcpPost config secrets admin envs ⟨authorization, .json payload⟩
      deployment).answer.IsReply := by
  unfold mcpPost
  rw [hauth]
  cases payload with
  | null => exact trivial
  | arr entries =>
    dsimp only
    split
    · exact trivial
    · rename_i hsome
      rw [List.isEmpty_iff] at hsome
      exact hsome
  | bool | int | float | str | obj =>
    dsimp only
    split
    · exact trivial
    · exact trivial

/-- **Bodies are answered** unless reading them raises beside a `JSONDecodeError`. -/
theorem bodyAnswered_iff (hauth : checkAuth secrets authorization = .ok role)
    (loads : List UInt8 → Except LoadsFailure Json) (raw : List UInt8)
    (deployment : Deployment Build) :
    BodyAnswered loads raw
        (mcpPost config secrets admin envs ⟨authorization, mcpBody loads raw⟩ deployment).answer ↔
      (raw ≠ [] → ∀ failure, loads raw = .error failure →
        ∃ message, failure = .jsonDecodeError message) := by
  have hraises : ∀ err, ¬ BodyAnswered loads raw
      (mcpPost config secrets admin envs ⟨authorization, .raises err⟩ deployment).answer := by
    intro err h
    have hreply := h.isReply
    unfold mcpPost at hreply
    rw [hauth] at hreply
    exact hreply
  unfold mcpBody
  by_cases hempty : raw = []
  · rw [if_pos hempty]
    refine iff_of_true ⟨?_, fun hne => absurd hempty hne⟩ fun hne => absurd hempty hne
    unfold mcpPost
    rw [hauth]
    exact trivial
  · rw [if_neg hempty]
    cases hloads : loads raw with
    | ok payload =>
      exact iff_of_true ⟨isReply_mcpPost_json hauth payload deployment,
          fun _ hnone => absurd hloads (hnone payload)⟩ fun _ failure h => by cases h
    | error failure =>
      cases failure with
      | jsonDecodeError message =>
        have hanswer : (mcpPost config secrets admin envs ⟨authorization, .invalid⟩
            deployment).answer = .single (.error .null parseError "invalid JSON") := by
          unfold mcpPost
          rw [hauth]
        dsimp only
        rw [hanswer]
        refine iff_of_true ⟨trivial, fun _ _ => ⟨_, rfl⟩⟩ fun _ failure h => ?_
        cases h
        exact ⟨message, rfl⟩
      | unicodeDecodeError message =>
        refine iff_of_false (hraises _) fun h => ?_
        obtain ⟨_, hother⟩ := h hempty _ rfl
        cases hother
      | digitLimit message =>
        refine iff_of_false (hraises _) fun h => ?_
        obtain ⟨_, hother⟩ := h hempty _ rfl
        cases hother
      | recursionError message =>
        refine iff_of_false (hraises _) fun h => ?_
        obtain ⟨_, hother⟩ := h hempty _ rfl
        cases hother

end Bodies

section Examples

attribute [local instance] ascii noNetworks

theorem checkAuth_adminToken : checkAuth twoTokens (some "Bearer admin-token") = .ok .admin := by
  rfl

/-- A brace alone. -/
theorem bodyAnswered_brace : BodyAnswered
    (fun _ => .error (.jsonDecodeError "Expecting property name enclosed in double quotes"))
    [123] (mcpPost noDocs twoTokens idleAdmin (fun _ => quietEnv 20)
      ⟨some "Bearer admin-token", mcpBody
        (fun _ => .error (.jsonDecodeError "Expecting property name enclosed in double quotes"))
        [123]⟩ reportingDeployment).answer :=
  (bodyAnswered_iff checkAuth_adminToken _ _ _).mpr fun _ _ h => by
    cases h
    exact ⟨_, rfl⟩

/-- A byte that starts no character. -/
theorem not_bodyAnswered : ¬ BodyAnswered
    (fun _ => .error (.unicodeDecodeError "'utf-8' codec can't decode byte 0xff in position 0"))
    [255] (mcpPost noDocs twoTokens idleAdmin (fun _ => quietEnv 20)
      ⟨some "Bearer admin-token", mcpBody
        (fun _ => .error
          (.unicodeDecodeError "'utf-8' codec can't decode byte 0xff in position 0"))
        [255]⟩ reportingDeployment).answer := by
  intro h
  have hreply := h.isReply
  unfold mcpPost at hreply
  rw [checkAuth_adminToken] at hreply
  exact hreply

end Examples

end Fleetboot
