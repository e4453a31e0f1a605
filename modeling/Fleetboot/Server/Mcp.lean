import Fleetboot.Server.Tools

/-!
# The MCP endpoint

`POST /mcp` of `mcp.py`: the two tokens, batches, and the dispatch of one JSON-RPC request. The
tools of an admin are a parameter: whatever they do, a pool client does not reach them.
-/

set_option autoImplicit false

namespace Fleetboot

open Python Relational

/-! ## Answers -/

def parseError : Int := -32700
def invalidRequest : Int := -32600
def methodNotFound : Int := -32601
def invalidParams : Int := -32602
def internalError : Int := -32603

def protocolVersion : String := "2025-06-18"

/-- The result of a request: a JSON value, or the content of a tool. -/
inductive RpcResult
  | value (json : Json)
  | tool (content : ToolContent) (isError : Bool)

inductive RpcResponse
  | result (id : Json) (result : RpcResult)
  | error (id : Json) (code : Int) (message : String)

/-- A request that was handled: what it left, the power commands it issued, and the answer, which a
notification does not get. -/
structure Dispatched (Build : Type) where
  deployment : Deployment Build
  powered : List PowerCall
  response : Option RpcResponse

variable {Build : Type}

/-! ## Tools by name -/

/-- The tools that only an admin may call. -/
def adminToolNames : List String :=
  ["list_bug_reports", "get_bug_report", "resolve_bug_report", "enrol_machine",
    "set_machine_profile", "delete_machine", "reboot_machine", "power_machine", "power_fleet",
    "pin_machine", "release_to_pool", "set_power_command", "set_pdu_alias", "set_pending_reboot",
    "set_reboot_command", "save_profile", "write_profile_overlay", "start_build", "list_builds",
    "get_build"]

/-- The implementations of the admin's tools. -/
abbrev AdminTools (Build : Type) :=
  String → RequestEnv → Fields → Deployment Build → ToolRun Build

section Dispatch

variable [Unicode]

/-- `str(err)` for a failure that no tool expects. -/
def ToolFailure.response (id : Json) : ToolFailure → RpcResponse
  | toolError message =>
    .result id (.tool (.payload (.obj [("error", .str message)])) true)
  | raised err => .error id internalError err.message

/-- The answer to `tools/call` from what the tool did. -/
def ToolRun.dispatched (id : Json) (run : ToolRun Build) : Dispatched Build :=
  ⟨run.deployment, run.powered, some (match run.value with
    | .ok content => .result id (.tool content false)
    | .error failure => failure.response id)⟩

/-- An answer that needs nothing done. -/
def Dispatched.reply (deployment : Deployment Build) (response : RpcResponse) :
    Dispatched Build :=
  ⟨deployment, [], some response⟩

/-- `tools/call` for the parameters of a request. -/
def callTool (config : McpConfig) (admin : AdminTools Build) (env : RequestEnv) (role : Role)
    (id : Json) (params : Fields) (deployment : Deployment Build) : Dispatched Build :=
  let refuse := fun code message => Dispatched.reply deployment (.error id code message)
  let arguments := Json.getD params "arguments" .null
  match Json.getD params "name" .null with
  | .str name =>
    match PoolTool.ofName name with
    | some tool =>
      if arguments.truthy then
        match arguments with
        | .obj args => (tool.run config env role args deployment).dispatched id
        | _ => refuse invalidParams "arguments must be an object"
      else (tool.run config env role [] deployment).dispatched id
    | none =>
      if name ∉ adminToolNames then refuse methodNotFound ("unknown tool: " ++ Python.repr name)
      else if role ≠ .admin then
        refuse methodNotFound ("tool " ++ Python.repr name ++ " requires an admin token; a " ++
          "pool-client token may only use: " ++
          ", ".intercalate ((PoolTool.all.map PoolTool.name).insertionSort (· ≤ ·)))
      else if arguments.truthy then
        match arguments with
        | .obj args => (admin name env args deployment).dispatched id
        | _ => refuse invalidParams "arguments must be an object"
      else (admin name env [] deployment).dispatched id
  | value => refuse methodNotFound ("unknown tool: " ++ value.reprWith config.reprFloat)

/-- `resources/read` for the parameters of a request. -/
def readResource (config : McpConfig) (id : Json) (params : Fields) : RpcResponse :=
  let uri := Json.getD params "uri" .null
  let topic := match uri with
    | .str uri => config.topicForUri uri
    | _ => none
  match topic with
  | none => .error id invalidParams ("unknown resource: " ++ uri.reprWith config.reprFloat ++
      ". Known resources: " ++ ", ".intercalate (config.topics.map DocTopic.uri))
  | some topic => .result id (.value (.obj
      [("contents", .arr [.obj
        [("uri", .str topic.uri), ("name", .str topic.name), ("title", .str topic.title),
          ("mimeType", .str docMimeType), ("text", .str (topic.body ++ config.topicIndex))]])]))

/-- The catalogue as a role sees it. -/
def visibleTools (config : McpConfig) (role : Role) : List Json :=
  (match role with
    | .admin => config.catalogue
    | .pool => config.catalogue.filter fun tool =>
      match Json.get? tool "name" with
      | some (.str name) => (PoolTool.ofName name).isSome
      | _ => false).map Json.obj

/-- The answer to `initialize`. -/
def initializeResult (config : McpConfig) : Json := .obj
  [("protocolVersion", .str protocolVersion),
    ("serverInfo", .obj [("name", .str "fleetboot"), ("version", .str "0.0.1")]),
    ("capabilities", .obj
      [("tools", .obj [("listChanged", .bool false)]),
        ("resources", .obj [("listChanged", .bool false), ("subscribe", .bool false)])]),
    ("instructions", .str config.instructions)]

/-- The request of a method, with `params` or `{}`. -/
def dispatchMethod (config : McpConfig) (admin : AdminTools Build) (env : RequestEnv) (role : Role)
    (id : Json) (method : String) (params : Json) (deployment : Deployment Build) :
    Dispatched Build :=
  let value := fun json => Dispatched.reply deployment (.result id (.value json))
  let withParams := fun (handle : Fields → Dispatched Build) =>
    if params.truthy then
      match params with
      | .obj fields => handle fields
      | _ => Dispatched.reply deployment (.error id internalError
          ("'" ++ params.typeName ++ "' object has no attribute 'get'"))
    else handle []
  match method with
  | "initialize" => value (initializeResult config)
  | "notifications/initialized" | "initialized" => ⟨deployment, [], none⟩
  | "ping" => value (.obj [])
  | "tools/list" => value (.obj [("tools", .arr (visibleTools config role))])
  | "resources/list" => value (.obj [("resources", .arr config.resourceDescriptors)])
  | "resources/templates/list" => value (.obj [("resourceTemplates", .arr [])])
  | "resources/read" =>
    withParams fun fields => Dispatched.reply deployment (readResource config id fields)
  | "tools/call" =>
    withParams fun fields => callTool config admin env role id fields deployment
  | _ => Dispatched.reply deployment
      (.error id methodNotFound ("unknown method: " ++ Python.repr method))

/-- `_dispatch`. -/
def dispatch (config : McpConfig) (admin : AdminTools Build) (env : RequestEnv) (role : Role)
    (request : Json) (deployment : Deployment Build) : Dispatched Build :=
  match request with
  | .obj fields =>
    let id := Json.getD fields "id" .null
    let handled := match Json.getD fields "method" .null with
      | .str method =>
        dispatchMethod config admin env role id method (Json.getD fields "params" .null) deployment
      | _ => .reply deployment (.error id invalidRequest "missing method")
    if (Json.get? fields "id").isSome then handled else { handled with response := none }
  | _ => .reply deployment (.error .null invalidRequest "not a JSON object")

end Dispatch

/-! ## Requests -/

/-- The body of a request: none, text that is no JSON, text whose reading raises otherwise, or a
value. -/
inductive McpBody
  | empty
  | invalid
  | raises (err : Exception)
  | json (payload : Json)

/-- The answer over HTTP. -/
inductive McpAnswer
  | unauthorised (detail : String)
  | failed (err : Exception)
  | accepted
  | single (response : RpcResponse)
  | batch (responses : List RpcResponse)

structure McpRequest where
  authorization : Option String
  body : McpBody

/-- The secrets of the router. -/
structure McpSecrets where
  admin : String
  pool : Option String

/-- `hmac.compare_digest` on two strings. -/
def compareDigest (a b : String) : Except Exception Bool :=
  if (a.toList ++ b.toList).all fun c => decide (c.toNat < 128) then .ok (a == b)
  else .error (.typeError "comparing strings with non-ASCII characters is not supported")

/-- What handling a request leaves. -/
structure McpHandled (Build : Type) where
  deployment : Deployment Build
  powered : List PowerCall
  answer : McpAnswer

section Post

variable [Unicode]

/-- `check_auth`: the role, or the answer that refuses the request. -/
def checkAuth (secrets : McpSecrets) (authorization : Option String) : Except McpAnswer Role :=
  match authorization with
  | none => .error (.unauthorised "Bearer token required")
  | some header =>
    if "bearer ".toList.isPrefixOf (lower header).toList = false then
      .error (.unauthorised "Bearer token required")
    else
      let token := strip (String.ofList (header.toList.drop 7))
      match compareDigest token secrets.admin with
      | .error err => .error (.failed err)
      | .ok true => .ok .admin
      | .ok false =>
        match secrets.pool with
        | none => .error (.unauthorised "unauthorised")
        | some pool =>
          if pool = "" then .error (.unauthorised "unauthorised")
          else match compareDigest token pool with
            | .error err => .error (.failed err)
            | .ok true => .ok .pool
            | .ok false => .error (.unauthorised "unauthorised")

/-- The entries of a batch, one after the other. -/
def dispatchBatch (config : McpConfig) (admin : AdminTools Build) (role : Role) :
    (Nat → RequestEnv) → List Json → Deployment Build →
      Deployment Build × List PowerCall × List RpcResponse
  | _, [], deployment => (deployment, [], [])
  | envs, entry :: entries, deployment =>
    let first := dispatch config admin (envs 0) role entry deployment
    let (last, powered, responses) :=
      dispatchBatch config admin role (fun n => envs (n + 1)) entries first.deployment
    (last, first.powered ++ powered, first.response.toList ++ responses)

/-- `POST /mcp`. -/
def mcpPost (config : McpConfig) (secrets : McpSecrets) (admin : AdminTools Build)
    (envs : Nat → RequestEnv) (request : McpRequest) (deployment : Deployment Build) :
    McpHandled Build :=
  match checkAuth secrets request.authorization with
  | .error answer => ⟨deployment, [], answer⟩
  | .ok role =>
    match request.body with
    | .invalid => ⟨deployment, [], .single (.error .null parseError "invalid JSON")⟩
    | .raises err => ⟨deployment, [], .failed err⟩
    | .empty | .json .null =>
      ⟨deployment, [], .single (.error .null invalidRequest "empty body")⟩
    | .json (.arr entries) =>
      let (last, powered, responses) := dispatchBatch config admin role envs entries deployment
      ⟨last, powered, if responses.isEmpty then .accepted else .batch responses⟩
    | .json payload =>
      let handled := dispatch config admin (envs 0) role payload deployment
      ⟨handled.deployment, handled.powered,
        match handled.response with
        | some response => .single response
        | none => .accepted⟩

end Post

end Fleetboot
