import Fleetboot.Server.Rest
import Fleetboot.Server.SoftReboot

/-!
# How tftpjail asks the server

`FleetbootClient` of `client.py`, and what it makes of a request for the configuration of a
machine: a lookup, a mint and the rendering of `renderer.py`. Each call of the server is a step of
its own, between which the server answers others.

* `JailStage.advance_alone`: the steps without anything in between are the lookup, the mint and the
  rendering.
* `lookup_of_known`: the machine that a lookup returns is the row of the registry at that moment.
-/

set_option autoImplicit false

namespace Fleetboot

open Python Relational

/-! ## The client -/

/-- `FleetbootClient`, with what its constructor refuses left out. -/
structure FleetbootClient where
  baseUrl : String
  mintSecret : String
  baseUrl_ne : baseUrl ≠ ""
  mintSecret_ne : mintSecret ≠ ""

/-- `_auth_headers`. -/
def FleetbootClient.authHeader (client : FleetbootClient) : String := "Bearer " ++ client.mintSecret

/-- `ResolveFailedError` and `MintFailedError`. -/
inductive ClientError
  | resolveFailed (message : String)
  | mintFailed (message : String)
  deriving DecidableEq

/-- The status and the text of a response that is no success. -/
def RestFailure.response : RestFailure → Nat × String
  | .http status detail => (status, "\x7b\"detail\":\"" ++ detail ++ "\"\x7d")
  | .raised _ => (500, "Internal Server Error")

section Answers

variable [Unicode]

/-- `lookup_machine`, by the answer of `/resolve`. -/
def lookupMachine (answer : Except RestFailure MachineRecord) :
    Except ClientError (Option RegisteredMachine) :=
  match answer with
  | .ok record => .ok (some record.registered)
  | .error failure =>
    if failure.response.1 = 404 then .ok none
    else .error (.resolveFailed ("fleetboot /resolve returned " ++
      toString failure.response.1 ++ ": " ++ Python.repr failure.response.2))

def mintFailure (failure : RestFailure) : ClientError :=
  .mintFailed ("fleetboot /sessions returned " ++ toString failure.response.1 ++ ": " ++
    Python.repr failure.response.2)

/-- `mint_session` of the client, by the answer of `/sessions`. -/
def mintedToken : MintAnswer → Except ClientError String
  | .notConfigured => .error (mintFailure (.http 503 "minting not configured"))
  | .unauthorised => .error (mintFailure (.http 401 "unauthorised"))
  | .failed err => .error (mintFailure (.raised err))
  | .minted token _ =>
    if token = "" then .error (.mintFailed "fleetboot /sessions returned no token") else .ok token

end Answers

/-! ## A request for a configuration -/

/-- What tftpjail is set up with: the server, its own client, and the URL that machines are told
to use. -/
structure Glue where
  config : RestConfig
  client : FleetbootClient
  base : BaseUrl

/-- A file that a client asks for, and what tftpjail knows of the client. -/
structure JailRequest where
  identity : ClientIdentity
  sourceIp : Option String

/-- The query of the lookup: empty values are left out. -/
def JailRequest.lookup (req : JailRequest) (client : FleetbootClient) : ResolveRequest :=
  { mac := req.identity.assertedMac
    sourceIp := req.sourceIp.filter (· != "")
    platform := (some req.identity.platform).filter (· != "")
    authorization := some client.authHeader }

def JailRequest.mint (req : JailRequest) (client : FleetbootClient) : MintRequest :=
  { authorization := some client.authHeader, mac := req.identity.assertedMac }

/-- How far a request has come. -/
inductive JailStage
  | asked
  | unknown
  | matched (rule : AutoEnrolRule)
  | known (machine : RegisteredMachine)
  | minted (machine : RegisteredMachine) (session : BootSession)
  /-- With the configuration, or denied. -/
  | answered (cfg : Option String)

section Requests

variable [Unicode]

/-- What is rendered once the token is minted. -/
def JailRequest.rendered (req : JailRequest) (glue : Glue) (machine : RegisteredMachine)
    (answer : MintAnswer) : Option String :=
  match mintedToken answer with
  | .error _ => none
  | .ok token => (render req.identity glue.base token machine).toOption

variable [IpAddress]

/-- The next call that the server gets for a request; `token` is what a mint would draw. -/
def JailStage.next (glue : Glue) (now : Timestamp) (token : String) (req : JailRequest)
    (db : Database) : JailStage → Database × JailStage
  | asked =>
    match requireSecret glue.config.mintSecret "resolve not configured"
        (some glue.client.authHeader) with
    | .error _ => (db, .answered none)
    | .ok _ =>
      match db.lookup req.identity.assertedMac with
      | some machine => (db, .known (MachineRecord.fromMachine machine).registered)
      | none => (db, .unknown)
  | unknown =>
    let query := req.lookup glue.client
    match findMatchingRule db query.mac query.sourceIp query.platform with
    | none => (db, .answered none)
    | some rule => (db, .matched rule)
  | matched rule =>
    let query := req.lookup glue.client
    let out := enroll now (rule.enrolment query.mac query.platform) db
    (out.db, match out.value with
      | .ok machine => .known (MachineRecord.fromMachine machine).registered
      | .error _ => .answered none)
  | known machine =>
    match beginMint glue.config.mintSecret now token (req.mint glue.client) db with
    | (db, .error _) => (db, .answered none)
    | (db, .ok session) => (db, .minted machine session)
  | minted machine session =>
    ((finishMint session db).1, .answered (req.rendered glue machine (finishMint session db).2))
  | answered cfg => (db, .answered cfg)

/-- A request that nothing comes between: `lookup_machine`, then `render` of `renderer.py`. -/
def answerRequest (glue : Glue) (now : Timestamp) (token : String) (req : JailRequest)
    (db : Database) : Database × Option String :=
  let resolved := resolveMachine glue.config now (req.lookup glue.client) db
  match lookupMachine resolved.value with
  | .error _ => (resolved.db, none)
  | .ok none => (resolved.db, none)
  | .ok (some machine) =>
    let minted := mintSession glue.config.mintSecret now token (req.mint glue.client) resolved.db
    (minted.1, req.rendered glue machine minted.2)

/-- Calls of one request, one right after the other. -/
def JailStage.advance (glue : Glue) (now : Timestamp) (token : String) (req : JailRequest) :
    Nat → Database × JailStage → Database × JailStage
  | 0, reached => reached
  | calls + 1, reached =>
    JailStage.advance glue now token req calls (reached.2.next glue now token req reached.1)

section Alone

variable (glue : Glue) (now : Timestamp) (token : String) (req : JailRequest) (db : Database)

theorem JailStage.advance_answered (cfg : Option String) (calls : Nat) :
    JailStage.advance glue now token req calls (db, .answered cfg) = (db, .answered cfg) := by
  induction calls with
  | zero => rfl
  | succ calls ih => exact ih

/-- The last two calls are the mint and the rendering. -/
theorem JailStage.advance_known (machine : RegisteredMachine) (calls : Nat) :
    JailStage.advance glue now token req (calls + 2) (db, .known machine) =
      let minted := mintSession glue.config.mintSecret now token (req.mint glue.client) db
      (minted.1, .answered (req.rendered glue machine minted.2)) := by
  have hfirst : JailStage.advance glue now token req (calls + 2) (db, .known machine) =
      JailStage.advance glue now token req (calls + 1)
        ((JailStage.known machine).next glue now token req db) := rfl
  rw [hfirst]
  unfold JailStage.next mintSession
  rcases hbegin : beginMint glue.config.mintSecret now token (req.mint glue.client) db with
    ⟨db', answer | session⟩
  · obtain ⟨-, hnot⟩ := beginMint_error hbegin
    dsimp only
    rw [JailStage.advance_answered]
    cases answer with
    | minted token' mac => exact absurd rfl (hnot token' mac)
    | notConfigured | unauthorised | failed => rfl
  · exact JailStage.advance_answered ..

/-- **Nothing in between.** Five calls are the lookup, the mint and the rendering. -/
theorem JailStage.advance_alone : JailStage.advance glue now token req 5 (db, .asked) =
    ((answerRequest glue now token req db).1,
      .answered (answerRequest glue now token req db).2) := by
  have hfirst : JailStage.advance glue now token req 5 (db, .asked) =
      JailStage.advance glue now token req 4 (JailStage.asked.next glue now token req db) := rfl
  rw [hfirst]
  unfold JailStage.next answerRequest resolveMachine
  have hauth : (req.lookup glue.client).authorization = some glue.client.authHeader := rfl
  rw [hauth]
  cases hsecret : requireSecret glue.config.mintSecret "resolve not configured"
      (some glue.client.authHeader) with
  | error failure =>
    dsimp only
    rw [JailStage.advance_answered]
    unfold lookupMachine
    dsimp only
    by_cases hstatus : failure.response.1 = 404
    · rw [if_pos hstatus]
    · rw [if_neg hstatus]
  | ok _ =>
    have hmac : (req.lookup glue.client).mac = req.identity.assertedMac := rfl
    dsimp only
    rw [hmac]
    cases hlookup : db.lookup req.identity.assertedMac with
    | some machine => exact JailStage.advance_known ..
    | none =>
      have hsecond : JailStage.advance glue now token req 4 (db, .unknown) =
          JailStage.advance glue now token req 3
            (JailStage.unknown.next glue now token req db) := rfl
      dsimp only
      rw [hsecond]
      unfold JailStage.next
      dsimp only
      rw [hmac]
      cases findMatchingRule db req.identity.assertedMac (req.lookup glue.client).sourceIp
          (req.lookup glue.client).platform with
      | none => exact JailStage.advance_answered ..
      | some rule =>
        have hthird : JailStage.advance glue now token req 3 (db, .matched rule) =
            JailStage.advance glue now token req 2
              ((JailStage.matched rule).next glue now token req db) := rfl
        dsimp only
        rw [hthird]
        unfold JailStage.next Outcome.restRun
        dsimp only
        rw [hmac]
        cases (enroll now (rule.enrolment req.identity.assertedMac
            (req.lookup glue.client).platform) db).value with
        | error err => exact JailStage.advance_answered ..
        | ok machine => exact JailStage.advance_known ..

end Alone

/-! ## The machine of a request -/

omit [IpAddress] in
/-- A machine that was enrolled is in the registry as it is returned. -/
theorem lookup_enroll {now : Timestamp} {args : Enrolment} {db : Database} {m : Machine}
    (h : (enroll now args db).value = .ok m) :
    (enroll now args db).db.lookup args.mac = some m := by
  have henroll := enroll_cases now args db
  generalize enroll now args db = out at henroll h
  cases henroll with
  | refused | orphan => cases h
  | again _ hprevious =>
    cases h
    rw [Database.lookup, Database.machine_updateMachine, if_pos rfl,
      Database.machine_replaceMachine]
    exact congrArg _ (if_pos rfl)
  | new _ _ hinserted =>
    cases h
    rw [Database.lookup, hinserted.machine, Database.machine_replaceMachine]
    exact if_pos rfl

/-- **What a request knows** of its machine is what the registry has of it at that moment. -/
theorem lookup_of_known {glue : Glue} {now : Timestamp} {token : String} {req : JailRequest}
    {db : Database} {stage : JailStage} {machine : RegisteredMachine}
    (hnot : ∀ machine, stage ≠ .known machine)
    (h : (stage.next glue now token req db).2 = .known machine) :
    ∃ m, (stage.next glue now token req db).1.lookup req.identity.assertedMac = some m ∧
      machine = (MachineRecord.fromMachine m).registered := by
  cases stage with
  | asked =>
    unfold JailStage.next at h ⊢
    cases hsecret : requireSecret glue.config.mintSecret "resolve not configured"
        (some glue.client.authHeader) with
    | error failure =>
      rw [hsecret] at h
      cases h
    | ok _ =>
      rw [hsecret] at h
      dsimp only at h ⊢
      cases hlookup : db.lookup req.identity.assertedMac with
      | none =>
        rw [hlookup] at h
        cases h
      | some m =>
        rw [hlookup] at h
        cases h
        exact ⟨m, hlookup, rfl⟩
  | unknown =>
    unfold JailStage.next at h
    dsimp only at h
    split at h <;> cases h
  | matched rule =>
    unfold JailStage.next at h ⊢
    dsimp only at h ⊢
    split at h
    · rename_i m hvalue
      cases h
      exact ⟨m, lookup_enroll hvalue, rfl⟩
    · cases h
  | known machine => exact absurd rfl (hnot machine)
  | minted machine session => cases h
  | answered cfg => cases h

end Requests

end Fleetboot
