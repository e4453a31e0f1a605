import Fleetboot.Registry.Sessions

/-!
# Boot stages that GRUB reports

`GET /grub-event/{token}/{state}` of `app.py`: a GRUB that runs the rendered configuration
reports the stage it has come to, under the token that the configuration holds.
-/

set_option autoImplicit false

namespace Fleetboot

open Python Relational

/-- What the endpoint answers: 400, 401 or 200. Nothing raises `OutOfOrderStateError`. -/
inductive GrubEventAnswer
  | unknownState
  | unauthorised
  | recorded
  deriving DecidableEq

variable [Unicode]

/-- `grub_event`, the handler of `GET /grub-event/{token}/{state}`. -/
def getGrubEvent (now : Timestamp) (token stateStr : String) (db : Database) :
    Database × GrubEventAnswer :=
  match BootState.ofValue stateStr with
  | none => (db, .unknownState)
  | some state =>
    match recordState now token state db with
    | none => (db, .unauthorised)
    | some (session, db) => (logBootEvent now session.mac state.value none db, .recorded)

end Fleetboot
