import ExternalStorage.Library.Json
import ExternalStorage.Model.Backoff
import ExternalStorage.Model.Leases
import ExternalStorage.Model.Snapshots
import Mathlib.Data.List.Infix

/-!
# Failures of the worker's jobs

What `worker.ts` throws when a snapshot has not become READY, how `RustError` reads the body
it is given, and what `runJob` records of an error.
-/

namespace ExternalStorage.Model

open Library Library.Table

/-! ## `RustError` -/

structure RustError where
  statusCode : Nat
  message : String
  code : Option String
  retryable : Bool
  requestId : Option String
  deriving DecidableEq, Repr

/-- A member of a parsed object; of two with one name the later counts. -/
def payloadField (payload : List (String × Json.Value)) (name : String) : Option Json.Value :=
  (payload.reverse.find? fun m => m.1 = name).map Prod.snd

/-- `typeof payload?.name === 'string' ? payload.name : null`. -/
def payloadText (payload : List (String × Json.Value)) (name : String) : Option String :=
  match payloadField payload name with
  | some (.str text) => some text
  | _ => none

def truthy (text : Option String) : Option String := text.filter fun t => t ≠ ""

/-- The constructor of `RustError`; a body that is no flat object has no members. -/
def rustError (statusCode : Nat) (body : String) : RustError :=
  let payload := (Json.readObject body.toList).getD []
  let code := payloadText payload "code"
  let message := (payloadText payload "message").getD "data plane request failed"
  { statusCode := statusCode
    message := "Rust data plane error " ++ toString statusCode ++
      ((truthy code).map fun c => " " ++ c).getD "" ++ ": " ++ message
    code := code
    retryable := payloadField payload "retryable" = some (.bool true)
    requestId := payloadText payload "request_id" }

/-! ## Errors of a job -/

inductive Thrown where
  | rust (e : RustError)
  | error (message : String)
  deriving DecidableEq, Repr

/-- `errorMessage` of `worker.ts`. -/
def Thrown.message : Thrown → String
  | .rust e => e.message
  | .error message => message

/-- `text.includes(part)`. -/
def includes (text part : String) : Bool := part.toList <:+: text.toList

/-- `errorCode` of `worker.ts`, on an error without a code. -/
def errorCodeOfMessage (message : String) : String :=
  if includes message "Unsupported" then "unsupported_job" else "job_failed"

/-- `errorCode` of `worker.ts`. -/
def Thrown.errorCode : Thrown → String
  | .rust e =>
      match truthy e.code with
      | some code => code.toLower
      | none => errorCodeOfMessage e.message
  | .error message => errorCodeOfMessage message

/-- The `catch` of `runJob`: what becomes of the job that has thrown. -/
def failThrown (t : Thrown) : LeaseStatement :=
  .completeJobWithLease .failed none (some t.errorCode) (some t.message)

/-! ## The snapshot job -/

/-- The column `snapshots.state`. -/
def SnapshotState.text : SnapshotState → String
  | .discovered => "discovered"
  | .hashing => "hashing"
  | .uploading => "uploading"
  | .verifying => "verifying"
  | .ready => "ready"
  | .error => "error"
  | .superseded => "superseded"

def SnapshotState.terminal : SnapshotState → Bool
  | .ready | .error | .superseded => true
  | _ => false

/-- The loop on the row of the snapshot, over what it reads of it every five seconds; when the
readings end before a terminal state, the deadline has passed. -/
def awaitTerminal (problemId : String) (generation : Int) :
    SnapshotState → List (Option SnapshotRow) → Except Thrown SnapshotState
  | state, polls =>
      if state.terminal then .ok state
      else
        match polls with
        | [] => .error (.error ("snapshot did not reach a terminal state within 5400000ms " ++
            "(last state: " ++ state.text ++ ")"))
        | none :: _ => .error (.error ("snapshot row disappeared for " ++ problemId ++
            " generation " ++ toString generation))
        | some row :: polls => awaitTerminal problemId generation row.state polls

def snapshotFailureBody (state : SnapshotState) (row : Option SnapshotRow) : String :=
  String.ofList (Json.object [
    ("error_code", .str ((row.bind SnapshotRow.errorCode).getD "snapshot_failed")),
    ("message", .str ((row.bind SnapshotRow.errorMessage).getD
      ("snapshot state: " ++ state.text)))])

/-- The end of `snapshot` in `worker.ts`: `first` is the state that the data plane has
answered, and `last` the row as it is read again. -/
def snapshotOutcome (problemId : String) (generation : Int) (first : SnapshotState)
    (polls : List (Option SnapshotRow)) (last : Option SnapshotRow) : Except Thrown SnapshotState := do
  let state ← awaitTerminal problemId generation first polls
  if state ≠ .ready then
    throw (.rust (rustError 500 (snapshotFailureBody state last)))
  else
    return state

end ExternalStorage.Model
