import ExternalStorage.Library.Doubles
import ExternalStorage.Library.Json
import ExternalStorage.Model.ObjectKeys

/-!
# Dirty versions on their way between the planes

`dirty_version` is a `BIGINT`.  The control plane reads it through `int8`, keeps it in the
payload of a snapshot job and sends it to the data plane; numbers of the language are doubles,
so `int8` turns to a decimal string where they are no longer exact.
-/

namespace ExternalStorage.Model.DirtyVersions

open ExternalStorage.Library

/-! ## Values of the language -/

/-- `Number.MAX_SAFE_INTEGER`. -/
def maxSafeInteger : Int := 2 ^ 53 - 1

/-- A scalar; a number is the integer that the double stands for. -/
inductive JsValue where
  | null
  | bool (b : Bool)
  | number (n : Int)
  | string (s : String)
  deriving DecidableEq, Repr

/-- `Number(n)` of a `BigInt`. -/
def numberOf (n : Int) : Int := n.sign * Doubles.round n.natAbs

/-- The integer that `String(n)` writes. -/
def written (n : Int) : Int := n.sign * Doubles.shortest n.natAbs

/-- What `JSON.stringify` writes of a value. -/
def JsValue.toJson : JsValue → Json.Value
  | .null => .null
  | .bool b => .bool b
  | .number n => .num (written n)
  | .string s => .str s

/-- What `JSON.parse` makes of a value. -/
def JsValue.ofJson : Json.Value → JsValue
  | .null => .null
  | .bool b => .bool b
  | .num n => .number (numberOf n)
  | .str s => .string s

def bigInt? (s : String) : Option Int :=
  match s.toList with
  | '-' :: digits => (parseDigits digits).map fun n => -(n : Int)
  | digits => (parseDigits digits).map Int.ofNat

/-! ## The control plane -/

/-- `BIGINT::text`, which is also what the driver hands over. -/
def int8Text (v : Int) : String := String.ofList (Json.decimal v)

/-- `int8`; `BigInt` throws on what is not a number. -/
def int8 (s : String) : Option JsValue :=
  (bigInt? s).map fun n => if n ≤ maxSafeInteger then .number (numberOf n) else .string s

/-- The payload of a snapshot job; the scheduler's has `auto_push` as well. -/
def jobPayload (dirtyVersion : JsValue) (autoPush : Bool) : List (String × Json.Value) :=
  ("dirty_version", dirtyVersion.toJson) :: if autoPush then [("auto_push", .bool true)] else []

/-- `setJobPayload`: the text of the payload as `JSONB`. -/
def storedPayload (dirtyVersion : JsValue) (autoPush : Bool) :
    Option (List (String × Json.Value)) :=
  Json.readObject (Json.object (jobPayload dirtyVersion autoPush))

def dirtyVersionMember (members : List (String × Json.Value)) : Option Json.Value :=
  (members.find? fun m => m.1 = "dirty_version").map Prod.snd

/-- `payload.dirty_version ?? null`, of the payload as the driver reads it back. -/
def payloadDirtyVersion (result : List (String × Json.Value)) : Option JsValue :=
  (Json.readObject (Json.object result)).map fun members =>
    ((dirtyVersionMember members).map JsValue.ofJson).getD .null

/-- The body of `createSnapshot`. -/
def snapshotBody (problemExternalId : String) (generation : Int) (code : String)
    (fencingToken : Int) (dirtyVersion : JsValue) : List Char :=
  Json.object [("problem_external_id", .str problemExternalId),
    ("generation", (JsValue.number generation).toJson), ("code", .str code),
    ("fencing_token", (JsValue.number fencingToken).toJson),
    ("dirty_version", dirtyVersion.toJson)]

/-! ## The data plane -/

inductive DirtyVersionWire where
  | number (value : Int)
  | string (value : String)
  deriving DecidableEq, Repr

/-- The untagged enumeration: a number that is an `i64`, or else a string. -/
def DirtyVersionWire.ofJson : Json.Value → Option DirtyVersionWire
  | .num n => if -2 ^ 63 ≤ n ∧ n < 2 ^ 63 then some (.number n) else none
  | .str s => some (.string s)
  | _ => none

def deserializeOptionalI64StringOrNumber (value : Json.Value) : Except String (Option Int) :=
  match value with
  | .null => .ok none
  | value =>
      match DirtyVersionWire.ofJson value with
      | none => .error "data did not match any variant of untagged enum DirtyVersionWire"
      | some (.number v) => .ok (some v)
      | some (.string s) =>
          if s.isEmpty then
            .error "dirty_version decimal string is empty"
          else
            match parseI64 s with
            | none => .error "dirty_version must be a decimal i64 string"
            | some v => .ok (some v)

/-- The field of `SnapshotReq`; it may be missing. -/
def requestDirtyVersion (body : List Char) : Except String (Option Int) :=
  match Json.readObject body with
  | none => .error "not an object"
  | some members =>
      match dirtyVersionMember members with
      | none => .ok none
      | some value => deserializeOptionalI64StringOrNumber value

/-! ## The database -/

/-- `->>` of a member. -/
def jsonbText : Json.Value → Option String
  | .null => none
  | .bool true => some "true"
  | .bool false => some "false"
  | .num n => some (int8Text n)
  | .str s => some s

/-- `result->>'dirty_version'`. -/
def versionText (result : List (String × Json.Value)) : Option String :=
  (dirtyVersionMember result).bind jsonbText

/-- Where `track_snapshot_job_outcome` returns early: the payload has a version, and its text
is not `current_dirty_version::text`. -/
def outdatedPayload (result : List (String × Json.Value)) (current : Int) : Bool :=
  (versionText result).any fun text => text ≠ int8Text current

/-- The text that the driver sends for a parameter; `none` is `NULL`. -/
def parameterText : JsValue → Option String
  | .null => none
  | .bool true => some "true"
  | .bool false => some "false"
  | .number n => some (int8Text (written n))
  | .string s => some s

/-- `$3::bigint`. -/
def bigintParameter (dirtyVersion : JsValue) : Option Int :=
  (parameterText dirtyVersion).bind parseI64

end ExternalStorage.Model.DirtyVersions
