import ExternalStorage.Library.ObjectStores
import ExternalStorage.Snapshot.Machine

/-!
# The client of the object store

`put_object` and `put_object_from_path` of `r2.rs`, one request or file read at a time.  The service
is a parameter.  A request may be lost, and so may its reply.
-/

namespace ExternalStorage.Objects

open ExternalStorage.Model Library.ObjectStores
open Snapshot (DataPlane Store Task verifyObject)

abbrev Octets := List UInt8

/-- A bucket of the service; the metadata of an object is `sha256`. -/
abbrev ObjectService (β : Type) := Service β String UInt8 String

/-! ## One call -/

structure MultipartConfig where
  thresholdBytes : Nat
  partBytes : Nat
  deriving DecidableEq, Repr

/-- `R2Client::new` raises the size of a part. -/
def MultipartConfig.new (thresholdBytes partBytes : Nat) : MultipartConfig :=
  ⟨thresholdBytes, max partBytes (5 * 1024 * 1024)⟩

/-- What `send()` comes to: the service answers, or an error is returned and the request has had its
effect or not. -/
inductive Delivery where
  | answered
  | lostRequest (text : String)
  | lostReply (text : String)
  deriving DecidableEq, Repr

/-- The point a call of `put_object` or `put_object_from_path` has reached. -/
inductive PutPhase where
  | heading
  | verifying
  | sizing
  | putting
  | creating
  /-- The parts that have been sent; the hasher has taken them. -/
  | reading (uploadId : Nat) (parts : List Octets)
  | sending (uploadId : Nat) (parts : List Octets) (part : Octets)
  | completing (uploadId : Nat) (parts : List Octets)
  | aborting (uploadId : Nat) (err : AppError)
  | returned (result : Except AppError Unit)

structure PutCall where
  file : FileEntry
  phase : PutPhase

def PutCall.key (call : PutCall) : String := objectKeyForSha256 call.file.sha256

def PutCall.at (call : PutCall) (phase : PutPhase) : PutCall := { call with phase := phase }

inductive PutOp where
  | send (delivery : Delivery)
  /-- `metadata(path).len()`. -/
  | size (bytes : Nat)
  /-- The file is read and sent in one request. -/
  | body (bytes : Octets) (delivery : Delivery)
  /-- `file.read(&mut buf)`; an empty one is the end of the file. -/
  | chunk (bytes : Octets)
  | ioError (text : String)

/-- The text of an `SdkError` that the service has answered with. -/
def serviceError : AppError := .r2 "service error"

variable {β : Type} (S : ObjectService β)

def deliver {α : Type} (b : β) (delivery : Delivery) (answer : Option (β × α))
    (next : α → PutPhase) (failed : AppError → PutPhase) : β × PutPhase :=
  match delivery, answer with
  | .answered, some (b', a) => (b', next a)
  | .answered, none => (b, failed serviceError)
  | .lostRequest text, _ => (b, failed (.r2 text))
  | .lostReply text, some (b', _) => (b', failed (.r2 text))
  | .lostReply text, none => (b, failed (.r2 text))

/-- After `verify_object` of an object that was there before. -/
def PutCall.verified (d : DataPlane Octets) (b : β) (call : PutCall) : PutPhase :=
  match verifyObject d (S.visible b) call.key call.file.sha256 with
  | .error e => .returned (.error e)
  | .ok true => .returned (.ok ())
  | .ok false =>
      .returned (.error
        (.checksumMismatch call.file.sha256 s!"existing object differs at {call.key}"))

def putStep (d : DataPlane Octets) (cfg : MultipartConfig) (b : β) (call : PutCall)
    (op : PutOp) : Option (β × PutPhase) :=
  let failed := fun e => PutPhase.returned (.error e)
  let taken := fun b' : β => (b', ())
  match call.phase, op with
  | .heading, .send delivery =>
      some (deliver b delivery (some (b, (S.object b call.key).isSome))
        (fun found =>
          if found then .verifying
          -- `put_object` has the bytes of a link in memory
          else if call.file.symlinkTarget.isSome then .putting else .sizing) failed)
  | .verifying, .send .answered => some (b, call.verified S d b)
  | .verifying, .send _ => some (b, failed (.r2 s!"get_object failed for key {call.key}"))
  | .sizing, .size bytes =>
      some (b, if cfg.thresholdBytes ≤ bytes then .creating else .putting)
  | .sizing, .ioError text => some (b, failed (.io text))
  | .putting, .body bytes delivery =>
      let object := ⟨Task.putBody d ⟨call.file, .putting⟩ bytes, call.file.sha256⟩
      some (deliver b delivery ((S.putObject b call.key object).map taken)
        (fun _ => .returned (.ok ())) failed)
  | .putting, .ioError text => some (b, failed (.io text))
  | .creating, .send delivery =>
      some (deliver b delivery (S.createMultipartUpload b call.key call.file.sha256)
        (fun id => .reading id []) failed)
  | .reading id parts, .chunk [] =>
      some (b,
        if d.sha256Bytes parts.flatten = call.file.sha256 then .completing id parts
        else .aborting id (.checksumMismatch call.file.sha256 (d.sha256Bytes parts.flatten)))
  | .reading id parts, .chunk bytes =>
      if bytes.length ≤ cfg.partBytes then some (b, .sending id parts bytes) else none
  | .reading id _, .ioError text => some (b, .aborting id (.io text))
  | .sending id parts part, .send delivery =>
      some (deliver b delivery ((S.uploadPart b call.key id (parts.length + 1) part).map taken)
        (fun _ => .reading id (parts ++ [part])) (.aborting id))
  | .completing id parts, .send delivery =>
      some (deliver b delivery
        ((S.completeMultipartUpload b call.key id (List.range' 1 parts.length)).map taken)
        (fun _ => .returned (.ok ())) (.aborting id))
  -- the answer to the abort is not looked at
  | .aborting id e, .send delivery =>
      some (deliver b delivery ((S.abortMultipartUpload b call.key id).map taken)
        (fun _ => failed e) (fun _ => failed e))
  | _, _ => none

/-! ## Many calls -/

structure StoreClient (β : Type) where
  bucket : β
  calls : List PutCall := []

inductive StoreAction where
  | begin (file : FileEntry)
  | call (i : Nat) (op : PutOp)
  /-- `delete_object`. -/
  | delete (key : String)
  /-- `put_object_overwrite`. -/
  | overwrite (key : String) (object : Object UInt8 String)
  | expire (uploadId : Nat)

def storeStep (d : DataPlane Octets) (cfg : MultipartConfig) (s : StoreClient β) :
    StoreAction → Option (StoreClient β)
  | .begin file => some { s with calls := s.calls ++ [⟨file, .heading⟩] }
  | .call i op =>
      (s.calls[i]?).bind fun call => (putStep S d cfg s.bucket call op).map fun r =>
        ⟨r.1, s.calls.set i (call.at r.2)⟩
  | .delete key => (S.deleteObject s.bucket key).map fun b => { s with bucket := b }
  | .overwrite key object => (S.putObject s.bucket key object).map fun b => { s with bucket := b }
  | .expire id => some { s with bucket := S.expire s.bucket id }

end ExternalStorage.Objects
