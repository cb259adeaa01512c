import ExternalStorage.Model.Keys
import ExternalStorage.Model.Paths

/-!
# The object-key validator

`validate_content_object_key` and `validate_managed_object_key` of `paths.rs` on any string.
The length checks count bytes and the slice of a hash may panic, which is `none` here.
-/

namespace ExternalStorage.Model

open Library.Texts

/-- `key.strip_prefix(start)`. -/
def stripPrefix (start key : String) : Option String :=
  (key.toList.dropPrefix? start.toList).map String.ofList

/-- `str::len`: bytes, not characters. -/
def utf8Len (text : String) : Nat := (text.toList.map Char.utf8Size).sum

def validateContentObjectKey? (key : String) : Option (Except AppError Unit) :=
  match stripPrefix "objects/sha256/" key with
  | none => some (.error (.pathEscape key))
  | some rest =>
      match pathParts rest with
      | [first, hash] =>
          if utf8Len first ≠ 2 ∨ utf8Len hash ≠ 64 then
            some (.error (.pathEscape key))
          else
            (firstTwo? hash).map fun first2 =>
              refuseIf (first ≠ first2 ∨
                ¬ [first, hash].all fun p => p.toList.all Char.isHexDigit) (.pathEscape key)
      | _ => some (.error (.pathEscape key))

/-- What may stand in the problem id of a manifest key. -/
def managedIdChar (c : Char) : Bool :=
  c.isAlphanum || c = '-' || c = '_' || c = '.' || c = ':'

/-- The digits of `str::parse`: one at least, and nothing else. -/
def parseDigits (text : List Char) : Option Nat :=
  if text ≠ [] ∧ text.all Char.isDigit then some (Nat.ofDigitChars 10 text 0) else none

/-- `str::parse::<i64>`: an optional sign, digits, and a value in range. -/
def parseI64 (text : String) : Option Int :=
  match text.toList with
  | '+' :: digits => (parseDigits digits).bind fun n => if n < 2 ^ 63 then some (n : Int) else none
  | '-' :: digits => (parseDigits digits).bind fun n => if n ≤ 2 ^ 63 then some (-n : Int) else none
  | digits => (parseDigits digits).bind fun n => if n < 2 ^ 63 then some (n : Int) else none

def validManifest (parts : List String) : Bool :=
  match parts with
  | [snapshots, problemId, generation, manifest] =>
      snapshots = "snapshots" && !problemId.isEmpty && problemId ≠ "." && problemId ≠ ".." &&
        problemId.toList.all managedIdChar && (parseI64 generation).any (0 < ·) &&
        manifest = "manifest.json"
  | _ => false

def validateManagedObjectKey? (key : String) : Option (Except AppError Unit) :=
  if (stripPrefix "objects/sha256/" key).isSome then
    validateContentObjectKey? key
  else
    some (refuseIf (¬ validManifest (pathParts key)) (.pathEscape key))

end ExternalStorage.Model
