import ExternalStorage.Library.JsonTrees
import ExternalStorage.Library.Table

/-!
# Fingerprints of request bodies

`stableFingerprint` writes a body with the members of every object in the order of their
keys.  The order in which an object then has its properties is that of the language: the
array indices first.
-/

namespace ExternalStorage.Model.Fingerprints

open ExternalStorage.Library.JsonTrees ExternalStorage.Library.Table

variable {ν : Type}

/-- The number that a key is the decimal text of, when an array can have that index. -/
def arrayIndex? (key : String) : Option Nat :=
  key.toNat?.filter fun n => n < 4294967295 && toString n = key

/-- The order of own properties: array indices by number, the others as they were added. -/
def ownProperties (members : List (String × JsonTree ν)) : List (String × JsonTree ν) :=
  (members.filter fun m => (arrayIndex? m.1).isSome).mergeSort
      (fun m n => (arrayIndex? m.1).getD 0 ≤ (arrayIndex? n.1).getD 0) ++
    members.filter fun m => (arrayIndex? m.1).isNone

/-- `Object.fromEntries`; of equal keys the last value stays. -/
def fromEntries (entries : List (String × JsonTree ν)) : JsonTree ν :=
  .obj (ownProperties
    (entries.foldl (fun members e => upsertOn Prod.fst e (fun _ => e) members) []))

variable (localeCompare : String → String → Int)

def sortJson : JsonTree ν → JsonTree ν
  | .arr items => .arr (items.map sortJson)
  | .obj members =>
      fromEntries ((members.mergeSort fun m n => localeCompare m.1 n.1 ≤ 0).attach.map
        fun m => (m.1.1, sortJson m.1.2))
  | value => value
termination_by value => sizeOf value
decreasing_by
  · exact sizeOf_item_lt (by assumption)
  · exact sizeOf_value_lt (List.mem_mergeSort.mp m.2)

theorem sortJson_obj (members : List (String × JsonTree ν)) :
    sortJson localeCompare (.obj members) =
      fromEntries ((members.mergeSort fun m n => localeCompare m.1 n.1 ≤ 0).map
        fun m => (m.1, sortJson localeCompare m.2)) := by
  rw [sortJson]
  congr 1
  exact List.attach_map_val (f := fun m : String × JsonTree ν => (m.1, sortJson localeCompare m.2))

/-- `JSON.stringify` of the sorted body; `number` writes a number. -/
def stableFingerprint (number : ν → List Char) (value : JsonTree ν) : String :=
  String.ofList ((sortJson localeCompare value).text number)

end ExternalStorage.Model.Fingerprints
