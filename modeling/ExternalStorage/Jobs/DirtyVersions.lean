import ExternalStorage.Model.DirtyVersions
import ExternalStorage.Snapshot.ObjectKeys

/-!
# A dirty version arrives as it was read

Below `2 ^ 53` a version is a number that a double holds and that is written in full.  From
there on it is a string, which nobody on the way takes for a number.
-/

namespace ExternalStorage.Jobs.DirtyVersions

open ExternalStorage.Library ExternalStorage.Model ExternalStorage.Model.DirtyVersions
  ExternalStorage.Snapshot

/-! ## Texts -/

theorem int8Text_injective : Function.Injective int8Text :=
  fun _ _ h => Json.decimal_inj (String.ofList_injective h)

theorem toList_int8Text (n : Nat) : (int8Text n).toList = Nat.toDigits 10 n := by
  rw [int8Text, String.toList_ofList]
  rfl

/-- The text of a natural number starts with a digit, and all of it is read as that number. -/
theorem int8Text_digits (n : Nat) : ∃ c cs, (int8Text n).toList = c :: cs ∧ c.isDigit = true ∧
    parseDigits (c :: cs) = some n := by
  obtain ⟨c, cs, htext, hc⟩ := Json.digits_head n
  refine ⟨c, cs, (toList_int8Text n).trans htext, hc, ?_⟩
  rw [← htext]
  exact parseDigits_padded (n := n) 0

theorem parseI64_int8Text {n : Nat} (h : n < 2 ^ 63) : parseI64 (int8Text n) = some (n : Int) := by
  obtain ⟨c, cs, htext, hc, hparse⟩ := int8Text_digits n
  rw [parseI64_of_digit htext hc, hparse, Option.bind_some, if_pos h]

theorem bigInt?_int8Text (n : Nat) : bigInt? (int8Text n) = some (n : Int) := by
  obtain ⟨c, cs, htext, hc, hparse⟩ := int8Text_digits n
  unfold bigInt?
  rw [htext]
  split
  · rename_i heq
    obtain ⟨rfl, -⟩ := List.cons.inj heq
    exact absurd hc (by decide)
  · rw [hparse]
    rfl

theorem int8Text_ne_empty (n : Nat) : (int8Text n).isEmpty = false := by
  obtain ⟨c, cs, htext, -, -⟩ := int8Text_digits n
  rw [Bool.eq_false_iff]
  intro hempty
  rw [String.isEmpty_iff.mp hempty] at htext
  cases htext

/-! ## Numbers -/

section

variable {n : Nat}

theorem sign_mul_natCast (n : Nat) : (n : Int).sign * n = n := by
  rw [Int.sign_mul_self, Int.natAbs_natCast]

theorem numberOf_eq_self (h : (n : Int) ≤ maxSafeInteger) : numberOf n = n := by
  have hsafe : n < 2 ^ 53 := by
    unfold maxSafeInteger at h
    omega
  rw [numberOf, Int.natAbs_natCast, Doubles.round_eq_self hsafe, sign_mul_natCast]

theorem written_eq_self (h : (n : Int) ≤ maxSafeInteger) : written n = n := by
  have hsafe : n < 2 ^ 53 := by
    unfold maxSafeInteger at h
    omega
  rw [written, Int.natAbs_natCast, Doubles.shortest_eq_self hsafe, sign_mul_natCast]

/-! ## The representation of a version -/

/-- What `int8` makes of a version. -/
def represented (n : Nat) : JsValue :=
  if (n : Int) ≤ maxSafeInteger then .number n else .string (int8Text n)

theorem int8_int8Text (n : Nat) : int8 (int8Text n) = some (represented n) := by
  rw [int8, bigInt?_int8Text, Option.map_some, represented]
  by_cases h : (n : Int) ≤ maxSafeInteger
  · rw [if_pos h, if_pos h, numberOf_eq_self h]
  · rw [if_neg h, if_neg h]

/-- Its JSON text is read as the same value again, on either side. -/
theorem ofJson_represented (n : Nat) :
    JsValue.ofJson (represented n).toJson = represented n := by
  unfold represented
  by_cases h : (n : Int) ≤ maxSafeInteger
  · rw [if_pos h, JsValue.toJson, JsValue.ofJson, written_eq_self h, numberOf_eq_self h]
  · rw [if_neg h]
    rfl

theorem jsonbText_represented (n : Nat) :
    jsonbText (represented n).toJson = some (int8Text n) := by
  unfold represented
  by_cases h : (n : Int) ≤ maxSafeInteger
  · rw [if_pos h, JsValue.toJson, jsonbText, written_eq_self h]
  · rw [if_neg h]
    rfl

theorem deserialize_num {value : Int} (hrange : -2 ^ 63 ≤ value ∧ value < 2 ^ 63) :
    deserializeOptionalI64StringOrNumber (.num value) = .ok (some value) := by
  simp only [deserializeOptionalI64StringOrNumber, DirtyVersionWire.ofJson, if_pos hrange]

theorem deserialize_str {text : String} {value : Int} (hne : text.isEmpty = false)
    (hparse : parseI64 text = some value) :
    deserializeOptionalI64StringOrNumber (.str text) = .ok (some value) := by
  simp only [deserializeOptionalI64StringOrNumber, DirtyVersionWire.ofJson, hne, hparse,
    Bool.false_eq_true, if_false]

theorem deserialize_represented (h63 : n < 2 ^ 63) :
    deserializeOptionalI64StringOrNumber (represented n).toJson = .ok (some (n : Int)) := by
  unfold represented
  by_cases h : (n : Int) ≤ maxSafeInteger
  · rw [if_pos h, JsValue.toJson, written_eq_self h]
    apply deserialize_num
    omega
  · rw [if_neg h, JsValue.toJson]
    exact deserialize_str (int8Text_ne_empty n) (parseI64_int8Text h63)

theorem bigintParameter_represented (h63 : n < 2 ^ 63) :
    bigintParameter (represented n) = some (n : Int) := by
  unfold represented bigintParameter
  by_cases h : (n : Int) ≤ maxSafeInteger
  · rw [if_pos h, parameterText, written_eq_self h, Option.bind_some, parseI64_int8Text h63]
  · rw [if_neg h, parameterText, Option.bind_some, parseI64_int8Text h63]

end

/-! ## The path -/

theorem storedPayload_eq (dirtyVersion : JsValue) (autoPush : Bool) :
    storedPayload dirtyVersion autoPush = some (jobPayload dirtyVersion autoPush) :=
  Json.readObject_object _

theorem dirtyVersionMember_jobPayload (dirtyVersion : JsValue) (autoPush : Bool) :
    dirtyVersionMember (jobPayload dirtyVersion autoPush) = some dirtyVersion.toJson := by
  rfl

theorem dirtyVersionMember_snapshotBody (externalId code : String)
    (generation fencingToken : Int) (dirtyVersion : JsValue) :
    requestDirtyVersion (snapshotBody externalId generation code fencingToken dirtyVersion) =
      deserializeOptionalI64StringOrNumber dirtyVersion.toJson := by
  unfold requestDirtyVersion snapshotBody
  rw [Json.readObject_object]
  rfl

/-- A version from `0` to the greatest `i64` goes through the payload and the request as it
is.  Its representation is a number or, beyond `2 ^ 53 - 1`, a decimal string; in either the
payload's text and the parameter of the clear are equal to a column's value exactly when that
value is the version. -/
theorem dirty_version_exact {v : Int} (hv : 0 ≤ v) (h63 : v < 2 ^ 63) (autoPush : Bool)
    (externalId code : String) (generation fencingToken : Int) :
    ∃ dirtyVersion stored,
      int8 (int8Text v) = some dirtyVersion ∧
      dirtyVersion = (if v ≤ maxSafeInteger then .number v else .string (int8Text v)) ∧
      storedPayload dirtyVersion autoPush = some stored ∧
      payloadDirtyVersion stored = some dirtyVersion ∧
      requestDirtyVersion (snapshotBody externalId generation code fencingToken dirtyVersion) =
        .ok (some v) ∧
      ∀ current : Int,
        (versionText stored = some (int8Text current) ↔ current = v) ∧
        (outdatedPayload stored current = false ↔ current = v) ∧
        (bigintParameter dirtyVersion = some current ↔ current = v) := by
  lift v to Nat using hv
  have hfits : v < 2 ^ 63 := by exact_mod_cast h63
  have htext : versionText (jobPayload (represented v) autoPush) = some (int8Text v) := by
    rw [versionText, dirtyVersionMember_jobPayload, Option.bind_some, jsonbText_represented]
  refine ⟨represented v, jobPayload (represented v) autoPush, int8_int8Text v, rfl,
    storedPayload_eq _ _, ?_, ?_, ?_⟩
  · rw [payloadDirtyVersion, Json.readObject_object, Option.map_some,
      dirtyVersionMember_jobPayload, Option.map_some, Option.getD_some, ofJson_represented]
  · rw [dirtyVersionMember_snapshotBody, deserialize_represented hfits]
  · intro current
    have hsame : int8Text v = int8Text current ↔ current = v :=
      ⟨fun h => (int8Text_injective h).symm, fun h => congrArg int8Text h.symm⟩
    refine ⟨?_, ?_, ?_⟩
    · rw [htext, Option.some.injEq, hsame]
    · rw [outdatedPayload, htext, Option.any_some, decide_eq_false_iff_not, not_not, hsame]
    · rw [bigintParameter_represented hfits, Option.some.injEq, eq_comm]

/-- The first version that a double cannot hold. -/
theorem dirty_version_exact_unsafe :
    ∃ dirtyVersion stored,
      int8 (int8Text 9007199254740993) = some dirtyVersion ∧
      dirtyVersion = .string (int8Text 9007199254740993) ∧
      storedPayload dirtyVersion true = some stored ∧
      outdatedPayload stored 9007199254740992 ≠ false ∧
      requestDirtyVersion (snapshotBody "p1" 7 "abc" 3 dirtyVersion) =
        .ok (some 9007199254740993) := by
  obtain ⟨dirtyVersion, stored, hint8, hshape, hstored, -, hrequest, hcompare⟩ :=
    @dirty_version_exact 9007199254740993 (by decide) (by decide) true "p1" "abc" 7 3
  rw [if_neg (by decide)] at hshape
  refine ⟨dirtyVersion, stored, hint8, hshape, hstored, ?_, hrequest⟩
  rw [Ne, (hcompare 9007199254740992).2.1]
  decide

end ExternalStorage.Jobs.DirtyVersions
