import Mathlib.Algebra.Order.Ring.Int

/-!
# Errors of the data plane

`AppError` of `error.rs`, the text its `Display` gives, and the code that
`snapshot.rs` records for a failed snapshot.
-/

namespace ExternalStorage.Model

inductive AppError where
  | problemFolderMissing (code : String)
  | snapshotNotReady (problemId : String) (generation : Int)
  | fencingMismatch (expected got : Int)
  | evictionDryRunRequired
  | evictionRecentlyAccessed
  | evictionDirty
  | r2NotReady (problemId : String)
  | objectNotFound (key : String)
  | r2ManifestMissing (problemId : String) (generation : Int) (key : String)
  | r2ObjectMissing (path key : String)
  | checksumMismatch (expected got : String)
  | pathEscape (path : String)
  | fileChurn (path : String)
  | specialFile (path : String)
  | manifestIntegrity (detail : String)
  | objectLiveReference (key : String)
  | database (detail : String)
  | io (detail : String)
  | r2 (detail : String)
  | internal (detail : String)
  deriving DecidableEq, Repr

/-- The `#[error(…)]` text of each variant. -/
def AppError.message : AppError → String
  | .problemFolderMissing code => s!"problem folder missing: {code}"
  | .snapshotNotReady p g => s!"snapshot not ready: problem {p} generation {g}"
  | .fencingMismatch expected got =>
      s!"fencing token mismatch: expected {expected} got {got}"
  | .evictionDryRunRequired => "eviction requires dry_run unless explicitly forced"
  | .evictionRecentlyAccessed =>
      "problem was accessed after the automatic eviction cutoff"
  | .evictionDirty => "problem has unsnapshotted local changes"
  | .r2NotReady p => s!"r2 generation not ready+verified for problem {p}"
  | .objectNotFound key => s!"storage object not found: {key}"
  | .r2ManifestMissing p g key =>
      s!"R2 snapshot manifest missing for problem {p} generation {g}: {key}"
  | .r2ObjectMissing path key => s!"R2 snapshot object missing for {path}: {key}"
  | .checksumMismatch expected got => s!"checksum mismatch: expected {expected} got {got}"
  | .pathEscape path => s!"path escape detected: {path}"
  | .fileChurn path => s!"file changed while scanning: {path}"
  | .specialFile path => s!"special filesystem entry rejected: {path}"
  | .manifestIntegrity detail => s!"manifest integrity error: {detail}"
  | .objectLiveReference key =>
      s!"object still referenced by a retention-protected snapshot: {key}"
  | .database detail => s!"database error: {detail}"
  | .io detail => s!"io error: {detail}"
  | .r2 detail => s!"r2 error: {detail}"
  | .internal detail => detail

/-- `error_code` of `snapshot.rs`: what `mark_snapshot_error` stores. -/
def AppError.errorCode : AppError → String
  | .checksumMismatch _ _ => "checksum_mismatch"
  | .fileChurn _ => "file_churn"
  | .fencingMismatch _ _ => "fencing_mismatch"
  | .r2 _ => "r2_error"
  | .r2ManifestMissing _ _ _ => "r2_manifest_missing"
  | .r2ObjectMissing _ _ => "r2_object_missing"
  | .objectNotFound _ => "r2_object_missing"
  | .manifestIntegrity _ => "manifest_integrity"
  | .pathEscape _ => "path_escape"
  | .specialFile _ => "special_file"
  | _ => "internal_error"

/-! ## Early returns -/

/-- `if p { return Err(e); }`. -/
def refuseIf (p : Prop) [Decidable p] (e : AppError) : Except AppError Unit :=
  if p then .error e else .ok ()

@[simp] theorem refuseIf_eq_ok {p : Prop} [Decidable p] {e : AppError} {u : Unit} :
    refuseIf p e = .ok u ↔ ¬ p := by
  unfold refuseIf
  split <;> simp [*]

theorem bind_eq_ok {α β : Type} {x : Except AppError α} {f : α → Except AppError β} {b : β} :
    (x >>= f) = .ok b ↔ ∃ a, x = .ok a ∧ f a = .ok b := by
  cases x with
  | error e =>
      constructor
      · intro h
        cases h
      · rintro ⟨a, ha, -⟩
        cases ha
  | ok a =>
      constructor
      · exact fun h => ⟨a, rfl, h⟩
      · rintro ⟨a', ha, h⟩
        cases ha
        exact h

theorem bind_eq_error {α β : Type} {x : Except AppError α} {f : α → Except AppError β}
    {e : AppError} : (x >>= f) = .error e ↔ x = .error e ∨ ∃ a, x = .ok a ∧ f a = .error e := by
  cases x with
  | error e' =>
      constructor
      · intro h
        cases h
        exact .inl rfl
      · rintro (h | ⟨a, ha, -⟩)
        · cases h
          rfl
        · cases ha
  | ok a =>
      constructor
      · intro h
        exact .inr ⟨a, rfl, h⟩
      · rintro (h | ⟨a', ha, h⟩)
        · cases h
        · cases ha
          exact h

theorem refuseIf_eq_error {p : Prop} [Decidable p] {e e' : AppError} :
    refuseIf p e = .error e' ↔ p ∧ e' = e := by
  unfold refuseIf
  split
  · rename_i hp
    rw [Except.error.injEq]
    exact ⟨fun h => ⟨hp, h.symm⟩, fun h => h.2.symm⟩
  · rename_i hp
    exact ⟨nofun, fun h => absurd h.1 hp⟩

theorem check_eq_ok {α : Type} {x : Except AppError Unit} {y : Except AppError α} {b : α} :
    (x >>= fun _ => y) = .ok b ↔ x = .ok () ∧ y = .ok b := by
  rw [bind_eq_ok]
  exact ⟨fun ⟨_, hx, hy⟩ => ⟨hx, hy⟩, fun ⟨hx, hy⟩ => ⟨(), hx, hy⟩⟩

/-! ## Fencing checks -/

/-- The `i64` that `query_scalar` reads of a `MAX`; over no rows the maximum is NULL. -/
def decodeMax : Option Int → Except AppError Int
  | some latest => .ok latest
  | none => .error (.database
      "error occurred while decoding column 0: unexpected null; try decoding as an `Option`")

def checkToken (latest : Option Int) (token : Int) : Except AppError Unit :=
  decodeMax latest >>= fun newest => refuseIf (newest > token) (.fencingMismatch token newest)

theorem checkToken_eq_ok_iff {latest : Option Int} {token : Int} :
    checkToken latest token = .ok () ↔ ∃ newest ∈ latest, newest ≤ token := by
  unfold checkToken
  rw [bind_eq_ok]
  cases latest <;> simp [decodeMax]

theorem checkToken_ne_ok_iff {latest : Option Int} {token : Int} :
    checkToken latest token ≠ .ok () ↔ ∀ newest ∈ latest, newest > token := by
  rw [Ne, checkToken_eq_ok_iff]
  push Not
  rfl

end ExternalStorage.Model
