import ExternalStorage.Model.Worker

/-!
# The code of a failed snapshot

The data plane records a code with the snapshot that it marks as failed.  The snapshot job
hands it over in the body of a `RustError` under a name that `RustError` does not read, so what
the job is failed with depends on the message alone.
-/

namespace ExternalStorage.Jobs

open ExternalStorage.Model Library Library.Table

/-! ## What is handed over -/

/-- Under what the job of a snapshot in state `error` is failed. -/
def handedOver (row : SnapshotRow) : Thrown :=
  .rust (rustError 500 (snapshotFailureBody .error (some row)))

def failureMessage (row : SnapshotRow) : String :=
  row.errorMessage.getD "snapshot state: error"

theorem infix_append_of_notMem {α : Type} {a : α} {w p m : List α} (ha : a ∉ p) :
    a :: w <:+: p ++ m ↔ a :: w <:+: m := by
  induction p with
  | nil => rfl
  | cons b p ih =>
      rw [List.mem_cons, not_or] at ha
      rw [List.cons_append, List.infix_cons_iff, List.cons_prefix_cons, ih ha.2]
      exact or_iff_right fun h => ha.1 h.1

theorem rustError_handedOver (row : SnapshotRow) :
    rustError 500 (snapshotFailureBody .error (some row)) =
      ⟨500, "Rust data plane error 500: " ++ failureMessage row, none, false, none⟩ := by
  rw [rustError, snapshotFailureBody, String.toList_ofList, Json.readObject_object]
  rfl

theorem includes_handedOver (message : String) :
    includes ("Rust data plane error 500: " ++ message) "Unsupported" =
      includes message "Unsupported" := by
  rw [includes, includes, String.toList_append, decide_eq_decide]
  exact infix_append_of_notMem (by decide)

theorem errorCode_handedOver (row : SnapshotRow) :
    (handedOver row).errorCode = errorCodeOfMessage (failureMessage row) := by
  rw [handedOver, rustError_handedOver]
  show errorCodeOfMessage _ = _
  rw [errorCodeOfMessage, includes_handedOver, errorCodeOfMessage]

theorem snapshotOutcome_error {problemId : String} {generation : Int} {first : SnapshotState}
    {polls : List (Option SnapshotRow)} (row : SnapshotRow)
    (h : awaitTerminal problemId generation first polls = .ok .error) :
    snapshotOutcome problemId generation first polls (some row) = .error (handedOver row) := by
  rw [snapshotOutcome, h]
  rfl

theorem failThrown_row {now : Timestamp} {job : JobRow} {t : Thrown} {db : Database}
    (hjob : job ∈ db.jobs)
    (hheld : controlPlaneGuard now job.id job.leaseOwner job.fencingToken job = true) :
    ∃ j ∈ ((failThrown t).run now job.id job.leaseOwner job.fencingToken db).jobs,
      j.id = job.id ∧ j.state = .failed ∧ j.errorCode = some t.errorCode ∧
        j.errorMessage = some t.message := by
  exact ⟨(failThrown t).set now job, mem_updateWhere.mpr ⟨job, hjob, (if_pos hheld).symm⟩, rfl,
    rfl, rfl, rfl⟩

/-! ## Which codes arrive -/

/-- The code is, up to case, the one that the message alone makes the job fail with. -/
def CodeOfMessage (c message : String) : Prop :=
  includes message "Unsupported" = true ∧ c.toLower = "unsupported_job" ∨
    includes message "Unsupported" = false ∧ c.toLower = "job_failed"

theorem codeOfMessage_iff {c message : String} :
    CodeOfMessage c message ↔ (errorCodeOfMessage message).toLower = c.toLower := by
  have hjob : ("job_failed" : String).toLower = "job_failed" := by decide +kernel
  have hunsupported : ("unsupported_job" : String).toLower = "unsupported_job" := by
    decide +kernel
  unfold CodeOfMessage errorCodeOfMessage
  cases includes message "Unsupported" with
  | false => simp [hjob, eq_comm]
  | true => simp [hunsupported, eq_comm]

/-- What `error_code` of `snapshot.rs` can return. -/
def dataPlaneCodes : List String :=
  ["checksum_mismatch", "file_churn", "fencing_mismatch", "r2_error", "r2_manifest_missing",
    "r2_object_missing", "manifest_integrity", "path_escape", "special_file", "internal_error"]

theorem errorCode_mem_dataPlaneCodes (e : AppError) : e.errorCode ∈ dataPlaneCodes := by
  cases e <;> simp [AppError.errorCode, dataPlaneCodes]

theorem not_codeOfMessage (e : AppError) (message : String) :
    ¬ CodeOfMessage e.errorCode message := by
  have hcodes : ∀ c ∈ dataPlaneCodes,
      c.toLower ≠ "unsupported_job" ∧ c.toLower ≠ "job_failed" := by
    decide +kernel
  have hcode := hcodes e.errorCode (errorCode_mem_dataPlaneCodes e)
  rintro (⟨-, h⟩ | ⟨-, h⟩)
  · exact hcode.1 h
  · exact hcode.2 h

theorem errorCode_of_marked {now : Timestamp} {id : Uuid} {e : AppError} {rows : List SnapshotRow}
    {row : SnapshotRow} (hrow : row ∈ markSnapshotError now id e rows) (hid : row.id = id)
    (hstate : row.state = .error) : row.errorCode = some e.errorCode := by
  obtain ⟨old, -, heq⟩ := mem_updateWhere.mp hrow
  split at heq
  · rw [heq]
  · rename_i hready
    subst heq
    rw [Bool.and_eq_true, not_and, decide_eq_true_eq, decide_eq_true_eq] at hready
    exact absurd hstate (by rw [not_not.mp (hready hid)]; exact nofun)

/-- The job that polls a snapshot in state `error` is failed under the code of the row, up to
case, exactly when that is `unsupported_job` and the message of the row has `Unsupported` in it,
or `job_failed` and it has not.  Of what the data plane marks as failed, no row is like that. -/
theorem error_code_survives_iff (problemId : String) (generation : Int) (first : SnapshotState)
    (polls : List (Option SnapshotRow)) (row : SnapshotRow) (c : String) (now : Timestamp)
    (job : JobRow) (db : Database) (hcode : row.errorCode = some c)
    (hpolled : awaitTerminal problemId generation first polls = .ok .error)
    (hjob : job ∈ db.jobs)
    (hheld : controlPlaneGuard now job.id job.leaseOwner job.fencingToken job = true) :
    (∃ t, snapshotOutcome problemId generation first polls (some row) = .error t ∧
      ∃ j ∈ ((failThrown t).run now job.id job.leaseOwner job.fencingToken db).jobs,
        j.id = job.id ∧ j.state = .failed ∧
        (j.errorCode.map String.toLower = some c.toLower ↔
          CodeOfMessage c (failureMessage row))) ∧
      ∀ (marked : Timestamp) (e : AppError) (rows : List SnapshotRow), row.state = .error →
        row ∈ markSnapshotError marked row.id e rows → ¬ CodeOfMessage c (failureMessage row) := by
  constructor
  · refine ⟨handedOver row, snapshotOutcome_error row hpolled, ?_⟩
    obtain ⟨j, hj, hid, hstate, herror, -⟩ := failThrown_row (t := handedOver row) hjob hheld
    refine ⟨j, hj, hid, hstate, ?_⟩
    rw [herror, errorCode_handedOver, Option.map_some, Option.some_inj, codeOfMessage_iff]
  · intro marked e rows hstate hrow
    obtain rfl : c = e.errorCode :=
      Option.some.inj (hcode.symm.trans (errorCode_of_marked hrow rfl hstate))
    exact not_codeOfMessage e (failureMessage row)

/-! ## An upload that failed on its manifest -/

def failedUpload : SnapshotRow :=
  ⟨1, "7", 3, .error, 0, 0, none, some "manifest_integrity",
    some "manifest integrity error: problem folder must contain init.yml", 0, some 60, none⟩

def pollingJob : JobRow where
  id := 5
  idempotencyKey := "auto-snapshot:7"
  jobType := .snapshot
  problemId := some "7"
  targetGeneration := some 3
  state := .running
  leaseOwner := some "ts-worker-1"
  leaseExpiresAt := some 100
  fencingToken := 2
  attempt := 1
  maxAttempts := 3
  result := none
  errorCode := none
  errorMessage := none
  createdAt := 0
  completedAt := none
  requestedCancelAt := none
  requestedCancelReason := none
  requestFingerprint := ""

def uploadingRow : SnapshotRow := { failedUpload with state := .uploading, errorCode := none }

/-- The worker polls the row while it is uploaded and after it has failed. -/
theorem error_code_survives_unsupported :
    ∃ t, snapshotOutcome "7" 3 .discovered [some uploadingRow, some failedUpload]
        (some { failedUpload with
          errorCode := some "Unsupported_Job", errorMessage := some "Unsupported entry" }) =
        .error t ∧
      ∃ j ∈ ((failThrown t).run 60 5 (some "ts-worker-1") 2 { jobs := [pollingJob] }).jobs,
        j.state = .failed ∧ j.errorCode.map String.toLower = some "unsupported_job" := by
  obtain ⟨t, ht, j, hj, -, hstate, hcode⟩ := (error_code_survives_iff "7" 3 .discovered
    [some uploadingRow, some failedUpload]
    { failedUpload with
      errorCode := some "Unsupported_Job", errorMessage := some "Unsupported entry" }
    "Unsupported_Job" 60 pollingJob { jobs := [pollingJob] } rfl (by decide +kernel)
    List.mem_cons_self (by decide +kernel)).1
  have hlower : ("Unsupported_Job" : String).toLower = "unsupported_job" := by decide +kernel
  refine ⟨t, ht, j, hj, hstate, ?_⟩
  rw [hcode.mpr (.inl ⟨by decide +kernel, hlower⟩), hlower]

/-- `manifest_integrity` goes in, `job_failed` comes out. -/
theorem manifest_integrity_lost :
    failedUpload ∈ markSnapshotError 60 1
        (.manifestIntegrity "problem folder must contain init.yml") [uploadingRow] ∧
      ∃ t, snapshotOutcome "7" 3 .discovered [some uploadingRow, some failedUpload]
          (some failedUpload) = .error t ∧
        (((failThrown t).run 60 5 (some "ts-worker-1") 2 { jobs := [pollingJob] }).jobs.map
          JobRow.errorCode) = [some "job_failed"] := by
  have hcode : (handedOver failedUpload).errorCode = "job_failed" := by
    rw [errorCode_handedOver]
    decide +kernel
  refine ⟨by decide +kernel, handedOver failedUpload, snapshotOutcome_error failedUpload rfl, ?_⟩
  show [some (handedOver failedUpload).errorCode] = _
  rw [hcode]

end ExternalStorage.Jobs
