import ExternalStorage.Model.Leases
import ExternalStorage.Model.Usage

/-!
# Claiming a restore

`createRestoreJobIfMissing`, first each of its statements and then the transaction when
nothing comes between them.
-/

namespace ExternalStorage.Model

open Library.Table

/-- The argument `opts`; `missingObservedAt` is when the folder was found missing. -/
structure RestoreClaim where
  idempotencyKey : String
  problemId : String
  targetGeneration : Int
  requestFingerprint : String
  missingObservedAt : Timestamp
  deriving DecidableEq, Repr

/-- What it hands to `createJob`. -/
def RestoreClaim.request (q : RestoreClaim) : JobRequest :=
  ⟨q.idempotencyKey, .restore, some q.problemId, some q.targetGeneration, q.requestFingerprint⟩

def RestoreClaim.replay (q : RestoreClaim) (jobs : List JobRow) : Option JobRow :=
  jobs.find? fun j => j.idempotencyKey = q.idempotencyKey && j.jobType = .restore

def RestoreClaim.repeats (q : RestoreClaim) (j : JobRow) : Bool :=
  sameTarget q.request j && j.requestFingerprint = q.requestFingerprint

def RestoreClaim.joins (q : RestoreClaim) (j : JobRow) : Bool :=
  j.problemId = some q.problemId && j.jobType = .restore &&
    j.targetGeneration = some q.targetGeneration && j.state.active

/-- `ORDER BY created_at ASC, id ASC LIMIT 1`. -/
def RestoreClaim.active (q : RestoreClaim) (jobs : List JobRow) : Option JobRow :=
  firstBy (fun j k => j.createdAt < k.createdAt || (j.createdAt = k.createdAt && j.id < k.id))
    (jobs.filter q.joins)

def pendingLocal (problemId : String) (j : JobRow) : Bool :=
  j.problemId = some problemId && (j.jobType = .scan || j.jobType = .snapshot) &&
    j.state = .pending

/-- The `SET` clause that cancels them. -/
def supersededByRestore (now : Timestamp) (j : JobRow) : JobRow :=
  { j with
    state := .cancelled, completedAt := some now
    errorCode := some "superseded_by_restore"
    errorMessage := some "cancelled: local folder missing, restore takes over" }

theorem cancelPendingLocalJobsForRestore_eq (now : Timestamp) (problemId : String)
    (db : Database) :
    cancelPendingLocalJobsForRestore now problemId db =
      { db with jobs := updateWhere (pendingLocal problemId) (supersededByRestore now) db.jobs } :=
  rfl

theorem RestoreClaim.replay_eq_none {q : RestoreClaim} {jobs : List JobRow} :
    q.replay jobs = none ↔
      ∀ j ∈ jobs, ¬ (j.idempotencyKey = q.idempotencyKey ∧ j.jobType = .restore) := by
  unfold RestoreClaim.replay
  rw [List.find?_eq_none]
  simp only [Bool.and_eq_true, decide_eq_true_eq]

theorem RestoreClaim.active_eq_none {q : RestoreClaim} {jobs : List JobRow} :
    q.active jobs = none ↔ ∀ j ∈ jobs, q.joins j = false := by
  unfold RestoreClaim.active
  rw [firstBy_eq_none, List.filter_eq_nil_iff]
  simp only [Bool.not_eq_true]

theorem RestoreClaim.joins_iff {q : RestoreClaim} {j : JobRow} :
    q.joins j = true ↔ j.problemId = some q.problemId ∧ j.jobType = .restore ∧
      j.targetGeneration = some q.targetGeneration ∧ j.state.active = true := by
  simp only [joins, Bool.and_eq_true, decide_eq_true_eq, and_assoc]

theorem RestoreClaim.activeFor_eq_none {q : RestoreClaim} {jobs : List JobRow}
    (h : ∀ j ∈ jobs, q.joins j = false) : activeFor q.request jobs = none := by
  unfold activeFor
  rw [firstBy_eq_none, List.filter_eq_nil_iff]
  intro j hj hactive
  simp only [Bool.and_eq_true, sameTarget, decide_eq_true_eq] at hactive
  obtain ⟨⟨⟨htype, hproblem, hgeneration⟩, -⟩, hstate⟩ := hactive
  have hjoins := h j hj
  rw [RestoreClaim.joins_iff.mpr ⟨hproblem, htype, hgeneration, hstate⟩] at hjoins
  cases hjoins

theorem pendingLocal_iff {problemId : String} {j : JobRow} :
    pendingLocal problemId j = true ↔ j.problemId = some problemId ∧
      (j.jobType = .scan ∨ j.jobType = .snapshot) ∧ j.state = .pending := by
  simp only [pendingLocal, Bool.and_eq_true, Bool.or_eq_true, decide_eq_true_eq, and_assoc]

/-- What the call returns: `{ ready: true }`, or a job. -/
inductive RestoreAnswer where
  | ready
  | job (id : Uuid)
  deriving DecidableEq, Repr

/-- The last statements: the row says `missing`, and the job is created. -/
def RestoreClaim.create (q : RestoreClaim) (now : Timestamp) (id : Uuid) (db : Database) :
    Except CreateJobError (Database × RestoreAnswer) :=
  (createJob now id q.request { db with
    problemUsage := markMissingForRestore q.problemId q.missingObservedAt db.problemUsage }).map
      fun r => (r.1, .job r.2.id)

/-- `createRestoreJobIfMissing`; `now` is the start of its transaction, `id` the key that a
new job gets.  An error rolls the transaction back. -/
def createRestoreJobIfMissing (now : Timestamp) (id : Uuid) (q : RestoreClaim) (db : Database) :
    Except CreateJobError (Database × RestoreAnswer) :=
  match q.replay db.jobs with
  | some j => if q.repeats j then .ok (db, .job j.id) else .error .idempotencyConflict
  | none =>
      match q.active db.jobs with
      | some j => .ok (db, .job j.id)
      | none =>
          let cancelled := cancelPendingLocalJobsForRestore now q.problemId db
          if presentSince q.problemId q.missingObservedAt db.problemUsage then
            .ok (cancelled, .ready)
          else
            q.create now id cancelled

end ExternalStorage.Model
