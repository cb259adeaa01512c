import ExternalStorage.Library.Batches
import ExternalStorage.Library.Json
import ExternalStorage.Library.Paging
import ExternalStorage.Model.Backoff
import ExternalStorage.Model.Keys
import ExternalStorage.Model.Leases
import ExternalStorage.Model.Problems
import Mathlib.Data.Prod.Lex

/-!
# Scheduling backups

`scheduleAutoSnapshotJobs` and its two callers, the batch of `maintenance.ts` and the last
loop of the reconcile route.  A call runs alone, at one time.
-/

namespace ExternalStorage.Model

open Library Library.Table Library.Batches Library.Texts

/-- What a call of the scheduler reads and does not write. -/
structure ScheduleContext where
  now : Timestamp
  /-- `maintenanceConfig()`. -/
  permanentFailureThreshold : Int
  snapshotBackoffIntervalMs : Int
  /-- The columns of `problem_usage` that migration 010 adds. -/
  backoff : List BackoffRow
  /-- `gen_random_uuid()`. -/
  newId : List JobRow → Uuid

def ScheduleContext.backoffOf (c : ScheduleContext) (problemId : String) : Option BackoffRow :=
  c.backoff.find? fun b => b.problemId = problemId

/-- `snapshot_schedule_round`, `'0'` without a row. -/
def ScheduleContext.round (c : ScheduleContext) (problemId : String) : Int :=
  ((c.backoffOf problemId).map BackoffRow.snapshotScheduleRound).getD 0

def ScheduleContext.parked (c : ScheduleContext) (problemId : String) : Bool :=
  (c.backoffOf problemId).any
    (BackoffRow.parked c.now c.permanentFailureThreshold (c.snapshotBackoffIntervalMs * 1000))

/-! ## `scheduleAutoSnapshotJobs` -/

def roundText (round : Int) : String := "v2-" ++ toString round

def autoKey (kind externalId : String) (dirtyVersion round : Int) : String :=
  kind ++ externalId ++ ":" ++ toString dirtyVersion ++ ":" ++ roundText round

def autoScanRequest (p : ProblemRow) (round : Int) : JobRequest where
  idempotencyKey := autoKey "auto-scan:" p.externalId p.dirtyVersion round
  jobType := .scan
  problemId := some p.externalId
  targetGeneration := none
  fingerprint := String.ofList (Json.object
    [("action", .str "auto-scan"), ("dirty_version", .num p.dirtyVersion),
      ("external_id", .str p.externalId), ("round", .str (roundText round))])

def autoSnapshotRequest (p : ProblemRow) (generation round : Int) : JobRequest where
  idempotencyKey := autoKey "auto-snapshot:" p.externalId p.dirtyVersion round
  jobType := .snapshot
  problemId := some p.externalId
  targetGeneration := some generation
  fingerprint := String.ofList (Json.object
    [("action", .str "auto-snapshot"), ("dirty_version", .num p.dirtyVersion),
      ("external_id", .str p.externalId), ("generation", .num generation),
      ("round", .str (roundText round))])

structure ScheduledJobs where
  scanJobId : Uuid
  snapshotJobId : Uuid
  deriving DecidableEq, Repr

/-- `problem.dirty_generation ?? await allocateGeneration(pool, problem.external_id)`. -/
def dirtyGenerationOf (p : ProblemRow) (db : Database) : Database × Int :=
  match p.dirtyGeneration with
  | some generation => (db, generation)
  | none =>
      let (counters, generation) := allocateGeneration p.externalId db.problemGenerationCounters
      ({ db with problemGenerationCounters := counters }, generation)

/-- The second of the two jobs, with its payload. -/
def createAutoSnapshot (c : ScheduleContext) (p : ProblemRow) (generation : Int) (scan : JobRow)
    (db : Database) : Database × Except CreateJobError (Option ScheduledJobs) :=
  match createJob c.now (c.newId db.jobs)
      (autoSnapshotRequest p generation (c.round p.externalId)) db with
  | .error e => (db, .error e)
  | .ok (db, snapshot) =>
      (setJobPayload snapshot.id
        { dirtyVersion := some p.dirtyVersion, autoPush := some true } db,
        .ok (some ⟨scan.id, snapshot.id⟩))

/-- The two jobs; when the second request throws, the first job stays. -/
def createAutoJobs (c : ScheduleContext) (p : ProblemRow) (generation : Int) (db : Database) :
    Database × Except CreateJobError (Option ScheduledJobs) :=
  match createJob c.now (c.newId db.jobs) (autoScanRequest p (c.round p.externalId)) db with
  | .error e => (db, .error e)
  | .ok (db, scan) => createAutoSnapshot c p generation scan db

def scheduleAutoSnapshotJobs (c : ScheduleContext) (p : ProblemRow) (db : Database) :
    Database × Except CreateJobError (Option ScheduledJobs) :=
  if !p.dirty then (db, .ok none)
  else if c.parked p.externalId then (db, .ok none)
  else
    let (db, generation) := dirtyGenerationOf p db
    createAutoJobs c p generation db

/-! ## Its callers -/

/-- `problem.dirty ? problem : await markDirtyIfNoReady(…) ?? problem`, and the jobs. -/
def scheduleProblem (c : ScheduleContext) (p : ProblemRow) (db : Database) :
    Database × Except CreateJobError (Option ScheduledJobs) :=
  if p.dirty then
    scheduleAutoSnapshotJobs c p db
  else
    let (marked, dirty) := markDirtyIfNoReady c.now p.externalId db
    scheduleAutoSnapshotJobs c (dirty.getD p) marked

/-- The `WHERE` clause of `scheduleDirtySnapshotBatch`, on the rows it joins. -/
def batchSelects (c : ScheduleContext) (db : Database) (p : ProblemRow) : Bool :=
  p.catalogState.listed &&
    (db.problemUsage.any fun u => u.problemId = p.externalId && u.localStatus = .present) &&
    (match c.backoffOf p.externalId with
      | none => true
      | some b =>
          decide (b.snapshotFailureCount < c.permanentFailureThreshold) ||
            (match b.lastSnapshotFailedAt with
              | none => true
              | some t => decide (t ≤ c.now - c.snapshotBackoffIntervalMs * 1000))) &&
    (p.dirty || !hasReady p.externalId db.snapshots)

section Batch

variable {κ : Type*} [LinearOrder κ] (collate : String → κ)

/-- `ORDER BY p.observed_at ASC, p.external_id ASC`. -/
def batchKey (p : ProblemRow) : Timestamp ×ₗ κ := toLex (p.observedAt, collate p.externalId)

/-- The rows of the `SELECT`. -/
def batchRows (c : ScheduleContext) (limit : Nat) (db : Database) : List ProblemRow :=
  (Paging.inOrder (batchKey collate) (db.problems.filter (batchSelects c db))).take limit

/-- `err instanceof ProblemOperationConflictError`. -/
def CreateJobError.isOperationConflict : CreateJobError → Bool
  | .problemOperationConflict _ => true
  | _ => false

def scheduleDirtySnapshotBatch (c : ScheduleContext) (limit : Nat) (db : Database) :
    Batch ProblemRow Database CreateJobError (Option ScheduledJobs) :=
  forEach CreateJobError.isOperationConflict (fun db p => scheduleProblem c p db) db
    (batchRows collate c limit db)

end Batch

/-- What the last loop of the reconcile route reads of a problem of the body. -/
structure ListedProblem where
  externalId : String
  deleted : Bool
  deriving DecidableEq, Repr

/-- The body of the loop; `continue` is a turn that returns nothing. -/
def reconcileTurn (c : ScheduleContext) (db : Database) (catalog : ListedProblem) :
    Database × Except CreateJobError (Option ScheduledJobs) :=
  if catalog.deleted then (db, .ok none)
  else
    match db.problemUsage.find? fun u => u.problemId = catalog.externalId with
    | none => (db, .ok none)
    | some usage =>
        if usage.localStatus ≠ .present then (db, .ok none)
        else
          match db.problems.find? fun p => p.externalId = catalog.externalId with
          | none => (db, .ok none)
          | some p => scheduleProblem c p db

/-- The last loop of `POST /api/v1/catalog/problems:reconcile`, in the `try` of the route. -/
def scheduleReconciled (c : ScheduleContext) (problems : List ListedProblem) (db : Database) :
    Batch ListedProblem Database CreateJobError (Option ScheduledJobs) :=
  forEach (fun _ => false) (reconcileTurn c) db problems

/-! ## The keys -/

theorem colon_notMem_roundText (round : Int) : ':' ∉ (roundText round).toList := by
  rw [roundText, String.toList_append, List.mem_append, not_or]
  exact ⟨by decide, notMem_toString rfl (by decide) round⟩

theorem roundText_injective {round round' : Int} (h : roundText round = roundText round') :
    round = round' := by
  have hlist := congrArg String.toList h
  rw [roundText, roundText, String.toList_append, String.toList_append] at hlist
  exact toString_int_injective (String.toList_injective (List.append_cancel_left hlist))

theorem autoKey_injective {kind p q : String} {v w round round' : Int}
    (h : autoKey kind p v round = autoKey kind q w round') : p = q ∧ v = w ∧ round = round' := by
  have hlist := congrArg String.toList h
  simp only [autoKey, String.toList_append, String.reduceToList, List.append_assoc,
    List.cons_append, List.nil_append] at hlist
  have hbody := List.append_cancel_left hlist
  have hround : (p.toList ++ ':' :: (toString v).toList) ++ ':' :: (roundText round).toList =
      (q.toList ++ ':' :: (toString w).toList) ++ ':' :: (roundText round').toList := by
    rw [List.append_assoc, List.append_assoc]
    exact hbody
  obtain ⟨hproblem, hround⟩ :=
    split_last (colon_notMem_roundText round) (colon_notMem_roundText round') hround
  obtain ⟨hid, hversion⟩ := split_last (notMem_toString rfl (by decide) v)
    (notMem_toString rfl (by decide) w) hproblem
  exact ⟨String.toList_injective hid, toString_int_injective (String.toList_injective hversion),
    roundText_injective (String.toList_injective hround)⟩

/-- The keys of the two kinds of jobs are told apart by their first letters. -/
theorem autoKey_scan_ne_snapshot {p q : String} {v w round round' : Int} :
    autoKey "auto-scan:" p v round ≠ autoKey "auto-snapshot:" q w round' := by
  intro h
  have hlist := congrArg String.toList h
  simp [autoKey] at hlist

end ExternalStorage.Model
