import ExternalStorage.Model.Tables

/-!
# The snapshot backoff

The columns that migration 010 adds to `problem_usage`, and the triggers that keep them:
`track_snapshot_job_outcome` as migration 011 replaces it, and
`reset_snapshot_backoff_on_dirty`.
-/

namespace ExternalStorage.Model

open Library.Table

structure BackoffRow where
  problemId : String
  snapshotFailureCount : Int
  lastSnapshotFailedAt : Option Timestamp
  snapshotScheduleRound : Int
  deriving DecidableEq, Repr

def JobState.terminal : JobState → Bool
  | .completed | .failed | .cancelled => true
  | .pending | .running => false

/-- `text ILIKE '%pattern%'`. -/
def containsFold (text pattern : String) : Bool :=
  text.toLower.toList.tails.any fun rest => pattern.toList.isPrefixOf rest

def JobRow.permanentFailure (new : JobRow) : Bool :=
  let code := (new.errorCode.getD "").toLower
  new.state = .failed &&
    (code = "manifest_integrity" || code = "problem_folder_missing" ||
      (code = "job_failed" && containsFold (new.errorMessage.getD "") "manifest integrity error"))

def maxFailureCount : Int := 2147483647

def countOutcome (now : Timestamp) (problemId : String) (permanent : Bool)
    (rows : List BackoffRow) : List BackoffRow :=
  upsertOn BackoffRow.problemId
    ⟨problemId, if permanent then 1 else 0, if permanent then some now else none, 0⟩
    (fun b => { b with
      snapshotFailureCount :=
        if permanent then min (b.snapshotFailureCount + 1) maxFailureCount else 0
      lastSnapshotFailedAt := if permanent then some now else none })
    rows

/-- `track_snapshot_job_outcome`.  It still reads the current `dirty_version`, to lock the
problem, and does not compare it. -/
def trackSnapshotJobOutcome (now : Timestamp) (old new : JobRow) (rows : List BackoffRow) :
    List BackoffRow :=
  match new.problemId with
  | none => rows
  | some problemId =>
      if new.jobType ≠ .snapshot || new.state = old.state then
        rows
      else
        let rows :=
          if new.state.terminal then
            upsertOn BackoffRow.problemId ⟨problemId, 0, none, 1⟩
              (fun b => { b with snapshotScheduleRound := b.snapshotScheduleRound + 1 }) rows
          else
            rows
        if new.state = .completed || new.permanentFailure then
          countOutcome now problemId new.permanentFailure rows
        else
          rows

def resetSnapshotBackoffOnDirty (problemId : String) (rows : List BackoffRow) : List BackoffRow :=
  updateWhere (fun b => b.problemId = problemId)
    (fun b => { b with snapshotFailureCount := 0, lastSnapshotFailedAt := none }) rows

def markProblemDirty (now : Timestamp) (externalId : String) (problems : List ProblemRow) :
    List ProblemRow :=
  updateWhere (fun p => p.externalId = externalId)
    (fun p => { p with
      dirty := true, dirtyVersion := p.dirtyVersion + 1, stale := true, observedAt := now })
    problems

def BackoffRow.parked (now : Timestamp) (threshold interval : Int) (b : BackoffRow) : Bool :=
  threshold ≤ b.snapshotFailureCount &&
    match b.lastSnapshotFailedAt with
    | none => false
    | some t => now - interval < t

end ExternalStorage.Model
