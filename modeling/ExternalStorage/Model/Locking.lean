import ExternalStorage.Library.Locks
import ExternalStorage.Model.Backoff
import ExternalStorage.Model.Catalog
import ExternalStorage.Model.Snapshots

/-!
# The locks of a problem

The locks that `finalize_snapshot_cas`, `markProblemDirtyIdempotent`, the watcher's
transaction and the statements that end jobs take, in the order of their statements and
of the triggers of migrations 010 and 011 behind them.
-/

namespace ExternalStorage.Model

inductive Lock where
  /-- `pg_advisory_xact_lock(hashtextextended(problem_id, 2907))`. -/
  | operation (problemId : String)
  /-- `pg_advisory_xact_lock(hashtextextended(code, 0))`. -/
  | folder (code : String)
  /-- The row of `problems`, of `problem_usage`. -/
  | problems (externalId : String)
  | problemUsage (problemId : String)
  deriving DecidableEq, Repr

def Lock.row : Lock → Option String
  | .problems id | .problemUsage id => some id
  | .operation _ | .folder _ => none

inductive Transaction where
  /-- `finalize_snapshot_cas`. -/
  | finalize (problemId : String) (generation : Int) (expectedDirtyVersion : Option Int)
  /-- `markProblemDirtyIdempotent` on a problem of the catalog. -/
  | notify (idempotencyKey : String) (e : CatalogEntry) (deleted : Bool)
  /-- `acquire_dirty_snapshot_job_by_code`. -/
  | watch (code : String)
  /-- A statement that changes the state of jobs: the rows it updates, old and new. -/
  | finish (rows : List (JobRow × JobRow))

/-- `UPDATE problem_usage … WHERE problem_id = $1`. -/
def usageLock (db : Database) (problemId : String) : List Lock :=
  if db.problemUsage.any fun u => u.problemId = problemId then [.problemUsage problemId] else []

/-- The last `UPDATE` of `finalize_snapshot_cas`; a row that its `WHERE` turns down is not
locked. -/
def dirtyClearLock (db : Database) (problemId : String) (generation : Int)
    (expectedDirtyVersion : Option Int) : List Lock :=
  if db.problems.any fun p => p.externalId = problemId && shouldClearDirtyAfterSnapshot p.dirty
      p.dirtyGeneration p.dirtyVersion generation expectedDirtyVersion then
    [.problems problemId]
  else
    []

def finalizeLocks (db : Database) (problemId : String) (generation : Int)
    (expectedDirtyVersion : Option Int) : List Lock :=
  .operation problemId ::
    match db.problemUsage.find? fun u => u.problemId = problemId with
    | none => []
    | some u => .problemUsage problemId ::
        -- `current >= generation` is an error.
        if usageBehind problemId generation u then
          dirtyClearLock db problemId generation expectedDirtyVersion
        else
          []

/-- What follows the idempotency key: the upsert with its trigger, which does not fire for
a tombstone. -/
def mutationLocks (db : Database) (e : CatalogEntry) (deleted : Bool) : List Lock :=
  .problems e.externalId :: if deleted then [] else usageLock db e.externalId

def notifyLocks (db : Database) (idempotencyKey : String) (e : CatalogEntry) (deleted : Bool) :
    List Lock :=
  let replayed := db.idempotencyKeys.any fun k =>
    k.idempotencyKey = idempotencyKey && k.scope = "problem.dirty"
  let mutation := if replayed then [] else mutationLocks db e deleted
  .folder e.code ::
    match db.problems.find? fun p => p.code = e.code with
    | none => mutation
    | some owner => .problems owner.externalId ::
        -- The code of another problem is an error.
        if owner.externalId = e.externalId then mutation else []

/-- The CTE `dirty` with its trigger, and the advisory lock that the transaction takes after
it. -/
def watchLocks (db : Database) (code : String) : List Lock :=
  match db.problems.find? fun p => p.code = code &&
      (p.catalogState = .present || p.catalogState = .mirror) with
  | none => []
  | some p =>
      .problems p.externalId :: (usageLock db p.externalId ++ [.operation p.externalId])

/-- The locks of `track_snapshot_job_outcome`. -/
def outcomeLocks (old new : JobRow) : List Lock :=
  match new.problemId with
  | none => []
  | some problemId =>
      if new.jobType = .snapshot && new.state ≠ old.state && new.state.terminal then
        [.problems problemId, .problemUsage problemId]
      else
        []

def locks (db : Database) : Transaction → List Lock
  | .finalize problemId generation expectedDirtyVersion =>
      finalizeLocks db problemId generation expectedDirtyVersion
  | .notify idempotencyKey e deleted => notifyLocks db idempotencyKey e deleted
  | .watch code => watchLocks db code
  | .finish rows => rows.flatMap fun r => outcomeLocks r.1 r.2

end ExternalStorage.Model
