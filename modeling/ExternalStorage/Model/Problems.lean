import ExternalStorage.Model.Usage
import ExternalStorage.Model.Jobs

/-!
# Statements on problems

What either program writes into `problems` outside the catalog writes, the dirty
notification and the final CAS.
-/

namespace ExternalStorage.Model

open Library.Table

def CatalogState.listed : CatalogState → Bool
  | .present | .mirror => true
  | .orphan | .missing | .deleted => false

def hasReady (problemId : String) (snapshots : List SnapshotRow) : Bool :=
  snapshots.any fun s => s.problemId = problemId && s.state = .ready

/-! ## The control plane -/

/-- The `WHERE` clause of `clearDirtyForMissingLocal`. -/
def dirtyWithoutCopy (db : Database) (p : ProblemRow) : Bool :=
  (db.problemUsage.any fun u => u.problemId = p.externalId && u.localStatus = .missing) &&
    p.dirty && p.catalogState.listed && !hasReady p.externalId db.snapshots

def clearDirtyForMissingLocal (now : Timestamp) (db : Database) : Database :=
  { db with
    problems := updateWhere (dirtyWithoutCopy db)
      (fun p => { p with dirty := false, dirtyGeneration := none, stale := false, observedAt := now })
      db.problems }

/-- The `WHERE` clause of `markDirtyIfNoReady`. -/
def cleanWithoutReady (db : Database) (externalId : String) (p : ProblemRow) : Bool :=
  p.externalId = externalId && !p.dirty && p.catalogState.listed &&
    !hasReady p.externalId db.snapshots

/-- `markDirtyIfNoReady`, with the row it returns.  It keeps the dirty version: a recovery is
no new edit. -/
def markDirtyIfNoReady (now : Timestamp) (externalId : String) (db : Database) :
    Database × Option ProblemRow :=
  if db.problems.any (cleanWithoutReady db externalId) then
    let marked := updateWhere (cleanWithoutReady db externalId)
      (fun p => { p with dirty := true, dirtyGeneration := none, stale := true, observedAt := now })
      db.problems
    let (counters, generation) := allocateGeneration externalId db.problemGenerationCounters
    let problems := updateWhere (fun p => p.externalId = externalId && p.dirty)
      (fun p => { p with dirtyGeneration := some generation }) marked
    ({ db with problemGenerationCounters := counters, problems := problems },
      problems.find? fun p => p.externalId = externalId && p.dirty)
  else
    (db, none)

/-! ## The data plane -/

namespace DataPlane

/-- `upsert_problem`: an orphan gives way to any row with its id or its code.  It has no
quota and no schema version. -/
def upsertProblem (now : Timestamp) (e : CatalogEntry) (state : CatalogState) (db : Database) :
    Except CatalogError Database :=
  let row := catalogRow now { e with quotaBytes := none, schemaVersion := 1 } state
  if state = .orphan then
    if db.problems.any fun p => p.externalId = e.externalId || p.code = e.code then .ok db
    else .ok { db with problems := db.problems ++ [row] }
  else if codeTaken e db.problems then
    .error .duplicateKey
  else
    .ok { db with
      problems := upsertOn ProblemRow.externalId row
        (fun p => { p with
          code := e.code, ownerOrganization := e.ownerOrganization
          isManuallyManaged := e.isManuallyManaged, mirrorOf := e.mirrorOf
          mirrorRoot := e.mirrorRoot, catalogState := state, observedAt := now, stale := false })
        db.problems }

/-- The first statement of `remove_orphan_projection_for_code`.  It does not look at the
state of the problem. -/
def deleteOrphanUsage (code : String) (db : Database) : Database :=
  { db with problemUsage := deleteWhere (fun u => u.problemId = orphanId code) db.problemUsage }

/-- The second statement, with the `ON DELETE CASCADE` of the schema. -/
def deleteOrphanProblem (code : String) (db : Database) : Option Database :=
  let id := orphanId code
  if db.problems.any fun p => p.externalId = id && p.catalogState = .orphan then
    if referenced id db then
      none
    else
      some { db with
        problems := deleteWhere (fun p => p.externalId = id && p.catalogState = .orphan) db.problems
        problemUsage := deleteWhere (fun u => u.problemId = id) db.problemUsage
        snapshots := deleteWhere (fun s => s.problemId = id) db.snapshots
        snapshotObjects := deleteWhere
          (fun o => db.snapshots.any fun s => s.id = o.snapshotId && s.problemId = id)
          db.snapshotObjects
        jobs := deleteWhere (fun j => j.problemId = some id) db.jobs
        problemGenerationCounters := deleteWhere (fun c => c.problemId = id)
          db.problemGenerationCounters }
  else
    some db

end DataPlane

end ExternalStorage.Model
