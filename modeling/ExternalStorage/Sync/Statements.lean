import ExternalStorage.Model.Backoff
import ExternalStorage.Model.Leases
import ExternalStorage.Model.Problems
import ExternalStorage.Model.Publication

/-!
# The statements on problems and their usage

Every statement of the two programs that writes into `problems` or `problem_usage`, and
what it commits.
-/

namespace ExternalStorage.Sync

open ExternalStorage.Model

inductive Write where
  | upsertProblem (e : CatalogEntry)
  | markMissingOutsideCatalog (externalIds : List String)
  | clearDirtyForMissingLocal
  | markProblemDirty (externalId : String)
  | markDirtyIfNoReady (externalId : String)
  | markProblemDirtyIdempotent (idempotencyKey actor fingerprint : String) (e : CatalogEntry)
      (deleted : Bool)
  | clearDirtyAfterSnapshotForJob (externalId : String) (generation : Int)
      (dirtyVersion : Option Int)
  | upsertProblemUsage (externalId : String) (usage : UsageUpdate)
  | markLocalPresentForJob (externalId : String) (generation : Option Int)
  | createRestoreJobIfMissing (problemId : String) (missingObservedAt : Timestamp)
  | touchProblemAccess (problemId : String)
  /-- The triggers on jobs, which insert a missing row. -/
  | trackSnapshotJob (problemId : String)
  | finalizeSnapshotCas (a : FinalizeArgs)
  | acquireDirtySnapshotJobByCode (code owner : String) (leaseSeconds : Int) (id : Uuid)
      (millis : Int)
  /-- `upsert_problem` of the data plane, whose statements follow. -/
  | scannedProblem (e : CatalogEntry) (state : CatalogState)
  | deleteOrphanUsage (code : String)
  | deleteOrphanProblem (code : String)
  | upsertDiscoveredUsage (code : String) (scan : ScanResult)
  /-- `upsert_problem_usage` of the data plane. -/
  | scannedUsage (problemId : String) (scan : ScanResult) (localStatus : LocalStatus)
  | upsertMissingUsage (problemId : String)
  | markStale (code : String)
  | markLocalMissingByCode (code : String)
  | healUsageReadyProjection
  | markLocalVerified (problemId : String) (generation : Int)
  | evictLocal (q : EvictRequest) (scan : ScanResult)
  | restoreSnapshot (q : RestoreRequest) (folder : Option ScanResult)
  /-- A statement on the other tables. -/
  | elsewhere (db : Database)
  deriving DecidableEq, Repr

/-- What a write commits whose transaction has begun at `now`. -/
def Write.run (now : Timestamp) (db : Database) : Write → Option Database
  | .upsertProblem e => (Model.upsertProblem now e db).toOption
  | .markMissingOutsideCatalog externalIds =>
      some (Model.markMissingOutsideCatalog now externalIds db)
  | .clearDirtyForMissingLocal => some (Model.clearDirtyForMissingLocal now db)
  | .markProblemDirty externalId =>
      some { db with problems := Model.markProblemDirty now externalId db.problems }
  | .markDirtyIfNoReady externalId => some (Model.markDirtyIfNoReady now externalId db).1
  | .markProblemDirtyIdempotent idempotencyKey actor fingerprint e deleted =>
      ((Model.markProblemDirtyIdempotent now idempotencyKey actor fingerprint e deleted
        db).toOption).map Prod.fst
  | .clearDirtyAfterSnapshotForJob externalId generation dirtyVersion =>
      match dirtyVersion with
      | none => some db
      | some _ =>
          some { db with
            problems := clearDirtyAfterSnapshot now externalId generation dirtyVersion
              db.problems }
  | .upsertProblemUsage externalId usage =>
      some { db with
        problemUsage := Model.upsertProblemUsage now externalId usage db.problemUsage }
  | .markLocalPresentForJob externalId generation =>
      some { db with
        problemUsage := markLocalPresent now externalId generation db.problemUsage }
  | .createRestoreJobIfMissing problemId missingObservedAt =>
      some { db with
        problemUsage :=
          if presentSince problemId missingObservedAt db.problemUsage then db.problemUsage
          else markMissingForRestore problemId missingObservedAt db.problemUsage }
  | .touchProblemAccess problemId => some (Model.touchProblemAccess now problemId db)
  | .trackSnapshotJob problemId =>
      some { db with problemUsage := trackedUsage now problemId db.problemUsage }
  | .finalizeSnapshotCas a => (Model.finalizeSnapshotCas now a db).toOption
  | .acquireDirtySnapshotJobByCode code owner leaseSeconds id millis =>
      ((Model.acquireDirtySnapshotJobByCode now code owner leaseSeconds id millis
        db).toOption).map Prod.fst
  | .scannedProblem e state => (DataPlane.upsertProblem now e state db).toOption
  | .deleteOrphanUsage code => some (DataPlane.deleteOrphanUsage code db)
  | .deleteOrphanProblem code => DataPlane.deleteOrphanProblem code db
  | .upsertDiscoveredUsage code scan => some (DataPlane.upsertDiscoveredUsage now code scan db)
  | .scannedUsage problemId scan localStatus =>
      some { db with
        problemUsage := DataPlane.upsertProblemUsage now problemId scan localStatus
          db.problemUsage }
  | .upsertMissingUsage problemId =>
      some { db with problemUsage := DataPlane.upsertMissingUsage now problemId db }
  | .markStale code => some (DataPlane.markStale code db)
  | .markLocalMissingByCode code => some (DataPlane.markLocalMissingByCode now code db)
  | .healUsageReadyProjection => some (DataPlane.healUsageReadyProjection now db)
  | .markLocalVerified problemId generation =>
      some { db with
        problemUsage := DataPlane.markLocalVerified now problemId generation db.problemUsage }
  | .evictLocal q scan =>
      ((evictAdmitted db q scan).toOption).map fun generation => evicted now q generation db
  | .restoreSnapshot q folder =>
      ((restoreAdmitted db q folder).toOption).map fun _ => restored now q db
  | .elsewhere other =>
      some { other with problems := db.problems, problemUsage := db.problemUsage }

end ExternalStorage.Sync
