import ExternalStorage.Library.Loops
import ExternalStorage.Model.ObjectKeys
import ExternalStorage.Model.Retention

/-!
# The jobs of the collector

`gcCollect` of `worker.ts` over the marks that are due, and `delete_object`, which looks at
the key before it locks it.
-/

namespace ExternalStorage.Model

open Library

structure GcJob where
  now : Timestamp
  /-- At most 500; a lease that is lost ends the loop as a smaller limit would. -/
  limit : Nat
  /-- `delete_object_while_locked`. -/
  whileLocked : String → Except AppError Bool
  /-- `errorMessage`, also for a request that broke off. -/
  errorMessage : Option AppError → String

/-- `delete_object`, where `none` is a panic of the data plane. -/
def deleteObject? (whileLocked : String → Except AppError Bool) (objectKey : String) :
    Option (Except AppError Bool) :=
  (validateManagedObjectKey? objectKey).map fun check => check >>= fun _ => whileLocked objectKey

def listGcEligible (now : Timestamp) (limit : Nat) (db : Database) : List GcMarkRow :=
  ((db.gcMarks.filter (gcEligible db now)).mergeSort fun m n =>
    m.eligibleAt < n.eligibleAt || (m.eligibleAt = n.eligibleAt && m.id ≤ n.id)).take limit

/-- One turn of the loop of `gcCollect`; its error is the one that is thrown again. -/
def gcCollectMark (job : GcJob) (db : Database) (m : GcMarkRow) :
    Database × Except (Option AppError) Unit :=
  match deleteObject? job.whileLocked m.objectKey with
  | some (.ok _) => ({ db with gcMarks := markGcCollected job.now [m.id] db.gcMarks }, .ok ())
  | some (.error (.objectLiveReference key)) =>
      ({ db with
          gcMarks := deferGcMark job.now (db.retentionDays .contentObjects) m.id
            (job.errorMessage (some (.objectLiveReference key))) db.gcMarks }, .ok ())
  | some (.error e) =>
      ({ db with
          gcMarks := recordGcFailure job.now m.id (job.errorMessage (some e)) db.gcMarks },
        .error (some e))
  | none =>
      ({ db with gcMarks := recordGcFailure job.now m.id (job.errorMessage none) db.gcMarks },
        .error none)

def gcCollect (job : GcJob) (db : Database) : Database × Except (Option AppError) Unit :=
  Loops.tryEach (gcCollectMark job) db (listGcEligible job.now job.limit db)

def gcCollectAll (jobs : List GcJob) (db : Database) : Database :=
  jobs.foldl (fun db job => (gcCollect job db).1) db

end ExternalStorage.Model
