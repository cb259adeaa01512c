import ExternalStorage.Library.Table
import Mathlib.Algebra.Order.Ring.Int

/-!
# The storage database

The tables of the migrations that the modelled statements read or write, each a
list of rows.  Timestamps are microseconds, `now()` is the `Timestamp` a
statement is given, and UUIDs are numbers.
-/

namespace ExternalStorage.Model

abbrev Timestamp := Int
abbrev Uuid := Nat

/-- `make_interval(days => n)` and the fixed intervals, in microseconds. -/
def microsPerSecond : Int := 1000000
def hours (n : Int) : Int := n * (3600 * microsPerSecond)
def days (n : Int) : Int := n * hours 24

inductive CatalogState where
  | present | orphan | missing | mirror | deleted
  deriving DecidableEq, Repr

inductive LocalStatus where
  | missing | present | partially | orphan
  deriving DecidableEq, Repr

inductive R2Status where
  | none | uploading | ready | error | superseded
  deriving DecidableEq, Repr

inductive SnapshotState where
  | discovered | hashing | uploading | verifying | ready | error | superseded
  deriving DecidableEq, Repr

inductive JobType where
  | scan | snapshot | restore | evict | reconcile | backfill | gcCollect | incidentCommand
  deriving DecidableEq, Repr

inductive JobState where
  | pending | running | completed | failed | cancelled
  deriving DecidableEq, Repr

inductive ObjectKind where
  | content | manifest
  deriving DecidableEq, Repr

inductive RetentionEntity where
  | jobs | auditEvents | supersededSnapshots | contentObjects | errorSnapshots
  deriving DecidableEq, Repr

/-- `problems`: the primary key is `externalId`, and `code` is unique. -/
structure ProblemRow where
  externalId : String
  code : String
  ownerOrganization : Option String
  isManuallyManaged : Bool
  mirrorOf : Option String
  mirrorRoot : Option String
  catalogState : CatalogState
  observedAt : Timestamp
  stale : Bool
  dirty : Bool
  dirtyGeneration : Option Int
  dirtyVersion : Int
  quotaBytes : Option Int
  schemaVersion : Int
  deriving DecidableEq, Repr

/-- `problem_usage`: one row per problem. -/
structure ProblemUsageRow where
  problemId : String
  logicalBytes : Int
  allocatedBytes : Int
  archiveBytes : Int
  auxiliaryBytes : Int
  fileCount : Int
  localStatus : LocalStatus
  r2Status : R2Status
  snapshotGeneration : Option Int
  orphanBytes : Int
  referencedBytes : Int
  observedAt : Timestamp
  stale : Bool
  lastAccessedAt : Option Timestamp
  deriving DecidableEq, Repr

/-- `snapshots`: the primary key is `id`, and `(problemId, generation)` is unique. -/
structure SnapshotRow where
  id : Uuid
  problemId : String
  generation : Int
  state : SnapshotState
  fileCount : Int
  totalBytes : Int
  manifestKey : Option String
  errorCode : Option String
  errorMessage : Option String
  createdAt : Timestamp
  completedAt : Option Timestamp
  supersededAt : Option Timestamp
  deriving DecidableEq, Repr

/-- `snapshot_objects`: `(snapshotId, relPath)` is unique. -/
structure SnapshotObjectRow where
  snapshotId : Uuid
  sha256 : String
  relPath : String
  sizeBytes : Int
  objectKey : String
  uploaded : Bool
  verified : Bool
  deriving DecidableEq, Repr

/-- The JSON object in `jobs.result`, by the keys the executors read: the payload
a creator attaches while the job waits. -/
structure JobPayload where
  dirtyVersion : Option Int := none
  autoPush : Option Bool := none
  dryRun : Option Bool := none
  force : Option Bool := none
  idleBefore : Option Timestamp := none
  capability : Option String := none
  limit : Option Int := none
  parentJobId : Option Uuid := none
  deriving DecidableEq, Repr

/-- `jobs`: the primary key is `id`, and `(idempotencyKey, jobType)` is unique. -/
structure JobRow where
  id : Uuid
  idempotencyKey : String
  jobType : JobType
  problemId : Option String
  targetGeneration : Option Int
  state : JobState
  leaseOwner : Option String
  leaseExpiresAt : Option Timestamp
  fencingToken : Int
  attempt : Int
  maxAttempts : Int
  result : Option JobPayload
  errorCode : Option String
  errorMessage : Option String
  createdAt : Timestamp
  completedAt : Option Timestamp
  requestedCancelAt : Option Timestamp
  requestedCancelReason : Option String
  requestFingerprint : String
  deriving DecidableEq, Repr

/-- `job_fencing_counters`, without a foreign key. -/
structure FencingCounterRow where
  problemId : String
  nextToken : Int
  deriving DecidableEq, Repr

/-- `problem_generation_counters`. -/
structure GenerationCounterRow where
  problemId : String
  nextGeneration : Int
  deriving DecidableEq, Repr

/-- `gc_marks`: `(sha256, objectKey)` is unique. -/
structure GcMarkRow where
  id : Uuid
  sha256 : String
  objectKey : String
  snapshotId : Option Uuid
  objectKind : ObjectKind
  markedAt : Timestamp
  eligibleAt : Timestamp
  collected : Bool
  collectedAt : Option Timestamp
  attempts : Int
  lastError : Option String
  deriving DecidableEq, Repr

/-- `retention_config`. -/
structure RetentionRow where
  entityType : RetentionEntity
  retentionDays : Int
  deriving DecidableEq, Repr

/-- `idempotency_keys`: `(idempotencyKey, scope)` is the primary key. -/
structure IdempotencyKeyRow where
  idempotencyKey : String
  scope : String
  actor : String
  requestFingerprint : String
  targetId : String
  responseProblemId : Option String
  deriving DecidableEq, Repr

structure Database where
  problems : List ProblemRow := []
  problemUsage : List ProblemUsageRow := []
  snapshots : List SnapshotRow := []
  snapshotObjects : List SnapshotObjectRow := []
  jobs : List JobRow := []
  jobFencingCounters : List FencingCounterRow := []
  problemGenerationCounters : List GenerationCounterRow := []
  gcMarks : List GcMarkRow := []
  retentionConfig : List RetentionRow := []
  idempotencyKeys : List IdempotencyKeyRow := []
  deriving DecidableEq, Repr

/-- `SELECT retention_days FROM retention_config WHERE entity_type = …`. -/
def Database.retentionDays (db : Database) (entity : RetentionEntity) : Option Int :=
  (db.retentionConfig.find? fun r => r.entityType = entity).map RetentionRow.retentionDays

def presentRow (externalId code : String) : ProblemRow where
  externalId := externalId
  code := code
  ownerOrganization := none
  isManuallyManaged := true
  mirrorOf := none
  mirrorRoot := none
  catalogState := .present
  observedAt := 0
  stale := false
  dirty := false
  dirtyGeneration := none
  dirtyVersion := 0
  quotaBytes := none
  schemaVersion := 1

def heldJob (id : Uuid) (key : String) (jobType : JobType) (problemId : Option String)
    (token : Int) : JobRow where
  id := id
  idempotencyKey := key
  jobType := jobType
  problemId := problemId
  targetGeneration := none
  state := .running
  leaseOwner := some "worker-1"
  leaseExpiresAt := some (hours 1)
  fencingToken := token
  attempt := 1
  maxAttempts := 3
  result := none
  errorCode := none
  errorMessage := none
  createdAt := 0
  completedAt := none
  requestedCancelAt := none
  requestedCancelReason := none
  requestFingerprint := ""

def finishedJob (id : Uuid) (key : String) (jobType : JobType) (problemId : Option String)
    (token : Int) (completedAt : Timestamp) : JobRow :=
  { heldJob id key jobType problemId token with
    state := .completed, leaseOwner := none, leaseExpiresAt := none
    completedAt := some completedAt }

/-- `SELECT MAX(fencing_token) FROM jobs WHERE problem_id = $1`. -/
def latestFencingToken (jobs : List JobRow) (problemId : String) : Option Int :=
  Library.Table.maxWhere (fun j => j.problemId = some problemId) JobRow.fencingToken jobs

end ExternalStorage.Model
