import ExternalStorage.Model.Backoff
import ExternalStorage.Model.Errors
import ExternalStorage.Model.Tables

/-!
# Retention and garbage collection statements

Rows outlive their protection: `applyRetention` prunes and marks them, and the
collector deletes an object only after it has seen no protected reference to it.
-/

namespace ExternalStorage.Model

open Library.Table

/-! ## Protection -/

/-- `t >= now() - make_interval(days => n)`, where `NULL` on either side is not true. -/
def withinDays (now : Timestamp) (retention : Option Int) (t : Option Timestamp) : Bool :=
  match retention, t with
  | some n, some t => t ≥ now - days n
  | _, _ => false

/-- `snapshot_is_gc_protected` of migration 008. -/
def snapshotIsGcProtected (db : Database) (now : Timestamp) (s : SnapshotRow) : Bool :=
  match s.state with
  | .discovered | .hashing | .uploading | .verifying | .ready => true
  | .superseded => withinDays now (db.retentionDays .supersededSnapshots) s.supersededAt
  | .error => withinDays now (db.retentionDays .errorSnapshots) s.completedAt

def hasContentRef (db : Database) (now : Timestamp) (key : String) : Bool :=
  db.snapshotObjects.any fun o => o.objectKey = key &&
    db.snapshots.any fun s => s.id = o.snapshotId && snapshotIsGcProtected db now s

def hasManifestRef (db : Database) (now : Timestamp) (key : String) : Bool :=
  db.snapshots.any fun s => s.manifestKey = some key && snapshotIsGcProtected db now s

/-- `ensure_no_live_refs_conn` runs the two reference queries one after the other. -/
def ensureNoContentRefs (db : Database) (now : Timestamp) (key : String) : Except AppError Unit :=
  if hasContentRef db now key then .error (.objectLiveReference key) else .ok ()

def ensureNoManifestRefs (db : Database) (now : Timestamp) (key : String) : Except AppError Unit :=
  if hasManifestRef db now key then .error (.objectLiveReference key) else .ok ()

/-- `ensure_current_gc_fencing_conn`. -/
def ensureCurrentGcFencing (jobs : List JobRow) (token : Int) : Except AppError Unit :=
  checkToken (maxWhere (fun j => j.problemId = none && j.jobType = .gcCollect)
    JobRow.fencingToken jobs) token

/-! ## `applyRetention` -/

/-- `t < now() - make_interval(days => n)`. -/
def beforeDays (now : Timestamp) (retention : Option Int) (t : Option Timestamp) : Bool :=
  match retention, t with
  | some n, some t => t < now - days n
  | _, _ => false

/-- The CTE `expired`. -/
def retentionExpired (db : Database) (now : Timestamp) (s : SnapshotRow) : Bool :=
  match s.state with
  | .superseded => beforeDays now (db.retentionDays .supersededSnapshots) s.supersededAt
  | .error => beforeDays now (db.retentionDays .errorSnapshots) s.completedAt
  | _ => false

def collectedMark (db : Database) (key : String) : Bool :=
  db.gcMarks.any fun m => m.objectKey = key && m.collected

/-- The key is still listed by a protected snapshot other than `id`. -/
def contentRefElsewhere (db : Database) (now : Timestamp) (id : Uuid) (key : String) : Bool :=
  db.snapshotObjects.any fun o => o.objectKey = key &&
    db.snapshots.any fun s => s.id = o.snapshotId && s.id ≠ id && snapshotIsGcProtected db now s

def manifestRefElsewhere (db : Database) (now : Timestamp) (id : Uuid) (key : String) : Bool :=
  db.snapshots.any fun s =>
    s.id ≠ id && s.manifestKey = some key && snapshotIsGcProtected db now s

/-- The rows that the `DELETE FROM snapshots` of `applyRetention` removes. -/
def prunable (db : Database) (now : Timestamp) (s : SnapshotRow) : Bool :=
  retentionExpired db now s &&
    (match s.manifestKey with
      | none => true
      | some key => collectedMark db key || manifestRefElsewhere db now s.id key) &&
    db.snapshotObjects.all fun o => o.snapshotId ≠ s.id ||
      collectedMark db o.objectKey || contentRefElsewhere db now s.id o.objectKey

/-- Deleting a snapshot cascades to its objects and clears it in `gc_marks`. -/
def deleteSnapshots (p : SnapshotRow → Bool) (db : Database) : Database :=
  { db with
    snapshots := deleteWhere p db.snapshots
    snapshotObjects := deleteWhere
      (fun o => db.snapshots.any fun s => p s && s.id = o.snapshotId) db.snapshotObjects
    gcMarks := updateWhere
      (fun m => db.snapshots.any fun s => p s && m.snapshotId = some s.id)
      (fun m => { m with snapshotId := none }) db.gcMarks }

/-- The first three statements of `applyRetention`; no modelled function reads
`audit_events`. -/
def pruneExpired (now : Timestamp) (db : Database) : Database :=
  let pruned := { db with
    jobs := deleteWhere (fun j => beforeDays now (db.retentionDays .jobs) j.completedAt) db.jobs }
  deleteSnapshots (prunable pruned now) pruned

/-- A row of the CTE `candidates`. -/
structure GcCandidate where
  sha256 : String
  objectKey : String
  snapshotId : Uuid
  objectKind : ObjectKind
  retentionAnchor : Option Timestamp
  deriving DecidableEq, Repr

def SnapshotRow.retentionAnchor (s : SnapshotRow) : Option Timestamp :=
  match s.supersededAt with
  | some t => some t
  | none => s.completedAt

def contentCandidates (db : Database) (now : Timestamp) (s : SnapshotRow) : List GcCandidate :=
  (db.snapshotObjects.filter fun o =>
      o.snapshotId = s.id && !hasContentRef db now o.objectKey).map fun o =>
    { sha256 := o.sha256, objectKey := o.objectKey, snapshotId := s.id, objectKind := .content,
      retentionAnchor := s.retentionAnchor }

def manifestCandidate (db : Database) (now : Timestamp) (s : SnapshotRow) : List GcCandidate :=
  match s.manifestKey with
  | none => []
  | some key =>
      if hasManifestRef db now key then
        []
      else
        [{ sha256 := s!"manifest:{s.id}", objectKey := key, snapshotId := s.id,
           objectKind := .manifest, retentionAnchor := s.retentionAnchor }]

def gcCandidates (db : Database) (now : Timestamp) : List GcCandidate :=
  (db.snapshots.filter (retentionExpired db now)).flatMap fun s =>
    contentCandidates db now s ++ manifestCandidate db now s

/-- `ORDER BY retention_anchor DESC, snapshot_id`, where `NULL` sorts first. -/
def GcCandidate.before (c d : GcCandidate) : Bool :=
  match c.retentionAnchor, d.retentionAnchor with
  | none, none => c.snapshotId < d.snapshotId
  | none, some _ => true
  | some _, none => false
  | some s, some t => t < s || (s = t && c.snapshotId < d.snapshotId)

/-- `SELECT DISTINCT ON (object_key)`: the first candidate of each key. -/
def distinctOnKey (candidates : List GcCandidate) : List GcCandidate :=
  candidates.foldl (fun kept c =>
    if kept.any fun d => d.objectKey = c.objectKey then
      kept.map fun d => if d.objectKey = c.objectKey && c.before d then c else d
    else
      kept ++ [c]) []

def GcMarkRow.key (m : GcMarkRow) : String × String := (m.sha256, m.objectKey)

/-- `INSERT INTO gc_marks … ON CONFLICT (sha256, object_key) DO UPDATE … WHERE` for
one candidate; `id` is the identifier of a new row. -/
def markCandidate (now : Timestamp) (retention : Option Int) (id : Uuid) (c : GcCandidate)
    (marks : List GcMarkRow) : List GcMarkRow :=
  match retention with
  | none => marks
  | some n =>
      let new : GcMarkRow :=
        { id := id, sha256 := c.sha256, objectKey := c.objectKey, snapshotId := some c.snapshotId
          objectKind := c.objectKind, markedAt := now, eligibleAt := now + days n
          collected := false, collectedAt := none, attempts := 0, lastError := none }
      upsertOn GcMarkRow.key new
        (fun m =>
          if (m.collected && m.snapshotId = none) || m.snapshotId ≠ some c.snapshotId then
            { new with id := m.id }
          else
            m) marks

/-- The last statement of `applyRetention`. -/
def markExpired (now : Timestamp) (ids : String → Uuid) (db : Database) : Database :=
  { db with
    gcMarks := (distinctOnKey (gcCandidates db now)).foldl
      (fun marks c =>
        markCandidate now (db.retentionDays .contentObjects) (ids c.objectKey) c marks)
      db.gcMarks }

/-- `applyRetention`.  Its transaction holds the lock that `prepare_snapshot_upload` takes. -/
def applyRetention (now : Timestamp) (ids : String → Uuid) (db : Database) : Database :=
  markExpired now ids (pruneExpired now db)

/-! ## Terminal jobs -/

/-- The statement in the loop of `purgeTerminalJobs`.  `updatedAt` is the column `updated_at`,
and `locked` are the rows that `SKIP LOCKED` passes over. -/
def purgeTerminalJobs (now : Timestamp) (terminalJobRetentionDays : Int) (batchSize : Nat)
    (locked : List Uuid) (updatedAt : Uuid → Timestamp) (jobs : List JobRow) : List JobRow :=
  let expired := ((jobs.filter fun j => j.state.terminal &&
      updatedAt j.id < now - days terminalJobRetentionDays && !locked.contains j.id).mergeSort
    fun j k => updatedAt j.id < updatedAt k.id || (updatedAt j.id = updatedAt k.id && j.id ≤ k.id))
  deleteWhere (fun j => (expired.take batchSize).any fun e => e.id = j.id) jobs

/-! ## Collection -/

/-- The `WHERE` clause of `listGcEligible`. -/
def gcEligible (db : Database) (now : Timestamp) (m : GcMarkRow) : Bool :=
  m.eligibleAt ≤ now && !m.collected && !hasContentRef db now m.objectKey &&
    !hasManifestRef db now m.objectKey

def markGcCollected (now : Timestamp) (ids : List Uuid) (marks : List GcMarkRow) :
    List GcMarkRow :=
  updateWhere (fun m => m.id ∈ ids && !m.collected)
    (fun m => { m with collected := true, collectedAt := some now }) marks

/-- `error.slice(0, 1000)`. -/
def errorSlice (error : String) : String := String.ofList (error.toList.take 1000)

def deferGcMark (now : Timestamp) (retention : Option Int) (id : Uuid) (error : String)
    (marks : List GcMarkRow) : List GcMarkRow :=
  match retention with
  | none => marks
  | some n =>
      updateWhere (fun m => m.id = id && !m.collected)
        (fun m => { m with
          eligibleAt := now + days n, attempts := m.attempts + 1
          lastError := some (errorSlice error) }) marks

/-- `LEAST(86400, 60 * power(2, LEAST(attempts, 10)))` seconds. -/
def gcBackoff (attempts : Int) : Int :=
  min 86400 (60 * 2 ^ (min attempts 10).toNat) * microsPerSecond

def recordGcFailure (now : Timestamp) (id : Uuid) (error : String) (marks : List GcMarkRow) :
    List GcMarkRow :=
  updateWhere (fun m => m.id = id && !m.collected)
    (fun m => { m with
      eligibleAt := now + gcBackoff m.attempts, attempts := m.attempts + 1
      lastError := some (errorSlice error) }) marks

end ExternalStorage.Model
