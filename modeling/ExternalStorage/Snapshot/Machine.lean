import ExternalStorage.Library.Runs
import ExternalStorage.Model.Retention
import ExternalStorage.Model.Scan
import Mathlib.Logic.Function.Basic

/-!
# The snapshot machine

Any number of snapshot runs, the collector's workers and the maintenance
statements over one database and one object store.  A run is the sequence of
statements and store calls of `claim_snapshot` and `run_snapshot_upload`; each
action is one statement, one transaction or one store call, so an interleaving is
a list of actions.
-/

namespace ExternalStorage.Snapshot

open ExternalStorage.Model

/-- What a run takes from outside this repository (`serde_json::to_vec`, SHA-256 and
the bytes of a text) and its configured upload concurrency. -/
structure DataPlane (Bytes : Type) where
  manifestToVec : Manifest → Bytes
  sha256Bytes : Bytes → String
  textBytes : String → Bytes
  maxConcurrentUploads : Nat

/-- The bucket; an absent key is `none`. -/
abbrev Store (Bytes : Type) := String → Option Bytes

variable {Bytes : Type}

/-- `verify_object` downloads the object and hashes it. -/
def verifyObject (d : DataPlane Bytes) (store : Store Bytes) (key expected : String) :
    Except AppError Bool :=
  match store key with
  | none => .error (.objectNotFound key)
  | some bytes => .ok (d.sha256Bytes bytes = expected)

/-! ## One file of an upload -/

/-- The point `upload_manifest_file` has reached. -/
inductive TaskPhase where
  | hashing
  | heading
  | existing
  | absent
  | existingAtPut
  | putting
  | written
  | stored
  deriving DecidableEq, Repr

/-- What a task reads of the folder: the stable hash of a regular file, or the body
that a put sends. -/
inductive TaskOp (Bytes : Type) where
  | read (stableSha : String)
  | write (body : Bytes)
  | next

structure Task where
  file : FileEntry
  phase : TaskPhase
  deriving DecidableEq, Repr

def Task.objectKey (t : Task) : String := objectKeyForSha256 t.file.sha256

def Task.at (t : Task) (phase : TaskPhase) : Task := { t with phase := phase }

/-- `stable_sha`: a link is hashed as the bytes of its target. -/
def Task.stableSha (d : DataPlane Bytes) (t : Task) (read : String) : String :=
  match t.file.symlinkTarget with
  | some target => d.sha256Bytes (d.textBytes target)
  | none => read

def Task.putBody (d : DataPlane Bytes) (t : Task) (read : Bytes) : Bytes :=
  match t.file.symlinkTarget with
  | some target => d.textBytes target
  | none => read

/-- After `verify_object` of the task's key: go on when the content has the hash. -/
def Task.verified (d : DataPlane Bytes) (store : Store Bytes) (t : Task) (phase : TaskPhase)
    (got : String) : Except AppError (Task × Store Bytes) := do
  if ← verifyObject d store t.objectKey t.file.sha256 then
    return (t.at phase, store)
  else
    throw (.checksumMismatch t.file.sha256 got)

/-- One store call or file read of `upload_manifest_file`. -/
def taskStep (d : DataPlane Bytes) (store : Store Bytes) (t : Task) (op : TaskOp Bytes) :
    Option (Except AppError (Task × Store Bytes)) :=
  match t.phase, op with
  | .hashing, .read sha =>
      if t.stableSha d sha = t.file.sha256 then
        some (.ok (t.at .heading, store))
      else
        some (.error (.checksumMismatch t.file.sha256 (t.stableSha d sha)))
  | .heading, .next =>
      some (.ok (t.at (if (store t.objectKey).isSome then .existing else .absent), store))
  | .existing, .next =>
      some (t.verified d store .stored s!"existing object differs at {t.objectKey}")
  -- `put_object` and `put_object_from_path` look again before they write.
  | .absent, .next =>
      some (.ok (t.at (if (store t.objectKey).isSome then .existingAtPut else .putting), store))
  | .existingAtPut, .next =>
      some (t.verified d store .written s!"existing object differs at {t.objectKey}")
  | .putting, .write body =>
      some (.ok (t.at .written, Function.update store t.objectKey (some (t.putBody d body))))
  | .written, .next =>
      some (t.verified d store .stored "uploaded object verification failed")
  | _, _ => none

/-! ## One run -/

inductive RunPhase where
  /-- `claim_snapshot` passed its fencing check. -/
  | fenced
  /-- `claim_snapshot` returned the row of another run. -/
  | unowned (existing : SnapshotRow)
  /-- `claim_snapshot` returned the error of `load_snapshot`. -/
  | rejected (err : AppError)
  /-- The upsert returned the row. -/
  | claimed
  /-- The row's objects are deleted; `run_snapshot_upload` begins. -/
  | cleaned
  | hashing
  | uploading (canonical : String) (pending : List FileEntry) (inFlight : List Task)
      (uploaded : List ManifestFile)
  | verifying (manifest : Manifest)
  /-- The manifest object is overwritten. -/
  | published (manifest : Manifest)
  | finalizing (manifest : Manifest)
  /-- Inside the transaction of `finalize_snapshot_cas`, past its fencing check. -/
  | checked (manifest : Manifest)
  | committed (manifest : Manifest)
  | failing (err : AppError)
  | ended
  deriving DecidableEq, Repr

structure Run where
  problemId : String
  generation : Int
  fencingToken : Int
  expectedDirtyVersion : Option Int
  scan : ScanResult
  /-- The requested UUID, and from the claim on the id of the claimed row. -/
  snapshotId : Uuid
  createdAt : Timestamp
  phase : RunPhase
  deriving DecidableEq, Repr

def Run.at (run : Run) (phase : RunPhase) : Run := { run with phase := phase }

def Run.manifestKey (run : Run) : String := Model.manifestKey run.problemId run.generation

/-- The manifest `create_snapshot_after_insert` builds from its uploaded files. -/
def Run.manifest (run : Run) (canonical : String) (uploaded : List ManifestFile) : Manifest :=
  buildManifest run.problemId run.scan.code run.generation run.createdAt canonical
    (sortManifestFiles uploaded)

def Run.finalizeArgs (run : Run) (m : Manifest) : FinalizeArgs where
  snapshotId := run.snapshotId
  problemId := run.problemId
  generation := run.generation
  fencingToken := run.fencingToken
  expectedDirtyVersion := run.expectedDirtyVersion
  manifestFiles := m.files
  totalBytes := m.totalBytes
  manifestKey := run.manifestKey

def RunPhase.executing : RunPhase → Bool
  | .fenced | .unowned _ | .rejected _ | .committed _ | .ended => false
  | _ => true

def RunPhase.committedManifest : RunPhase → Option Manifest
  | .committed m => some m
  | _ => none

theorem RunPhase.committedManifest_eq_some {phase : RunPhase} {m : Manifest} :
    phase.committedManifest = some m ↔ phase = .committed m := by
  cases phase <;> simp [RunPhase.committedManifest]

/-- The phases in which an error is recorded by `mark_snapshot_error`. -/
def RunPhase.uploadStarted : RunPhase → Bool
  | .cleaned | .hashing | .uploading .. | .verifying _ | .published _ | .finalizing _
  | .checked _ => true
  | _ => false

inductive RunOp (Bytes : Type) where
  | claim
  | cleanup
  | setHashing
  /-- With the text of `init.yml`, if it can be read. -/
  | prepare (initYml : Option String)
  | start
  | task (i : Nat) (op : TaskOp Bytes)
  | record (i : Nat)
  | setVerifying
  | putManifest
  | verifyManifest
  | checkFencing
  | commit
  /-- Any error a call of the run returns. -/
  | fail (err : AppError)
  | markError
  /-- The process stops. -/
  | crash

structure Effect (Bytes : Type) where
  db : Database
  store : Store Bytes
  run : Run

def runStep (d : DataPlane Bytes) (now : Timestamp) (db : Database) (store : Store Bytes)
    (run : Run) (op : RunOp Bytes) : Option (Effect Bytes) :=
  match op, run.phase with
  | .claim, .fenced =>
      match claimSnapshot now db.snapshots run.snapshotId run.problemId run.generation
          run.createdAt with
      -- No row: another run owns the generation.  `load_snapshot` reads its row in a statement
      -- of its own, which fails whatever the row is by then.
      | (_, none) =>
          match loadSnapshot db.snapshots run.problemId run.generation with
          | .ok existing => some ⟨db, store, run.at (.unowned existing)⟩
          | .error e => some ⟨db, store, run.at (.rejected e)⟩
      | (rows, some id) =>
          some ⟨{ db with snapshots := rows }, store,
            { run with snapshotId := id, phase := .claimed }⟩
  | .cleanup, .claimed =>
      some ⟨{ db with snapshotObjects := deleteSnapshotObjects run.snapshotId db.snapshotObjects },
        store, run.at .cleaned⟩
  | .setHashing, .cleaned =>
      some ⟨{ db with snapshots := setHashing run.snapshotId db.snapshots }, store,
        run.at .hashing⟩
  | .prepare initYml, .hashing =>
      match canonicalDownloadPath initYml run.scan.files with
      | none =>
          some ⟨db, store, run.at (.failing (.manifestIntegrity
            "problem folder must contain init.yml with an existing canonical archive"))⟩
      | some canonical =>
          match prepareSnapshotUpload db run.snapshotId run.scan.files run.manifestKey with
          | .ok db' => some ⟨db', store, run.at (.uploading canonical run.scan.files [] [])⟩
          | .error e => some ⟨db, store, run.at (.failing e)⟩
  -- `buffer_unordered` starts the files in order and keeps a bounded number in flight.
  | .start, .uploading canonical (f :: pending) inFlight uploaded =>
      if inFlight.length < max 1 d.maxConcurrentUploads then
        some ⟨db, store,
          run.at (.uploading canonical pending (inFlight ++ [⟨f, .hashing⟩]) uploaded)⟩
      else
        none
  | .task i op, .uploading canonical pending inFlight uploaded =>
      (inFlight[i]?).bind fun t => (taskStep d store t op).map fun result =>
        match result with
        | .ok (t', store') =>
            ⟨db, store', run.at (.uploading canonical pending (inFlight.set i t') uploaded)⟩
        | .error e => ⟨db, store, run.at (.failing e)⟩
  | .record i, .uploading canonical pending inFlight uploaded =>
      (inFlight[i]?).bind fun t =>
        if t.phase = .stored then
          match recordUploaded run.snapshotId t.file db.snapshotObjects with
          | .ok objects =>
              some ⟨{ db with snapshotObjects := objects }, store,
                run.at (.uploading canonical pending (inFlight.eraseIdx i)
                  (uploaded ++ [t.file.toManifestFile]))⟩
          | .error e => some ⟨db, store, run.at (.failing e)⟩
        else
          none
  | .setVerifying, .uploading canonical [] [] uploaded =>
      some ⟨{ db with snapshots := setVerifying run.snapshotId db.snapshots }, store,
        run.at (.verifying (run.manifest canonical uploaded))⟩
  | .putManifest, .verifying m =>
      some ⟨db, Function.update store run.manifestKey (some (d.manifestToVec m)),
        run.at (.published m)⟩
  | .verifyManifest, .published m =>
      match verifyObject d store run.manifestKey (d.sha256Bytes (d.manifestToVec m)) with
      | .ok true => some ⟨db, store, run.at (.finalizing m)⟩
      | .ok false =>
          some ⟨db, store,
            run.at (.failing (.r2 s!"manifest verification failed for {run.manifestKey}"))⟩
      | .error e => some ⟨db, store, run.at (.failing e)⟩
  | .checkFencing, .finalizing m =>
      match ensureLatestFencing db.jobs run.problemId run.fencingToken with
      | .ok () => some ⟨db, store, run.at (.checked m)⟩
      | .error e => some ⟨db, store, run.at (.failing e)⟩
  | .commit, .checked m =>
      match finalizeBody now (run.finalizeArgs m) db with
      | .ok db' => some ⟨db', store, run.at (.committed m)⟩
      | .error e => some ⟨db, store, run.at (.failing e)⟩
  | .fail e, phase =>
      if phase.uploadStarted then
        some ⟨db, store, run.at (.failing e)⟩
      else if phase = .fenced ∨ phase = .claimed then
        some ⟨db, store, run.at .ended⟩
      else
        none
  | .markError, .failing e =>
      some ⟨{ db with snapshots := markSnapshotError now run.snapshotId e db.snapshots }, store,
        run.at .ended⟩
  | .crash, phase =>
      if phase.executing ∨ phase = .fenced then some ⟨db, store, run.at .ended⟩ else none
  | _, _ => none

/-! ## The collector -/

/-- `delete_object_while_locked` makes the same checks before it looks at the object,
before it deletes it and after it. -/
inductive GcRound where
  | before | confirm | after
  deriving DecidableEq, Repr

inductive GcPhase where
  | listed
  | fencing (round : GcRound)
  | content (round : GcRound)
  | manifest (round : GcRound)
  | passed (round : GcRound)
  | unlocking (result : Except AppError Bool)
  | finished (result : Except AppError Bool)
  | recorded
  deriving Repr

structure GcWorker where
  markId : Uuid
  objectKey : String
  fencingToken : Int
  phase : GcPhase
  deriving Repr

def GcWorker.at (worker : GcWorker) (phase : GcPhase) : GcWorker := { worker with phase := phase }

/-- The worker is inside `pg_advisory_lock … pg_advisory_unlock`. -/
def GcPhase.locking : GcPhase → Bool
  | .fencing _ | .content _ | .manifest _ | .passed _ | .unlocking _ => true
  | .listed | .finished _ | .recorded => false

inductive GcOp where
  | lock
  | next
  /-- Any error a query or a store call returns. -/
  | fail (err : AppError)
  | record (text : String)
  | crash
  deriving Repr

/-- Goes on to `next` when a check passed, and leaves with its error otherwise. -/
def GcWorker.onCheck (worker : GcWorker) (check : Except AppError Unit) (next : GcPhase) :
    GcWorker :=
  match check with
  | .ok () => worker.at next
  | .error e => worker.at (.unlocking (.error e))

/-- How `gcCollect` of the control plane records the outcome on the mark; `text` is its
rendering of the error. -/
def recordGcOutcome (now : Timestamp) (db : Database) (id : Uuid) (text : String) :
    Except AppError Bool → Database
  | .ok _ => { db with gcMarks := markGcCollected now [id] db.gcMarks }
  | .error (.objectLiveReference _) =>
      { db with gcMarks := deferGcMark now (db.retentionDays .contentObjects) id text db.gcMarks }
  | .error _ => { db with gcMarks := recordGcFailure now id text db.gcMarks }

def gcStep (now : Timestamp) (db : Database) (store : Store Bytes) (worker : GcWorker)
    (op : GcOp) : Option (Database × Store Bytes × GcWorker) :=
  match op, worker.phase with
  | .lock, .listed => some (db, store, worker.at (.fencing .before))
  | .next, .fencing round =>
      some (db, store, worker.onCheck (ensureCurrentGcFencing db.jobs worker.fencingToken)
        (.content round))
  | .next, .content round =>
      some (db, store, worker.onCheck (ensureNoContentRefs db now worker.objectKey)
        (.manifest round))
  | .next, .manifest round =>
      some (db, store, worker.onCheck (ensureNoManifestRefs db now worker.objectKey)
        (.passed round))
  | .next, .passed .before =>
      some (db, store, worker.at
        (if (store worker.objectKey).isSome then .fencing .confirm else .unlocking (.ok false)))
  | .next, .passed .confirm =>
      some (db, Function.update store worker.objectKey none, worker.at (.fencing .after))
  | .next, .passed .after => some (db, store, worker.at (.unlocking (.ok true)))
  | .next, .unlocking result => some (db, store, worker.at (.finished result))
  | .fail e, phase =>
      if phase.locking then
        some (db, store, worker.at (.unlocking (.error e)))
      else
        match phase with
        | .listed | .finished (.ok _) => some (db, store, worker.at (.finished (.error e)))
        | _ => none
  | .record text, .finished result =>
      some (recordGcOutcome now db worker.markId text result, store, worker.at .recorded)
  | .crash, _ => some (db, store, worker.at .recorded)
  | _, _ => none

/-! ## The machine -/

structure World (Bytes : Type) where
  now : Timestamp
  db : Database
  store : Store Bytes
  runs : List Run := []
  workers : List GcWorker := []
  /-- The run that claimed the row last: history the program does not keep. -/
  owner : Uuid → Option Nat := fun _ => none

inductive Action (Bytes : Type) where
  /-- A caller has scanned the folder and enters `claim_snapshot`. -/
  | begin (requestedId : Uuid) (problemId : String) (generation fencingToken : Int)
      (expectedDirtyVersion : Option Int) (scan : ScanResult)
  | run (r : Nat) (op : RunOp Bytes)
  /-- `listGcEligible` hands a mark to a collector. -/
  | gcList (markId : Uuid) (fencingToken : Int)
  | gc (g : Nat) (op : GcOp)
  | retention (ids : String → Uuid)
  | failStalled
  | tick (elapsed : Nat)
  /-- The rest of the program writes the other tables. -/
  | external (tables : Database)

/-- No row, object or run has the id: UUIDs are unique. -/
def World.freshId (w : World Bytes) (id : Uuid) : Bool :=
  w.db.snapshots.all (fun s => s.id ≠ id) && w.db.snapshotObjects.all (fun o => o.snapshotId ≠ id) &&
    w.runs.all (fun run => run.snapshotId ≠ id)

/-- Another session holds the advisory lock of the problem. -/
def World.problemLocked (w : World Bytes) (problemId : String) : Bool :=
  w.runs.any fun run => run.problemId = problemId &&
    (match run.phase with | .checked _ => true | _ => false)

def World.keyLocked (w : World Bytes) (key : String) : Bool :=
  w.workers.any fun worker => worker.objectKey = key && worker.phase.locking

def World.runAllowed (w : World Bytes) (run : Run) : RunOp Bytes → Bool
  | .prepare _ =>
      !w.problemLocked run.problemId &&
        (claimedKeys run.scan.files run.manifestKey).all fun key => !w.keyLocked key
  | .checkFencing => !w.problemLocked run.problemId
  | _ => true

/-- The advisory lock that a step of a collector waits for. -/
def World.gcAllowed (w : World Bytes) (worker : GcWorker) : GcOp → Bool
  | .lock => !w.keyLocked worker.objectKey
  | _ => true

def ownerAfter (owner : Uuid → Option Nat) (r : Nat) (before after : Run) : Uuid → Option Nat :=
  if before.phase = .fenced ∧ after.phase = .claimed then
    Function.update owner after.snapshotId (some r)
  else
    owner

def World.afterRun (w : World Bytes) (r : Nat) (run : Run) (e : Effect Bytes) : World Bytes :=
  { w with
    db := e.db, store := e.store, runs := w.runs.set r e.run
    owner := ownerAfter w.owner r run e.run }

def step (d : DataPlane Bytes) (w : World Bytes) : Action Bytes → Option (World Bytes)
  | .begin id problemId generation token version scan =>
      if w.freshId id ∧ ensureLatestFencing w.db.jobs problemId token = .ok () then
        some { w with
          runs := w.runs ++ [⟨problemId, generation, token, version, scan, id, w.now, .fenced⟩] }
      else
        none
  | .run r op =>
      (w.runs[r]?).bind fun run =>
        if w.runAllowed run op then
          (runStep d w.now w.db w.store run op).map (w.afterRun r run)
        else
          none
  | .gcList id token =>
      (w.db.gcMarks.find? fun m => m.id = id && gcEligible w.db w.now m).map fun m =>
        { w with workers := w.workers ++ [⟨m.id, m.objectKey, token, .listed⟩] }
  | .gc g op =>
      (w.workers[g]?).bind fun worker =>
        if w.gcAllowed worker op then
          (gcStep w.now w.db w.store worker op).map fun e =>
            { w with db := e.1, store := e.2.1, workers := w.workers.set g e.2.2 }
        else
          none
  | .retention ids => some { w with db := applyRetention w.now ids w.db }
  | .failStalled =>
      some { w with db := { w.db with snapshots := failStalledSnapshots w.now w.db.snapshots } }
  | .tick elapsed => some { w with now := w.now + elapsed }
  | .external tables =>
      some { w with db := { tables with
        snapshots := w.db.snapshots, snapshotObjects := w.db.snapshotObjects
        gcMarks := w.db.gcMarks } }

/-! ## A small problem

A folder with an archive and its `init.yml`, for the concrete runs below. -/

section Sample

/-- The contents that occur, each kept as the text it is: a file, or the JSON of a
manifest. -/
inductive Content where
  | file (text : String)
  | manifestJson (m : Manifest)
  deriving DecidableEq, Repr

def dataZipText : String :=
  "PK\x05\x06\x00\x00\x00\x00\x00\x00\x00\x00\x00\x00\x00\x00\x00\x00\x00\x00\x00\x00"

def editedZipText : String := "PK"

def initYmlText : String := "archive: data.zip\n"

def dataZip : FileEntry where
  path := "data.zip"
  sha256 := "8739c76e681f900923b900c9df0ef75cf421d39cabb54650c4b9ad19b6a76d85"
  size := 22
  allocatedBytes := 4096
  dev := 2049
  ino := 11
  nlink := 1
  mode := 0o100644
  duplicateOf := none
  symlinkTarget := none

/-- The archive after an edit. -/
def editedZip : FileEntry :=
  { dataZip with
    sha256 := "fcab7fcc2b4cffd9bb45003bfc2e468a04ef6f77ca8200a7341f027631584d25", size := 2 }

def initYml : FileEntry where
  path := "init.yml"
  sha256 := "397e5e6d710c319976bef4cf8fecd870b101728dcf5fdf95e0c624a60d8f8607"
  size := 18
  allocatedBytes := 4096
  dev := 2049
  ino := 12
  nlink := 1
  mode := 0o100644
  duplicateOf := none
  symlinkTarget := none

def sampleScan : ScanResult where
  code := "aplusb"
  logicalBytes := 40
  allocatedBytes := 8192
  archiveBytes := 22
  auxiliaryBytes := 18
  fileCount := 2
  files := [dataZip, initYml]

def sampleTime : Timestamp := 1767225600000000

/-- The SHA-256 of the contents that occur: the files, and the manifests of `sampleScan` by a
run at `sampleTime` and by one 7201 seconds later. -/
def sampleDigest : Content → String
  | .file text =>
      if text = dataZipText then dataZip.sha256
      else if text = initYmlText then initYml.sha256
      else if text = editedZipText then editedZip.sha256
      else ""
  | .manifestJson m =>
      if m.createdAt = sampleTime then
        "6228e87f9f98a9ea5cc5cef58a400067e98a556acbf7dbcd8a813f73b4c3ba51"
      else if m.createdAt = sampleTime + 7201000000 then
        "a23191cdbeb91da500f1129db15bf737393ac77ecf4829eb4594f850a622e5b1"
      else ""

def samplePlane : DataPlane Content where
  manifestToVec := .manifestJson
  sha256Bytes := sampleDigest
  textBytes := .file
  maxConcurrentUploads := 4

def sampleUsage : ProblemUsageRow where
  problemId := "101"
  logicalBytes := 40
  allocatedBytes := 8192
  archiveBytes := 22
  auxiliaryBytes := 18
  fileCount := 2
  localStatus := .present
  r2Status := .none
  snapshotGeneration := none
  orphanBytes := 0
  referencedBytes := 0
  observedAt := sampleTime
  stale := false
  lastAccessedAt := none

def sampleProblem : ProblemRow where
  externalId := "101"
  code := "aplusb"
  ownerOrganization := none
  isManuallyManaged := true
  mirrorOf := none
  mirrorRoot := none
  catalogState := .present
  observedAt := sampleTime
  stale := false
  dirty := true
  dirtyGeneration := some 1
  dirtyVersion := 1
  quotaBytes := none
  schemaVersion := 1

/-- The retention periods that the migrations install. -/
def sampleRetention : List RetentionRow :=
  [⟨.jobs, 90⟩, ⟨.auditEvents, 365⟩, ⟨.supersededSnapshots, 90⟩, ⟨.contentObjects, 7⟩,
    ⟨.errorSnapshots, 7⟩]

/-- The newest token of the problem is 1, and that of the collector. -/
def sampleJobs : List JobRow :=
  [finishedJob 101 "snapshot" .snapshot (some "101") 1 sampleTime,
    finishedJob 102 "gc" .gcCollect none 1 sampleTime]

def sampleWorld : World Content where
  now := sampleTime
  db := { problems := [sampleProblem], problemUsage := [sampleUsage], jobs := sampleJobs
          retentionConfig := sampleRetention }
  store := fun _ => none

def claimingRun (r : Nat) (requestedId : Uuid) (token : Int) : List (Action Content) :=
  [.begin requestedId "101" 1 token (some 1) sampleScan, .run r .claim, .run r .cleanup]

def uploadAbsent (r : Nat) (f : FileEntry) (body : String) : List (Action Content) :=
  [.run r .start, .run r (.task 0 (.read f.sha256)), .run r (.task 0 .next),
    .run r (.task 0 .next), .run r (.task 0 (.write (.file body))), .run r (.task 0 .next),
    .run r (.record 0)]

def uploadExisting (r : Nat) (f : FileEntry) : List (Action Content) :=
  [.run r .start, .run r (.task 0 (.read f.sha256)), .run r (.task 0 .next),
    .run r (.task 0 .next), .run r (.record 0)]

def uploadingRun (r : Nat) : List (Action Content) :=
  [.run r .setHashing, .run r (.prepare (some initYmlText))] ++ uploadAbsent r dataZip dataZipText ++
    uploadAbsent r initYml initYmlText ++ [.run r .setVerifying]

def publishingRun (r : Nat) : List (Action Content) :=
  [.run r .putManifest, .run r .verifyManifest, .run r .checkFencing, .run r .commit]

end Sample

end ExternalStorage.Snapshot
