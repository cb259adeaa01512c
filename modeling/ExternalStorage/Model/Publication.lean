import ExternalStorage.Model.Staging

/-!
# Eviction and restore

`evict_local` and `restore_snapshot`, cut where the machines of the later modules cut
them: what they look at before the problem-data lock, what they look at inside it, what
they check in their transaction, and what they write.  Behind them stands what
`presign_download` finds of a snapshot.
-/

namespace ExternalStorage.Model

open Library.Table

variable {Bytes : Type}

/-! ## `evict_local` -/

structure EvictRequest where
  problemId : String
  code : String
  dryRun : Bool
  force : Bool
  fencingToken : Int
  idleBefore : Option Timestamp
  deriving DecidableEq, Repr

structure EvictResult where
  problemId : String
  dryRun : Bool
  freedBytes : Nat
  filesRemoved : Nat
  preservedInitYml : Bool
  deriving DecidableEq, Repr

def readyUsage (usage : List ProblemUsageRow) (problemId : String) : Option ProblemUsageRow :=
  usage.find? fun u => u.problemId = problemId && u.r2Status = .ready

def evictPrecheck (db : Database) (q : EvictRequest) : Except AppError Int := do
  ensureLatestFencing db.jobs q.problemId q.fencingToken
  refuseIf (!q.force && !q.dryRun) .evictionDryRunRequired
  match (readyUsage db.problemUsage q.problemId).bind ProblemUsageRow.snapshotGeneration with
  | none => .error (.r2NotReady q.problemId)
  | some generation => .ok generation

def evictMatches (db : Database) (q : EvictRequest) (generation : Int) (scan : ScanResult) :
    Except AppError Unit :=
  refuseIf (readySnapshotMatchesScan db q.problemId scan ≠ some generation) .evictionDirty

def evictRecheck (db : Database) (q : EvictRequest) (generation : Int) : Except AppError Unit := do
  ensureLatestFencing db.jobs q.problemId q.fencingToken
  match readyUsage db.problemUsage q.problemId,
      db.problems.find? fun p => p.externalId = q.problemId with
  | some u, some p => do
      refuseIf (u.snapshotGeneration ≠ some generation) (.r2NotReady q.problemId)
      refuseIf p.dirty .evictionDirty
      refuseIf (∃ cutoff ∈ q.idleBefore, ∃ lastAccess ∈ u.lastAccessedAt, lastAccess > cutoff)
        .evictionRecentlyAccessed
  | _, _ => .error (.r2NotReady q.problemId)

/-- The checks of `evict_local` on the database, and the generation. -/
def evictAdmitted (db : Database) (q : EvictRequest) (scan : ScanResult) :
    Except AppError Int := do
  let generation ← evictPrecheck db q
  evictMatches db q generation scan
  evictRecheck db q generation
  return generation

def evicted (now : Timestamp) (q : EvictRequest) (generation : Int) (db : Database) : Database :=
  { db with
    problemUsage := updateWhere
      (fun u => u.problemId = q.problemId && u.snapshotGeneration = some generation &&
        u.r2Status = .ready)
      (fun u => { u with localStatus := .missing, observedAt := now, stale := false })
      db.problemUsage }

def EvictRequest.result (q : EvictRequest) (freedBytes filesRemoved : Nat) : EvictResult :=
  ⟨q.problemId, q.dryRun, freedBytes, filesRemoved, false⟩

/-- `evict_local` that nothing interrupts, with the folder it leaves. -/
def evictLocal (c : Contents Bytes) (now : Timestamp) (root : String) (db : Database)
    (folder : Option (List (WalkEntry Bytes))) (q : EvictRequest) :
    Except AppError (Database × Option (List (WalkEntry Bytes)) × EvictResult) := do
  let generation ← evictPrecheck db q
  validateRelativePath q.code
  match folder with
  | none => return (db, none, q.result 0 0)
  | some walk => do
      let scan ← scanProblemFolder c root q.code (some walk)
      evictMatches db q generation scan
      if q.dryRun then
        return (db, some walk, q.result scan.logicalBytes scan.fileCount)
      else do
        evictRecheck db q generation
        return (evicted now q generation db, none, q.result scan.logicalBytes scan.fileCount)

/-! ## `restore_snapshot` -/

structure RestoreRequest where
  problemId : String
  generation : Int
  fencingToken : Int
  /-- `dest`, below the problem root. -/
  dest : String
  deriving DecidableEq, Repr

/-- `dest.file_name()`. -/
def RestoreRequest.fileName (q : RestoreRequest) : String :=
  ((pathNames q.dest).getLast?).getD ""

def resolveReadyGeneration (db : Database) (problemId : String) (generation : Int) :
    Except AppError Int :=
  if generation > 0 then
    .ok generation
  else
    match latestReady problemId db.snapshots with
    | none => .error (.r2NotReady problemId)
    | some s => .ok s.generation

def fetchManifest (c : Contents Bytes) (fromSlice : Bytes → Except String Manifest)
    (store : String → Option Bytes) (problemId : String) (generation : Int) :
    Except AppError Manifest := do
  match store (manifestKey problemId generation) with
  | none =>
      .error (.r2ManifestMissing problemId generation (manifestKey problemId generation))
  | some bytes =>
      match fromSlice bytes with
      | .error e => .error (.internal s!"manifest parse: {e}")
      | .ok m => do
          validateManifest c m problemId generation
          return m

/-- `parent.join(name)`, below the problem root. -/
def RestoreRequest.beside (q : RestoreRequest) (name : String) : List String :=
  (pathNames q.dest).dropLast ++ [name]

def RestoreRequest.pathBeside (q : RestoreRequest) (root name : String) : String :=
  root ++ "/" ++ joinPath (q.beside name)

/-- The hidden directory that the objects are downloaded to. -/
def stagingName (q : RestoreRequest) (uuid : String) : String := restoreName q.fileName uuid

def restorePrepare [DecidableEq Bytes] (c : Contents Bytes)
    (fromSlice : Bytes → Except String Manifest) (root : String) (db : Database)
    (store : String → Option Bytes) (q : RestoreRequest) :
    Except AppError (Int × Staging Bytes) := do
  ensureLatestFencing db.jobs q.problemId q.fencingToken
  let generation ← resolveReadyGeneration db q.problemId q.generation
  let manifest ← fetchManifest c fromSlice store q.problemId generation
  validateRelativePath q.fileName
  refuseIf (fits root (q.beside (stagingName q newUuid)) = false) nameTooLong
  let staging ← materializeManifestFiles c store manifest
    (q.pathBeside root (stagingName q newUuid))
  return (generation, staging)

def restoreRecheck (db : Database) (q : RestoreRequest) (generation : Int) :
    Except AppError Unit := do
  ensureLatestFencing db.jobs q.problemId q.fencingToken
  refuseIf (∀ s ∈ db.snapshots, ¬ (s.isFor q.problemId generation ∧ s.state = .ready))
    (.snapshotNotReady q.problemId generation)

/-- An existing folder is replaced if it is not dirty. -/
def restoreNotDirty (db : Database) (q : RestoreRequest) : Except AppError Unit :=
  refuseIf (db.problems.any fun p => p.externalId = q.problemId && p.dirty)
    (.fileChurn q.problemId)

def restoreMatches (db : Database) (q : RestoreRequest) (generation : Int) (scan : ScanResult) :
    Except AppError Unit :=
  refuseIf (readySnapshotMatchesScan db q.problemId scan ≠ some generation)
    (.fileChurn q.problemId)

/-- The checks of `restore_snapshot` on the database, with the scan of an existing folder. -/
def restoreAdmitted (db : Database) (q : RestoreRequest) (folder : Option ScanResult) :
    Except AppError Unit := do
  let generation ← resolveReadyGeneration db q.problemId q.generation
  restoreRecheck db q generation
  match folder with
  | none => return ()
  | some scan => do
      restoreNotDirty db q
      restoreMatches db q generation scan

def restored (now : Timestamp) (q : RestoreRequest) (db : Database) : Database :=
  { db with
    problemUsage := updateWhere (fun u => u.problemId = q.problemId)
      (fun u => { u with
        localStatus := .present, observedAt := now, lastAccessedAt := some now, stale := false })
      db.problemUsage }

/-- `restore_snapshot` that nothing interrupts, with the folder it publishes. -/
def restoreSnapshot [DecidableEq Bytes] (c : Contents Bytes)
    (fromSlice : Bytes → Except String Manifest) (now : Timestamp) (root : String) (db : Database)
    (store : String → Option Bytes) (folder : Option (List (WalkEntry Bytes)))
    (q : RestoreRequest) : Except AppError (Database × Staging Bytes) := do
  let (generation, staging) ← restorePrepare c fromSlice root db store q
  restoreRecheck db q generation
  match folder with
  | none => return (restored now q db, staging)
  | some walk => do
      restoreNotDirty db q
      let scan ← scanProblemFolder c root q.fileName (some walk)
      restoreMatches db q generation scan
      return (restored now q db, staging)

structure Restores [DecidableEq Bytes] (c : Contents Bytes)
    (fromSlice : Bytes → Except String Manifest) (root : String) (db : Database)
    (store : String → Option Bytes) (folder : Option (List (WalkEntry Bytes)))
    (q : RestoreRequest) (generation : Int) (manifest : Manifest) (staging : Staging Bytes) :
    Prop where
  fencing : ensureLatestFencing db.jobs q.problemId q.fencingToken = .ok ()
  resolved : resolveReadyGeneration db q.problemId q.generation = .ok generation
  fetched : fetchManifest c fromSlice store q.problemId generation = .ok manifest
  fileName : validateRelativePath q.fileName = .ok ()
  staged : fits root (q.beside (stagingName q newUuid)) = true
  files : materializeManifestFiles c store manifest (q.pathBeside root (stagingName q newUuid)) =
    .ok staging
  ready : ∃ s ∈ db.snapshots, s.isFor q.problemId generation ∧ s.state = .ready
  replaced : ∀ walk, folder = some walk →
    restoreNotDirty db q = .ok () ∧ ∃ scan, scanProblemFolder c root q.fileName folder = .ok scan ∧
      readySnapshotMatchesScan db q.problemId scan = some generation

theorem restoreSnapshot_eq_ok [DecidableEq Bytes] {c : Contents Bytes}
    {fromSlice : Bytes → Except String Manifest} {now : Timestamp} {root : String} {db db' : Database}
    {store : String → Option Bytes} {folder : Option (List (WalkEntry Bytes))} {q : RestoreRequest}
    {staging : Staging Bytes} :
    restoreSnapshot c fromSlice now root db store folder q = .ok (db', staging) ↔
      db' = restored now q db ∧
        ∃ generation manifest, Restores c fromSlice root db store folder q generation manifest
          staging := by
  constructor
  · intro h
    obtain ⟨⟨generation, staged⟩, hprepare, h⟩ := bind_eq_ok.mp h
    obtain ⟨hfencing, hprepare⟩ := check_eq_ok.mp hprepare
    obtain ⟨_, hgeneration, hprepare⟩ := bind_eq_ok.mp hprepare
    obtain ⟨manifest, hmanifest, hprepare⟩ := bind_eq_ok.mp hprepare
    obtain ⟨hname, hprepare⟩ := check_eq_ok.mp hprepare
    obtain ⟨hstaged, hprepare⟩ := check_eq_ok.mp hprepare
    rw [refuseIf_eq_ok, Bool.not_eq_false] at hstaged
    obtain ⟨_, hfiles, hprepare⟩ := bind_eq_ok.mp hprepare
    cases hprepare
    obtain ⟨hrecheck, h⟩ := check_eq_ok.mp h
    obtain ⟨-, hready⟩ := check_eq_ok.mp hrecheck
    rw [refuseIf_eq_ok] at hready
    push Not at hready
    cases folder with
    | none =>
        cases h
        exact ⟨rfl, generation, manifest, hfencing, hgeneration, hmanifest, hname, hstaged, hfiles,
          hready, by intro walk hwalk; cases hwalk⟩
    | some walk =>
        obtain ⟨hdirty, h⟩ := check_eq_ok.mp h
        obtain ⟨scan, hscan, h⟩ := bind_eq_ok.mp h
        obtain ⟨hmatch, h⟩ := check_eq_ok.mp h
        rw [restoreMatches, refuseIf_eq_ok, not_not] at hmatch
        cases h
        exact ⟨rfl, generation, manifest, hfencing, hgeneration, hmanifest, hname, hstaged, hfiles,
          hready, fun _ _ => ⟨hdirty, scan, hscan, hmatch⟩⟩
  · rintro ⟨rfl, generation, manifest, h⟩
    have hprepare : restorePrepare c fromSlice root db store q = .ok (generation, staging) := by
      refine check_eq_ok.mpr ⟨h.fencing, bind_eq_ok.mpr ⟨generation, h.resolved, ?_⟩⟩
      refine bind_eq_ok.mpr ⟨manifest, h.fetched, check_eq_ok.mpr ⟨h.fileName, ?_⟩⟩
      refine check_eq_ok.mpr ⟨?_, bind_eq_ok.mpr ⟨staging, h.files, rfl⟩⟩
      rw [refuseIf_eq_ok, Bool.not_eq_false]
      exact h.staged
    have hrecheck : restoreRecheck db q generation = .ok () := by
      refine check_eq_ok.mpr ⟨h.fencing, ?_⟩
      rw [refuseIf_eq_ok]
      push Not
      exact h.ready
    refine bind_eq_ok.mpr ⟨(generation, staging), hprepare, check_eq_ok.mpr ⟨hrecheck, ?_⟩⟩
    cases folder with
    | none => rfl
    | some walk =>
        obtain ⟨hdirty, scan, hscan, hmatch⟩ := h.replaced walk rfl
        refine check_eq_ok.mpr ⟨hdirty, bind_eq_ok.mpr ⟨scan, hscan, check_eq_ok.mpr ⟨?_, rfl⟩⟩⟩
        rw [restoreMatches, refuseIf_eq_ok, not_not]
        exact hmatch

/-! ## `presign_download` -/

/-- What `head_object` tells. -/
structure ObjectMeta where
  size : Nat
  sha256 : Option String
  «exists» : Bool
  deriving DecidableEq, Repr

structure PresignResult where
  url : String
  expiresAt : Timestamp
  deriving DecidableEq, Repr

def downloadManifest (c : Contents Bytes) (fromSlice : Bytes → Except String Manifest)
    (store : String → Option Bytes) (problemId : String) (generation : Int) :
    Except AppError Manifest := do
  match store (manifestKey problemId generation) with
  | none => .error (.objectNotFound (manifestKey problemId generation))
  | some bytes =>
      match fromSlice bytes with
      | .error e => .error (.internal s!"manifest parse: {e}")
      | .ok m => do
          validateManifest c m problemId generation
          return m

/-- The checks of `presign_canonical_from_manifest`, and the file it signs a link for. -/
def canonicalArchive (head : String → Except AppError ObjectMeta) (m : Manifest) :
    Except AppError ManifestFile := do
  match m.canonicalDownloadPath.bind fun canonical => m.files.find? fun f => f.path = canonical with
  | none => .error (.objectNotFound "canonical download artifact")
  | some archive => do
      let stored ← head archive.objectKey
      refuseIf (stored.exists = false ∨ stored.size ≠ archive.size) (.r2NotReady m.problemId)
      match stored.sha256 with
      | none => .error (.r2NotReady m.problemId)
      | some sha => do
          refuseIf (sha ≠ archive.sha256) (.checksumMismatch archive.sha256 sha)
          return archive

/-- `presign_download` up to the signing: the archive of the latest READY generation. -/
def downloadArchive (c : Contents Bytes) (fromSlice : Bytes → Except String Manifest)
    (store : String → Option Bytes) (head : String → Except AppError ObjectMeta) (db : Database)
    (problemId : String) : Except AppError ManifestFile := do
  let generation ← resolveReadyGeneration db problemId 0
  let manifest ← downloadManifest c fromSlice store problemId generation
  canonicalArchive head manifest

def downloadName (db : Database) (problemId : String) (archive : ManifestFile) : String :=
  match db.problems.find? fun p => p.externalId = problemId || p.code = problemId with
  | some p => s!"{p.code}.zip"
  | none => ((pathNames archive.path).getLast?).getD "download"

def presignDownload (c : Contents Bytes) (fromSlice : Bytes → Except String Manifest)
    (store : String → Option Bytes) (head : String → Except AppError ObjectMeta)
    (presignGet : String → String → Option Nat → Except AppError PresignResult) (db : Database)
    (problemId : String) (ttl : Option Nat) : Except AppError PresignResult := do
  let archive ← downloadArchive c fromSlice store head db problemId
  presignGet archive.objectKey (downloadName db problemId archive) ttl

/-- Restores and downloads read one manifest; they differ in how they report a missing one. -/
theorem downloadManifest_eq_ok {c : Contents Bytes} {fromSlice : Bytes → Except String Manifest}
    {store : String → Option Bytes} {problemId : String} {generation : Int} {m : Manifest} :
    downloadManifest c fromSlice store problemId generation = .ok m ↔
      fetchManifest c fromSlice store problemId generation = .ok m := by
  unfold downloadManifest fetchManifest
  cases store (manifestKey problemId generation) with
  | none => simp
  | some bytes => rfl

end ExternalStorage.Model
