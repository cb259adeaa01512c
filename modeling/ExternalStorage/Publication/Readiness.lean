import ExternalStorage.Model.Manifests
import ExternalStorage.Model.Reconciliation

/-!
# The readiness check

`problem_readiness` of `api.rs`: with a cached tree of the current fingerprint it answers from
the cache, else from a scan of the folder.
-/

namespace ExternalStorage.Publication

open ExternalStorage.Model Library.Table

/-! ## `problem_readiness` -/

structure ProblemReadyResponse where
  ready : Bool
  localStatus : LocalStatus
  generation : Option Int
  observedAt : Timestamp
  deriving DecidableEq, Repr

/-- What the check finds at the path of the problem folder. -/
structure ReadyReads where
  exist : Bool
  isDir : Bool
  /-- `tree_fingerprint`, before the scan and after it. -/
  before : Except AppError String
  scan : Except AppError ScanResult
  after : Except AppError String
  initYml : Option String

/-- `SELECT generation … WHERE state = 'ready' ORDER BY generation DESC LIMIT 1`. -/
def latestReadyGeneration (db : Database) (problemId : String) : Option Int :=
  (latestReady problemId db.snapshots).map SnapshotRow.generation

def partialResponse (now : Timestamp) : ProblemReadyResponse := ⟨false, .partially, none, now⟩

def usableResponse (now : Timestamp) (canonical : Option String) (generation : Option Int) :
    ProblemReadyResponse where
  ready := canonical.isSome
  localStatus := if canonical.isSome then .present else .partially
  generation := generation
  observedAt := now

def cachedResponse (now : Timestamp) (db : Database) (problemId : String) (saved : TreeCacheRow) :
    ProblemReadyResponse :=
  usableResponse now saved.canonicalDownloadPath (latestReadyGeneration db problemId)

def matchedGeneration (db : Database) (problemId : String) (canonical : Option String)
    (scan : ScanResult) : Option Int :=
  if canonical.isSome then readySnapshotMatchesScan db problemId scan else none

def scannedResponse (now : Timestamp) (db : Database) (problemId : String)
    (initYml : Option String) (scan : ScanResult) : ProblemReadyResponse :=
  let canonical := canonicalDownloadPath initYml scan.files
  usableResponse now canonical
    ((matchedGeneration db problemId canonical scan).or (latestReadyGeneration db problemId))

def scanReadiness (now : Timestamp) (db : Database) (cache : List TreeCacheRow)
    (problemId code before : String) (r : ReadyReads) : ProblemReadyResponse × List TreeCacheRow :=
  match r.scan with
  | .error _ => (partialResponse now, cache)
  | .ok scan =>
      (scannedResponse now db problemId r.initYml scan,
        if r.after.toOption = some before then
          cacheTree code before (canonicalDownloadPath r.initYml scan.files) false cache
        else cache)

def problemReadiness (now : Timestamp) (db : Database) (cache : List TreeCacheRow)
    (problemId code : String) (r : ReadyReads) :
    Except AppError (ProblemReadyResponse × List TreeCacheRow) := do
  validateRelativePath code
  if !r.exist then
    return (⟨false, .missing, latestReadyGeneration db problemId, now⟩, cache)
  else if !r.isDir then
    return (partialResponse now, cache)
  else
    match r.before with
    | .error _ => return (partialResponse now, cache)
    | .ok before =>
        match cachedTree code cache with
        | none => return scanReadiness now db cache problemId code before r
        | some saved =>
            if saved.fingerprint = before then
              return (cachedResponse now db problemId saved, cache)
            else
              return scanReadiness now db (invalidateTreeCache code cache) problemId code before r

/-! ## The branches agree -/

variable {now : Timestamp} {db : Database} {cache : List TreeCacheRow} {problemId code : String}
  {r : ReadyReads}

/-- A match is of the READY row that the unconditional query finds as well. -/
theorem matchedGeneration_or_latest (canonical : Option String) (scan : ScanResult) :
    (matchedGeneration db problemId canonical scan).or (latestReadyGeneration db problemId) =
      latestReadyGeneration db problemId := by
  cases hmatched : matchedGeneration db problemId canonical scan with
  | none => exact Option.none_or
  | some generation =>
      have hmatches : readySnapshotMatchesScan db problemId scan = some generation := by
        unfold matchedGeneration at hmatched
        split at hmatched
        · exact hmatched
        · cases hmatched
      obtain ⟨-, s, hlatest, hgeneration, -⟩ := readySnapshotMatchesScan_eq_some.mp hmatches
      rw [Option.some_or, latestReadyGeneration, hlatest, Option.map_some, hgeneration]

theorem scannedResponse_eq (initYml : Option String) (scan : ScanResult) :
    scannedResponse now db problemId initYml scan =
      usableResponse now (canonicalDownloadPath initYml scan.files)
        (latestReadyGeneration db problemId) := by
  rw [scannedResponse, matchedGeneration_or_latest]

theorem cachedTree_invalidated (code : String) (cache : List TreeCacheRow) :
    cachedTree code (invalidateTreeCache code cache) = none := by
  rw [cachedTree, List.find?_eq_none]
  intro row hrow
  rw [(mem_deleteWhere.mp hrow).2]
  exact Bool.false_ne_true

theorem problemReadiness_folder {before : String} (hcode : validateRelativePath code = .ok ())
    (hexist : r.exist = true) (hdir : r.isDir = true) (hbefore : r.before = .ok before) :
    problemReadiness now db cache problemId code r =
      match cachedTree code cache with
      | none => .ok (scanReadiness now db cache problemId code before r)
      | some saved =>
          if saved.fingerprint = before then .ok (cachedResponse now db problemId saved, cache)
          else .ok (scanReadiness now db (invalidateTreeCache code cache) problemId code before r) := by
  rw [problemReadiness, hcode, hexist, hdir, hbefore]
  rfl

/-- With the current fingerprint and the canonical path of the current folder in the cache, the
answer of the cached branch is the one of the full scan: the one the check gives of the same
folder and the same database when the row is not there. -/
theorem readiness_paths_agree (now : Timestamp) (db : Database) (cache : List TreeCacheRow)
    (problemId code : String) (r : ReadyReads) (saved : TreeCacheRow) (scan : ScanResult)
    (hcode : validateRelativePath code = .ok ()) (hexist : r.exist = true)
    (hdir : r.isDir = true) (hsaved : cachedTree code cache = some saved)
    (hcurrent : r.before = .ok saved.fingerprint) (hscan : r.scan = .ok scan)
    (hcanonical : saved.canonicalDownloadPath = canonicalDownloadPath r.initYml scan.files) :
    (problemReadiness now db cache problemId code r).map Prod.fst =
        .ok (cachedResponse now db problemId saved) ∧
      (problemReadiness now db (invalidateTreeCache code cache) problemId code r).map Prod.fst =
        .ok (scannedResponse now db problemId r.initYml scan) ∧
      cachedResponse now db problemId saved =
        scannedResponse now db problemId r.initYml scan := by
  refine ⟨?_, ?_, ?_⟩
  · rw [problemReadiness_folder hcode hexist hdir hcurrent, hsaved]
    dsimp only
    rw [if_pos rfl]
    rfl
  · rw [problemReadiness_folder hcode hexist hdir hcurrent, cachedTree_invalidated]
    dsimp only [scanReadiness]
    rw [hscan]
    rfl
  · rw [scannedResponse_eq, cachedResponse, hcanonical]

/-! ## A dirty problem whose folder is not the one of its snapshot -/

def editedFile : FileEntry where
  path := "data.zip"
  sha256 := "9c0a"
  size := 512
  allocatedBytes := 4096
  dev := 2049
  ino := 11
  nlink := 1
  mode := 0o100644
  duplicateOf := none
  symlinkTarget := none

def editedScan : ScanResult where
  code := "aplusb"
  logicalBytes := 512
  allocatedBytes := 4096
  archiveBytes := 512
  auxiliaryBytes := 0
  fileCount := 1
  files := [editedFile]

def editedReads : ReadyReads where
  exist := true
  isDir := true
  before := .ok "f1"
  scan := .ok editedScan
  after := .ok "f1"
  initYml := some "archive: data.zip"

def savedTree : TreeCacheRow := ⟨"aplusb", "f1", none, some "data.zip"⟩

def editedDb : Database where
  problems := [⟨"7", "aplusb", none, true, none, none, .present, 0, false, true, none, 1, none, 1⟩]
  snapshots := [⟨1, "7", 3, .ready, 1, 512, some (manifestKey "7" 3), none, none, 0, some 0, none⟩]
  snapshotObjects := [⟨1, "77b1", "data.zip", 512, objectKeyForSha256 "77b1", true, true⟩]

theorem readiness_paths_agree_edited :
    (problemReadiness 60 editedDb [savedTree] "7" "aplusb" editedReads).map Prod.fst =
        .ok ⟨true, .present, some 3, 60⟩ ∧
      (problemReadiness 60 editedDb [] "7" "aplusb" editedReads).map Prod.fst =
        .ok ⟨true, .present, some 3, 60⟩ := by
  have hagree := readiness_paths_agree 60 editedDb [savedTree] "7" "aplusb" editedReads savedTree
    editedScan (by decide +kernel) rfl rfl (by decide +kernel) rfl
    rfl (by decide +kernel)
  have hcached : cachedResponse 60 editedDb "7" savedTree = ⟨true, .present, some 3, 60⟩ := by
    decide +kernel
  refine ⟨hcached ▸ hagree.1, ?_⟩
  rw [← hcached, hagree.2.2]
  exact hagree.2.1

end ExternalStorage.Publication
