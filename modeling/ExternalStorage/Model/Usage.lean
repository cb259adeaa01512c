import ExternalStorage.Model.Publication
import ExternalStorage.Model.Catalog

/-!
# Usage statements

What both programs write into `problem_usage`, one definition for each statement.  The
statements of the data plane are in the namespace `DataPlane`, where a name is taken.
Finalization, eviction, restore and the access fence have theirs in the modules of those
transactions.
-/

namespace ExternalStorage.Model

open Library.Table

/-- A row with the defaults of its columns, inserted at `now`. -/
def defaultUsage (now : Timestamp) (problemId : String) : ProblemUsageRow where
  problemId := problemId
  logicalBytes := 0
  allocatedBytes := 0
  archiveBytes := 0
  auxiliaryBytes := 0
  fileCount := 0
  localStatus := .missing
  r2Status := .none
  snapshotGeneration := none
  orphanBytes := 0
  referencedBytes := 0
  observedAt := now
  stale := true
  lastAccessedAt := none

/-! ## What a statement keeps of a problem -/

section KeepsRows

variable {problemId : String} {R : ProblemUsageRow → ProblemUsageRow → Prop}
  {usage usage' : List ProblemUsageRow}

def KeepsRows (problemId : String) (R : ProblemUsageRow → ProblemUsageRow → Prop)
    (usage usage' : List ProblemUsageRow) : Prop :=
  ∀ u' ∈ usage', u'.problemId = problemId → ∃ u ∈ usage, u.problemId = problemId ∧ R u u'

theorem keepsRows_refl (hrefl : ∀ u, R u u) : KeepsRows problemId R usage usage :=
  fun u hu hid => ⟨u, hu, hid, hrefl u⟩

theorem keepsRows_map {f : ProblemUsageRow → ProblemUsageRow}
    (hf : ∀ u, (f u).problemId = u.problemId ∧ R u (f u)) :
    KeepsRows problemId R usage (usage.map f) := by
  intro u' hu' hid
  obtain ⟨u, hu, rfl⟩ := List.mem_map.mp hu'
  exact ⟨u, hu, (hf u).1.symm.trans hid, (hf u).2⟩

theorem keepsRows_updateWhere {q : ProblemUsageRow → Bool} {f : ProblemUsageRow → ProblemUsageRow}
    (hrefl : ∀ u, R u u) (hf : ∀ u, (f u).problemId = u.problemId ∧ R u (f u)) :
    KeepsRows problemId R usage (updateWhere q f usage) := by
  apply keepsRows_map
  intro u
  split
  · exact hf u
  · exact ⟨rfl, hrefl u⟩

theorem keepsRows_deleteWhere (hrefl : ∀ u, R u u) (q : ProblemUsageRow → Bool) :
    KeepsRows problemId R usage (deleteWhere q usage) := by
  intro u' hu' hid
  exact ⟨u', (mem_deleteWhere.mp hu').1, hid, hrefl u'⟩

theorem keepsRows_upsertOn {new : ProblemUsageRow} {merge : ProblemUsageRow → ProblemUsageRow}
    (hrefl : ∀ u, R u u) (hother : new.problemId ≠ problemId)
    (hmerge : ∀ u, (merge u).problemId = u.problemId) :
    KeepsRows problemId R usage (upsertOn ProblemUsageRow.problemId new merge usage) := by
  intro u' hu' hid
  rcases mem_upsertOn.mp hu' with ⟨hold, -⟩ | ⟨u, -, hkey, rfl⟩ | ⟨rfl, -⟩
  · exact ⟨u', hold, hid, hrefl u'⟩
  · exact absurd (hkey.symm.trans ((hmerge u).symm.trans hid)) hother
  · exact absurd hid hother

end KeepsRows

/-! ## The control plane -/

/-- The argument `usage` of `upsertProblemUsage`. -/
structure UsageUpdate where
  logicalBytes : Option Int := none
  allocatedBytes : Option Int := none
  archiveBytes : Option Int := none
  auxiliaryBytes : Option Int := none
  fileCount : Option Int := none
  localStatus : Option LocalStatus := none
  r2Status : Option R2Status := none
  snapshotGeneration : Option Int := none
  orphanBytes : Option Int := none
  referencedBytes : Option Int := none
  lastAccessedAt : Option Timestamp := none
  observedAt : Option Timestamp := none
  deriving DecidableEq, Repr

/-- The `VALUES` of `upsertProblemUsage`, with its defaults. -/
def UsageUpdate.row (now : Timestamp) (externalId : String) (usage : UsageUpdate) :
    ProblemUsageRow where
  problemId := externalId
  logicalBytes := usage.logicalBytes.getD 0
  allocatedBytes := usage.allocatedBytes.getD 0
  archiveBytes := usage.archiveBytes.getD 0
  auxiliaryBytes := usage.auxiliaryBytes.getD 0
  fileCount := usage.fileCount.getD 0
  localStatus := usage.localStatus.getD .present
  r2Status := usage.r2Status.getD .none
  snapshotGeneration := usage.snapshotGeneration
  orphanBytes := usage.orphanBytes.getD 0
  referencedBytes := usage.referencedBytes.getD 0
  observedAt := usage.observedAt.getD now
  stale := false
  lastAccessedAt := usage.lastAccessedAt

/-- The `DO UPDATE`: every column but the last access is that of the new row. -/
def ProblemUsageRow.overwrite (new u : ProblemUsageRow) : ProblemUsageRow :=
  { u with
    logicalBytes := new.logicalBytes, allocatedBytes := new.allocatedBytes
    archiveBytes := new.archiveBytes, auxiliaryBytes := new.auxiliaryBytes
    fileCount := new.fileCount, localStatus := new.localStatus, r2Status := new.r2Status
    snapshotGeneration := new.snapshotGeneration, orphanBytes := new.orphanBytes
    referencedBytes := new.referencedBytes
    lastAccessedAt := new.lastAccessedAt.or u.lastAccessedAt
    observedAt := new.observedAt, stale := false }

def upsertProblemUsage (now : Timestamp) (externalId : String) (usage : UsageUpdate)
    (rows : List ProblemUsageRow) : List ProblemUsageRow :=
  upsertOn ProblemUsageRow.problemId (usage.row now externalId)
    (ProblemUsageRow.overwrite (usage.row now externalId)) rows

/-- What a scan job hands to `upsertProblemUsageForJob`. -/
def ScanResult.scanUpdate (scan : ScanResult) (observedAt : Timestamp) : UsageUpdate where
  logicalBytes := some scan.logicalBytes
  allocatedBytes := some scan.allocatedBytes
  archiveBytes := some scan.archiveBytes
  auxiliaryBytes := some scan.auxiliaryBytes
  fileCount := some scan.fileCount
  localStatus := some .present
  observedAt := some observedAt

/-- What an accounting backfill hands to it: the response of the scan as it is, which has
no `local_status`. -/
def ScanResult.accountingUpdate (scan : ScanResult) (observedAt : Timestamp) : UsageUpdate :=
  { scan.scanUpdate observedAt with localStatus := none }

/-- `markLocalPresentForJob`. -/
def markLocalPresent (now : Timestamp) (externalId : String) (generation : Option Int)
    (rows : List ProblemUsageRow) : List ProblemUsageRow :=
  upsertOn ProblemUsageRow.problemId
    { defaultUsage now externalId with
      localStatus := .present, snapshotGeneration := generation, lastAccessedAt := some now
      stale := false }
    (fun u => { u with
      localStatus := .present, snapshotGeneration := generation.or u.snapshotGeneration
      lastAccessedAt := some now, observedAt := now, stale := false })
    rows

/-- The look of `createRestoreJobIfMissing` at the row: the copy is there, and has been
observed since, in milliseconds. -/
def presentSince (problemId : String) (missingObservedAt : Timestamp)
    (rows : List ProblemUsageRow) : Bool :=
  rows.any fun u => u.problemId = problemId && u.localStatus = .present &&
    missingObservedAt / 1000 ≤ u.observedAt / 1000

def markMissingForRestore (problemId : String) (missingObservedAt : Timestamp)
    (rows : List ProblemUsageRow) : List ProblemUsageRow :=
  upsertOn ProblemUsageRow.problemId
    { defaultUsage missingObservedAt problemId with stale := false }
    (fun u => { u with
      localStatus := .missing, observedAt := max u.observedAt missingObservedAt
      stale := false })
    rows

/-- The rows the triggers on jobs insert for a problem without usage; their backoff columns
are those of `BackoffRow`. -/
def trackedUsage (now : Timestamp) (problemId : String) (rows : List ProblemUsageRow) :
    List ProblemUsageRow :=
  upsertOn ProblemUsageRow.problemId (defaultUsage now problemId) id rows

/-! ## The data plane -/

namespace DataPlane

def scannedUsage (now : Timestamp) (scan : ScanResult) (localStatus : LocalStatus)
    (u : ProblemUsageRow) : ProblemUsageRow :=
  { u with
    logicalBytes := asI64 scan.logicalBytes, allocatedBytes := asI64 scan.allocatedBytes
    archiveBytes := asI64 scan.archiveBytes, auxiliaryBytes := asI64 scan.auxiliaryBytes
    fileCount := scan.fileCount, localStatus := localStatus, observedAt := now, stale := false }

section ScannedUsage

variable (now : Timestamp) (scan : ScanResult) (localStatus : LocalStatus) (u : ProblemUsageRow)

@[simp] theorem scannedUsage_problemId :
    (scannedUsage now scan localStatus u).problemId = u.problemId := by
  unfold scannedUsage
  rfl

@[simp] theorem scannedUsage_r2Status :
    (scannedUsage now scan localStatus u).r2Status = u.r2Status := by
  unfold scannedUsage
  rfl

@[simp] theorem scannedUsage_snapshotGeneration :
    (scannedUsage now scan localStatus u).snapshotGeneration = u.snapshotGeneration := by
  unfold scannedUsage
  rfl

@[simp] theorem scannedUsage_allocatedBytes :
    (scannedUsage now scan localStatus u).allocatedBytes = asI64 scan.allocatedBytes := by
  simp only [scannedUsage]

@[simp] theorem scannedUsage_auxiliaryBytes :
    (scannedUsage now scan localStatus u).auxiliaryBytes = asI64 scan.auxiliaryBytes := by
  simp only [scannedUsage]

@[simp] theorem scannedUsage_localStatus :
    (scannedUsage now scan localStatus u).localStatus = localStatus := by
  unfold scannedUsage
  rfl

@[simp] theorem scannedUsage_observedAt :
    (scannedUsage now scan localStatus u).observedAt = now := by
  unfold scannedUsage
  rfl

end ScannedUsage

def upsertProblemUsage (now : Timestamp) (problemId : String) (scan : ScanResult)
    (localStatus : LocalStatus) (rows : List ProblemUsageRow) : List ProblemUsageRow :=
  upsertOn ProblemUsageRow.problemId
    (scannedUsage now scan localStatus (defaultUsage now problemId))
    (scannedUsage now scan localStatus) rows

def upsertMissingUsage (now : Timestamp) (problemId : String) (db : Database) :
    List ProblemUsageRow :=
  let totalBytes := ((latestReady problemId db.snapshots).map SnapshotRow.totalBytes).getD 0
  let fileCount := ((latestReady problemId db.snapshots).map SnapshotRow.fileCount).getD 0
  upsertOn ProblemUsageRow.problemId { defaultUsage now problemId with stale := false }
    (fun u => { u with
      localStatus := .missing, allocatedBytes := 0, auxiliaryBytes := 0, observedAt := now
      stale := false, logicalBytes := max u.logicalBytes totalBytes
      archiveBytes := max u.archiveBytes totalBytes, fileCount := max u.fileCount fileCount })
    db.problemUsage

/-- `upsert_discovered_usage`: the folder belongs to the problem that has its code, or to an
orphan of the code. -/
def upsertDiscoveredUsage (now : Timestamp) (code : String) (scan : ScanResult) (db : Database) :
    Database :=
  let orphan : ProblemRow :=
    catalogRow now ⟨orphanId code, code, none, false, none, none, none, 1⟩ .orphan
  let problems :=
    if db.problems.any fun p => p.externalId = orphanId code || p.code = code then db.problems
    else db.problems ++ [orphan]
  match problems.find? fun p => p.code = code with
  | none => db
  | some owner =>
      { db with
        problems := problems
        problemUsage := upsertProblemUsage now owner.externalId scan
          (if owner.catalogState = .orphan then .orphan else .present) db.problemUsage }

def markStale (code : String) (db : Database) : Database :=
  { db with
    problemUsage := updateWhere
      (fun u => db.problems.any fun p => p.externalId = u.problemId && p.code = code)
      (fun u => { u with stale := true }) db.problemUsage }

def markLocalMissingByCode (now : Timestamp) (code : String) (db : Database) : Database :=
  { db with
    problemUsage := updateWhere
      (fun u => db.problems.any fun p => p.externalId = u.problemId && p.code = code &&
        (p.catalogState = .present || p.catalogState = .mirror))
      (fun u => { u with localStatus := .missing, observedAt := now, stale := false })
      db.problemUsage }

/-- The `WHERE` clause of `heal_usage_ready_projection`. -/
def projectionBehind (u : ProblemUsageRow) (s : SnapshotRow) : Bool :=
  (match u.snapshotGeneration with
    | none => true
    | some current => current < s.generation) && u.r2Status ≠ .ready

def healUsageReadyProjection (now : Timestamp) (db : Database) : Database :=
  { db with
    problemUsage := db.problemUsage.map fun u =>
      match latestReady u.problemId db.snapshots with
      | none => u
      | some s =>
          if projectionBehind u s then
            { u with
              r2Status := .ready, snapshotGeneration := some s.generation, observedAt := now
              stale := false }
          else u }

def markLocalVerified (now : Timestamp) (problemId : String) (generation : Int)
    (rows : List ProblemUsageRow) : List ProblemUsageRow :=
  updateWhere (fun u => u.problemId = problemId)
    (fun u => { u with
      localStatus := .present
      snapshotGeneration := some (max (u.snapshotGeneration.getD 0) generation)
      observedAt := now, stale := false })
    rows

/-- The problem of a folder, as `ready_snapshot_matches_scan_by_code` finds it. -/
def problemOfCode (code : String) (db : Database) : Option ProblemRow :=
  db.problems.find? fun p => p.code = code &&
    (p.catalogState = .present || p.catalogState = .mirror)

def readySnapshotMatchesScanByCode (db : Database) (code : String) (scan : ScanResult) :
    Option (String × Int) := do
  let p ← problemOfCode code db
  let generation ← readySnapshotMatchesScan db p.externalId scan
  return (p.externalId, generation)

end DataPlane

end ExternalStorage.Model
