import ExternalStorage.Model.Tables
import Mathlib.Data.List.Sort
import Mathlib.Data.Prod.Lex

/-!
# Sync changes

`getSyncChanges` reads the problems with their usage in the order of their last
observation, page by page.  `collate` is the collation of the database: the order of the
external ids as texts.
-/

namespace ExternalStorage.Model

/-- A row of `problems p LEFT JOIN problem_usage pu`. -/
structure SyncRow where
  p : ProblemRow
  pu : Option ProblemUsageRow
  deriving DecidableEq, Repr

def syncRows (db : Database) : List SyncRow :=
  db.problems.map fun p => ⟨p, db.problemUsage.find? fun u => u.problemId = p.externalId⟩

/-- `GREATEST(p.observed_at, pu.observed_at)`, which passes over a `NULL`. -/
def SyncRow.updatedAt (r : SyncRow) : Timestamp :=
  match r.pu with
  | none => r.p.observedAt
  | some u => max r.p.observedAt u.observedAt

/-- The instant of the text: a `Date` keeps milliseconds. -/
def toRfc3339 (t : Timestamp) : Timestamp := t / 1000 * 1000

theorem toRfc3339_le (t : ℤ) : toRfc3339 t ≤ t := by
  show t / 1000 * 1000 ≤ t
  omega

inductive EventKind where
  | upsert | delete
  deriving DecidableEq, Repr

structure SyncChange where
  externalId : String
  code : String
  ownerOrganization : Option String
  isManuallyManaged : Bool
  mirrorOf : Option String
  mirrorRoot : Option String
  catalogState : CatalogState
  eventKind : EventKind
  schemaVersion : Int
  downloadable : Bool
  quotaBytes : Option Int
  logicalBytes : Int
  allocatedBytes : Int
  archiveBytes : Int
  auxiliaryBytes : Int
  fileCount : Int
  localStatus : LocalStatus
  r2Status : R2Status
  snapshotGeneration : Option Int
  orphanBytes : Int
  referencedBytes : Int
  lastAccessedAt : Option Timestamp
  observedAt : Timestamp
  stale : Bool
  updatedAt : Timestamp
  deriving DecidableEq, Repr

/-- Of the columns that both tables have, `p.*, pu.*` leaves those of `problem_usage`: so
`stale` is that of the usage, and `NULL` without one. -/
def rowToSyncChange (r : SyncRow) : SyncChange where
  externalId := r.p.externalId
  code := r.p.code
  ownerOrganization := r.p.ownerOrganization
  isManuallyManaged := r.p.isManuallyManaged
  mirrorOf := r.p.mirrorOf
  mirrorRoot := r.p.mirrorRoot
  catalogState := r.p.catalogState
  eventKind := if r.p.catalogState = .missing ∨ r.p.catalogState = .deleted then .delete else .upsert
  schemaVersion := 1
  downloadable := (r.pu.map ProblemUsageRow.r2Status).getD .none = .ready &&
    (r.pu.bind ProblemUsageRow.snapshotGeneration).isSome
  quotaBytes := r.p.quotaBytes
  logicalBytes := (r.pu.map ProblemUsageRow.logicalBytes).getD 0
  allocatedBytes := (r.pu.map ProblemUsageRow.allocatedBytes).getD 0
  archiveBytes := (r.pu.map ProblemUsageRow.archiveBytes).getD 0
  auxiliaryBytes := (r.pu.map ProblemUsageRow.auxiliaryBytes).getD 0
  fileCount := (r.pu.map ProblemUsageRow.fileCount).getD 0
  localStatus := (r.pu.map ProblemUsageRow.localStatus).getD .missing
  r2Status := (r.pu.map ProblemUsageRow.r2Status).getD .none
  snapshotGeneration := r.pu.bind ProblemUsageRow.snapshotGeneration
  orphanBytes := (r.pu.map ProblemUsageRow.orphanBytes).getD 0
  referencedBytes := (r.pu.map ProblemUsageRow.referencedBytes).getD 0
  lastAccessedAt := (r.pu.bind ProblemUsageRow.lastAccessedAt).map toRfc3339
  observedAt := toRfc3339 ((r.pu.map ProblemUsageRow.observedAt).getD r.p.observedAt)
  stale := (r.pu.map ProblemUsageRow.stale).getD true
  updatedAt := toRfc3339 r.updatedAt

structure SyncCursor where
  updatedAt : Timestamp
  externalId : String
  deriving DecidableEq, Repr

structure SyncChangesResponse where
  schemaVersion : Int
  changes : List SyncChange
  nextCursor : Option SyncCursor
  hasMore : Bool
  deriving DecidableEq, Repr

section Collation

variable {κ : Type*} [LinearOrder κ] (collate : String → κ)

/-- `ORDER BY updated_at, external_id`. -/
def syncKey (r : SyncRow) : ℤ ×ₗ κ := toLex (r.updatedAt, collate r.p.externalId)

def SyncCursor.key (c : SyncCursor) : ℤ ×ₗ κ := toLex (c.updatedAt, collate c.externalId)

/-- The `WHERE` clause. -/
def afterCursor (cursor : Option SyncCursor) (r : SyncRow) : Bool :=
  match cursor with
  | none => true
  | some c => c.key collate < syncKey collate r

def getSyncChanges (cursor : Option SyncCursor) (limit : Nat) (db : Database) :
    SyncChangesResponse :=
  let limit := min limit 500
  let rows := (((syncRows db).filter (afterCursor collate cursor)).insertionSort fun r s =>
    syncKey collate r ≤ syncKey collate s).take (limit + 1)
  { schemaVersion := 1
    changes := (rows.take limit).map rowToSyncChange
    nextCursor := (rows.take limit).getLast?.map fun last =>
      ⟨toRfc3339 last.updatedAt, last.p.externalId⟩
    hasMore := limit < rows.length }

end Collation

end ExternalStorage.Model
