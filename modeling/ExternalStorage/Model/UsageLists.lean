import ExternalStorage.Library.Groups
import ExternalStorage.Model.Lists
import ExternalStorage.Model.Manifests

/-!
# Lists and totals of usage

`listProblemFiles`, `listProblemUsage`, `listOrphans` and `listOrganizationUsage`, each in the order
of a text that is its cursor too, and the summary of the dashboard.  `collate` is the collation of
the database.
-/

namespace ExternalStorage.Model

open Library.Groups Library.Paging

section Lists

variable {κ : Type*} [LinearOrder κ] (collate : String → κ)

/-- `WHERE text > $1 ORDER BY text ASC LIMIT $2`, with the text of the last item as cursor. -/
def listByText {ρ : Type} (text : ρ → String) (limit : Nat) (rows : List ρ)
    (cursor : Option String) : ListPage ρ String :=
  listPage limit text
    ((inOrder (fun r => collate (text r))
      (rows.filter fun r => cursor.all fun c => collate c < collate (text r))).take (limit + 1))

/-- The snapshot of a page, and the page. -/
structure ProblemFilesResponse where
  generation : Option Int
  snapshotId : Option Uuid
  snapshotState : Option SnapshotState
  snapshotCompletedAt : Option Timestamp
  totalBytes : Option Int
  fileCount : Option Int
  page : ListPage SnapshotObjectRow String

def objectsOf (db : Database) (id : Uuid) : List SnapshotObjectRow :=
  db.snapshotObjects.filter fun o => o.snapshotId = id

/-- The snapshot is looked up for each page. -/
def listProblemFiles (externalId : String) (limit : Nat) (db : Database) (cursor : Option String) :
    ProblemFilesResponse :=
  let limit := min limit 500
  match latestReady externalId db.snapshots with
  | none => ⟨none, none, none, none, none, none, ⟨[], none, false⟩⟩
  | some snap =>
      ⟨some snap.generation, some snap.id, some snap.state, snap.completedAt,
        some snap.totalBytes, some snap.fileCount,
        listByText collate SnapshotObjectRow.relPath limit (objectsOf db snap.id) cursor⟩

def listProblemUsage (limit : Nat) (db : Database) (cursor : Option String) :
    ListPage ProblemUsageRow String :=
  listByText collate ProblemUsageRow.problemId (min limit 200) db.problemUsage cursor

structure Orphan where
  code : String
  logicalBytes : Int
  allocatedBytes : Int
  fileCount : Int
  observedAt : Timestamp
  deriving DecidableEq, Repr

/-- `problems p JOIN problem_usage pu ON pu.problem_id = p.external_id`, of the orphans. -/
def orphansOf (db : Database) : List Orphan :=
  (db.problems.filter fun p => p.catalogState = .orphan).flatMap fun p =>
    (db.problemUsage.filter fun u => u.problemId = p.externalId).map fun u =>
      ⟨p.code, u.logicalBytes, u.allocatedBytes, u.fileCount, u.observedAt⟩

def listOrphans (limit : Nat) (db : Database) (cursor : Option String) : ListPage Orphan String :=
  listByText collate Orphan.code (min limit 200) (orphansOf db) cursor

end Lists

/-! ## Sums over problems and their usage -/

/-- `problems p LEFT JOIN problem_usage pu ON pu.problem_id = p.external_id`. -/
def problemsWithUsage (db : Database) : List (ProblemRow × Option ProblemUsageRow) :=
  leftJoin (fun p u => u.problemId = p.externalId) db.problems db.problemUsage

/-- `catalog_state IN ('present', 'mirror')`. -/
def isActiveProblem (p : ProblemRow) : Bool := p.catalogState = .present || p.catalogState = .mirror

/-- `COALESCE(SUM(pu.column), 0)`. -/
def sumUsage (column : ProblemUsageRow → Int) (rows : List (ProblemRow × Option ProblemUsageRow)) :
    Int :=
  (rows.map fun r => (r.2.map column).getD 0).sum

/-! ## Organizations -/

/-- `organization_settings`: the primary key is `organizationId`. -/
structure OrganizationSettingsRow where
  organizationId : String
  storageQuotaBytes : Option Int
  problemCountQuota : Option Int
  deriving DecidableEq, Repr

structure OrganizationUsage where
  organizationId : String
  problemCount : Int
  logicalBytes : Int
  allocatedBytes : Int
  archiveBytes : Int
  auxiliaryBytes : Int
  referencedBytes : Int
  quotaBytes : Option Int
  problemCountQuota : Option Int
  observedAt : Timestamp
  stale : Bool
  deriving DecidableEq, Repr

def organizationTotals (now : Timestamp) (settings : List OrganizationSettingsRow) (org : String)
    (rows : List (ProblemRow × Option ProblemUsageRow)) : OrganizationUsage :=
  let os := settings.find? fun s => s.organizationId = org
  let usage := rows.filterMap Prod.snd
  { organizationId := org
    problemCount := rows.length
    logicalBytes := sumUsage ProblemUsageRow.logicalBytes rows
    allocatedBytes := sumUsage ProblemUsageRow.allocatedBytes rows
    archiveBytes := sumUsage ProblemUsageRow.archiveBytes rows
    auxiliaryBytes := sumUsage ProblemUsageRow.auxiliaryBytes rows
    referencedBytes := sumUsage ProblemUsageRow.referencedBytes rows
    quotaBytes := (os.bind OrganizationSettingsRow.storageQuotaBytes).or
      (rows.filterMap fun r => r.1.quotaBytes).max?
    problemCountQuota := os.bind OrganizationSettingsRow.problemCountQuota
    observedAt := (usage.map ProblemUsageRow.observedAt).max?.getD now
    -- `BOOL_OR` of no value is `NULL`
    stale := usage.isEmpty || usage.any ProblemUsageRow.stale }

/-- The groups of the active problems whose owner is `wanted`. -/
def organizationGroups (now : Timestamp) (settings : List OrganizationSettingsRow) (db : Database)
    (wanted : String → Bool) : List OrganizationUsage :=
  groupBy (fun r : ProblemRow × Option ProblemUsageRow => r.1.ownerOrganization)
    (organizationTotals now settings)
    ((problemsWithUsage db).filter fun r =>
      isActiveProblem r.1 && r.1.ownerOrganization.any wanted)

def getOrganizationUsage (now : Timestamp) (settings : List OrganizationSettingsRow) (db : Database)
    (orgId : String) : Option OrganizationUsage :=
  (organizationGroups now settings db fun org => org = orgId).head?

section Organizations

variable {κ : Type*} [LinearOrder κ] (collate : String → κ)

def listOrganizationUsage (now : Timestamp) (settings : List OrganizationSettingsRow) (limit : Nat)
    (db : Database) (cursor : Option String) : ListPage OrganizationUsage String :=
  let limit := min limit 200
  listPage limit OrganizationUsage.organizationId
    ((inOrder (fun o => collate o.organizationId)
      (organizationGroups now settings db fun org =>
        cursor.all fun c => collate c < collate org)).take (limit + 1))

end Organizations

/-! ## The dashboard -/

structure DashboardSummary where
  catalogProblemCount : Int
  activeProblemCount : Int
  dirtyProblemCount : Int
  orphanCount : Int
  logicalBytes : Int
  allocatedBytes : Int
  archiveBytes : Int
  auxiliaryBytes : Int
  localProblemCount : Int
  localAllocatedBytes : Int
  r2SnapshotProblemCount : Int
  r2SnapshotBytes : Int
  deriving DecidableEq, Repr

/-- `snapshots s JOIN problems sp ON sp.external_id = s.problem_id`, READY and active. -/
def readyActiveSnapshots (db : Database) : List SnapshotRow :=
  (db.snapshots.filter fun s => s.state = .ready).flatMap fun s =>
    (db.problems.filter fun p => p.externalId = s.problemId && isActiveProblem p).map fun _ => s

def getDashboardSummary (db : Database) : DashboardSummary :=
  let rows := problemsWithUsage db
  let active := rows.filter fun r => isActiveProblem r.1
  let onDisk := active.filter fun r => r.2.any fun u => u.localStatus = .present
  { catalogProblemCount := rows.length
    activeProblemCount := active.length
    dirtyProblemCount := (rows.filter fun r => r.1.dirty).length
    orphanCount := (rows.filter fun r => r.1.catalogState = .orphan).length
    logicalBytes := sumUsage ProblemUsageRow.logicalBytes active
    allocatedBytes := sumUsage ProblemUsageRow.allocatedBytes active
    archiveBytes := sumUsage ProblemUsageRow.archiveBytes active
    auxiliaryBytes := sumUsage ProblemUsageRow.auxiliaryBytes active
    localProblemCount := onDisk.length
    localAllocatedBytes := sumUsage ProblemUsageRow.allocatedBytes onDisk
    r2SnapshotProblemCount := (readyActiveSnapshots db).length
    r2SnapshotBytes := ((readyActiveSnapshots db).map SnapshotRow.totalBytes).sum }

end ExternalStorage.Model
