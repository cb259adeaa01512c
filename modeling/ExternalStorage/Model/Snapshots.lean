import ExternalStorage.Model.Errors
import ExternalStorage.Model.Keys
import ExternalStorage.Model.Tables
import Mathlib.Data.List.Sort

/-!
# Snapshot statements

The statements `snapshot.rs` runs on a `snapshots` row, one definition for each
statement or transaction, and the statement by which the control plane fails a
stalled row.  A transaction is the function of its committed effect; an error is
a rollback.
-/

namespace ExternalStorage.Model

open Library.Table

/-- `n as i64` and `n as i32`. -/
def asI64 (n : Nat) : Int := Int.bmod n (2 ^ 64)
def asI32 (n : Nat) : Int := Int.bmod n (2 ^ 32)

theorem asI64_of_fits {n : Nat} (h : n < 2 ^ 63) : asI64 n = n := by
  unfold asI64
  apply Int.bmod_eq_of_le <;> omega

structure FileEntry where
  path : String
  sha256 : String
  size : Nat
  allocatedBytes : Nat
  dev : Nat
  ino : Nat
  nlink : Nat
  mode : Nat
  duplicateOf : Option String
  symlinkTarget : Option String
  deriving DecidableEq, Repr

structure ScanResult where
  code : String
  logicalBytes : Nat
  allocatedBytes : Nat
  archiveBytes : Nat
  auxiliaryBytes : Nat
  fileCount : Nat
  files : List FileEntry
  deriving DecidableEq, Repr

structure ManifestFile where
  path : String
  sha256 : String
  size : Nat
  allocatedBytes : Nat
  mode : Nat
  dev : Nat
  ino : Nat
  nlink : Nat
  duplicateOf : Option String
  symlinkTarget : Option String
  objectKey : String
  deriving DecidableEq, Repr

structure Manifest where
  schemaVersion : Nat
  problemId : String
  code : String
  generation : Int
  createdAt : Timestamp
  files : List ManifestFile
  canonicalDownloadPath : Option String
  totalBytes : Nat
  fileCount : Int
  deriving DecidableEq, Repr

/-- The entry `upload_manifest_file` returns for a file whose stable hash is the
scanned one. -/
def FileEntry.toManifestFile (f : FileEntry) : ManifestFile where
  path := f.path
  sha256 := f.sha256
  size := f.size
  allocatedBytes := f.allocatedBytes
  mode := f.mode
  dev := f.dev
  ino := f.ino
  nlink := f.nlink
  duplicateOf := f.duplicateOf
  symlinkTarget := f.symlinkTarget
  objectKey := objectKeyForSha256 f.sha256

/-- `manifest_files.sort_by(|a, b| a.path.cmp(&b.path))`, a stable sort. -/
def sortManifestFiles (files : List ManifestFile) : List ManifestFile :=
  files.insertionSort fun a b => a.path ≤ b.path

/-- The sum of the sizes of the entries without `duplicate_of`, in `u64`. -/
def manifestTotalBytes (files : List ManifestFile) : Nat :=
  ((files.filter fun f => f.duplicateOf.isNone).map ManifestFile.size).sum % 2 ^ 64

/-- The manifest `create_snapshot_after_insert` publishes for its uploaded files. -/
def buildManifest (problemId code : String) (generation : Int) (createdAt : Timestamp)
    (canonical : String) (files : List ManifestFile) : Manifest where
  schemaVersion := 3
  problemId := problemId
  code := code
  generation := generation
  createdAt := createdAt
  files := files
  canonicalDownloadPath := some canonical
  totalBytes := manifestTotalBytes files
  fileCount := files.length

/-! ## Fencing -/

/-- `ensure_latest_fencing` and `ensure_latest_fencing_tx`. -/
def ensureLatestFencing (jobs : List JobRow) (problemId : String) (token : Int) :
    Except AppError Unit :=
  checkToken (latestFencingToken jobs problemId) token

/-! ## Claiming a row -/

/-- The states in which a run may still be working on a row. -/
def SnapshotState.active : SnapshotState → Bool
  | .discovered | .hashing | .uploading | .verifying => true
  | .ready | .error | .superseded => false

/-- The `WHERE` clause of the claim's `DO UPDATE`. -/
def takeoverAllowed (now : Timestamp) (s : SnapshotRow) : Bool :=
  s.state = .error || (s.state.active && s.createdAt < now - hours 2)

def freshSnapshot (id : Uuid) (problemId : String) (generation : Int)
    (createdAt : Timestamp) : SnapshotRow where
  id := id
  problemId := problemId
  generation := generation
  state := .discovered
  fileCount := 0
  totalBytes := 0
  manifestKey := none
  errorCode := none
  errorMessage := none
  createdAt := createdAt
  completedAt := none
  supersededAt := none

/-- The `SET` clause of the claim's `DO UPDATE`. -/
def SnapshotRow.reclaimed (createdAt : Timestamp) (s : SnapshotRow) : SnapshotRow :=
  { s with
    state := .discovered, fileCount := 0, totalBytes := 0, manifestKey := none,
    errorCode := none, errorMessage := none, completedAt := none, createdAt := createdAt }

def SnapshotRow.isFor (problemId : String) (generation : Int) (s : SnapshotRow) : Bool :=
  s.problemId = problemId && s.generation = generation

theorem SnapshotRow.isFor_iff {problemId : String} {generation : Int} {s : SnapshotRow} :
    s.isFor problemId generation = true ↔ s.problemId = problemId ∧ s.generation = generation := by
  simp only [SnapshotRow.isFor, Bool.and_eq_true, decide_eq_true_eq]

/-- The `INSERT … ON CONFLICT (problem_id, generation) DO UPDATE … RETURNING id` of
`claim_snapshot`; no row returned means that another run owns the generation. -/
def claimSnapshot (now : Timestamp) (rows : List SnapshotRow) (requestedId : Uuid)
    (problemId : String) (generation : Int) (createdAt : Timestamp) :
    List SnapshotRow × Option Uuid :=
  match rows.find? (SnapshotRow.isFor problemId generation) with
  | none => (rows ++ [freshSnapshot requestedId problemId generation createdAt], some requestedId)
  | some s =>
      if takeoverAllowed now s then
        (updateWhere (fun s => s.isFor problemId generation && takeoverAllowed now s)
          (SnapshotRow.reclaimed createdAt) rows, some s.id)
      else
        (rows, none)

/-- The columns `generation` and `file_count` are INTEGER and the fields of the row `i64`. -/
def decodeSnapshotRow (_ : SnapshotRow) : Except AppError SnapshotRow :=
  .error (.database ("error occurred while decoding column \"generation\": mismatched types; " ++
    "Rust type `i64` (as SQL type `INT8`) is not compatible with SQL type `INT4`"))

def loadSnapshot (rows : List SnapshotRow) (problemId : String) (generation : Int) :
    Except AppError SnapshotRow :=
  match rows.find? (SnapshotRow.isFor problemId generation) with
  | some s => decodeSnapshotRow s
  | none =>
      .error (.internal s!"snapshot generation {generation} missing for problem {problemId}")

theorem loadSnapshot_ne_ok (rows : List SnapshotRow) (problemId : String) (generation : Int)
    (s : SnapshotRow) : loadSnapshot rows problemId generation ≠ .ok s := by
  unfold loadSnapshot decodeSnapshotRow
  split <;> nofun

theorem claimSnapshot_cases {now : Timestamp} {rows rows' : List SnapshotRow}
    {requestedId id : Uuid} {problemId : String} {generation : Int} {createdAt : Timestamp}
    (h : claimSnapshot now rows requestedId problemId generation createdAt = (rows', some id)) :
    (id = requestedId ∧ (∀ s ∈ rows, s.isFor problemId generation = false) ∧
      rows' = rows ++ [freshSnapshot requestedId problemId generation createdAt]) ∨
    (∃ s ∈ rows, s.isFor problemId generation = true ∧ takeoverAllowed now s = true ∧
      id = s.id ∧ rows' = updateWhere
        (fun s => s.isFor problemId generation && takeoverAllowed now s)
        (SnapshotRow.reclaimed createdAt) rows) := by
  unfold claimSnapshot at h
  split at h
  · rename_i hnone
    cases h
    left
    refine ⟨rfl, ?_, rfl⟩
    intro s hs
    simpa using List.find?_eq_none.mp hnone s hs
  · rename_i s hfound
    split at h
    · rename_i hallowed
      cases h
      exact .inr ⟨s, List.mem_of_find?_eq_some hfound, List.find?_some hfound, hallowed, rfl, rfl⟩
    · cases h

/-- `DELETE FROM snapshot_objects WHERE snapshot_id = $1`. -/
def deleteSnapshotObjects (id : Uuid) (objects : List SnapshotObjectRow) :
    List SnapshotObjectRow :=
  deleteWhere (fun o => o.snapshotId = id) objects

/-! ## Uploading -/

/-- `UPDATE snapshots SET state = 'hashing' WHERE id = $1`. -/
def setHashing (id : Uuid) (rows : List SnapshotRow) : List SnapshotRow :=
  updateWhere (fun s => s.id = id) (fun s => { s with state := .hashing }) rows

/-- `UPDATE snapshots SET state = 'verifying' WHERE id = $1 AND state = 'uploading'`. -/
def setVerifying (id : Uuid) (rows : List SnapshotRow) : List SnapshotRow :=
  updateWhere (fun s => s.id = id && s.state = .uploading)
    (fun s => { s with state := .verifying }) rows

def SnapshotObjectRow.key (o : SnapshotObjectRow) : Uuid × String := (o.snapshotId, o.relPath)

/-- The `DO UPDATE` of `INSERT INTO snapshot_objects … ON CONFLICT (snapshot_id, rel_path)`. -/
def SnapshotObjectRow.overwrite (new o : SnapshotObjectRow) : SnapshotObjectRow :=
  { o with
    sha256 := new.sha256, sizeBytes := new.sizeBytes, objectKey := new.objectKey,
    uploaded := new.uploaded, verified := new.verified }

/-- One upsert into `snapshot_objects` for each new row. -/
def upsertObjects (news objects : List SnapshotObjectRow) : List SnapshotObjectRow :=
  upsertAll SnapshotObjectRow.key id SnapshotObjectRow.overwrite news objects

theorem overwrite_mergesTo :
    MergesTo SnapshotObjectRow.key id id SnapshotObjectRow.overwrite := by
  intro new o hkey
  simp only [SnapshotObjectRow.key, Prod.mk.injEq, id_eq] at hkey
  obtain ⟨hid, hpath⟩ := hkey
  cases o
  cases new
  simp_all [SnapshotObjectRow.key, SnapshotObjectRow.overwrite]

theorem mem_upsertObjects {news objects : List SnapshotObjectRow} {o : SnapshotObjectRow}
    (ho : o ∈ upsertObjects news objects) :
    (o ∈ objects ∧ ∀ new ∈ news, o.key ≠ new.key) ∨ o ∈ news := by
  rcases view_of_mem_upsertAll overwrite_mergesTo ho with hold | ⟨new, hnew, -, hview⟩
  · exact .inl hold
  · obtain rfl : o = new := hview
    exact .inr hnew

theorem exists_mem_upsertObjects {news : List SnapshotObjectRow} {new : SnapshotObjectRow}
    (objects : List SnapshotObjectRow) (hnew : new ∈ news) :
    ∃ o ∈ upsertObjects news objects, o.key = new.key := by
  have hmerge : MergesTo SnapshotObjectRow.key (fun _ => ()) id SnapshotObjectRow.overwrite :=
    fun new o hkey => ⟨(overwrite_mergesTo new o hkey).1, rfl⟩
  obtain ⟨o, ho, hkey, -⟩ := exists_mem_upsertAll hmerge (fun _ _ _ _ _ => rfl) hnew
  exact ⟨o, ho, hkey⟩

/-- The row `prepare_snapshot_upload` inserts for a scanned file. -/
def FileEntry.claimRow (id : Uuid) (f : FileEntry) : SnapshotObjectRow where
  snapshotId := id
  sha256 := f.sha256
  relPath := f.path
  sizeBytes := asI64 f.size
  objectKey := objectKeyForSha256 f.sha256
  uploaded := false
  verified := false

/-- The keys `prepare_snapshot_upload` locks. -/
def claimedKeys (files : List FileEntry) (mkey : String) : List String :=
  files.map (fun f => objectKeyForSha256 f.sha256) ++ [mkey]

/-- `UPDATE snapshots SET state = 'uploading', manifest_key = $2
WHERE id = $1 AND state = 'hashing'`. -/
def setUploading (id : Uuid) (mkey : String) (rows : List SnapshotRow) : List SnapshotRow :=
  updateWhere (fun s => s.id = id && s.state = .hashing)
    (fun s => { s with state := .uploading, manifestKey := some mkey }) rows

def prepareSnapshotUpload (db : Database) (id : Uuid) (files : List FileEntry) (mkey : String) :
    Except AppError Database :=
  if db.snapshots.countP (fun s => s.id = id && s.state = .hashing) = 1 then
    .ok { db with
      gcMarks := deleteWhere (fun m => m.objectKey ∈ claimedKeys files mkey) db.gcMarks
      snapshots := setUploading id mkey db.snapshots
      snapshotObjects := upsertObjects (files.map (FileEntry.claimRow id)) db.snapshotObjects }
  else
    .error (.internal "snapshot upload preparation CAS failed")

/-- The `WHERE` and the `SET` clause of the claim update. -/
def SnapshotObjectRow.isAt (id : Uuid) (path : String) (o : SnapshotObjectRow) : Bool :=
  o.snapshotId = id && o.relPath = path

def FileEntry.storedRow (f : FileEntry) (o : SnapshotObjectRow) : SnapshotObjectRow :=
  { o with
    sha256 := f.sha256, sizeBytes := asI64 f.size, objectKey := objectKeyForSha256 f.sha256,
    uploaded := true, verified := true }

/-- The claim update of `upload_manifest_file`. -/
def recordUploaded (id : Uuid) (f : FileEntry) (objects : List SnapshotObjectRow) :
    Except AppError (List SnapshotObjectRow) :=
  if objects.countP (SnapshotObjectRow.isAt id f.path) = 1 then
    .ok (updateWhere (SnapshotObjectRow.isAt id f.path) f.storedRow objects)
  else
    .error (.internal s!"snapshot object claim missing for {f.path}")

/-- A claim update that succeeds goes through the table row by row, keeps every row's
place and stores the file at the one place it addresses. -/
theorem recordUploaded_eq_ok {id : Uuid} {f : FileEntry}
    {objects objects' : List SnapshotObjectRow} (h : recordUploaded id f objects = .ok objects') :
    ∃ g : SnapshotObjectRow → SnapshotObjectRow, objects' = objects.map g ∧
      ∀ o, (g o).snapshotId = o.snapshotId ∧ (g o).relPath = o.relPath ∧
        (g o = o ∨ o.isAt id f.path = true ∧ g o = f.storedRow o) := by
  unfold recordUploaded at h
  split at h
  · cases h
    refine ⟨_, rfl, ?_⟩
    intro o
    split
    · rename_i hat
      exact ⟨rfl, rfl, .inr ⟨hat, rfl⟩⟩
    · exact ⟨rfl, rfl, .inl rfl⟩
  · cases h

def markSnapshotError (now : Timestamp) (id : Uuid) (err : AppError) (rows : List SnapshotRow) :
    List SnapshotRow :=
  updateWhere (fun s => s.id = id && s.state ≠ .ready)
    (fun s => { s with
      state := .error, errorCode := some err.errorCode, errorMessage := some err.message,
      completedAt := some now }) rows

/-- `failStalledSnapshots` of the control plane. -/
def failStalledSnapshots (now : Timestamp) (rows : List SnapshotRow) : List SnapshotRow :=
  updateWhere (fun s => s.state.active && s.createdAt < now - hours 6)
    (fun s => { s with
      state := .error, errorCode := some "stalled"
      errorMessage := some "snapshot stalled in a non-terminal state (no live uploader)"
      completedAt := some now }) rows

/-! ## Publication -/

/-- The older READY rows of the problem become `superseded`. -/
def supersedeReady (now : Timestamp) (problemId : String) (generation : Int)
    (rows : List SnapshotRow) : List SnapshotRow :=
  updateWhere (fun s => s.problemId = problemId && s.state = .ready && s.generation < generation)
    (fun s => { s with state := .superseded, supersededAt := some now }) rows

def finalizable (id : Uuid) (problemId : String) (generation : Int) (s : SnapshotRow) : Bool :=
  s.id = id && s.problemId = problemId && s.generation = generation && s.state = .verifying

/-- The `SET` clause of the final CAS. -/
def SnapshotRow.published (now : Timestamp) (fileCount totalBytes : Nat) (mkey : String)
    (s : SnapshotRow) : SnapshotRow :=
  { s with
    state := .ready, completedAt := some now, fileCount := asI32 fileCount
    totalBytes := asI64 totalBytes, manifestKey := some mkey }

/-- The row `finalize_snapshot_cas` upserts for a manifest entry. -/
def ManifestFile.verifiedRow (id : Uuid) (f : ManifestFile) : SnapshotObjectRow where
  snapshotId := id
  sha256 := f.sha256
  relPath := f.path
  sizeBytes := asI64 f.size
  objectKey := f.objectKey
  uploaded := true
  verified := true

/-- `SELECT snapshot_generation FROM problem_usage WHERE problem_id = $1`. -/
def usageGeneration (usage : List ProblemUsageRow) (problemId : String) : Option Int :=
  (usage.find? fun u => u.problemId = problemId).bind ProblemUsageRow.snapshotGeneration

/-- The rows the usage update of `finalize_snapshot_cas` addresses. -/
def usageBehind (problemId : String) (generation : Int) (u : ProblemUsageRow) : Bool :=
  u.problemId = problemId &&
    (match u.snapshotGeneration with
      | none => true
      | some current => current < generation)

/-- `should_clear_dirty_after_snapshot`, the `WHERE` clause of the dirty clear. -/
def shouldClearDirtyAfterSnapshot (dirty : Bool) (dirtyGeneration : Option Int)
    (dirtyVersion snapshotGeneration : Int) (expectedDirtyVersion : Option Int) : Bool :=
  dirty && expectedDirtyVersion = some dirtyVersion &&
    (match dirtyGeneration with
      | none => false
      | some generation => generation ≤ snapshotGeneration)

/-- The dirty clear of `finalize_snapshot_cas` and `clearDirtyAfterSnapshotForJob`. -/
def clearDirtyAfterSnapshot (now : Timestamp) (problemId : String) (generation : Int)
    (expectedDirtyVersion : Option Int) (problems : List ProblemRow) : List ProblemRow :=
  updateWhere
    (fun p => p.externalId = problemId && shouldClearDirtyAfterSnapshot p.dirty p.dirtyGeneration
      p.dirtyVersion generation expectedDirtyVersion)
    (fun p => { p with dirty := false, dirtyGeneration := none, observedAt := now, stale := false })
    problems

/-- What a run hands to `finalize_snapshot_cas`. -/
structure FinalizeArgs where
  snapshotId : Uuid
  problemId : String
  generation : Int
  fencingToken : Int
  expectedDirtyVersion : Option Int
  manifestFiles : List ManifestFile
  totalBytes : Nat
  manifestKey : String
  deriving DecidableEq, Repr

/-- The writes of `finalize_snapshot_cas`. -/
def finalized (now : Timestamp) (a : FinalizeArgs) (db : Database) : Database :=
  { db with
    snapshots := updateWhere (finalizable a.snapshotId a.problemId a.generation)
      (SnapshotRow.published now a.manifestFiles.length a.totalBytes a.manifestKey)
      (supersedeReady now a.problemId a.generation db.snapshots)
    snapshotObjects := upsertObjects
      (a.manifestFiles.map (ManifestFile.verifiedRow a.snapshotId)) db.snapshotObjects
    problemUsage := updateWhere (usageBehind a.problemId a.generation)
      (fun u => { u with
        r2Status := .ready, snapshotGeneration := some a.generation, observedAt := now
        stale := false }) db.problemUsage
    problems := match a.expectedDirtyVersion with
      | none => db.problems
      | some _ => clearDirtyAfterSnapshot now a.problemId a.generation a.expectedDirtyVersion
          db.problems }

theorem finalized_snapshots (now : Timestamp) (a : FinalizeArgs) (db : Database) :
    (finalized now a db).snapshots =
      updateWhere (finalizable a.snapshotId a.problemId a.generation)
        (SnapshotRow.published now a.manifestFiles.length a.totalBytes a.manifestKey)
        (supersedeReady now a.problemId a.generation db.snapshots) := rfl

theorem finalizable_iff {id : Uuid} {problemId : String} {generation : Int} {s : SnapshotRow} :
    finalizable id problemId generation s = true ↔
      s.id = id ∧ s.problemId = problemId ∧ s.generation = generation ∧
        s.state = .verifying := by
  simp only [finalizable, Bool.and_eq_true, decide_eq_true_eq, and_assoc]

/-- The writes of `finalize_snapshot_cas` under their row counts.  The unique index
`idx_snapshots_one_ready_problem` is checked by the final CAS. -/
def finalizeCas (now : Timestamp) (a : FinalizeArgs) (db : Database) :
    Except AppError Database :=
  let superseded := supersedeReady now a.problemId a.generation db.snapshots
  let addressed := finalizable a.snapshotId a.problemId a.generation
  if superseded.any addressed &&
      superseded.any (fun s => s.problemId = a.problemId && s.state = .ready) then
    .error (.database
      "duplicate key value violates unique constraint \"idx_snapshots_one_ready_problem\"")
  else if superseded.countP addressed ≠ 1 then
    .error (.internal "snapshot final CAS failed before READY")
  else if db.problemUsage.countP (usageBehind a.problemId a.generation) ≠ 1 then
    .error (.internal "problem_usage generation CAS failed")
  else
    .ok (finalized now a db)

/-- The transaction of `finalize_snapshot_cas` after its fencing check. -/
def finalizeBody (now : Timestamp) (a : FinalizeArgs) (db : Database) :
    Except AppError Database :=
  match usageGeneration db.problemUsage a.problemId with
  | none => finalizeCas now a db
  | some current =>
      if current ≥ a.generation then
        .error (.fencingMismatch a.generation current)
      else
        finalizeCas now a db

/-- The guards under which `finalize_snapshot_cas` commits. -/
structure FinalizeAdmitted (now : Timestamp) (a : FinalizeArgs) (db : Database) : Prop where
  newer : ∀ current ∈ usageGeneration db.problemUsage a.problemId, current < a.generation
  noReady : ∀ s ∈ supersedeReady now a.problemId a.generation db.snapshots,
    s.problemId = a.problemId → s.state ≠ .ready
  verifying : (supersedeReady now a.problemId a.generation db.snapshots).countP
    (finalizable a.snapshotId a.problemId a.generation) = 1
  behind : db.problemUsage.countP (usageBehind a.problemId a.generation) = 1

instance (now : Timestamp) (a : FinalizeArgs) (db : Database) :
    Decidable (FinalizeAdmitted now a db) :=
  decidable_of_iff
    ((∀ current ∈ usageGeneration db.problemUsage a.problemId, current < a.generation) ∧
      (∀ s ∈ supersedeReady now a.problemId a.generation db.snapshots,
        s.problemId = a.problemId → s.state ≠ .ready) ∧
      (supersedeReady now a.problemId a.generation db.snapshots).countP
        (finalizable a.snapshotId a.problemId a.generation) = 1 ∧
      db.problemUsage.countP (usageBehind a.problemId a.generation) = 1)
    ⟨fun ⟨h₁, h₂, h₃, h₄⟩ => ⟨h₁, h₂, h₃, h₄⟩, fun ⟨h₁, h₂, h₃, h₄⟩ => ⟨h₁, h₂, h₃, h₄⟩⟩

theorem finalizeCas_eq_ok_iff {now : Timestamp} {a : FinalizeArgs} {db db' : Database} :
    finalizeCas now a db = .ok db' ↔
      (∀ s ∈ supersedeReady now a.problemId a.generation db.snapshots,
        s.problemId = a.problemId → s.state ≠ .ready) ∧
      (supersedeReady now a.problemId a.generation db.snapshots).countP
        (finalizable a.snapshotId a.problemId a.generation) = 1 ∧
      db.problemUsage.countP (usageBehind a.problemId a.generation) = 1 ∧
      db' = finalized now a db := by
  unfold finalizeCas
  dsimp only
  split
  · rename_i violated
    simp only [Bool.and_eq_true, List.any_eq_true, decide_eq_true_eq] at violated
    obtain ⟨-, s, hs, hp, hready⟩ := violated
    constructor
    · intro h
      cases h
    · rintro ⟨hnone, -⟩
      exact absurd hready (hnone s hs hp)
  · rename_i unviolated
    split
    · rename_i hcount
      constructor
      · intro h
        cases h
      · rintro ⟨-, hone, -⟩
        exact absurd hone hcount
    · rename_i hone
      rw [not_not] at hone
      have hnone : ∀ s ∈ supersedeReady now a.problemId a.generation db.snapshots,
          s.problemId = a.problemId → s.state ≠ .ready := by
        intro s hs hp hready
        apply unviolated
        have hsome : 0 < (supersedeReady now a.problemId a.generation db.snapshots).countP
            (finalizable a.snapshotId a.problemId a.generation) := by omega
        obtain ⟨t, ht, haddressed⟩ := List.countP_pos_iff.mp hsome
        simp only [Bool.and_eq_true, List.any_eq_true, decide_eq_true_eq]
        exact ⟨⟨t, ht, haddressed⟩, s, hs, hp, hready⟩
      split
      · rename_i hbehind
        constructor
        · intro h
          cases h
        · rintro ⟨-, -, h, -⟩
          exact absurd h hbehind
      · rename_i hbehind
        rw [not_not] at hbehind
        rw [Except.ok.injEq, eq_comm]
        exact ⟨fun h => ⟨hnone, hone, hbehind, h⟩, fun h => h.2.2.2⟩

theorem finalizeBody_eq_ok_iff {now : Timestamp} {a : FinalizeArgs} {db db' : Database} :
    finalizeBody now a db = .ok db' ↔ FinalizeAdmitted now a db ∧ db' = finalized now a db := by
  have hcas : (∀ current ∈ usageGeneration db.problemUsage a.problemId,
      current < a.generation) → (finalizeCas now a db = .ok db' ↔
        FinalizeAdmitted now a db ∧ db' = finalized now a db) := by
    intro hnewer
    rw [finalizeCas_eq_ok_iff]
    constructor
    · rintro ⟨hready, hone, hbehind, rfl⟩
      exact ⟨⟨hnewer, hready, hone, hbehind⟩, rfl⟩
    · rintro ⟨hadm, rfl⟩
      exact ⟨hadm.noReady, hadm.verifying, hadm.behind, rfl⟩
  unfold finalizeBody
  split
  · rename_i hnone
    apply hcas
    intro current hcurrent
    rw [hnone] at hcurrent
    cases hcurrent
  · rename_i current hcurrent
    split
    · rename_i hge
      constructor
      · intro h
        cases h
      · rintro ⟨hadm, -⟩
        exact absurd (hadm.newer current hcurrent) (by omega)
    · rename_i hlt
      apply hcas
      intro other hother
      rw [hcurrent, Option.mem_some_iff] at hother
      omega

theorem FinalizeAdmitted.exists_published {now : Timestamp} {a : FinalizeArgs} {db : Database}
    (h : FinalizeAdmitted now a db) :
    ∃ s ∈ (finalized now a db).snapshots, s.id = a.snapshotId ∧ s.problemId = a.problemId ∧
      s.generation = a.generation ∧ s.state = .ready := by
  have hpos : 0 < (supersedeReady now a.problemId a.generation db.snapshots).countP
      (finalizable a.snapshotId a.problemId a.generation) := by
    rw [h.verifying]
    exact Nat.one_pos
  obtain ⟨s, hs, hfinal⟩ := List.countP_pos_iff.mp hpos
  obtain ⟨hid, hproblem, hgeneration, -⟩ := finalizable_iff.mp hfinal
  refine ⟨s.published now a.manifestFiles.length a.totalBytes a.manifestKey, ?_, hid, hproblem,
    hgeneration, rfl⟩
  rw [finalized_snapshots]
  exact mem_updateWhere.mpr ⟨s, hs, (if_pos hfinal).symm⟩

def finalizeSnapshotCas (now : Timestamp) (a : FinalizeArgs) (db : Database) :
    Except AppError Database :=
  match ensureLatestFencing db.jobs a.problemId a.fencingToken with
  | .ok () => finalizeBody now a db
  | .error e => .error e

theorem finalizeSnapshotCas_eq_ok {now : Timestamp} {a : FinalizeArgs} {db db' : Database}
    (h : finalizeSnapshotCas now a db = .ok db') :
    FinalizeAdmitted now a db ∧ db' = finalized now a db := by
  unfold finalizeSnapshotCas at h
  split at h
  · exact finalizeBody_eq_ok_iff.mp h
  · cases h

end ExternalStorage.Model
