import ExternalStorage.Jobs.Fencing
import ExternalStorage.Model.Leases
import ExternalStorage.Model.Publication
import ExternalStorage.Restore.Scanning

/-!
# Operations on the folder of a problem

Evictions, restores and snapshot completions of one problem, over its folder and the
database, with the job statements, catalog writes and uploads that go on beside them.  An
operation advances by one statement, one call to the file system or one commit at a time,
and waits for the locks it needs: the problem-data flock, the advisory lock of the problem,
and the rows that another operation has selected `FOR UPDATE`.
-/

namespace ExternalStorage.Publication

open ExternalStorage.Model Library.Table

variable {Bytes : Type}

/-! ## The state -/

structure Site (Bytes : Type) where
  contents : Contents Bytes
  fromSlice : Bytes → Except String Manifest
  root : String
  problemId : String
  code : String

/-- A problem folder; hard links are files of one inode. -/
structure Folder (Bytes : Type) where
  walk : List (WalkEntry Bytes)
  same : Restore.SameContents walk

/-- The point `evict_local` has reached. -/
inductive EvictPhase (Bytes : Type) where
  /-- The checks before the flock have passed. -/
  | admitted
  | locked
  | scanned (scan : ScanResult)
  | matched (scan : ScanResult)
  /-- The transaction has checked the fencing token. -/
  | fenced (scan : ScanResult)
  /-- It has selected its rows `FOR UPDATE` and checked them. -/
  | checked (scan : ScanResult)
  | renamed (folder : Folder Bytes)

/-- The point `restore_snapshot` has reached. -/
inductive RestorePhase (Bytes : Type) where
  /-- The staging directory is complete. -/
  | prepared
  | locked
  | fenced
  /-- The READY row is selected. -/
  | found
  /-- There was no folder. -/
  | vacant
  /-- There was a folder, and the problem is not dirty. -/
  | clean
  | scanned (scan : ScanResult)
  | matched
  /-- A folder that was there has been renamed. -/
  | cleared (old : Option (Folder Bytes))
  | published

structure Eviction (Bytes : Type) where
  request : EvictRequest
  generation : Int
  phase : EvictPhase Bytes

structure Restoration (Bytes : Type) where
  request : RestoreRequest
  generation : Int
  staging : Staging Bytes
  phase : RestorePhase Bytes

inductive Operation (Bytes : Type) where
  | evict (e : Eviction Bytes)
  | restore (r : Restoration Bytes)
  /-- A transaction of `finalize_snapshot_cas` that has checked its fencing token. -/
  | finalize (a : FinalizeArgs)
  | done

structure World (Bytes : Type) where
  ledger : Jobs.Ledger
  folder : Option (Folder Bytes)
  operations : List (Operation Bytes) := []

/-! ## Locks -/

/-- The directory, below the problem root, in whose `.locks` a restore takes the flock:
`dest.parent()`. -/
def lockDirectory (q : RestoreRequest) : List String := (pathNames q.dest).dropLast

/-- The directory of the flock that an operation holds; `[]` is the problem root. -/
def Operation.dataLock : Operation Bytes → Option (List String)
  | .evict ⟨_, _, .admitted⟩ => none
  | .evict _ => some []
  | .restore ⟨_, _, _, .prepared⟩ => none
  | .restore r => some (lockDirectory r.request)
  | .finalize _ | .done => none

def Operation.transaction : Operation Bytes → Option (String × Int)
  | .evict ⟨q, _, .fenced _⟩ | .evict ⟨q, _, .checked _⟩ | .evict ⟨q, _, .renamed _⟩ =>
      some (q.problemId, q.fencingToken)
  | .evict _ => none
  | .restore ⟨_, _, _, .prepared⟩ | .restore ⟨_, _, _, .locked⟩ => none
  | .restore r => some (r.request.problemId, r.request.fencingToken)
  | .finalize a => some (a.problemId, a.fencingToken)
  | .done => none

/-- The operation has selected the row of the problem `FOR UPDATE`. -/
def Operation.locksProblem : Operation Bytes → Bool
  | .evict ⟨_, _, .checked _⟩ | .evict ⟨_, _, .renamed _⟩ => true
  | .restore ⟨_, _, _, .clean⟩ | .restore ⟨_, _, _, .scanned _⟩
  | .restore ⟨_, _, _, .matched⟩ => true
  | _ => false

/-- The operation has selected the usage row of the problem `FOR UPDATE`. -/
def Operation.locksUsage : Operation Bytes → Bool
  | .evict ⟨_, _, .checked _⟩ | .evict ⟨_, _, .renamed _⟩ => true
  | _ => false

def dataLockFree (operations : List (Operation Bytes)) (directory : List String) : Bool :=
  operations.all fun o => o.dataLock ≠ some directory

def advisoryLockFree (operations : List (Operation Bytes)) (problemId : String) : Bool :=
  operations.all fun o => o.transaction.all fun t => t.1 ≠ problemId

def problemRows (db : Database) (problemId : String) : List ProblemRow :=
  db.problems.filter fun p => p.externalId = problemId

def usageRows (db : Database) (problemId : String) : List ProblemUsageRow :=
  db.problemUsage.filter fun u => u.problemId = problemId

def rowsFree (operations : List (Operation Bytes)) (problemId : String) (db db' : Database) :
    Bool :=
  operations.all fun o =>
    (!o.locksProblem || problemRows db' problemId = problemRows db problemId) &&
      (!o.locksUsage || usageRows db' problemId = usageRows db problemId)

/-! ## The database -/

/-- The keys and foreign keys that the database keeps. -/
structure Constraints (db : Database) : Prop where
  problemIds : (db.problems.map ProblemRow.externalId).Nodup
  problemCodes : (db.problems.map ProblemRow.code).Nodup
  usageIds : (db.problemUsage.map ProblemUsageRow.problemId).Nodup
  snapshotIds : (db.snapshots.map SnapshotRow.id).Nodup
  jobIds : (db.jobs.map JobRow.id).Nodup
  usageProblems : ∀ u ∈ db.problemUsage, ∃ p ∈ db.problems, p.externalId = u.problemId

instance (db : Database) : Decidable (Constraints db) :=
  decidable_of_iff ((db.problems.map ProblemRow.externalId).Nodup ∧
      (db.problems.map ProblemRow.code).Nodup ∧
      (db.problemUsage.map ProblemUsageRow.problemId).Nodup ∧
      (db.snapshots.map SnapshotRow.id).Nodup ∧ (db.jobs.map JobRow.id).Nodup ∧
      ∀ u ∈ db.problemUsage, ∃ p ∈ db.problems, p.externalId = u.problemId)
    ⟨fun ⟨h₁, h₂, h₃, h₄, h₅, h₆⟩ => ⟨h₁, h₂, h₃, h₄, h₅, h₆⟩,
      fun ⟨h₁, h₂, h₃, h₄, h₅, h₆⟩ => ⟨h₁, h₂, h₃, h₄, h₅, h₆⟩⟩

def World.db (w : World Bytes) : Database := w.ledger.db

def World.commit (w : World Bytes) (ledger : Jobs.Ledger) : Option (World Bytes) :=
  if Constraints ledger.db then some { w with ledger := ledger } else none

/-- A commit of the data plane, which hands out no token. -/
def World.write (w : World Bytes) (db : Database) : Option (World Bytes) :=
  w.commit (w.ledger.after db [])

def World.setOperation (w : World Bytes) (i : Nat) (o : Operation Bytes) : World Bytes :=
  { w with operations := w.operations.set i o }

def World.start (w : World Bytes) (o : Operation Bytes) : World Bytes :=
  { w with operations := w.operations ++ [o] }

/-! ## `evict_local` -/

/-- The checks of the transaction after the fencing token. -/
def evictChecks (db : Database) (q : EvictRequest) (generation : Int) : Except AppError Unit :=
  match readyUsage db.problemUsage q.problemId,
      db.problems.find? fun p => p.externalId = q.problemId with
  | some u, some p => do
      refuseIf (u.snapshotGeneration ≠ some generation) (.r2NotReady q.problemId)
      refuseIf p.dirty .evictionDirty
      refuseIf (∃ cutoff ∈ q.idleBefore, ∃ lastAccess ∈ u.lastAccessedAt, lastAccess > cutoff)
        .evictionRecentlyAccessed
  | _, _ => .error (.r2NotReady q.problemId)

def Operation.after {α : Type} (x : Except AppError α) (next : α → Operation Bytes) :
    Operation Bytes :=
  match x with
  | .ok a => next a
  | .error _ => .done

def advanceEvict (site : Site Bytes) (w : World Bytes) (e : Eviction Bytes) :
    Option (World Bytes × Operation Bytes) :=
  match e.phase with
  | .admitted =>
      if dataLockFree w.operations [] then some (w, .evict { e with phase := .locked }) else none
  | .locked =>
      match w.folder with
      | none => some (w, .done)
      | some f => some (w, .after (scanProblemFolder site.contents site.root site.code (some f.walk))
          fun scan => .evict { e with phase := .scanned scan })
  | .scanned scan =>
      some (w, .after (evictMatches w.db e.request e.generation scan) fun _ =>
        if e.request.dryRun then .done else .evict { e with phase := .matched scan })
  | .matched scan =>
      if advisoryLockFree w.operations e.request.problemId then
        some (w, .after (ensureLatestFencing w.db.jobs e.request.problemId e.request.fencingToken)
          fun _ => .evict { e with phase := .fenced scan })
      else
        none
  | .fenced scan =>
      some (w, .after (evictChecks w.db e.request e.generation) fun _ =>
        .evict { e with phase := .checked scan })
  | .checked _ =>
      match w.folder with
      | none => some (w, .done)
      | some f => some ({ w with folder := none }, .evict { e with phase := .renamed f })
  | .renamed _ =>
      (w.write (evicted w.ledger.now e.request e.generation w.db)).map fun w => (w, .done)

/-! ## `restore_snapshot` -/

def restoreReady (db : Database) (q : RestoreRequest) (generation : Int) : Except AppError Unit :=
  refuseIf (∀ s ∈ db.snapshots, ¬ (s.isFor q.problemId generation ∧ s.state = .ready))
    (.snapshotNotReady q.problemId generation)

/-- The next step of a restore, up to the rename of the staging directory. -/
def advanceRestore (site : Site Bytes) (w : World Bytes) (r : Restoration Bytes) :
    Option (World Bytes × Operation Bytes) :=
  match r.phase with
  | .prepared =>
      if dataLockFree w.operations (lockDirectory r.request) then
        some (w, .restore { r with phase := .locked })
      else
        none
  | .locked =>
      if advisoryLockFree w.operations r.request.problemId then
        some (w, .after (ensureLatestFencing w.db.jobs r.request.problemId r.request.fencingToken)
          fun _ => .restore { r with phase := .fenced })
      else
        none
  | .fenced =>
      some (w, .after (restoreReady w.db r.request r.generation) fun _ =>
        .restore { r with phase := .found })
  | .found =>
      match w.folder with
      | none => some (w, .restore { r with phase := .vacant })
      | some _ => some (w, .after (restoreNotDirty w.db r.request) fun _ =>
          .restore { r with phase := .clean })
  | .clean =>
      match w.folder with
      | none => some (w, .done)
      | some f =>
          some (w, .after
            (scanProblemFolder site.contents site.root r.request.fileName (some f.walk))
            fun scan => .restore { r with phase := .scanned scan })
  | .scanned scan =>
      some (w, .after (restoreMatches w.db r.request r.generation scan) fun _ =>
        .restore { r with phase := .matched })
  | .vacant | .matched =>
      -- `if dest.exists()` is asked again.
      some ({ w with folder := none }, .restore { r with phase := .cleared w.folder })
  | .cleared _ => none
  | .published =>
      (w.write (restored w.ledger.now r.request w.db)).map fun w => (w, .done)

/-! ## The step -/

def advance (site : Site Bytes) (w : World Bytes) :
    Operation Bytes → Option (World Bytes × Operation Bytes)
  | .evict e => advanceEvict site w e
  | .restore r => advanceRestore site w r
  | .finalize a =>
      match finalizeBody w.ledger.now a w.db with
      | .error _ => some (w, .done)
      | .ok db => (w.write db).map fun w => (w, .done)
  | .done => none

def World.putBack (w : World Bytes) : Operation Bytes → World Bytes
  | .evict ⟨_, _, .renamed f⟩ => { w with folder := some f }
  | .restore ⟨_, _, _, .cleared (some f)⟩ => { w with folder := some f }
  | _ => w

inductive Action (Bytes : Type) where
  | startEvict (q : EvictRequest)
  | startRestore (q : RestoreRequest) (store : String → Option Bytes)
  | startFinalize (a : FinalizeArgs)
  | advance (i : Nat)
  /-- The rename of the staging directory to the folder. -/
  | publish (i : Nat) (folder : Folder Bytes)
  | giveUp (i : Nat)
  /-- An upload that holds the flock in the problem root. -/
  | upload (folder : Option (Folder Bytes))
  /-- A job statement, or a write of the catalog. -/
  | statement (a : Jobs.Action)
  | touch (problemId : String)

def isStaged (staging : Staging Bytes) [DecidableEq Bytes] (folder : Folder Bytes) : Bool :=
  (folder.walk.map fun e => (e.names, e.node)).isPerm staging.entries

def step [DecidableEq Bytes] (site : Site Bytes) (w : World Bytes) :
    Action Bytes → Option (World Bytes)
  | .startEvict q =>
      if q.problemId = site.problemId ∧ q.code = site.code then
        match evictPrecheck w.db q with
        | .error _ => none
        | .ok generation => some (w.start (.evict ⟨q, generation, .admitted⟩))
      else
        none
  | .startRestore q store =>
      if q.problemId = site.problemId ∧ q.dest = site.code then
        match restorePrepare site.contents site.fromSlice site.root w.db store q with
        | .error _ => none
        | .ok (generation, staging) =>
            some (w.start (.restore ⟨q, generation, staging, .prepared⟩))
      else
        none
  | .startFinalize a =>
      if advisoryLockFree w.operations a.problemId then
        match ensureLatestFencing w.db.jobs a.problemId a.fencingToken with
        | .error _ => none
        | .ok () => some (w.start (.finalize a))
      else
        none
  | .advance i => do
      let o ← w.operations[i]?
      let (w', o') ← advance site w o
      return w'.setOperation i o'
  | .publish i folder =>
      match w.operations[i]? with
      | some (.restore ⟨q, generation, staging, .cleared _⟩) =>
          if isStaged staging folder then
            some ({ w with folder := some folder }.setOperation i
              (.restore ⟨q, generation, staging, .published⟩))
          else
            none
      | _ => none
  | .giveUp i => do
      let o ← w.operations[i]?
      return (w.putBack o).setOperation i .done
  | .upload folder => if dataLockFree w.operations [] then some { w with folder := folder } else none
  | .statement a => do
      let ledger ← Jobs.step w.ledger a
      if rowsFree w.operations site.problemId w.db ledger.db then w.commit ledger else none
  | .touch problemId =>
      let db := touchProblemAccess w.ledger.now problemId w.db
      if advisoryLockFree w.operations problemId && rowsFree w.operations site.problemId w.db db then
        w.write db
      else
        none

end ExternalStorage.Publication
