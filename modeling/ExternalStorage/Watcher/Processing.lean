import ExternalStorage.Model.Leases
import ExternalStorage.Model.Usage
import ExternalStorage.Snapshot.Frames
import ExternalStorage.Snapshot.Matching

/-!
# What becomes of a debounced change

The watcher takes a code out of its debounce map and calls `snapshot_dirty_code`.  Until the
transaction of `acquire_dirty_snapshot_job_by_code` commits nothing records that the folder
has changed, and every error on the way there is only logged.
-/

namespace ExternalStorage.Watcher

open ExternalStorage.Model ExternalStorage.Snapshot Library.Runs Library.Table

variable {Bytes : Type}

/-! ## The folder -/

/-- The files of a problem folder, as a scan that succeeds finds them, and its canonical
archive. -/
structure ProblemFolder where
  scan : ScanResult
  canonical : Option String
  distinct : (scan.files.map FileEntry.path).Nodup

inductive FolderEntry where
  | missing
  | notDirectory
  | directory (folder : ProblemFolder)

/-! ## `snapshot_dirty_code` -/

/-- `WATCHER_LEASE_SECONDS`. -/
def watcherLeaseSeconds : Int := 300

inductive Phase where
  /-- The code has been taken out of the debounce map. -/
  | drained
  | scanned (folder : ProblemFolder)
  | matched (problemId : String) (generation : Int)
  | unmatched (folder : ProblemFolder)
  /-- `acquire_dirty_snapshot_job_by_code` returned no job. -/
  | unowned (folder : ProblemFolder)
  | acquired (job : DirtySnapshotJob) (folder : ProblemFolder)
  | accounted (job : DirtySnapshotJob) (folder : ProblemFolder)
  | uploading (job : DirtySnapshotJob) (run : Run)
  | completing (job : DirtySnapshotJob)
  | failing (job : DirtySnapshotJob) (err : AppError)
  | returned (result : Except AppError Unit)

structure Processing (Bytes : Type) where
  now : Timestamp
  db : Database
  store : Store Bytes
  /-- The codes in the debounce map. -/
  debounce : List String
  phase : Phase

def Processing.at (s : Processing Bytes) (phase : Phase) : Processing Bytes :=
  { s with phase := phase }

/-- The calls of `snapshot_dirty_code` in their order. -/
inductive Call (Bytes : Type) where
  | look
  | compare
  | verify
  | acquire (id : Uuid) (millis : Int)
  | discover
  | account
  | claim (requestedId : Uuid) (createdAt : Timestamp)
  | run (op : RunOp Bytes)
  | complete
  | release
  /-- The call that is due returns an error, or the heartbeat has lost the lease. -/
  | fail (err : AppError)
  /-- Other sessions write the other tables. -/
  | other (db : Database)
  | tick (elapsed : Nat)

/-- Where a step of `run_snapshot_upload` or `claim_snapshot` leaves the watcher. -/
def afterRun (job : DirtySnapshotJob) (before : Run) (op : RunOp Bytes) (after : Run) : Phase :=
  match after.phase with
  | .committed _ => .completing job
  -- `run_upload` is false.
  | .unowned _ => .completing job
  | .rejected err => .failing job err
  | .ended =>
      match op, before.phase with
      | .fail err, _ => .failing job err
      | _, .failing err => .failing job err
      | _, _ => .failing job (.internal "")
  | _ => .uploading job after

def freshFor (db : Database) (id : Uuid) : Bool :=
  db.snapshots.all (fun s => s.id ≠ id) && db.snapshotObjects.all fun o => o.snapshotId ≠ id

/-- The tables that say what has to be backed up and what is. -/
def sameRecords (db db' : Database) : Prop :=
  db'.problems = db.problems ∧ db'.snapshots = db.snapshots ∧
    db'.snapshotObjects = db.snapshotObjects

instance (db db' : Database) : Decidable (sameRecords db db') :=
  inferInstanceAs (Decidable (_ ∧ _ ∧ _))

def Phase.failed (err : AppError) : Phase → Option Phase
  | .returned _ => none
  | .acquired job _ | .accounted job _ | .uploading job _ | .completing job =>
      some (.failing job err)
  -- The error of `fail_job` is dropped.
  | .failing _ first => some (.returned (.error first))
  | _ => some (.returned (.error err))

def processingStep (d : DataPlane Bytes) (entry : FolderEntry) (code owner : String)
    (s : Processing Bytes) (c : Call Bytes) : Option (Processing Bytes) :=
  match c, s.phase with
  | .look, .drained =>
      match entry with
      | .missing =>
          some { s with
            db := DataPlane.markLocalMissingByCode s.now code s.db, phase := .returned (.ok ()) }
      | .notDirectory => some (s.at (.returned (.ok ())))
      | .directory folder => some (s.at (.scanned folder))
  | .compare, .scanned folder =>
      if folder.canonical.isSome then
        match DataPlane.readySnapshotMatchesScanByCode s.db code folder.scan with
        | some (problemId, generation) => some (s.at (.matched problemId generation))
        | none => some (s.at (.unmatched folder))
      else
        some (s.at (.unmatched folder))
  | .verify, .matched problemId generation =>
      some { s with
        db := { s.db with
          problemUsage := DataPlane.markLocalVerified s.now problemId generation s.db.problemUsage }
        phase := .returned (.ok ()) }
  | .acquire id millis, .unmatched folder =>
      match acquireDirtySnapshotJobByCode s.now code owner watcherLeaseSeconds id millis s.db with
      | .ok (db, _, some job) => some { s with db := db, phase := .acquired job folder }
      | .ok (db, _, none) => some { s with db := db, phase := .unowned folder }
      | .error _ => none
  | .discover, .unowned folder =>
      some { s with
        db := DataPlane.upsertDiscoveredUsage s.now code folder.scan s.db
        phase := .returned (.ok ()) }
  | .account, .acquired job folder =>
      some { s with
        db := { s.db with
          problemUsage := DataPlane.upsertProblemUsage s.now job.problemId folder.scan .present
            s.db.problemUsage }
        phase := .accounted job folder }
  | .claim requestedId createdAt, .accounted job folder =>
      if freshFor s.db requestedId then
        match ensureLatestFencing s.db.jobs job.problemId job.fencingToken with
        | .ok () => some (s.at (.uploading job {
            problemId := job.problemId, generation := job.generation
            fencingToken := job.fencingToken, expectedDirtyVersion := some job.dirtyVersion
            scan := folder.scan, snapshotId := requestedId, createdAt := createdAt
            phase := .fenced }))
        | .error e => some (s.at (.failing job e))
      else
        none
  -- A process that stops returns nothing.
  | .run .crash, _ => none
  | .run op, .uploading job run =>
      (runStep d s.now s.db s.store run op).map fun e => { s with
        db := e.db, store := e.store, phase := afterRun job run op e.run }
  | .complete, .completing job =>
      let completion := LeaseStatement.completeJob (some {})
      if completion.accepts s.now job.jobId (some owner) job.fencingToken s.db then
        some { s with
          db := completion.run s.now job.jobId (some owner) job.fencingToken s.db
          phase := .returned (.ok ()) }
      else
        some (s.at (.failing job (.fencingMismatch job.fencingToken (-1))))
  | .release, .failing job err =>
      some { s with
        db := (LeaseStatement.failJob "dirty_snapshot_failed" err.message).run s.now job.jobId
          (some owner) job.fencingToken s.db
        phase := .returned (.error err) }
  | .fail err, phase => (phase.failed err).map s.at
  | .other db, _ => if sameRecords s.db db then some { s with db := db } else none
  | .tick elapsed, _ => some { s with now := s.now + elapsed }
  | _, _ => none

/-! ## Statements -/

def MarkedDirty (db : Database) (problemId : String) : Prop :=
  ∃ p ∈ db.problems, p.externalId = problemId ∧ p.dirty = true

/-- A READY snapshot of the problem records what the folder has. -/
def BackedUp (db : Database) (problemId : String) (folder : ProblemFolder) : Prop :=
  ∃ s ∈ readyRows db.snapshots, s.problemId = problemId ∧
    ∀ t, t ∈ recordedContents db s.id ↔ t ∈ folder.scan.files.map FileEntry.identity

/-- Something will back the folder up, or has. -/
def Remembered (code problemId : String) (folder : ProblemFolder) (s : Processing Bytes) : Prop :=
  MarkedDirty s.db problemId ∨ code ∈ s.debounce ∨ BackedUp s.db problemId folder

def Call.acquires : Call Bytes → Bool
  | .acquire .. => true
  | _ => false

def Call.fails : Call Bytes → Bool
  | .fail _ => true
  | _ => false

/-- A call fails, and the transaction that marks the problem dirty has not committed. -/
def FailsEarly (calls : List (Call Bytes)) : Prop :=
  calls.any Call.fails = true ∧ calls.any Call.acquires = false

instance (calls : List (Call Bytes)) : Decidable (FailsEarly calls) :=
  inferInstanceAs (Decidable (_ ∧ _))

/-- `snapshot_dirty_code` for a problem of the catalog, whose code the drain has removed. -/
structure Drained (code problemId : String) (s : Processing Bytes) : Prop where
  phase : s.phase = .drained
  removed : code ∉ s.debounce
  problem : ∃ p, DataPlane.problemOfCode code s.db = some p ∧ p.externalId = problemId

/-! ## What a matching scan means -/

theorem backedUp_of_matches {db : Database} {code problemId : String} {generation : Int}
    {folder : ProblemFolder}
    (h : DataPlane.readySnapshotMatchesScanByCode db code folder.scan =
      some (problemId, generation)) :
    (∃ p, DataPlane.problemOfCode code db = some p ∧ p.externalId = problemId) ∧
      BackedUp db problemId folder := by
  unfold DataPlane.readySnapshotMatchesScanByCode at h
  obtain ⟨p, hp, h⟩ := Option.bind_eq_some_iff.mp h
  obtain ⟨generation', hmatches, h⟩ := Option.bind_eq_some_iff.mp h
  cases h
  obtain ⟨-, s, hlatest, -, hcontents⟩ := readySnapshotMatchesScan_eq_some.mp hmatches
  obtain ⟨hmem, hready⟩ := List.mem_filter.mp (mem_of_firstBy hlatest)
  rw [Bool.and_eq_true, decide_eq_true_eq, decide_eq_true_eq] at hready
  exact ⟨⟨p, hp, rfl⟩, s, mem_readyRows.mpr ⟨hmem, hready.2⟩, hready.1,
    mem_of_scanMatches hcontents⟩

/-! ## What an upload records -/

def WithinScan (db : Database) (run : Run) : Prop :=
  run.phase ≠ .fenced → run.phase ≠ .claimed → ∀ o ∈ db.snapshotObjects,
    o.snapshotId = run.snapshotId → o.relPath ∈ run.scan.files.map FileEntry.path

theorem RunStep.withinScan {d : DataPlane Bytes} {now : Timestamp} {db : Database}
    {store : Store Bytes} {run : Run} {op : RunOp Bytes} {e : Effect Bytes}
    (h : RunStep d now db store run op e) (hrun : WithinScan db run)
    (hcommit : ∀ m, e.run.phase ≠ .committed m) (hnamed : e.run.phase.named = true) :
    WithinScan e.db e.run := by
  intro hfenced hclaimed o ho hid
  cases h with
  | claimed phase claim => exact absurd rfl hclaimed
  | cleaned phase =>
      obtain ⟨-, hother⟩ := mem_deleteWhere.mp ho
      exact absurd hid (of_decide_eq_false hother)
  | prepared phase prepare =>
      unfold prepareSnapshotUpload at prepare
      split at prepare
      · cases prepare
        rcases mem_upsertObjects ho with ⟨hold, -⟩ | hnew
        · exact hrun (by rw [phase]; nofun) (by rw [phase]; nofun) o hold hid
        · obtain ⟨f, hf, rfl⟩ := List.mem_map.mp hnew
          exact List.mem_map_of_mem hf
      · cases prepare
  | recorded phase inFlightAt stored record =>
      obtain ⟨g, hg, hrows⟩ := recordUploaded_eq_ok record
      dsimp only at ho
      rw [hg] at ho
      obtain ⟨o₀, ho₀, rfl⟩ := List.mem_map.mp ho
      obtain ⟨hsnapshot, hpath, -⟩ := hrows o₀
      rw [hpath]
      exact hrun (by rw [phase]; nofun) (by rw [phase]; nofun) o₀ ho₀ (hsnapshot.symm.trans hid)
  | committed phase finalize => exact absurd rfl (hcommit _)
  | marked | stopped | rejected => cases hnamed
  | failed fallible live =>
      refine hrun ?_ ?_ o ho hid
      · intro hphase
        rw [hphase] at live
        cases live
      · intro hphase
        rw [hphase] at live
        cases live
  | _ =>
      exact hrun (by rw [‹run.phase = _›]; nofun) (by rw [‹run.phase = _›]; nofun) o ho hid

theorem RunStep.problems {d : DataPlane Bytes} {now : Timestamp} {db : Database}
    {store : Store Bytes} {run : Run} {op : RunOp Bytes} {e : Effect Bytes}
    (h : RunStep d now db store run op e) (hcommit : ∀ m, e.run.phase ≠ .committed m) :
    e.db.problems = db.problems := by
  cases h with
  | prepared phase prepare =>
      unfold prepareSnapshotUpload at prepare
      split at prepare
      · cases prepare
        rfl
      · cases prepare
  | committed phase finalize => exact absurd rfl (hcommit _)
  | _ => rfl

theorem identity_verifiedRow (id : Uuid) (f : FileEntry) :
    (f.toManifestFile.verifiedRow id).identity = f.identity := by
  simp only [SnapshotObjectRow.identity, ManifestFile.verifiedRow, FileEntry.toManifestFile,
    FileEntry.identity]

theorem recordedContents_finalized {now : Timestamp} {a : FinalizeArgs} {db : Database}
    {files : List FileEntry} (hfiles : a.manifestFiles.Perm (files.map FileEntry.toManifestFile))
    (hdistinct : (files.map FileEntry.path).Nodup)
    (hwithin : ∀ o ∈ db.snapshotObjects, o.snapshotId = a.snapshotId →
      o.relPath ∈ files.map FileEntry.path) (t : String × String × Int) :
    t ∈ recordedContents (finalized now a db) a.snapshotId ↔ t ∈ files.map FileEntry.identity := by
  have hnews : ∀ o, o ∈ a.manifestFiles.map (ManifestFile.verifiedRow a.snapshotId) ↔
      ∃ f ∈ files, o = f.toManifestFile.verifiedRow a.snapshotId := by
    intro o
    rw [List.mem_map]
    constructor
    · rintro ⟨m, hm, rfl⟩
      obtain ⟨f, hf, rfl⟩ := List.mem_map.mp (hfiles.mem_iff.mp hm)
      exact ⟨f, hf, rfl⟩
    · rintro ⟨f, hf, rfl⟩
      exact ⟨_, hfiles.mem_iff.mpr (List.mem_map_of_mem hf), rfl⟩
  -- The claim rows of the upload are all overwritten.
  have hrows : ∀ o ∈ (finalized now a db).snapshotObjects, o.snapshotId = a.snapshotId →
      ∃ f ∈ files, o = f.toManifestFile.verifiedRow a.snapshotId := by
    intro o ho hid
    rcases mem_upsertObjects ho with ⟨hold, hkey⟩ | hnew
    · obtain ⟨f, hf, hpath⟩ := List.mem_map.mp (hwithin o hold hid)
      refine absurd ?_ (hkey _ ((hnews _).mpr ⟨f, hf, rfl⟩))
      rw [SnapshotObjectRow.key, SnapshotObjectRow.key, hid, ← hpath]
      rfl
    · exact (hnews o).mp hnew
  rw [recordedContents, List.mem_map, List.mem_map]
  constructor
  · rintro ⟨o, ho, rfl⟩
    rw [List.mem_filter, decide_eq_true_eq] at ho
    obtain ⟨f, hf, rfl⟩ := hrows o ho.1 ho.2
    exact ⟨f, hf, (identity_verifiedRow a.snapshotId f).symm⟩
  · rintro ⟨f, hf, rfl⟩
    obtain ⟨o, ho, hkey⟩ := exists_mem_upsertObjects db.snapshotObjects
      ((hnews _).mpr ⟨f, hf, rfl⟩)
    simp only [SnapshotObjectRow.key, Prod.mk.injEq] at hkey
    obtain ⟨g, hg, rfl⟩ := hrows o ho hkey.1
    obtain rfl : g = f := List.inj_on_of_nodup_map hdistinct hg hf hkey.2
    exact ⟨_, List.mem_filter.mpr ⟨ho, decide_eq_true rfl⟩, identity_verifiedRow a.snapshotId g⟩

theorem backedUp_finalized {now : Timestamp} {db db' : Database} {run : Run} {m : Manifest}
    {folder : ProblemFolder} (h : finalizeBody now (run.finalizeArgs m) db = .ok db')
    (hscan : run.scan = folder.scan)
    (hfiles : m.files.Perm (run.scan.files.map FileEntry.toManifestFile))
    (hwithin : ∀ o ∈ db.snapshotObjects, o.snapshotId = run.snapshotId →
      o.relPath ∈ run.scan.files.map FileEntry.path) : BackedUp db' run.problemId folder := by
  obtain ⟨hadm, rfl⟩ := finalizeBody_eq_ok_iff.mp h
  obtain ⟨s, hs, hid, hproblem, -, hready⟩ := hadm.exists_published
  refine ⟨s, mem_readyRows.mpr ⟨hs, hready⟩, hproblem, ?_⟩
  rw [hscan] at hfiles hwithin
  rw [hid]
  exact recordedContents_finalized (a := run.finalizeArgs m) hfiles folder.distinct hwithin

/-! ## The acquisition -/

theorem acquireDirtySnapshotTarget_eq {now : Timestamp} {code : String} {db marked : Database}
    {target : DirtySnapshotTarget} {p : ProblemRow}
    (hp : DataPlane.problemOfCode code db = some p)
    (h : acquireDirtySnapshotTarget now code db = some (target, marked)) :
    target.externalId = p.externalId ∧
      marked.problems = updateWhere (fun q => q.externalId = p.externalId)
        (ProblemRow.watched now target.generation) db.problems := by
  unfold acquireDirtySnapshotTarget at h
  obtain ⟨q, hq, h⟩ := Option.bind_eq_some_iff.mp h
  obtain rfl : q = p := Option.some.inj (hq.symm.trans hp)
  cases h
  exact ⟨rfl, rfl⟩

theorem markedDirty_of_acquire {now : Timestamp} {code owner : String} {leaseSeconds : Int}
    {id : Uuid} {millis : Int} {db db' : Database} {tokens : Option WatcherTokens}
    {job : Option DirtySnapshotJob} {p : ProblemRow}
    (hp : DataPlane.problemOfCode code db = some p)
    (h : acquireDirtySnapshotJobByCode now code owner leaseSeconds id millis db =
      .ok (db', tokens, job)) :
    MarkedDirty db' p.externalId ∧ ∀ d ∈ job, d.problemId = p.externalId := by
  constructor
  · rcases acquireDirtySnapshotJob_cases h with ⟨-, -, hnone⟩ | ⟨target, marked, htarget, -, hdb⟩
    · unfold acquireDirtySnapshotTarget at hnone
      rw [show (db.problems.find? _) = some p from hp] at hnone
      cases hnone
    · obtain ⟨-, hproblems⟩ := acquireDirtySnapshotTarget_eq hp htarget
      have hsame : db'.problems = marked.problems := by
        rcases hdb with rfl | rfl <;> rfl
      refine ⟨p.watched now target.generation, ?_, rfl, rfl⟩
      rw [hsame, hproblems]
      exact mem_updateWhere.mpr ⟨p, List.mem_of_find?_eq_some hp, by rw [decide_eq_true rfl]; rfl⟩
  · unfold acquireDirtySnapshotJobByCode at h
    split at h
    · cases h
      exact fun d hd => absurd hd (Option.not_mem_none d)
    · rename_i target marked htarget
      have hid := (acquireDirtySnapshotTarget_eq hp htarget).1
      dsimp only at h
      split at h
      · cases h
      · split at h
        · cases h
          intro d hd
          cases hd
          exact hid
        · split at h
          · cases h
            exact fun d hd => absurd hd (Option.not_mem_none d)
          · split at h
            · cases h
              intro d hd
              cases hd
              exact hid
            · cases h

theorem markedDirty_congr {db db' : Database} {problemId : String}
    (h : db'.problems = db.problems) : MarkedDirty db' problemId ↔ MarkedDirty db problemId := by
  rw [MarkedDirty, h]
  rfl

theorem backedUp_congr {db db' : Database} {problemId : String} {folder : ProblemFolder}
    (h : sameRecords db db') : BackedUp db' problemId folder ↔ BackedUp db problemId folder := by
  obtain ⟨-, hsnapshots, hobjects⟩ := h
  simp only [BackedUp, recordedContents, hsnapshots, hobjects]

theorem markedDirty_discovered {now : Timestamp} {code problemId : String} {scan : ScanResult}
    {db : Database} (h : MarkedDirty db problemId) :
    MarkedDirty (DataPlane.upsertDiscoveredUsage now code scan db) problemId := by
  obtain ⟨p, hp, hid, hdirty⟩ := h
  unfold DataPlane.upsertDiscoveredUsage
  dsimp only
  split
  · exact ⟨p, hp, hid, hdirty⟩
  · refine ⟨p, ?_, hid, hdirty⟩
    dsimp only
    split
    · exact hp
    · exact List.mem_append_left _ hp

/-! ## After the acquisition -/

def Marked (problemId : String) (folder : ProblemFolder) (s : Processing Bytes) : Prop :=
  match s.phase with
  | .unowned _ => MarkedDirty s.db problemId
  | .acquired job f => MarkedDirty s.db problemId ∧ job.problemId = problemId ∧ f = folder
  | .accounted job f => MarkedDirty s.db problemId ∧ job.problemId = problemId ∧ f = folder
  | .uploading _ run => MarkedDirty s.db problemId ∧ run.problemId = problemId ∧
      run.scan = folder.scan ∧ run.accounted ∧ WithinScan s.db run
  | .completing _ | .failing _ _ | .returned _ =>
      MarkedDirty s.db problemId ∨ BackedUp s.db problemId folder
  | _ => False

theorem afterRun_ended (job : DirtySnapshotJob) (before : Run) (op : RunOp Bytes) {after : Run}
    (h : after.phase = .ended) : ∃ err, afterRun job before op after = .failing job err := by
  unfold afterRun
  rw [h]
  dsimp only
  split <;> exact ⟨_, rfl⟩

theorem marked_run {d : DataPlane Bytes} {s : Processing Bytes} {problemId : String}
    {folder : ProblemFolder} {job : DirtySnapshotJob} {run : Run} {op : RunOp Bytes}
    {e : Effect Bytes} (hphase : s.phase = .uploading job run) (hs : Marked problemId folder s)
    (h : RunStep d s.now s.db s.store run op e) :
    Marked problemId folder
      { s with db := e.db, store := e.store, phase := afterRun job run op e.run } := by
  rw [Marked, hphase] at hs
  obtain ⟨hdirty, hproblem, hscan, haccounted, hwithin⟩ := hs
  by_cases hcommit : ∃ m, e.run.phase = .committed m
  · obtain ⟨m, hm⟩ := hcommit
    obtain ⟨hchecked, hfinalize⟩ := RunStep.commits h hm
    simp only [Marked, afterRun, hm]
    right
    have hfiles : m.files.Perm (run.scan.files.map FileEntry.toManifestFile) := by
      rw [Run.accounted, hchecked] at haccounted
      exact haccounted
    rw [← hproblem]
    exact backedUp_finalized hfinalize hscan hfiles
      (hwithin (by simp [hchecked]) (by simp [hchecked]))
  · rw [not_exists] at hcommit
    have hdirty' : MarkedDirty e.db problemId :=
      (markedDirty_congr (RunStep.problems h hcommit)).mpr hdirty
    obtain ⟨hproblem', -, hscan', -⟩ := h.kept
    have huploading : e.run.phase.named = true → MarkedDirty e.db problemId ∧
        e.run.problemId = problemId ∧ e.run.scan = folder.scan ∧ e.run.accounted ∧
          WithinScan e.db e.run := fun hnamed =>
      ⟨hdirty', hproblem'.trans hproblem, hscan'.trans hscan, h.accounted haccounted,
        RunStep.withinScan h hwithin hcommit hnamed⟩
    cases hafter : e.run.phase with
    | fenced => exact absurd hafter h.kept.2.2.2
    | committed m => exact absurd hafter (hcommit m)
    | unowned _ | rejected _ =>
        simp only [Marked, afterRun, hafter]
        exact .inl hdirty'
    | ended =>
        obtain ⟨err, herr⟩ := afterRun_ended job run op hafter
        simp only [Marked, herr]
        exact .inl hdirty'
    | _ =>
        simp only [Marked, afterRun, hafter]
        exact huploading (by rw [hafter]; rfl)

theorem marked_fail {problemId : String} {folder : ProblemFolder} {s : Processing Bytes}
    {err : AppError} {phase : Phase} (hs : Marked problemId folder s)
    (h : s.phase.failed err = some phase) : Marked problemId folder (s.at phase) := by
  rw [Marked] at hs
  cases hphase : s.phase with
  | drained | scanned _ | matched _ _ | unmatched _ =>
      rw [hphase] at hs
      exact hs.elim
  | unowned _ =>
      rw [hphase] at hs h
      cases h
      exact .inl hs
  | acquired _ _ | accounted _ _ | uploading _ _ =>
      rw [hphase] at hs h
      cases h
      exact .inl hs.1
  | completing _ | failing _ _ =>
      rw [hphase] at hs h
      cases h
      exact hs
  | returned _ =>
      rw [hphase] at h
      cases h

theorem marked_congr {problemId : String} {folder : ProblemFolder} {s : Processing Bytes}
    {db : Database} {now : Timestamp} (h : sameRecords s.db db) (hs : Marked problemId folder s) :
    Marked problemId folder { s with db := db, now := now } := by
  have hdirty : MarkedDirty db problemId ↔ MarkedDirty s.db problemId := markedDirty_congr h.1
  have hbacked : BackedUp db problemId folder ↔ BackedUp s.db problemId folder :=
    backedUp_congr h
  unfold Marked at hs ⊢
  cases hphase : s.phase with
  | drained | scanned _ | matched _ _ | unmatched _ =>
      rw [hphase] at hs
      exact hs.elim
  | unowned _ =>
      rw [hphase] at hs
      exact hdirty.mpr hs
  | acquired _ _ | accounted _ _ =>
      rw [hphase] at hs
      exact ⟨hdirty.mpr hs.1, hs.2⟩
  | uploading _ run =>
      rw [hphase] at hs
      obtain ⟨hmarked, hproblem, hscan, haccounted, hwithin⟩ := hs
      refine ⟨hdirty.mpr hmarked, hproblem, hscan, haccounted, ?_⟩
      intro hfenced hclaimed o ho
      exact hwithin hfenced hclaimed o (h.2.2 ▸ ho)
  | completing _ | failing _ _ | returned _ =>
      rw [hphase] at hs
      exact hs.imp hdirty.mpr hbacked.mpr

theorem marked_step {d : DataPlane Bytes} {entry : FolderEntry} {code owner problemId : String}
    {folder : ProblemFolder} {s s' : Processing Bytes} {c : Call Bytes}
    (hs : Marked problemId folder s) (h : processingStep d entry code owner s c = some s') :
    Marked problemId folder s' := by
  have hs' := hs
  unfold Marked at hs'
  unfold processingStep at h
  split at h
  · rename_i hphase
    rw [hphase] at hs'
    exact hs'.elim
  · rename_i hphase
    rw [hphase] at hs'
    exact hs'.elim
  · rename_i hphase
    rw [hphase] at hs'
    exact hs'.elim
  · rename_i hphase
    rw [hphase] at hs'
    exact hs'.elim
  · -- `scan_orphan_now`
    rename_i hphase
    cases h
    rw [hphase] at hs'
    exact .inl (markedDirty_discovered hs')
  · rename_i hphase
    cases h
    rw [hphase] at hs'
    exact hs'
  · rename_i hphase
    rw [hphase] at hs'
    split at h
    · split at h
      · cases h
        obtain ⟨hdirty, hproblem, rfl⟩ := hs'
        exact ⟨hdirty, hproblem, rfl, trivial, fun hfenced => absurd rfl hfenced⟩
      · cases h
        exact .inl hs'.1
    · cases h
  · cases h
  · rename_i _ hphase
    obtain ⟨e, he, rfl⟩ := Option.map_eq_some_iff.mp h
    exact marked_run hphase hs (runStep_cases he)
  · rename_i hphase
    rw [hphase] at hs'
    dsimp only at h
    split at h
    · cases h
      exact hs'
    · cases h
      exact hs'
  · rename_i hphase
    cases h
    rw [hphase] at hs'
    exact hs'
  · obtain ⟨phase, hphase, rfl⟩ := Option.map_eq_some_iff.mp h
    exact marked_fail hs hphase
  · split at h
    · rename_i hsame
      cases h
      exact marked_congr hsame hs
    · cases h
  · cases h
    exact marked_congr ⟨rfl, rfl, rfl⟩ hs
  · cases h

/-! ## Before the acquisition -/

theorem sameRecords_trans {db₁ db₂ db₃ : Database} (h : sameRecords db₁ db₂)
    (h' : sameRecords db₂ db₃) : sameRecords db₁ db₃ :=
  ⟨h'.1.trans h.1, h'.2.1.trans h.2.1, h'.2.2.trans h.2.2⟩

theorem sameRecords_refl (db : Database) : sameRecords db db := ⟨rfl, rfl, rfl⟩

/-- Where the watcher is while nothing has been recorded; `failed` says that a call has. -/
def EarlyPhase (failed backed : Prop) (folder : ProblemFolder) : Phase → Prop
  | .drained => True
  | .scanned f | .unmatched f => f = folder
  | .matched _ _ => backed
  | .returned _ => failed ∨ backed
  | _ => False

structure Unmarked (s₀ : Processing Bytes) (problemId : String) (folder : ProblemFolder)
    (failed : Prop) (s : Processing Bytes) : Prop where
  records : sameRecords s₀.db s.db
  debounce : s.debounce = s₀.debounce
  phase : EarlyPhase failed (BackedUp s₀.db problemId folder) folder s.phase

theorem EarlyPhase.mono {failed failed' backed : Prop} {folder : ProblemFolder} {phase : Phase}
    (h : EarlyPhase failed backed folder phase) (himp : failed → failed') :
    EarlyPhase failed' backed folder phase := by
  cases phase with
  | returned _ => exact h.imp_left himp
  | _ => exact h

theorem EarlyPhase.failed {failed backed : Prop} {folder : ProblemFolder} {phase phase' : Phase}
    {err : AppError} (h : EarlyPhase failed backed folder phase)
    (hphase : phase.failed err = some phase') : EarlyPhase True backed folder phase' := by
  cases phase with
  | drained | scanned _ | matched _ _ | unmatched _ =>
      cases hphase
      exact .inl trivial
  | returned _ => cases hphase
  | _ => exact h.elim

theorem unmarked_step {d : DataPlane Bytes} {code owner problemId : String}
    {folder : ProblemFolder} {s₀ s s' : Processing Bytes} {c : Call Bytes} {failed : Prop}
    (hstart : Drained code problemId s₀) (hs : Unmarked s₀ problemId folder failed s)
    (hc : c.acquires = false)
    (h : processingStep d (.directory folder) code owner s c = some s') :
    Unmarked s₀ problemId folder (failed ∨ c.fails = true) s' := by
  obtain ⟨hrecords, hdebounce, hearly⟩ := hs
  unfold processingStep at h
  split at h
  · cases h
    exact ⟨hrecords, hdebounce, rfl⟩
  · -- `ready_snapshot_matches_scan_by_code`
    rename_i hphase
    rw [hphase] at hearly
    obtain rfl := hearly
    split at h
    · split at h
      · rename_i found hmatches
        cases h
        obtain ⟨⟨p, hp, rfl⟩, hbacked⟩ := backedUp_of_matches hmatches
        obtain ⟨p₀, hp₀, hid⟩ := hstart.problem
        rw [DataPlane.problemOfCode, hrecords.1] at hp
        obtain rfl : p₀ = p := Option.some.inj (hp₀.symm.trans hp)
        rw [hid] at hbacked
        exact ⟨hrecords, hdebounce, (backedUp_congr hrecords).mp hbacked⟩
      · cases h
        exact ⟨hrecords, hdebounce, rfl⟩
    · cases h
      exact ⟨hrecords, hdebounce, rfl⟩
  · rename_i hphase
    cases h
    rw [hphase] at hearly
    exact ⟨hrecords, hdebounce, .inr hearly⟩
  · cases hc
  · rename_i hphase
    rw [hphase] at hearly
    exact hearly.elim
  · rename_i hphase
    rw [hphase] at hearly
    exact hearly.elim
  · rename_i hphase
    rw [hphase] at hearly
    exact hearly.elim
  · cases h
  · rename_i _ hphase
    rw [hphase] at hearly
    exact hearly.elim
  · rename_i hphase
    rw [hphase] at hearly
    exact hearly.elim
  · rename_i hphase
    rw [hphase] at hearly
    exact hearly.elim
  · obtain ⟨phase, hphase, rfl⟩ := Option.map_eq_some_iff.mp h
    exact ⟨hrecords, hdebounce, (hearly.failed hphase).mono fun _ => .inr rfl⟩
  · split at h
    · rename_i hsame
      cases h
      exact ⟨sameRecords_trans hrecords hsame, hdebounce, hearly.mono .inl⟩
    · cases h
  · cases h
    exact ⟨hrecords, hdebounce, hearly.mono .inl⟩
  · cases h

theorem marked_acquire {d : DataPlane Bytes} {entry : FolderEntry} {code owner problemId : String}
    {folder : ProblemFolder} {s₀ s s' : Processing Bytes} {c : Call Bytes} {failed : Prop}
    (hstart : Drained code problemId s₀) (hs : Unmarked s₀ problemId folder failed s)
    (hc : c.acquires = true) (h : processingStep d entry code owner s c = some s') :
    Marked problemId folder s' := by
  obtain ⟨hrecords, -, hearly⟩ := hs
  obtain ⟨p, hp, rfl⟩ := hstart.problem
  rw [DataPlane.problemOfCode, ← hrecords.1] at hp
  cases c with
  | acquire id millis =>
      cases hphase : s.phase with
      | unmatched f =>
          rw [hphase] at hearly
          obtain rfl := hearly
          simp only [processingStep, hphase] at h
          split at h
          · rename_i hacquire
            cases h
            obtain ⟨hdirty, hjob⟩ := markedDirty_of_acquire hp hacquire
            exact ⟨hdirty, hjob _ rfl, rfl⟩
          · rename_i hacquire
            cases h
            exact (markedDirty_of_acquire hp hacquire).1
          · cases h
      | _ =>
          simp only [processingStep, hphase] at h
          cases h
  | _ => cases hc

/-! ## The processing of one change -/

theorem marked_exec {d : DataPlane Bytes} {entry : FolderEntry} {code owner problemId : String}
    {folder : ProblemFolder} {s s' : Processing Bytes} {calls : List (Call Bytes)}
    (hs : Marked problemId folder s)
    (run : exec (processingStep d entry code owner) s calls = some s') :
    Marked problemId folder s' :=
  exec_invariant (C := fun _ _ _ => True) (fun _ _ _ hs _ hstep => marked_step hs hstep) hs
    (everyStep_of_forall_mem fun _ _ => trivial) run

theorem processing_exec {d : DataPlane Bytes} {code owner problemId : String}
    {folder : ProblemFolder} {s₀ s s' : Processing Bytes} {calls : List (Call Bytes)}
    {failed : Prop} (hstart : Drained code problemId s₀)
    (hs : Unmarked s₀ problemId folder failed s)
    (run : exec (processingStep d (.directory folder) code owner) s calls = some s') :
    if calls.any Call.acquires then Marked problemId folder s'
    else Unmarked s₀ problemId folder (failed ∨ calls.any Call.fails = true) s' := by
  induction calls generalizing s failed with
  | nil =>
      obtain rfl : s = s' := Option.some.inj run
      exact ⟨hs.records, hs.debounce, hs.phase.mono .inl⟩
  | cons c calls ih =>
      obtain ⟨t, ht, hrest⟩ := exec_cons_eq_some.mp run
      rw [List.any_cons, List.any_cons]
      cases hc : c.acquires with
      | true => exact marked_exec (marked_acquire hstart hs hc ht) hrest
      | false =>
          have hend := ih (unmarked_step hstart hs hc ht) hrest
          rw [Bool.false_or]
          split at hend
          · rename_i hacquires
            rw [if_pos hacquires]
            exact hend
          · rename_i hacquires
            rw [if_neg hacquires]
            refine ⟨hend.records, hend.debounce, hend.phase.mono ?_⟩
            rw [Bool.or_eq_true]
            exact fun h => or_assoc.mp h

/-- When `snapshot_dirty_code` returns, something remembers the change of the folder: unless
a call failed before the problem was marked dirty, and it was neither dirty nor backed up. -/
theorem change_remembered {d : DataPlane Bytes} {code owner problemId : String}
    {folder : ProblemFolder} {s s' : Processing Bytes} {calls : List (Call Bytes)}
    {result : Except AppError Unit} (hstart : Drained code problemId s)
    (run : exec (processingStep d (.directory folder) code owner) s calls = some s')
    (hreturned : s'.phase = .returned result) :
    Remembered code problemId folder s' ↔
      ¬ FailsEarly calls ∨ MarkedDirty s.db problemId ∨ BackedUp s.db problemId folder := by
  have hinit : Unmarked s problemId folder False s := by
    refine ⟨sameRecords_refl s.db, rfl, ?_⟩
    rw [hstart.phase]
    trivial
  have hend := processing_exec hstart hinit run
  split at hend
  · rename_i hacquires
    rw [Marked, hreturned] at hend
    refine iff_of_true ?_ (.inl fun hearly => ?_)
    · rcases hend with hdirty | hbacked
      · exact .inl hdirty
      · exact .inr (.inr hbacked)
    · cases hacquires.symm.trans hearly.2
  · rename_i hacquires
    rw [Bool.not_eq_true] at hacquires
    have hsame : Remembered code problemId folder s' ↔
        MarkedDirty s.db problemId ∨ BackedUp s.db problemId folder := by
      have hremoved := hstart.removed
      rw [Remembered, markedDirty_congr hend.records.1, backedUp_congr hend.records,
        hend.debounce]
      simp only [hremoved, false_or]
    rw [hsame]
    refine ⟨.inr, ?_⟩
    rintro (hlate | hbefore)
    · have hearly := hend.phase
      rw [hreturned] at hearly
      rcases hearly with hfailed | hbacked
      · rw [false_or] at hfailed
        exact absurd ⟨hfailed, hacquires⟩ hlate
      · exact .inr hbacked
    · exact hbefore

/-! ## A folder that has changed -/

def changedFolder : ProblemFolder := ⟨sampleScan, some "data.zip", by decide⟩

def changedStart : Processing Content where
  now := sampleTime
  db := {
    problems := [{ sampleProblem with dirty := false, dirtyGeneration := none }]
    problemUsage := [sampleUsage]
    snapshots := [{ freshSnapshot 7 "101" 1 sampleTime with state := .ready }]
    snapshotObjects := [initYml.claimRow 7] }
  store := fun _ => none
  debounce := []
  phase := .drained

theorem changedStart_drained : Drained "aplusb" "101" changedStart :=
  ⟨rfl, List.not_mem_nil, _, rfl, rfl⟩

/-- The upload fails, and so does `fail_job`. -/
def failedUpload : List (Call Content) :=
  [.look, .compare, .acquire 1 0, .account, .claim 2 sampleTime, .run .claim,
    .fail (.database "connection closed"), .fail (.database "connection closed")]

theorem change_remembered_failed_upload :
    ∃ s', exec (processingStep samplePlane (.directory changedFolder) "aplusb" "rust-watcher:1")
        changedStart failedUpload = some s' ∧
      Remembered "aplusb" "101" changedFolder s' := by
  obtain ⟨s', run, hreturned⟩ :
      ∃ s', exec (processingStep samplePlane (.directory changedFolder) "aplusb" "rust-watcher:1")
          changedStart failedUpload = some s' ∧
        s'.phase = .returned (.error (.database "connection closed")) := ⟨_, rfl, rfl⟩
  have hlate : ¬ FailsEarly failedUpload := by decide
  exact ⟨s', run, (change_remembered changedStart_drained run hreturned).mpr (.inl hlate)⟩

/-- The connection is lost when the folder is to be compared with the READY snapshot. -/
def failedComparison : List (Call Content) := [.look, .fail (.database "connection closed")]

theorem uncompared_change_forgotten :
    Drained "aplusb" "101" changedStart ∧
      ∃ s', exec (processingStep samplePlane (.directory changedFolder) "aplusb" "rust-watcher:1")
          changedStart failedComparison = some s' ∧
        s'.phase = .returned (.error (.database "connection closed")) ∧
        ¬ Remembered "aplusb" "101" changedFolder s' := by
  refine ⟨changedStart_drained, _, rfl, rfl, ?_⟩
  rintro (hdirty | hwaits | ⟨s, hs, -, hcontents⟩)
  · obtain ⟨p, hp, -, hdirty⟩ := hdirty
    obtain rfl := List.mem_singleton.mp hp
    cases hdirty
  · cases hwaits
  · obtain rfl : s = { freshSnapshot 7 "101" 1 sampleTime with state := .ready } :=
      List.mem_singleton.mp hs
    have harchive : dataZip.identity ∈ changedFolder.scan.files.map FileEntry.identity :=
      List.mem_cons_self
    have hmissing : dataZip.identity ∉ recordedContents changedStart.db 7 := by decide +kernel
    exact hmissing ((hcontents _).mpr harchive)

end ExternalStorage.Watcher
