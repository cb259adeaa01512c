import ExternalStorage.Model.Publication
import ExternalStorage.Restore.RoundTrip
import ExternalStorage.Snapshot.Durability

/-!
# From a READY row back to the folder

The runs, the collector and the maintenance on one side, `restore_snapshot` on the other: what the
one keeps of a backup is what the other needs.
-/

namespace ExternalStorage.Restore

open ExternalStorage.Model ExternalStorage.Snapshot Library.Loops Library.Runs

variable {Bytes : Type}

/-- The folder that a run has scanned, if its paths are those of one tree. -/
structure ScannedFrom (c : Contents Bytes) (rootPath : String) (walk : List (WalkEntry Bytes))
    (scan : ScanResult) : Prop where
  same : SameContents walk
  scanned : scanProblemFolder c rootPath scan.code (some walk) = .ok scan
  paths : TreePaths (leafPaths walk)
  collisionFree : CollisionFree c (scan.files.map FileEntry.toManifestFile)

theorem fetchManifest_of_whole [DecidableEq Bytes] {c : Contents Bytes}
    {fromSlice : Bytes → Except String Manifest} {d : DataPlane Bytes} {store : Store Bytes}
    {rootPath : String} {walk : List (WalkEntry Bytes)} {initYml : Option String} {run : Run}
    {m : Manifest} (hjson : ∀ m, fromSlice (d.manifestToVec m) = .ok m)
    (hfolder : ScannedFrom c rootPath walk run.scan) (hwhole : Whole d store run m)
    (hcommitted : run.phase = .committed m) (hpublishes : PublishesScan initYml run) :
    fetchManifest c fromSlice store run.problemId run.generation = .ok m := by
  rw [PublishesScan, hcommitted] at hpublishes
  obtain ⟨canonical, uploaded, hpath, huploaded, rfl⟩ := hpublishes
  have hvalid := ((restorable_iff (scan_reports hfolder.same hfolder.scanned) hfolder.same hpath
    huploaded run.problemId run.generation run.createdAt).mpr hfolder.paths.distinct).1
  have hmanifest : store (manifestKey run.problemId run.generation) =
      some (d.manifestToVec (run.manifest canonical uploaded)) := hwhole.manifest
  simp only [fetchManifest, hmanifest, hjson]
  rw [Run.manifest]
  exact check_eq_ok.mpr ⟨hvalid, rfl⟩

/-- What a run has left of a folder: its manifest and the objects. -/
structure BackedUp (c : Contents Bytes) (fromSlice : Bytes → Except String Manifest)
    (store : Store Bytes) (initYml : Option String) (run : Run) (m : Manifest) : Prop where
  fetched : fetchManifest c fromSlice store run.problemId run.generation = .ok m
  files : m.files.Perm (run.scan.files.map FileEntry.toManifestFile)
  stored : StoreHolds c store m.files
  canonical : ∃ path, canonicalDownloadPath initYml run.scan.files = some path ∧
    m.canonicalDownloadPath = some path

/-- Whatever runs, collectors and maintenance do, if no generation is made by two runs at once and
no put sends anything but what was hashed. -/
theorem durable_of_run {d : DataPlane Bytes} {w u : World Bytes} {actions : List (Action Bytes)}
    {initYml : Option String} {r : Nat} (hw : DurableInv d w)
    (hpublishes : RunPublishes initYml r w)
    (hcareful : EveryStep (step d) (fun w a w' => Careful d w a w' ∧
      ReadsInitYml initYml r w a w') w actions)
    (hrun : exec (step d) w actions = some u) : DurableInv d u ∧ RunPublishes initYml r u := by
  refine exec_invariant (I := fun w => DurableInv d w ∧ RunPublishes initYml r w) ?_
    ⟨hw, hpublishes⟩ hcareful hrun
  rintro w a w' ⟨hw, hpublishes⟩ ⟨hcareful, hread⟩ hstep
  exact ⟨durableInv_step hw hcareful hstep,
    runPublishes_step hw.collection.consistent hread hpublishes hstep⟩

theorem runPublishes_initial {w : World Bytes} (hinit : Initial w) (initYml : Option String)
    (r : Nat) : RunPublishes initYml r w := by
  intro run hr
  simp [hinit.runs] at hr

/-- What a READY row stands for: the manifest that its run has committed, and for each file of the
scan an object of the listed hash. -/
structure KeptWhole (c : Contents Bytes) (d : DataPlane Bytes) (store : Store Bytes)
    (s : SnapshotRow) (run : Run) (m : Manifest) : Prop where
  committed : run.phase = .committed m
  manifest : store (manifestKey s.problemId s.generation) = some (d.manifestToVec m)
  files : m.files.Perm (run.scan.files.map FileEntry.toManifestFile)
  objects : StoreHolds c store m.files

theorem keptWhole_of_ready {c : Contents Bytes} {d : DataPlane Bytes} {u : World Bytes}
    {s : SnapshotRow} {r : Nat} {run : Run} (hdigest : c.sha256Bytes = d.sha256Bytes)
    (hinv : DurableInv d u) (hs : s ∈ u.db.snapshots) (hready : s.state = .ready)
    (howner : u.owner s.id = some r) (hr : u.runs[r]? = some run) :
    ∃ m, KeptWhole c d u.store s run m := by
  obtain ⟨run', m, hr', hcommitted, hp, hg, hwhole⟩ := hinv.whole hs hready howner
  obtain rfl : run = run' := Option.some.inj (hr.symm.trans hr')
  have hfiles := hinv.collection.consistent.accounted r run hr
  rw [Run.accounted, hcommitted] at hfiles
  refine ⟨m, hcommitted, ?_, hfiles, ?_⟩
  · rw [hp, hg]
    exact hwhole.manifest
  · intro f hf
    obtain ⟨bytes, hbytes, hsum⟩ := hwhole.objects f hf
    exact ⟨bytes, hbytes, by rw [hdigest]; exact hsum⟩

theorem backedUp_of_ready [DecidableEq Bytes] {c : Contents Bytes}
    {fromSlice : Bytes → Except String Manifest} {d : DataPlane Bytes} {u : World Bytes}
    {rootPath : String} {walk : List (WalkEntry Bytes)} {initYml : Option String} {s : SnapshotRow}
    {r : Nat} {run : Run} (hdigest : c.sha256Bytes = d.sha256Bytes)
    (hjson : ∀ m, fromSlice (d.manifestToVec m) = .ok m) (hinv : DurableInv d u)
    (hpublishes : RunPublishes initYml r u) (hs : s ∈ u.db.snapshots) (hready : s.state = .ready)
    (howner : u.owner s.id = some r) (hr : u.runs[r]? = some run)
    (hfolder : ScannedFrom c rootPath walk run.scan) :
    s.problemId = run.problemId ∧ s.generation = run.generation ∧
      ∃ m, BackedUp c fromSlice u.store initYml run m := by
  obtain ⟨run', m, hr', hcommitted, hp, hg, hwhole⟩ := hinv.whole hs hready howner
  obtain rfl : run = run' := Option.some.inj (hr.symm.trans hr')
  obtain ⟨m', hkept⟩ := keptWhole_of_ready (c := c) hdigest hinv hs hready howner hr
  obtain rfl : m' = m := RunPhase.committed.inj (hkept.committed.symm.trans hcommitted)
  have hpublished := hpublishes run hr
  refine ⟨hp, hg, m', ?_, hkept.files, hkept.objects, ?_⟩
  · exact fetchManifest_of_whole hjson hfolder hwhole hcommitted hpublished
  · rw [PublishesScan, hcommitted] at hpublished
    obtain ⟨canonical, uploaded, hpath, -, rfl⟩ := hpublished
    exact ⟨canonical, hpath, rfl⟩

/-- A restore of the row that holds its token, into a place whose names the system takes. -/
structure RestoreOf (rootPath : String) (db : Database) (s : SnapshotRow) (scan : ScanResult)
    (q : RestoreRequest) : Prop where
  problem : q.problemId = s.problemId
  resolved : resolveReadyGeneration db q.problemId q.generation = .ok s.generation
  fencing : ensureLatestFencing db.jobs q.problemId q.fencingToken = .ok ()
  name : validateRelativePath q.fileName = .ok ()
  staged : fits rootPath (q.beside (stagingName q newUuid)) = true
  files : FilesFit (q.pathBeside rootPath (stagingName q newUuid))
    (scan.files.map FileEntry.toManifestFile)

/-- The restore leaves a folder in which every scan finds what the scan has found. -/
def RestoresScan [DecidableEq Bytes] (c : Contents Bytes)
    (fromSlice : Bytes → Except String Manifest) (now : Timestamp) (rootPath : String)
    (db : Database) (store : Store Bytes) (q : RestoreRequest) (scan : ScanResult) : Prop :=
  ∃ db' staging, restoreSnapshot c fromSlice now rootPath db store none q = .ok (db', staging) ∧
    ∀ walk, Walks walk staging.entries →
      ∃ scan', scanProblemFolder c rootPath scan.code (some walk) = .ok scan' ∧
        SameFolder scan.files scan'.files

/-- Whatever has happened since, the backup of a READY snapshot is whole, and restored to the folder
that its run has scanned. -/
theorem ready_backup_restores [DecidableEq Bytes] {c : Contents Bytes}
    {fromSlice : Bytes → Except String Manifest} {d : DataPlane Bytes} {w u : World Bytes}
    {actions : List (Action Bytes)} {rootPath : String} {walk : List (WalkEntry Bytes)}
    {initYml : Option String} {s : SnapshotRow} {r : Nat} {run : Run} {now : Timestamp}
    {q : RestoreRequest} (hdigest : c.sha256Bytes = d.sha256Bytes)
    (hjson : ∀ m, fromSlice (d.manifestToVec m) = .ok m) (hinit : Initial w)
    (hstored : ReadyStored w)
    (hcareful : EveryStep (step d) (fun w a w' => Careful d w a w' ∧
      ReadsInitYml initYml r w a w') w actions)
    (hrun : exec (step d) w actions = some u) (hs : s ∈ u.db.snapshots) (hready : s.state = .ready)
    (howner : u.owner s.id = some r) (hr : u.runs[r]? = some run) :
    (∃ m, KeptWhole c d u.store s run m) ∧
      (ScannedFrom c rootPath walk run.scan → RestoreOf rootPath u.db s run.scan q →
        RestoresScan c fromSlice now rootPath u.db u.store q run.scan) := by
  obtain ⟨hinv, hpublishes⟩ := durable_of_run (durableInv_initial hinit hstored)
    (runPublishes_initial hinit initYml r) hcareful hrun
  refine ⟨keptWhole_of_ready hdigest hinv hs hready howner hr, fun hfolder hq => ?_⟩
  obtain ⟨hp, hg, m, hbackup⟩ := backedUp_of_ready hdigest hjson hinv hpublishes hs hready howner hr
    hfolder
  have hfiles := hbackup.files
  have hfits : FilesFit (q.pathBeside rootPath (stagingName q newUuid)) m.files :=
    fun f hf => hq.files f (hfiles.mem_iff.mp hf)
  obtain ⟨staging, hstaging, htree⟩ := restoredTree_of_treePaths hfolder.same
    (scan_reports hfolder.same hfolder.scanned) hfiles
    (fun f hf => hfolder.collisionFree f (hfiles.mem_iff.mp hf)) hbackup.stored hfolder.paths hfits
  have hfetched := hbackup.fetched
  rw [← hp, ← hg, ← hq.problem] at hfetched
  refine ⟨restored now q u.db, staging, restoreSnapshot_eq_ok.mpr ⟨rfl, s.generation, m,
    ⟨hq.fencing, hq.resolved, hfetched, hq.name, hq.staged, hstaging, ⟨s, hs, ?_, hready⟩, ?_⟩⟩, ?_⟩
  · rw [SnapshotRow.isFor_iff]
    exact ⟨hq.problem.symm, rfl⟩
  · intro walk' hnone
    cases hnone
  · intro walk' hwalk'
    obtain ⟨scan', hscan', -, hsame⟩ :=
      htree.rescanned (check_eq_ok.mp hfolder.scanned).1 hwalk'
    exact ⟨scan', hscan', hsame⟩

/-! The folder `aplusb`, backed up while a collector is after one of its objects. -/

def contentFromSlice : Content → Except String Manifest
  | .manifestJson m => .ok m
  | .file text => .error text

def restoreAplusb : RestoreRequest where
  problemId := "101"
  generation := 1
  fencingToken := 1
  dest := "aplusb"

theorem scannedFrom_sample : ScannedFrom folderContents "/problems" sampleWalk sampleScan := by
  refine ⟨?_, by decide +kernel, by decide +kernel, ?_⟩
  · exact sampleEntry_sameContents
      [(["data.zip"], 11, dataZipText), (["init.yml"], 12, initYmlText)] (by decide)
  · intro f hf x y hx hy
    obtain ⟨g, hg, rfl⟩ := List.mem_map.mp hf
    rcases List.mem_pair.mp hg with rfl | rfl
    · exact (sampleDigest_dataZip hx).trans (sampleDigest_dataZip hy).symm
    · exact (sampleDigest_initYml hx).trans (sampleDigest_initYml hy).symm

theorem ready_backup_restores_sample :
    ∃ u s run m, exec (step samplePlane) (markedWorld dataZip dataZipText) collectingRun = some u ∧
      KeptWhole folderContents samplePlane u.store s run m ∧
      RestoresScan folderContents contentFromSlice sampleTime "/problems" u.db u.store restoreAplusb
        sampleScan := by
  have hinit : Initial (markedWorld dataZip dataZipText) :=
    ⟨⟨by decide, by decide⟩, rfl, rfl, fun _ => rfl⟩
  have hstored : ReadyStored (markedWorld dataZip dataZipText) := by decide
  -- both in one evaluation of the run
  have ⟨hcareful, hbacked⟩ : EveryStep (step samplePlane) (fun w a w' =>
        Careful samplePlane w a w' ∧ ReadsInitYml (some initYmlText) 0 w a w')
        (markedWorld dataZip dataZipText) collectingRun ∧
      (exec (step samplePlane) (markedWorld dataZip dataZipText) collectingRun).any (fun u =>
        (u.runs[0]?).any (fun run => run.scan = sampleScan) ∧
          ensureLatestFencing u.db.jobs "101" 1 = .ok () ∧
          ∃ s ∈ u.db.snapshots, s.state = .ready ∧ s.problemId = "101" ∧ s.generation = 1 ∧
            u.owner s.id = some 0) = true := by
    decide +kernel
  obtain ⟨u, hu, hbacked⟩ := (Option.any_eq_true _ _).mp hbacked
  obtain ⟨hscan, hfencing, s, hs, hready, hproblem, hgeneration, howner⟩ :=
    of_decide_eq_true hbacked
  obtain ⟨run, hr, hscan⟩ := (Option.any_eq_true _ _).mp hscan
  have hscan : run.scan = sampleScan := of_decide_eq_true hscan
  have hresolved : resolveReadyGeneration u.db restoreAplusb.problemId restoreAplusb.generation =
      .ok s.generation := by
    rw [hgeneration]
    rfl
  have hjson : ∀ m, contentFromSlice (samplePlane.manifestToVec m) = .ok m := fun _ => rfl
  have hfolder : ScannedFrom folderContents "/problems" sampleWalk run.scan := by
    rw [hscan]
    exact scannedFrom_sample
  have hrequest : RestoreOf "/problems" u.db s run.scan restoreAplusb := by
    rw [hscan]
    exact ⟨hproblem.symm, hresolved, hfencing, by decide +kernel, by decide +kernel,
      by decide +kernel⟩
  have hdigest : folderContents.sha256Bytes = samplePlane.sha256Bytes := rfl
  obtain ⟨⟨m, hkept⟩, hrestores⟩ :=
    ready_backup_restores hdigest hjson hinit hstored hcareful hu hs hready howner hr
  have hrestored := hrestores hfolder hrequest
  rw [hscan] at hrestored
  exact ⟨u, s, run, m, hu, hkept, hrestored⟩

end ExternalStorage.Restore
