import ExternalStorage.Restore.Durability
import ExternalStorage.Restore.Evictions
import ExternalStorage.Snapshot.Undisturbed
import ExternalStorage.Watcher.Processing

/-!
# Evict, then restore

A run that nobody disturbs snapshots a folder, an eviction removes the folder, and a restore is to
bring it back.  The restore writes names that the run did not read: that of the staging directory,
and another for each regular file before the file gets its own.
-/

namespace ExternalStorage.Restore

open ExternalStorage.Model ExternalStorage.Snapshot ExternalStorage.Watcher Library.Loops
  Library.Runs

variable {Bytes : Type}

/-! ## Statements -/

/-- Run `r` alone has gone from its first statement to READY; its reads found what its scan had. -/
structure BroughtToReady (d : DataPlane Bytes) (body : String → Bytes) (initYml : Option String)
    (r : Nat) (w u : World Bytes) (run : Run) (m : Manifest) : Prop where
  entered : ∃ entering, w.runs[r]? = some entering ∧ entering.phase = .fenced ∧
    ∀ f ∈ entering.scan.files, d.sha256Bytes (contentOf d body f) = f.sha256
  alone : ∃ as, exec (step d) w as = some u ∧ EveryStep (step d) (OnlyRun d body initYml r) w as
  found : u.runs[r]? = some run
  committed : run.phase = .committed m

/-- An inode has one content. -/
def OneContent (entries : Entries Bytes) : Prop :=
  ∀ p q i x y, (p, .file i x) ∈ entries → (q, .file i y) ∈ entries → x = y

/-- `evict_local` has removed the folder of the run, by the snapshot that the run has made. -/
structure EvictedBy (c : Contents Bytes) (now : Timestamp) (rootPath : String) (db gone : Database)
    (walk : List (WalkEntry Bytes)) (run : Run) (e : EvictRequest) : Prop where
  problem : e.problemId = run.problemId
  code : e.code = run.scan.code
  removed : ∃ result, evictLocal c now rootPath db (some walk) e = .ok (gone, none, result)
  snapshot : evictPrecheck db e = .ok run.generation

/-- A request for what the run has made, with the newest token and a destination that is a path. -/
structure AdmitsRestore (db : Database) (run : Run) (q : RestoreRequest) : Prop where
  problem : q.problemId = run.problemId
  resolved : resolveReadyGeneration db q.problemId q.generation = .ok run.generation
  fencing : ensureLatestFencing db.jobs q.problemId q.fencingToken = .ok ()
  name : validateRelativePath q.fileName = .ok ()

/-- `snapshot_dirty_code` finds nothing to back up in the folder of a problem of the catalog: it
writes that the folder is present, and returns. -/
def NoOp (d : DataPlane Bytes) (db : Database) (folder : ProblemFolder) (code problemId : String)
    (generation : Int) : Prop :=
  (∃ p, DataPlane.problemOfCode code db = some p ∧ p.externalId = problemId) →
    ∀ (owner : String) (s : Processing Bytes), s.phase = .drained → s.db = db →
      exec (processingStep d (.directory folder) code owner) s [.look, .compare, .verify] =
        some { s with
          db := { db with
            problemUsage := DataPlane.markLocalVerified s.now problemId generation db.problemUsage }
          phase := .returned (.ok ()) }

/-- The restore succeeds, and every scan of the folder it leaves reports what the run's did, and
finds the READY snapshot in it. -/
def ComesBack [DecidableEq Bytes] (d : DataPlane Bytes) (c : Contents Bytes)
    (fromSlice : Bytes → Except String Manifest) (initYml : Option String) (now : Timestamp)
    (rootPath : String) (db : Database) (store : Store Bytes) (run : Run) (q : RestoreRequest) :
    Prop :=
  ∃ back s, restoreSnapshot c fromSlice now rootPath db store none q = .ok (back, s) ∧
    ∀ walk, Walks walk s.entries → ∃ folder : ProblemFolder,
      scanProblemFolder c rootPath run.scan.code (some walk) = .ok folder.scan ∧
        folder.canonical = canonicalDownloadPath initYml folder.scan.files ∧
        SameFolder run.scan.files folder.scan.files ∧
        readySnapshotMatchesScan back q.problemId folder.scan = some run.generation ∧
        NoOp d back folder run.scan.code q.problemId run.generation

/-- The system takes the names and paths that the restore of the files writes. -/
structure RestoreFits (rootPath : String) (q : RestoreRequest) (files : List FileEntry) : Prop where
  staged : fits rootPath (q.beside (stagingName q newUuid)) = true
  files : FilesFit (q.pathBeside rootPath (stagingName q newUuid))
    (files.map FileEntry.toManifestFile)

/-! ## What the run leaves -/

def Held (d : DataPlane Bytes) (store : Store Bytes) (sha256 : String) : Prop :=
  ∃ bytes, store (objectKeyForSha256 sha256) = some bytes ∧ d.sha256Bytes bytes = sha256

section Run

variable {d : DataPlane Bytes} {body : String → Bytes} {initYml : Option String}
  {store : Store Bytes} {now : Timestamp} {db : Database} {run : Run} {op : RunOp Bytes}
  {e : Effect Bytes}

theorem held_update {key sha256 : String} {bytes : Bytes} (h : Held d store sha256)
    (hkey : key = objectKeyForSha256 sha256 → d.sha256Bytes bytes = sha256) :
    Held d (Function.update store key (some bytes)) sha256 := by
  obtain ⟨found, hfound, hsum⟩ := h
  by_cases heq : objectKeyForSha256 sha256 = key
  · exact ⟨bytes, by rw [heq, Function.update_self], hkey heq.symm⟩
  · exact ⟨found, by rw [Function.update_of_ne heq]; exact hfound, hsum⟩

theorem held_of_taskStep {t t' : Task} {store' : Store Bytes} (h : TaskStep d store t t' store')
    (hstored : t'.phase = .stored) : Held d store' t'.file.sha256 := by
  cases h with
  | hashed => cases hstored
  | headed phase seen unwritten => exact absurd hstored unwritten.2
  | put => cases hstored
  | verified phase verify =>
      unfold verifyObject at verify
      cases hfound : store t.objectKey with
      | none =>
          rw [hfound] at verify
          cases verify
      | some bytes =>
          rw [hfound] at verify
          exact ⟨bytes, hfound, of_decide_eq_true (Except.ok.inj verify)⟩

/-- What the store holds of the run, as far as it has come. -/
structure OwnBackup (d : DataPlane Bytes) (body : String → Bytes) (initYml : Option String)
    (store : Store Bytes) (run : Run) : Prop where
  accounted : run.accounted
  digests : ∀ f ∈ run.scan.files, d.sha256Bytes (contentOf d body f) = f.sha256
  verified : ∀ sha256 ∈ run.verified, Held d store sha256
  manifest : ∀ m, run.phase.manifestOut = some m ∨ run.phase = .committed m →
    store run.manifestKey = some (d.manifestToVec m)
  publishes : PublishesScan initYml run

theorem OwnBackup.sends (h : OwnBackup d body initYml store run) {i : Nat} {t : Task}
    (ht : run.inFlight[i]? = some t) {bytes : Bytes}
    (hop : (RunOp.task i (.write bytes)).undisturbed d body initYml run) :
    d.sha256Bytes (t.putBody d bytes) = t.file.sha256 := by
  have hbytes : bytes = body t.file.path := hop t ht
  have hmem : t.file.toManifestFile ∈ run.scan.files.map FileEntry.toManifestFile := by
    have haccounted := h.accounted
    have ht' := List.mem_of_getElem? ht
    unfold Run.accounted at haccounted
    unfold Run.inFlight at ht'
    split at ht'
    · rename_i hphase
      rw [hphase] at haccounted
      exact haccounted.mem_iff.mp (List.mem_append_left _ (List.mem_append_right _
        (List.mem_map_of_mem ht')))
    · cases ht'
  obtain ⟨f, hf, hsame⟩ := List.mem_map.mp hmem
  have hpath : f.path = t.file.path := congrArg ManifestFile.path hsame
  have hsha : f.sha256 = t.file.sha256 := congrArg ManifestFile.sha256 hsame
  have hlink : f.symlinkTarget = t.file.symlinkTarget := congrArg ManifestFile.symlinkTarget hsame
  have hdigest := h.digests f hf
  rw [contentOf, hlink, hpath, hsha] at hdigest
  rw [Task.putBody, hbytes]
  exact hdigest

theorem OwnBackup.step (h : OwnBackup d body initYml store run)
    (hop : op.undisturbed d body initYml run) (hrun : RunStep d now db store run op e) :
    OwnBackup d body initYml e.store e.run := by
  obtain ⟨-, -, hscan, -⟩ := hrun.kept
  have hkeeps : ∀ sha256, Held d store sha256 → Held d e.store sha256 := by
    intro sha256 hheld
    cases hrun with
    | @task canonical pending inFlight uploaded i op t t' store' phase inFlightAt taken =>
        rcases taskStep_write taken with rfl | ⟨bytes, rfl, rfl⟩
        · exact hheld
        · refine held_update hheld fun hkey => ?_
          obtain rfl := objectKeyForSha256_injective hkey
          refine h.sends ?_ hop
          rw [Run.inFlight, phase]
          exact inFlightAt
    | published phase =>
        exact held_update hheld fun hkey => absurd hkey (manifestKey_ne_objectKey _ _ _)
    | _ => exact hheld
  refine ⟨hrun.accounted h.accounted, by rw [hscan]; exact h.digests,
    hrun.verifiedKeeps hkeeps (fun _ _ htask hphase => held_of_taskStep htask hphase) h.verified,
    ?_, runStep_publishesScan hrun ?_ h.accounted h.publishes⟩
  · intro m hm
    cases hrun with
    | published phase =>
        rcases hm with hm | hm
        · cases hm
          exact Function.update_self _ _ _
        · cases hm
    | verified phase verify | checked phase fencing =>
        rcases hm with hm | hm
        · exact h.manifest m (.inl (by rw [phase]; exact hm))
        · cases hm
    | committed phase finalize =>
        rcases hm with hm | hm
        · cases hm
        · cases hm
          exact h.manifest _ (.inl (by rw [phase]; rfl))
    | _ => rcases hm with hm | hm <;> cases hm
  · rintro read rfl
    exact hop

/-- A run that was alone has left its manifest and the objects of its files. -/
theorem BroughtToReady.whole {r : Nat} {w u : World Bytes} {m : Manifest}
    (h : BroughtToReady d body initYml r w u run m) :
    m.files.Perm (run.scan.files.map FileEntry.toManifestFile) ∧ Whole d u.store run m ∧
      PublishesScan initYml run := by
  obtain ⟨entering, hentering, hfenced, hdigests⟩ := h.entered
  obtain ⟨as, hexec, hown⟩ := h.alone
  have hstart : OwnBackup d body initYml w.store entering := by
    refine ⟨?_, hdigests, ?_, ?_, ?_⟩
    · rw [Run.accounted, hfenced]
      trivial
    · intro sha256 hsha
      rw [Run.verified, hfenced] at hsha
      cases hsha
    · intro m hm
      rw [hfenced] at hm
      rcases hm with hm | hm <;> cases hm
    · rw [PublishesScan, hfenced]
      trivial
  obtain ⟨run', hrun', hbackup⟩ := exec_onlyRun (P := OwnBackup d body initYml)
    (fun hP hop hrun => hP.step hop hrun) hstart hentering hexec hown
  obtain rfl : run = run' := Option.some.inj (h.found.symm.trans hrun')
  have hfiles := hbackup.accounted
  rw [Run.accounted, h.committed] at hfiles
  refine ⟨hfiles, ⟨hbackup.manifest m (.inr h.committed), fun f hf => ?_⟩, hbackup.publishes⟩
  have hheld := hbackup.verified f.sha256
    (by rw [Run.verified, h.committed]; exact List.mem_map_of_mem hf)
  obtain ⟨g, -, rfl⟩ := List.mem_map.mp (hfiles.mem_iff.mp hf)
  exact hheld

end Run

/-! ## Evict, then restore -/

theorem leafPaths_perm {entries : Entries Bytes} {walk walk' : List (WalkEntry Bytes)}
    (h : Walks walk entries) (h' : Walks walk' entries) :
    (leafPaths walk).Perm (leafPaths walk') := by
  have hmap : ∀ walk : List (WalkEntry Bytes), leafPaths walk =
      ((walk.map fun e => (e.names, e.node)).filter fun e => leafNode e.2).map
        fun e => scannedPath e.1 := by
    intro walk
    rw [List.filter_map, List.map_map]
    rfl
  rw [hmap, hmap]
  exact ((h.entries.trans h'.entries.symm).filter _).map _

theorem fetchManifest_stored [DecidableEq Bytes] {c : Contents Bytes}
    {fromSlice : Bytes → Except String Manifest} {d : DataPlane Bytes} {store : Store Bytes}
    {problemId : String} {generation : Int} {m fetched : Manifest}
    (hjson : ∀ m, fromSlice (d.manifestToVec m) = .ok m)
    (hmanifest : store (manifestKey problemId generation) = some (d.manifestToVec m))
    (h : fetchManifest c fromSlice store problemId generation = .ok fetched) : fetched = m := by
  simp only [fetchManifest, hmanifest, hjson] at h
  obtain ⟨-, h⟩ := check_eq_ok.mp h
  exact (Except.ok.inj h).symm

theorem canonicalDownloadPath_of_records {initYml : Option String} {files files' : List FileEntry}
    (h : (files.map FileEntry.record).Perm (files'.map FileEntry.record)) :
    canonicalDownloadPath initYml files = canonicalDownloadPath initYml files' := by
  have hany : ∀ (archive : String) (files : List FileEntry),
      (files.any fun f => f.path = archive && f.symlinkTarget.isNone) =
        (files.map FileEntry.record).any fun r => r.1 = archive && r.2.2.2.isNone := by
    intro archive files
    rw [List.any_map]
    rfl
  unfold canonicalDownloadPath
  cases initYml.bind parseInitArchive with
  | none => rfl
  | some archive =>
      dsimp only
      rw [hany, hany, h.any_eq]

theorem noOp_of_matches {d : DataPlane Bytes} {db : Database} {folder : ProblemFolder}
    {code problemId : String} {generation : Int} (harchive : folder.canonical.isSome = true)
    (hmatch : readySnapshotMatchesScan db problemId folder.scan = some generation) :
    NoOp d db folder code problemId generation := by
  rintro ⟨p, hp, rfl⟩ owner s hphase rfl
  have hfound : DataPlane.readySnapshotMatchesScanByCode s.db code folder.scan =
      some (p.externalId, generation) := by
    rw [DataPlane.readySnapshotMatchesScanByCode, hp]
    simp only [Option.bind_eq_bind, Option.bind_some, hmatch]
    rfl
  refine exec_cons_eq_some.mpr ⟨s.at (.scanned folder), ?_, ?_⟩
  · simp only [processingStep, hphase]
  · refine exec_cons_eq_some.mpr ⟨s.at (.matched p.externalId generation), ?_, rfl⟩
    simp only [processingStep, Processing.at, harchive, hfound, if_true]

/-- The watcher finds the archive of the first folder in the second. -/
theorem SameFolder.noOp {d : DataPlane Bytes} {initYml : Option String} {db : Database}
    {files : List FileEntry} {scan : ScanResult} {code problemId : String} {generation : Int}
    (h : SameFolder files scan.files) (hdistinct : (files.map FileEntry.path).Nodup)
    (harchive : (canonicalDownloadPath initYml files).isSome = true)
    (hmatch : readySnapshotMatchesScan db problemId scan = some generation) :
    ∃ folder : ProblemFolder, folder.scan = scan ∧
      folder.canonical = canonicalDownloadPath initYml scan.files ∧
        NoOp d db folder code problemId generation := by
  have hpaths := h.records.map Prod.fst
  rw [List.map_map, List.map_map] at hpaths
  refine ⟨⟨scan, canonicalDownloadPath initYml scan.files, hpaths.nodup_iff.mp hdistinct⟩, rfl, rfl,
    noOp_of_matches ?_ hmatch⟩
  rw [← canonicalDownloadPath_of_records h.records]
  exact harchive

/-- A folder that one run alone has brought to READY and `evict_local` has removed comes back by a
restore, as its scans see it, exactly when the paths that the scanner wrote are those of one tree
and the system takes every name that the restore writes. -/
theorem evict_then_restore_iff [DecidableEq Bytes] {c : Contents Bytes}
    {fromSlice : Bytes → Except String Manifest} {d : DataPlane Bytes} {body : String → Bytes}
    {initYml : Option String} {rootPath : String} {entries : Entries Bytes}
    {walk walk' : List (WalkEntry Bytes)} {r : Nat} {w u : World Bytes} {run : Run} {m : Manifest}
    {db gone : Database} {now now' : Timestamp} {e : EvictRequest} {q : RestoreRequest}
    (hdigest : c.sha256Bytes = d.sha256Bytes) (hjson : ∀ m, fromSlice (d.manifestToVec m) = .ok m)
    (hcontent : OneContent entries) (hwalk : Walks walk entries)
    (hscan : scanProblemFolder c rootPath run.scan.code (some walk) = .ok run.scan)
    (hsha : CollisionFree c (run.scan.files.map FileEntry.toManifestFile))
    (hready : BroughtToReady d body initYml r w u run m) (hwalk' : Walks walk' entries)
    (hevict : EvictedBy c now rootPath db gone walk' run e) (hadmits : AdmitsRestore gone run q) :
    ComesBack d c fromSlice initYml now' rootPath gone u.store run q ↔
      TreePaths (leafPaths walk) ∧ RestoreFits rootPath q run.scan.files := by
  obtain ⟨hfiles, hwhole, hpublishes⟩ := hready.whole
  have hsame := sameContents_of_walks hcontent hwalk
  have hreports := scan_reports hsame hscan
  have hshaM : CollisionFree c m.files := fun f hf => hsha f (hfiles.mem_iff.mp hf)
  have hstored : StoreHolds c u.store m.files := by
    intro f hf
    obtain ⟨bytes, hbytes, hsum⟩ := hwhole.objects f hf
    exact ⟨bytes, hbytes, by rw [hdigest]; exact hsum⟩
  have hfit : ∀ staging, FilesFit staging m.files ↔
      FilesFit staging (run.scan.files.map FileEntry.toManifestFile) := fun staging =>
    ⟨fun h f hf => h f (hfiles.mem_iff.mpr hf), fun h f hf => h f (hfiles.mem_iff.mp hf)⟩
  constructor
  · rintro ⟨back, s, hrestore, hscans⟩
    obtain ⟨-, generation, fetched, hrestores⟩ := restoreSnapshot_eq_ok.mp hrestore
    obtain rfl : generation = run.generation :=
      Except.ok.inj (hrestores.resolved.symm.trans hadmits.resolved)
    have hfetched := hrestores.fetched
    rw [hadmits.problem] at hfetched
    obtain rfl := fetchManifest_stored hjson hwhole.manifest hfetched
    obtain ⟨hpaths, hfits⟩ := (roundTrips_iff hsame hscan hfiles hshaM hstored).mp
      ⟨s, hrestores.files, fun walk₁ hwalk₁ => by
        obtain ⟨folder, hscan', -, hfolder, -⟩ := hscans walk₁ hwalk₁
        exact ⟨folder.scan, hscan', hfolder⟩⟩
    exact ⟨hpaths, hrestores.staged, (hfit _).mp hfits⟩
  · rintro ⟨hpaths, hstaged, hfits⟩
    obtain ⟨result, hremoved⟩ := hevict.removed
    obtain ⟨generation, scan, hprecheck, hcode, hscanned, hmatch, rfl⟩ :=
      evictLocal_removes hremoved
    obtain rfl : generation = run.generation :=
      Except.ok.inj (hprecheck.symm.trans hevict.snapshot)
    rw [hevict.code] at hcode hscanned
    rw [hevict.problem, ← hadmits.problem] at hmatch
    have hreports' := scan_reports (sameContents_of_walks hcontent hwalk') hscanned
    have hdistinct : (run.scan.files.map FileEntry.path).Nodup := hreports.paths ▸ hpaths.distinct
    have hdistinct' : (scan.files.map FileEntry.path).Nodup := by
      rw [hreports'.paths]
      exact (leafPaths_perm hwalk hwalk').nodup_iff.mp hpaths.distinct
    obtain ⟨s, hs, htree⟩ := restoredTree_of_treePaths hsame hreports hfiles hshaM hstored hpaths
      ((hfit _).mpr hfits)
    have hfetched := fetchManifest_of_whole hjson ⟨hsame, hscan, hpaths, hsha⟩ hwhole
      hready.committed hpublishes
    rw [← hadmits.problem] at hfetched
    obtain ⟨hrestored, hscans⟩ := evicted_restored hcode hmatch
      (records_perm_of_walks hwalk' hwalk hreports' hreports hdistinct' hdistinct) hdistinct' hs
      htree hadmits.fencing hadmits.resolved hfetched hadmits.name hstaged
    have harchive : (canonicalDownloadPath initYml run.scan.files).isSome = true := by
      rw [PublishesScan, hready.committed] at hpublishes
      obtain ⟨canonical, -, hcanonical, -⟩ := hpublishes
      rw [hcanonical]
      rfl
    refine ⟨_, s, hrestored, fun walk₁ hwalk₁ => ?_⟩
    obtain ⟨scan', hscan', hfolder, hmatch'⟩ := hscans walk₁ hwalk₁
    obtain ⟨folder, rfl, hcanonical, hnoOp⟩ :=
      hfolder.noOp hdistinct harchive hmatch'
    exact ⟨folder, hscan', hcanonical, hfolder, hmatch', hnoOp⟩

/-! The folder `aplusb` with a test `tests/1`, and with a copy of it that is named `tests\\1`. -/

def testText : String := "1 2\n"

def testFile (path : String) (ino : Nat) : FileEntry where
  path := path
  sha256 := "f251ddc12234e0da8d3b778bd0f7463fb477f16f47757f5617dc8b4ff4d4f14a"
  size := 4
  allocatedBytes := 4096
  dev := 2049
  ino := ino
  nlink := 1
  mode := 0o100644
  duplicateOf := none
  symlinkTarget := none

def testsScan : ScanResult :=
  { sampleScan with
    logicalBytes := 44, allocatedBytes := 12288, auxiliaryBytes := 22, fileCount := 3
    files := [dataZip, initYml, testFile "tests/1" 13] }

def copiedScan : ScanResult :=
  { sampleScan with
    logicalBytes := 48, allocatedBytes := 16384, auxiliaryBytes := 26, fileCount := 4
    files := [dataZip, initYml, testFile "tests/1" 13, testFile "tests//1" 14] }

def testsWalk : List (WalkEntry Content) :=
  [sampleEntry ["data.zip"] 11 dataZipText, sampleEntry ["init.yml"] 12 initYmlText,
    ⟨[OsName.ofText "tests"], .dir, ⟨2049, 20, 2, 0, 0o40755⟩⟩,
    sampleEntry ["tests", "1"] 13 testText]

def copiedWalk : List (WalkEntry Content) :=
  testsWalk ++ [sampleEntry ["tests\\\\1"] 14 testText]

/-- The content under each path; the system takes `tests//1` for `tests/1`. -/
def testsBody (path : String) : Content :=
  if path = "data.zip" ∨ path = "init.yml" then sampleBody path else .file testText

/-- `sampleDigest`, with the SHA-256 of the test and of the manifests of the two scans. -/
def testsDigest : Content → String
  | .file text => if text = testText then (testFile "" 0).sha256 else sampleDigest (.file text)
  | .manifestJson m =>
      if m.files.length = 3 then
        "9a86260be83606070e1a462ceb7f309cdc031c1e009c85cd9c57b683e00ecdcb"
      else if m.files.length = 4 then
        "5ae306e8b4a22cd0fc47f3e65a75dd4cf94710140d6b4bd063b72889a71d6f65"
      else sampleDigest (.manifestJson m)

def testsPlane : DataPlane Content := { samplePlane with sha256Bytes := testsDigest }

def testsContents : Contents Content := { folderContents with sha256Bytes := testsDigest }

/-- A run has entered with this scan. -/
def testsWorld (scan : ScanResult) : World Content :=
  { sampleWorld with
    db := { sampleWorld.db with
      problemUsage := [{ sampleUsage with
        logicalBytes := scan.logicalBytes, allocatedBytes := scan.allocatedBytes
        auxiliaryBytes := scan.auxiliaryBytes, fileCount := scan.fileCount }] }
    runs := [{ enteredRun with scan := scan }] }

def testsRun (copies : List (Action Content)) : List (Action Content) :=
  [.run 0 .claim, .run 0 .cleanup, .run 0 .setHashing, .run 0 (.prepare (some initYmlText))] ++
    uploadAbsent 0 dataZip dataZipText ++ uploadAbsent 0 initYml initYmlText ++
    uploadAbsent 0 (testFile "tests/1" 13) testText ++ copies ++ [.run 0 .setVerifying] ++
    publishingRun 0

def evictAplusb : EvictRequest := ⟨"101", "aplusb", false, true, 1, none⟩

def entriesOf (walk : List (WalkEntry Content)) : Entries Content :=
  walk.map fun e => (e.names, e.node)

theorem walks_copied : Walks copiedWalk (entriesOf copiedWalk) := by
  refine ⟨List.Perm.refl _, ?_⟩
  intro e he e' he' i x i' x' hnode hnode'
  simp only [copiedWalk, testsWalk, sampleEntry, List.cons_append, List.nil_append, List.mem_cons,
    List.not_mem_nil, or_false] at he he'
  grind [Stat.inode]

theorem walks_tests : Walks testsWalk (entriesOf testsWalk) := by
  refine ⟨List.Perm.refl _, ?_⟩
  intro e he e' he' i x i' x' hnode hnode'
  simp only [testsWalk, sampleEntry, List.mem_cons, List.not_mem_nil, or_false] at he he'
  grind [Stat.inode]

theorem oneContent_copied : OneContent (entriesOf copiedWalk) := by
  intro p q i x y hp hq
  simp only [entriesOf, copiedWalk, testsWalk, sampleEntry, List.cons_append, List.nil_append,
    List.map_cons, List.map_nil, List.mem_cons, Prod.mk.injEq, List.not_mem_nil, or_false] at hp hq
  grind

theorem oneContent_tests : OneContent (entriesOf testsWalk) := fun p q i x y hp hq =>
  oneContent_copied p q i x y (List.mem_append_left _ hp) (List.mem_append_left _ hq)

theorem testsDigest_of_sample {x : Content} {sha256 : String} (h : testsDigest x = sha256)
    (hother : sha256 ∉ [(testFile "" 0).sha256,
      "9a86260be83606070e1a462ceb7f309cdc031c1e009c85cd9c57b683e00ecdcb",
      "5ae306e8b4a22cd0fc47f3e65a75dd4cf94710140d6b4bd063b72889a71d6f65"]) :
    sampleDigest x = sha256 := by
  simp only [List.mem_cons, List.not_mem_nil, or_false, not_or] at hother
  obtain ⟨htest, hthree, hfour⟩ := hother
  cases x with
  | file text =>
      simp only [testsDigest] at h
      split_ifs at h
      · exact absurd h.symm htest
      · exact h
  | manifestJson m =>
      simp only [testsDigest] at h
      split_ifs at h
      · exact absurd h.symm hthree
      · exact absurd h.symm hfour
      · exact h

theorem testsDigest_testFile {x : Content} (h : testsDigest x = (testFile "" 0).sha256) :
    x = .file testText := by
  cases x with
  | file text =>
      simp only [testsDigest, sampleDigest] at h
      split_ifs at h with htest
      · rw [htest]
      all_goals exact absurd h (by decide)
  | manifestJson m =>
      simp only [testsDigest, sampleDigest] at h
      split_ifs at h <;> exact absurd h (by decide)

theorem collisionFree_tests {files : List FileEntry}
    (h : ∀ f ∈ files, f.sha256 ∈ [dataZip.sha256, initYml.sha256, (testFile "" 0).sha256]) :
    CollisionFree testsContents (files.map FileEntry.toManifestFile) := by
  intro f hf x y hx hy
  obtain ⟨g, hg, rfl⟩ := List.mem_map.mp hf
  have hx : testsDigest x = g.sha256 := hx
  have hy : testsDigest y = g.sha256 := hy
  have hsha := h g hg
  simp only [List.mem_cons, List.not_mem_nil, or_false] at hsha
  rcases hsha with hsha | hsha | hsha
  · rw [hsha] at hx hy
    exact (sampleDigest_dataZip (testsDigest_of_sample hx (by decide))).trans
      (sampleDigest_dataZip (testsDigest_of_sample hy (by decide))).symm
  · rw [hsha] at hx hy
    exact (sampleDigest_initYml (testsDigest_of_sample hx (by decide))).trans
      (sampleDigest_initYml (testsDigest_of_sample hy (by decide))).symm
  · rw [hsha] at hx hy
    exact (testsDigest_testFile hx).trans (testsDigest_testFile hy).symm

instance (body : String → Content) (f : FileEntry) (op : TaskOp Content) :
    Decidable (op.reads testsPlane body f) := by
  unfold TaskOp.reads
  split <;> infer_instance

instance (body : String → Content) (initYml : Option String) (run : Run) (op : RunOp Content) :
    Decidable (op.undisturbed testsPlane body initYml run) := by
  unfold RunOp.undisturbed
  split <;> infer_instance

instance (body : String → Content) (initYml : Option String) (r : Nat) (w : World Content)
    (a : Action Content) (w' : World Content) :
    Decidable (OnlyRun testsPlane body initYml r w a w') :=
  match a with
  | .run r' op => inferInstanceAs (Decidable (r' = r ∧
      ∀ run ∈ w.runs[r]?, op.undisturbed testsPlane body initYml run))
  | .tick _ => isTrue trivial
  | .begin .. | .gcList .. | .gc .. | .retention _ | .failStalled | .external _ => isFalse id

/-- The folder has been snapshotted by a run alone, and evicted. -/
structure TestsEvicted (walk : List (WalkEntry Content)) (scan : ScanResult) (u : World Content)
    (gone : Database) (run : Run) (m : Manifest) : Prop where
  found : run.scan = scan
  scanned : scanProblemFolder testsContents "/problems" run.scan.code (some walk) = .ok run.scan
  collisionFree : CollisionFree testsContents (run.scan.files.map FileEntry.toManifestFile)
  ready : BroughtToReady testsPlane testsBody (some initYmlText) 0 (testsWorld scan) u run m
  evicted : EvictedBy testsContents sampleTime "/problems" u.db gone walk run evictAplusb
  admits : AdmitsRestore gone run restoreAplusb

/-- What the run has left for `evict_local` and `restore_snapshot`. -/
structure TestsReady (walk : List (WalkEntry Content)) (scan : ScanResult) (u : World Content) :
    Prop where
  run : (u.runs[0]?).any (fun run => run.phase.committedManifest.isSome && run.scan = scan &&
    run.problemId = "101" && run.generation = 1) = true
  precheck : evictPrecheck u.db evictAplusb = .ok 1
  removed : evictLocal testsContents sampleTime "/problems" u.db (some walk) evictAplusb =
    .ok (evicted sampleTime evictAplusb 1 u.db, none,
      evictAplusb.result scan.logicalBytes scan.fileCount)
  fencing : ensureLatestFencing u.db.jobs "101" 1 = .ok ()

instance (walk : List (WalkEntry Content)) (scan : ScanResult) (u : World Content) :
    Decidable (TestsReady walk scan u) :=
  decidable_of_iff (_ ∧ _ ∧ _ ∧ _)
    ⟨fun ⟨hrun, hprecheck, hremoved, hfencing⟩ => ⟨hrun, hprecheck, hremoved, hfencing⟩,
      fun h => ⟨h.run, h.precheck, h.removed, h.fencing⟩⟩

theorem testsEvicted_of_ready {walk : List (WalkEntry Content)} {scan : ScanResult}
    {copies : List (Action Content)} {u : World Content} (hcode : scan.code = "aplusb")
    (hscan : scanProblemFolder testsContents "/problems" "aplusb" (some walk) = .ok scan)
    (hsha : ∀ f ∈ scan.files,
      f.sha256 ∈ [dataZip.sha256, initYml.sha256, (testFile "" 0).sha256])
    (hdigests : ∀ f ∈ scan.files,
      testsPlane.sha256Bytes (contentOf testsPlane testsBody f) = f.sha256)
    (hexec : exec (step testsPlane) (testsWorld scan) (testsRun copies) = some u)
    (hown : EveryStep (step testsPlane) (OnlyRun testsPlane testsBody (some initYmlText) 0)
      (testsWorld scan) (testsRun copies))
    (hready : TestsReady walk scan u) :
    ∃ run m, TestsEvicted walk scan u (evicted sampleTime evictAplusb 1 u.db) run m := by
  obtain ⟨run, hr, hrun⟩ := (Option.any_eq_true _ _).mp hready.run
  simp only [Bool.and_eq_true, decide_eq_true_eq] at hrun
  obtain ⟨⟨⟨hphase, rfl⟩, hproblem⟩, hgeneration⟩ := hrun
  obtain ⟨m, hm⟩ := Option.isSome_iff_exists.mp hphase
  refine ⟨run, m, rfl, ?_, collisionFree_tests hsha, ⟨⟨_, rfl, rfl, hdigests⟩, ⟨_, hexec, hown⟩, hr,
    RunPhase.committedManifest_eq_some.mp hm⟩, ⟨hproblem.symm, hcode.symm, ⟨_, hready.removed⟩, ?_⟩,
    ⟨hproblem.symm, ?_, hready.fencing, by decide +kernel⟩⟩
  · rw [hcode]
    exact hscan
  · rw [hgeneration]
    exact hready.precheck
  · rw [hgeneration]
    rfl

/-- The restore succeeds, and the watcher does not find the READY snapshot in what it leaves. -/
def lostTest (gone : Database) (store : Store Content) : Bool :=
  match restoreSnapshot testsContents contentFromSlice sampleTime "/problems" gone store none
      restoreAplusb with
  | .error _ => false
  | .ok (back, s) =>
      match scanProblemFolder testsContents "/problems" "aplusb" (some (stagedWalk s)) with
      | .error _ => false
      | .ok scan => readySnapshotMatchesScan back "101" scan = none

theorem not_comesBack_of_lost {gone : Database} {store : Store Content} {run : Run}
    (hcode : run.scan.code = "aplusb") (h : lostTest gone store = true) :
    ¬ ComesBack testsPlane testsContents contentFromSlice (some initYmlText) sampleTime "/problems"
      gone store run restoreAplusb := by
  rintro ⟨back, s, hback, hscans⟩
  obtain ⟨folder, hscan, -, -, hmatch, -⟩ := hscans _ (walks_stagedWalk s)
  rw [hcode] at hscan
  have hmatch : readySnapshotMatchesScan back "101" folder.scan = some run.generation := hmatch
  simp only [lostTest, hback, hscan, hmatch, reduceCtorEq, decide_false] at h

/-- Both tests are restored to one place. -/
theorem evict_then_restore_fails :
    OneContent (entriesOf copiedWalk) ∧ Walks copiedWalk (entriesOf copiedWalk) ∧
      ∃ u gone run m, TestsEvicted copiedWalk copiedScan u gone run m ∧
        ¬ ComesBack testsPlane testsContents contentFromSlice (some initYmlText) sampleTime
          "/problems" gone u.store run restoreAplusb := by
  -- both in one evaluation of the run
  have ⟨hown, hafter⟩ : EveryStep (step testsPlane)
        (OnlyRun testsPlane testsBody (some initYmlText) 0) (testsWorld copiedScan)
          (testsRun (uploadExisting 0 (testFile "tests//1" 14))) ∧
      (exec (step testsPlane) (testsWorld copiedScan)
          (testsRun (uploadExisting 0 (testFile "tests//1" 14)))).any (fun u =>
        decide (TestsReady copiedWalk copiedScan u) &&
          lostTest (evicted sampleTime evictAplusb 1 u.db) u.store) = true := by
    decide +kernel
  obtain ⟨u, hu, hafter⟩ := (Option.any_eq_true _ _).mp hafter
  rw [Bool.and_eq_true, decide_eq_true_eq] at hafter
  obtain ⟨run, m, hevicted⟩ := testsEvicted_of_ready rfl (by decide +kernel) (by decide +kernel)
    (by decide +kernel) hu hown hafter.1
  exact ⟨oneContent_copied, walks_copied, u, _, run, m, hevicted,
    not_comesBack_of_lost (by rw [hevicted.found]; rfl) hafter.2⟩

theorem evict_then_restore_sample :
    ∃ u gone run m, TestsEvicted testsWalk testsScan u gone run m ∧
      ComesBack testsPlane testsContents contentFromSlice (some initYmlText) sampleTime "/problems"
        gone u.store run restoreAplusb := by
  have ⟨hown, hafter⟩ : EveryStep (step testsPlane)
        (OnlyRun testsPlane testsBody (some initYmlText) 0) (testsWorld testsScan) (testsRun []) ∧
      (exec (step testsPlane) (testsWorld testsScan) (testsRun [])).any (fun u =>
        decide (TestsReady testsWalk testsScan u)) = true := by
    decide +kernel
  obtain ⟨u, hu, hafter⟩ := (Option.any_eq_true _ _).mp hafter
  obtain ⟨run, m, hevicted⟩ := testsEvicted_of_ready rfl (by decide +kernel) (by decide +kernel)
    (by decide +kernel) hu hown (of_decide_eq_true hafter)
  refine ⟨u, _, run, m, hevicted, (evict_then_restore_iff rfl (fun _ => rfl) oneContent_tests
    walks_tests hevicted.scanned hevicted.collisionFree hevicted.ready walks_tests hevicted.evicted
    hevicted.admits).mpr ⟨by decide +kernel, ?_⟩⟩
  rw [hevicted.found]
  exact ⟨by decide +kernel, by decide +kernel⟩

end ExternalStorage.Restore
