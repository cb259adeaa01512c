import ExternalStorage.Catalog.Backups
import ExternalStorage.Restore.RoundTrip

/-!
# A folder that was evicted

`evict_local` removes a folder once a scan of it matches the READY snapshot.  The matcher compares
paths, hashes and sizes only; that links and hard links come back too is owed to the manifest, which
was made of the same folder.
-/

namespace ExternalStorage.Restore

open ExternalStorage.Model ExternalStorage.Snapshot Library.Loops Library.Sorting Library.Table

variable {Bytes : Type}

/-! ## The matcher and two walks -/

theorem scanMatches_of_records {files files' : List FileEntry}
    (h : (files.map FileEntry.record).Perm (files'.map FileEntry.record))
    (hpaths : (files.map FileEntry.path).Nodup) {expected : List (String × String × Int)}
    (hmatch : scanMatchesSnapshotObjects files expected = true) :
    scanMatchesSnapshotObjects files' expected = true := by
  rw [← scanMatchesUnder_insertion] at hmatch ⊢
  have hidentity : (files.map FileEntry.identity).Perm (files'.map FileEntry.identity) := by
    have hmap := h.map fun r => (r.1, r.2.1, asI64 r.2.2.1)
    rwa [List.map_map, List.map_map] at hmap
  have hperm := (perm_of_scanMatchesUnder hmatch).trans hidentity
  refine scanMatchesUnder_iff.mpr ⟨?_, ?_⟩
  · rw [hperm.length_eq, List.length_map]
  · refine ((SortBy.insertion _).sort_eq_iff (SortBy.insertion _) ?_).mpr hperm
    have hkeys : (files.map FileEntry.identity).map Prod.fst = files.map FileEntry.path := by
      rw [List.map_map]
      rfl
    exact ((perm_of_scanMatchesUnder hmatch).map Prod.fst).nodup_iff.mpr (hkeys ▸ hpaths)

theorem records_of_walks {c : Contents Bytes} {entries : Entries Bytes}
    {walk walk' : List (WalkEntry Bytes)} (hwalk : Walks walk entries)
    (hwalk' : Walks walk' entries) {files files' : List FileEntry} (h : ScanReports c walk files)
    (h' : ScanReports c walk' files') {f : FileEntry} (hf : f ∈ files) :
    FileEntry.record f ∈ files'.map FileEntry.record := by
  obtain ⟨e, he, hscanned⟩ := h.walked hf
  have hentry := hwalk.entries.mem_iff.mp (List.mem_map_of_mem he)
  obtain ⟨e', he', heq⟩ := List.mem_map.mp (hwalk'.entries.mem_iff.mpr hentry)
  have hnames : e'.names = e.names := congrArg Prod.fst heq
  have hnode : e'.node = e.node := congrArg Prod.snd heq
  obtain ⟨f', hf', hscanned'⟩ := h'.reported he' (hnode ▸ hscanned.leaf)
  have hpath : f'.path = f.path :=
    Except.ok.inj (hscanned'.path.symm.trans (hnames ▸ hscanned.path))
  have hreport := hscanned.node
  have hreport' := hscanned'.node
  rw [hnode] at hreport'
  refine List.mem_map.mpr ⟨f', hf', ?_⟩
  cases hkind : e.node with
  | dir | special =>
      rw [hkind] at hreport
      exact hreport.elim
  | file i x =>
      rw [hkind] at hreport hreport'
      rw [FileEntry.record, FileEntry.record, hpath, hreport.1, hreport.2.1, hreport.2.2,
        hreport'.1, hreport'.2.1, hreport'.2.2]
  | symlink target =>
      rw [hkind] at hreport hreport'
      obtain ⟨-, text, htext, hlink, -, hsha, hsize⟩ := hreport
      obtain ⟨-, text', htext', hlink', -, hsha', hsize'⟩ := hreport'
      obtain rfl : text = text' := Option.some.inj (htext.symm.trans htext')
      rw [FileEntry.record, FileEntry.record, hpath, hlink, hsha, hsize, hlink', hsha', hsize']

/-- Two scans of one folder report the same records, in their own orders. -/
theorem records_perm_of_walks {c : Contents Bytes} {entries : Entries Bytes}
    {walk walk' : List (WalkEntry Bytes)} (hwalk : Walks walk entries)
    (hwalk' : Walks walk' entries) {files files' : List FileEntry} (h : ScanReports c walk files)
    (h' : ScanReports c walk' files') (hpaths : (files.map FileEntry.path).Nodup)
    (hpaths' : (files'.map FileEntry.path).Nodup) :
    (files.map FileEntry.record).Perm (files'.map FileEntry.record) := by
  refine (List.perm_ext_iff_of_nodup (nodup_records hpaths) (nodup_records hpaths')).mpr ?_
  intro r
  constructor
  · intro hr
    obtain ⟨f, hf, rfl⟩ := List.mem_map.mp hr
    exact records_of_walks hwalk hwalk' h h' hf
  · intro hr
    obtain ⟨f, hf, rfl⟩ := List.mem_map.mp hr
    exact records_of_walks hwalk' hwalk h' h hf

/-! ## Eviction and restore -/

theorem evictLocal_removes {c : Contents Bytes} {now : Timestamp} {rootPath : String}
    {db gone : Database} {walk : List (WalkEntry Bytes)} {q : EvictRequest} {result : EvictResult}
    (h : evictLocal c now rootPath db (some walk) q = .ok (gone, none, result)) :
    ∃ generation scan, evictPrecheck db q = .ok generation ∧ validateRelativePath q.code = .ok () ∧
      scanProblemFolder c rootPath q.code (some walk) = .ok scan ∧
      readySnapshotMatchesScan db q.problemId scan = some generation ∧
      gone = evicted now q generation db := by
  obtain ⟨generation, hprecheck, h⟩ := bind_eq_ok.mp h
  obtain ⟨hcode, h⟩ := check_eq_ok.mp h
  obtain ⟨scan, hscan, h⟩ := bind_eq_ok.mp h
  obtain ⟨hmatch, h⟩ := check_eq_ok.mp h
  rw [evictMatches, refuseIf_eq_ok, not_not] at hmatch
  split at h
  · cases h
  · obtain ⟨-, h⟩ := check_eq_ok.mp h
    cases h
    exact ⟨generation, scan, hprecheck, hcode, hscan, hmatch, rfl⟩

/-- What a restore after the eviction leaves: a folder that matches the snapshot. -/
theorem evicted_restored [DecidableEq Bytes] {c : Contents Bytes}
    {fromSlice : Bytes → Except String Manifest} {rootPath : String}
    {store : String → Option Bytes} {walk₀ : List (WalkEntry Bytes)} {scan scan₀ : ScanResult}
    {m : Manifest} {db : Database} {now now' : Timestamp} {e : EvictRequest} {q : RestoreRequest}
    {generation : Int} {s : Staging Bytes} {code : String}
    (hcode : validateRelativePath code = .ok ())
    (hmatch : readySnapshotMatchesScan db q.problemId scan = some generation)
    (hrecords : (scan.files.map FileEntry.record).Perm (scan₀.files.map FileEntry.record))
    (hpaths : (scan.files.map FileEntry.path).Nodup)
    (hs : materializeManifestFiles c store m (q.pathBeside rootPath (stagingName q newUuid)) =
      .ok s)
    (htree : RestoredTree c store walk₀ scan₀ m.files s)
    (hfencing : ensureLatestFencing db.jobs q.problemId q.fencingToken = .ok ())
    (hresolved : resolveReadyGeneration db q.problemId q.generation = .ok generation)
    (hfetched : fetchManifest c fromSlice store q.problemId generation = .ok m)
    (hname : validateRelativePath q.fileName = .ok ())
    (hstaged : fits rootPath (q.beside (stagingName q newUuid)) = true) :
    restoreSnapshot c fromSlice now' rootPath (evicted now e generation db) store none q =
        .ok (restored now' q (evicted now e generation db), s) ∧
      ∀ walk', Walks walk' s.entries →
        ∃ scan', scanProblemFolder c rootPath code (some walk') = .ok scan' ∧
          SameFolder scan₀.files scan'.files ∧
          readySnapshotMatchesScan (restored now' q (evicted now e generation db)) q.problemId
            scan' = some generation := by
  obtain ⟨hclean, row, hrow, hgeneration, hobjects⟩ := readySnapshotMatchesScan_eq_some.mp hmatch
  refine ⟨restoreSnapshot_eq_ok.mpr ⟨rfl, generation, m,
    ⟨hfencing, hresolved, hfetched, hname, hstaged, hs, ?_, ?_⟩⟩, fun walk' hwalk' => ?_⟩
  · obtain ⟨hmem, hfor⟩ := List.mem_filter.mp (mem_of_firstBy hrow)
    rw [Bool.and_eq_true, decide_eq_true_eq, decide_eq_true_eq] at hfor
    exact ⟨row, hmem, by simp [SnapshotRow.isFor_iff, hfor.1, hgeneration], hfor.2⟩
  · intro walk hnone
    cases hnone
  · obtain ⟨scan', hscan', -, hfolder⟩ := htree.rescanned hcode hwalk'
    exact ⟨scan', hscan', hfolder, readySnapshotMatchesScan_eq_some.mpr ⟨hclean, row, hrow,
      hgeneration, scanMatches_of_records (hrecords.trans hfolder.records) hpaths hobjects⟩⟩

/-- A folder that `evict_local` has removed comes back by a restore of the latest READY snapshot,
if that was made of the same folder: its scans report what the scans before it did, and match the
snapshot, so the watcher takes the restore for no change. -/
theorem evicted_folder_comes_back [DecidableEq Bytes] {c : Contents Bytes}
    {fromSlice : Bytes → Except String Manifest} {rootPath : String}
    {store : String → Option Bytes} {entries : Entries Bytes} {walk walk₀ : List (WalkEntry Bytes)}
    {scan₀ : ScanResult} {m : Manifest} {db gone : Database} {now now' : Timestamp}
    {e : EvictRequest} {q : RestoreRequest} {result : EvictResult}
    (hplain : PlainFolder entries) (hwalk₀ : Walks walk₀ entries)
    (hscan₀ : scanProblemFolder c rootPath e.code (some walk₀) = .ok scan₀)
    (hfiles : m.files.Perm (scan₀.files.map FileEntry.toManifestFile))
    (hsha : CollisionFree c m.files) (hstored : StoreHolds c store m.files)
    (hwalk : Walks walk entries)
    (hevict : evictLocal c now rootPath db (some walk) e = .ok (gone, none, result))
    (hproblem : q.problemId = e.problemId) (hlatest : q.generation ≤ 0)
    (hfencing : ensureLatestFencing db.jobs q.problemId q.fencingToken = .ok ())
    (hname : validateRelativePath q.fileName = .ok ())
    (hstaged : fits rootPath (q.beside (stagingName q newUuid)) = true)
    (hfits : FilesFit (q.pathBeside rootPath (stagingName q newUuid)) m.files)
    (hmanifest : ∀ s, latestReady q.problemId db.snapshots = some s →
      fetchManifest c fromSlice store q.problemId s.generation = .ok m) :
    ∃ back s generation, readySnapshotMatchesScan db q.problemId scan₀ = some generation ∧
      restoreSnapshot c fromSlice now' rootPath gone store none q = .ok (back, s) ∧
        ∀ walk', Walks walk' s.entries →
          ∃ scan', scanProblemFolder c rootPath e.code (some walk') = .ok scan' ∧
            SameFolder scan₀.files scan'.files ∧
            readySnapshotMatchesScan back q.problemId scan' = some generation := by
  obtain ⟨generation, scan, -, hcode, hscan, hmatch, rfl⟩ := evictLocal_removes hevict
  rw [← hproblem] at hmatch
  have hreports₀ := scan_reports (hplain.sameContents hwalk₀) hscan₀
  have hreports := scan_reports (hplain.sameContents hwalk) hscan
  have hpaths := (hplain.treePaths hwalk).distinct
  have hpaths₀ := (hplain.treePaths hwalk₀).distinct
  rw [← hreports.paths] at hpaths
  rw [← hreports₀.paths] at hpaths₀
  have hrecords := records_perm_of_walks hwalk hwalk₀ hreports hreports₀ hpaths hpaths₀
  obtain ⟨hclean, row, hrow, hgeneration, hobjects⟩ := readySnapshotMatchesScan_eq_some.mp hmatch
  have hresolved : resolveReadyGeneration db q.problemId q.generation = .ok generation := by
    rw [resolveReadyGeneration, if_neg (by omega), hrow, ← hgeneration]
  have hfetched : fetchManifest c fromSlice store q.problemId generation = .ok m :=
    hgeneration ▸ hmanifest row hrow
  obtain ⟨s, hs, htree⟩ := restoredTree_of_treePaths (hplain.sameContents hwalk₀) hreports₀ hfiles
    hsha hstored (hplain.treePaths hwalk₀) hfits
  obtain ⟨hrestored, hscans⟩ := evicted_restored hcode hmatch hrecords hpaths hs htree hfencing
    hresolved hfetched hname hstaged
  refine ⟨_, s, generation, readySnapshotMatchesScan_eq_some.mpr ⟨hclean, row, hrow, hgeneration,
    scanMatches_of_records hrecords hpaths hobjects⟩, hrestored, hscans⟩

/-! The archive of the orphan `sums`, a hard link to it and a symbolic link. -/

open Catalog in
def sumsEntries : Entries SampleBytes :=
  [([OsName.ofText "sums.zip"], .file 2 (.text "tests")), ([OsName.ofText "old"], .dir),
    ([OsName.ofText "old", OsName.ofText "sums.zip"], .file 2 (.text "tests")),
    ([OsName.ofText "latest"], .symlink (OsName.ofText "old/sums.zip"))]

open Catalog in
def sumsWalk : List (WalkEntry SampleBytes) :=
  sumsEntries.map fun e => ⟨e.1, e.2, ⟨1, 2, 1, 1, 33188⟩⟩

def sumsFiles : List FileEntry :=
  let archive : FileEntry := ⟨"sums.zip", "abtests", 5, 512, 1, 2, 1, 33188, none, none⟩
  [archive, { archive with path := "old/sums.zip", duplicateOf := some "sums.zip" },
    ⟨"latest", "abold/sums.zip", 12, 512, 1, 2, 1, 33188, none, some "old/sums.zip"⟩]

def sumsScan : ScanResult := ⟨"sums", 17, 1024, 5, 12, 3, sumsFiles⟩

def sumsManifest : Manifest :=
  buildManifest (orphanId "sums") "sums" 1 0 "sums.zip"
    (sortManifestFiles (sumsFiles.map FileEntry.toManifestFile))

open Catalog in
def sumsStore (key : String) : Option SampleBytes :=
  if key = objectKeyForSha256 "abtests" then some (.text "tests")
  else if key = objectKeyForSha256 "abold/sums.zip" then some (.text "old/sums.zip")
  else if key = manifestKey (orphanId "sums") 1 then some (.manifest sumsManifest)
  else none

open Catalog in
def sumsDb : Database :=
  { backedUpDb with
    snapshotObjects := sumsFiles.map fun f =>
      ⟨1, f.sha256, f.path, asI64 f.size, objectKeyForSha256 f.sha256, true, true⟩ }

def evictSums : EvictRequest := ⟨orphanId "sums", "sums", false, true, 2, none⟩
def restoreSums : RestoreRequest := ⟨orphanId "sums", 0, 3, "sums"⟩

theorem sumsManifest_sha256 : ∀ f ∈ sumsManifest.files,
    f.objectKey = objectKeyForSha256 f.sha256 ∧
      (f.sha256 = "ab" ++ "tests" ∨ f.sha256 = "ab" ++ "old/sums.zip") := by
  decide +kernel

open Catalog in
theorem collisionFree_sums : CollisionFree sampleContents sumsManifest.files := by
  have htext : ∀ x : SampleBytes, ∀ text, sampleContents.sha256Bytes x = "ab" ++ text →
      x = .text text := by
    intro x text h
    cases x with
    | text t =>
        have hsame : "ab" ++ t = "ab" ++ text := h
        rw [← String.toList_inj, String.toList_append, String.toList_append] at hsame
        rw [String.toList_inj.mp (List.append_cancel_left hsame)]
    | manifest m =>
        have hsame : "cd" ++ m.problemId = "ab" ++ text := h
        rw [← String.toList_inj, String.toList_append, String.toList_append] at hsame
        cases List.head_eq_of_cons_eq hsame
  intro f hf x y hx hy
  rcases (sumsManifest_sha256 f hf).2 with hsha | hsha
  · rw [hsha] at hx hy
    exact (htext x _ hx).trans (htext y _ hy).symm
  · rw [hsha] at hx hy
    exact (htext x _ hx).trans (htext y _ hy).symm

theorem plainFolder_sums : PlainFolder sumsEntries where
  names := by
    have hentry : ∀ name ∈ ["sums.zip", "old", "latest"], PlainName name := by
      intro name hname
      simp only [List.mem_cons, List.not_mem_nil, or_false] at hname
      rcases hname with rfl | rfl | rfl
      all_goals exact ⟨by decide, by decide, by decide, by decide, by decide⟩
    intro e he
    have htexts : ∃ names : List String, names ≠ [] ∧
        (∀ name ∈ names, name ∈ ["sums.zip", "old", "latest"]) ∧
          e.1 = names.map OsName.ofText := by
      simp only [sumsEntries, List.mem_cons, List.not_mem_nil, or_false] at he
      rcases he with rfl | rfl | rfl | rfl
      · exact ⟨["sums.zip"], by decide, by decide, rfl⟩
      · exact ⟨["old"], by decide, by decide, rfl⟩
      · exact ⟨["old", "sums.zip"], by decide, by decide, rfl⟩
      · exact ⟨["latest"], by decide, by decide, rfl⟩
    obtain ⟨names, hne, hnames, heq⟩ := htexts
    exact ⟨names, hne, fun name hname => hentry name (hnames name hname), heq⟩
  distinct := by decide +kernel
  leaves := by decide +kernel
  contents := by
    intro p q i x y hp hq
    simp only [sumsEntries, List.mem_cons, Prod.mk.injEq, Node.file.injEq, reduceCtorEq, and_false,
      List.not_mem_nil, or_false, false_or] at hp hq
    grind

theorem walks_sums : Walks sumsWalk sumsEntries := by
  refine ⟨?_, ?_⟩
  · rw [sumsWalk, List.map_map]
    exact List.Perm.of_eq (List.map_id _)
  · intro e he e' he' i x i' x' hnode hnode'
    simp only [sumsWalk, sumsEntries, List.map_cons, List.map_nil, List.mem_cons, List.not_mem_nil,
      or_false] at he he'
    grind

theorem evicted_folder_comes_back_sums :
    ∃ gone result back s, evictLocal Catalog.sampleContents 1 "/problems" sumsDb (some sumsWalk)
        evictSums = .ok (gone, none, result) ∧
      restoreSnapshot Catalog.sampleContents Catalog.sampleFromSlice 2 "/problems" gone sumsStore
        none restoreSums = .ok (back, s) ∧
      ∀ walk, Walks walk s.entries → ∃ scan,
        scanProblemFolder Catalog.sampleContents "/problems" "sums" (some walk) = .ok scan ∧
          SameFolder sumsFiles scan.files := by
  have hscan : scanProblemFolder Catalog.sampleContents "/problems" "sums" (some sumsWalk) =
      .ok sumsScan := by rfl
  obtain ⟨gone, result, hevict⟩ : ∃ gone result, evictLocal Catalog.sampleContents 1 "/problems"
      sumsDb (some sumsWalk) evictSums = .ok (gone, none, result) := ⟨_, _, by rfl⟩
  have hfiles : sumsManifest.files.Perm (sumsScan.files.map FileEntry.toManifestFile) :=
    List.perm_insertionSort _ _
  have hstored : StoreHolds Catalog.sampleContents sumsStore sumsManifest.files := by
    intro f hf
    obtain ⟨hkey, hsha | hsha⟩ := sumsManifest_sha256 f hf
    · exact ⟨.text "tests", by rw [hkey, hsha]; rfl, hsha.symm⟩
    · exact ⟨.text "old/sums.zip", by rw [hkey, hsha]; rfl, hsha.symm⟩
  have hmanifest : ∀ s, latestReady restoreSums.problemId sumsDb.snapshots = some s →
      fetchManifest Catalog.sampleContents Catalog.sampleFromSlice sumsStore restoreSums.problemId
        s.generation = .ok sumsManifest := by
    intro s hs
    obtain rfl : Catalog.backedUpRow = s := Option.some.inj hs
    rfl
  obtain ⟨back, s, generation, -, hback, hscans⟩ := evicted_folder_comes_back plainFolder_sums
    walks_sums hscan hfiles collisionFree_sums hstored walks_sums hevict rfl (by decide) (by rfl)
    (by rfl) (by decide +kernel) (by decide +kernel) hmanifest
  refine ⟨gone, result, back, s, hevict, hback, fun walk hwalk => ?_⟩
  obtain ⟨scan, hscan, hfolder, -⟩ := hscans walk hwalk
  exact ⟨scan, hscan, hfolder⟩

end ExternalStorage.Restore
