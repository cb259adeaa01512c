import ExternalStorage.Model.Scan

/-!
# Manifests and the matcher

`validate_manifest`, and the comparison of a scan with the objects of the READY
snapshot.
-/

namespace ExternalStorage.Model

open Library.Table

variable {Bytes : Type}

/-! ## `validate_manifest` -/

/-- One turn of the loop over the files. -/
def validateManifestFile (c : Contents Bytes) (schemaVersion : Nat) (pathsSeen : List String)
    (f : ManifestFile) : Except AppError Unit := do
  validateRelativePath f.path
  refuseIf (f.path ∈ pathsSeen) (.manifestIntegrity s!"duplicate path {f.path}")
  refuseIf (f.objectKey ≠ objectKeyForSha256 f.sha256)
    (.manifestIntegrity s!"object key mismatch for {f.path}")
  match f.symlinkTarget with
  | none => .ok ()
  | some target => do
      refuseIf (schemaVersion < 3 ∨ f.duplicateOf.isSome)
        (.manifestIntegrity s!"invalid symlink metadata for {f.path}")
      validateSymlinkTarget f.path target
      refuseIf (f.sha256 ≠ c.sha256Bytes (c.textBytes target) ∨ f.size ≠ c.len (c.textBytes target))
        (.manifestIntegrity s!"symlink metadata mismatch for {f.path}")

def validateManifestFiles (c : Contents Bytes) (schemaVersion : Nat) :
    List String → List ManifestFile → Except AppError Unit
  | _, [] => .ok ()
  | pathsSeen, f :: fs => do
      validateManifestFile c schemaVersion pathsSeen f
      validateManifestFiles c schemaVersion (f.path :: pathsSeen) fs

def validateCanonical (m : Manifest) : Except AppError Unit :=
  match m.canonicalDownloadPath with
  | none => .ok ()
  | some canonical => do
      validateRelativePath canonical
      refuseIf (∀ f ∈ m.files, f.path ≠ canonical)
        (.manifestIntegrity s!"canonical artifact missing: {canonical}")
      refuseIf (∃ f ∈ m.files, f.path = canonical ∧ f.symlinkTarget.isSome)
        (.manifestIntegrity "canonical artifact cannot be a symlink")

def validateManifest (c : Contents Bytes) (m : Manifest) (problemId : String) (generation : Int) :
    Except AppError Unit := do
  refuseIf (m.schemaVersion = 0 ∨ m.schemaVersion > 3)
    (.manifestIntegrity s!"unsupported schema_version {m.schemaVersion}")
  refuseIf (m.problemId ≠ problemId ∨ m.generation ≠ generation)
    (.manifestIntegrity (s!"manifest identity mismatch: {m.problemId}:{m.generation} " ++
      s!"expected {problemId}:{generation}"))
  validateManifestFiles c m.schemaVersion [] m.files
  refuseIf (m.fileCount ≠ m.files.length ∨ m.totalBytes ≠ manifestTotalBytes m.files)
    (.manifestIntegrity "manifest counts do not match file list")
  validateCanonical m

/-- What `validate_manifest` asks of one file. -/
structure ManifestFileOk (c : Contents Bytes) (schemaVersion : Nat) (f : ManifestFile) : Prop where
  path : validateRelativePath f.path = .ok ()
  key : f.objectKey = objectKeyForSha256 f.sha256
  symlink : ∀ target, f.symlinkTarget = some target → 3 ≤ schemaVersion ∧ f.duplicateOf = none ∧
    validateSymlinkTarget f.path target = .ok () ∧
    f.sha256 = c.sha256Bytes (c.textBytes target) ∧ f.size = c.len (c.textBytes target)

theorem validateManifestFile_eq_ok {c : Contents Bytes} {schemaVersion : Nat}
    {pathsSeen : List String} {f : ManifestFile} :
    validateManifestFile c schemaVersion pathsSeen f = .ok () ↔
      ManifestFileOk c schemaVersion f ∧ f.path ∉ pathsSeen := by
  simp only [validateManifestFile, check_eq_ok, refuseIf_eq_ok, not_not]
  cases htarget : f.symlinkTarget with
  | none =>
      constructor
      · rintro ⟨hpath, hnew, hkey, -⟩
        exact ⟨⟨hpath, hkey, by simp [htarget]⟩, hnew⟩
      · rintro ⟨hok, hnew⟩
        exact ⟨hok.path, hnew, hok.key, rfl⟩
  | some target =>
      simp only [check_eq_ok, refuseIf_eq_ok, not_or, not_not, not_lt, Bool.not_eq_true,
        Option.isSome_eq_false_iff, Option.isNone_iff_eq_none]
      constructor
      · rintro ⟨hpath, hnew, hkey, hschema, hvalid, hcontent⟩
        refine ⟨⟨hpath, hkey, ?_⟩, hnew⟩
        intro target' htarget'
        obtain rfl : target = target' := Option.some.inj (htarget.symm.trans htarget')
        exact ⟨hschema.1, hschema.2, hvalid, hcontent⟩
      · rintro ⟨hok, hnew⟩
        obtain ⟨hschema, hdup, hvalid, hcontent⟩ := hok.symlink target htarget
        exact ⟨hok.path, hnew, hok.key, ⟨hschema, hdup⟩, hvalid, hcontent⟩

theorem validateManifestFiles_eq_ok {c : Contents Bytes} {schemaVersion : Nat}
    {pathsSeen : List String} {files : List ManifestFile} :
    validateManifestFiles c schemaVersion pathsSeen files = .ok () ↔
      (∀ f ∈ files, ManifestFileOk c schemaVersion f) ∧ (files.map ManifestFile.path).Nodup ∧
        ∀ f ∈ files, f.path ∉ pathsSeen := by
  induction files generalizing pathsSeen with
  | nil => simp [validateManifestFiles]
  | cons f fs ih =>
      simp only [validateManifestFiles, check_eq_ok, validateManifestFile_eq_ok, ih,
        List.forall_mem_cons, List.map_cons, List.nodup_cons, List.mem_map, not_exists, not_and]
      simp only [List.mem_cons, not_or]
      constructor
      · rintro ⟨⟨hok, hnew⟩, hoks, hnodup, hrest⟩
        exact ⟨⟨hok, hoks⟩, ⟨fun g hg heq => (hrest g hg).1 heq, hnodup⟩, hnew,
          fun g hg => (hrest g hg).2⟩
      · rintro ⟨⟨hok, hoks⟩, ⟨hother, hnodup⟩, hnew, hrest⟩
        exact ⟨⟨hok, hnew⟩, hoks, hnodup, fun g hg => ⟨hother g hg, hrest g hg⟩⟩

/-! ## The matcher -/

def FileEntry.identity (f : FileEntry) : String × String × Int := (f.path, f.sha256, asI64 f.size)

def SnapshotObjectRow.identity (o : SnapshotObjectRow) : String × String × Int :=
  (o.relPath, o.sha256, o.sizeBytes)

/-- `sort_unstable_by` on the path; which of two equal paths comes first makes no difference
below, where one side has no equal paths. -/
def sortByPath (triples : List (String × String × Int)) : List (String × String × Int) :=
  triples.insertionSort fun a b => a.1 ≤ b.1

def scanMatchesSnapshotObjects (files : List FileEntry) (expected : List (String × String × Int)) :
    Bool :=
  expected.length = files.length &&
    ((sortByPath expected).zip (sortByPath (files.map FileEntry.identity))).all fun p => p.1 = p.2

def latestReady (problemId : String) (rows : List SnapshotRow) : Option SnapshotRow :=
  firstBy (fun s t => decide (t.generation < s.generation))
    (rows.filter fun s => s.problemId = problemId && s.state = .ready)

def readySnapshotMatchesScan (db : Database) (problemId : String) (scan : ScanResult) :
    Option Int := do
  if db.problems.all fun p => p.externalId ≠ problemId || p.dirty then
    none
  let s ← latestReady problemId db.snapshots
  let expected := (db.snapshotObjects.filter fun o => o.snapshotId = s.id).map
    SnapshotObjectRow.identity
  if scanMatchesSnapshotObjects scan.files expected then some s.generation else none

def recordedContents (db : Database) (id : Uuid) : List (String × String × Int) :=
  (db.snapshotObjects.filter fun o => o.snapshotId = id).map SnapshotObjectRow.identity

theorem readySnapshotMatchesScan_eq_some {db : Database} {problemId : String} {scan : ScanResult}
    {generation : Int} :
    readySnapshotMatchesScan db problemId scan = some generation ↔
      (∃ p ∈ db.problems, p.externalId = problemId ∧ p.dirty = false) ∧
        ∃ s, latestReady problemId db.snapshots = some s ∧ s.generation = generation ∧
          scanMatchesSnapshotObjects scan.files (recordedContents db s.id) = true := by
  have hclean : (db.problems.all fun p => p.externalId ≠ problemId || p.dirty) = false ↔
      ∃ p ∈ db.problems, p.externalId = problemId ∧ p.dirty = false := by
    simp only [List.all_eq_false, Bool.or_eq_true, decide_eq_true_eq, not_or, not_not,
      Bool.not_eq_true]
  rw [← hclean]
  unfold readySnapshotMatchesScan
  cases hdirty : db.problems.all fun p => p.externalId ≠ problemId || p.dirty with
  | true => simp
  | false =>
      simp only [Bool.false_eq_true, if_false, true_and]
      constructor
      · intro h
        obtain ⟨s, hs, h⟩ := Option.bind_eq_some_iff.mp h
        split at h
        · rename_i hmatch
          exact ⟨s, hs, Option.some.inj h, hmatch⟩
        · cases h
      · rintro ⟨s, hs, rfl, hmatch⟩
        refine Option.bind_eq_some_iff.mpr ⟨s, hs, ?_⟩
        exact if_pos hmatch

end ExternalStorage.Model
