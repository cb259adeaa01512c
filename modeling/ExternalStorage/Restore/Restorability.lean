import ExternalStorage.Model.Staging
import ExternalStorage.Restore.Scanning
import ExternalStorage.Snapshot.Consistency

/-!
# Published manifests and their restores

`create_snapshot_after_insert` never runs `validate_manifest`.  What it publishes passes the
validator, and gives the materialiser no reason to complain of it, as long as the scanner
has given the files of the folder different paths.
-/

namespace ExternalStorage.Restore

open ExternalStorage.Model ExternalStorage.Snapshot Library.Loops Library.Runs

variable {Bytes : Type}

/-! ## Errors that blame the manifest -/

def AppError.blamesManifest : AppError → Bool
  | .manifestIntegrity _ | .pathEscape _ => true
  | _ => false

/-- A restore of the manifest is not refused for what the manifest says. -/
def Restorable [DecidableEq Bytes] (c : Contents Bytes) (m : Manifest) (problemId : String)
    (generation : Int) : Prop :=
  validateManifest c m problemId generation = .ok () ∧
    ∀ store staging e, materializeManifestFiles c store m staging = .error e →
      AppError.blamesManifest e = false

/-! ## What the file system says blames nobody -/

theorem resolveDir_error {t : Library.Trees.Tree String (StagedLeaf Bytes)} {links : Nat}
    {dir : List String} {cs : List Component} {e : AppError}
    (h : resolveDir t links dir cs = .error e) : AppError.blamesManifest e = false := by
  fun_induction resolveDir t links dir cs with
  | case1 => cases h
  | case2 => cases h; rfl
  | case3 _ _ _ _ _ ih => exact ih h
  | case4 => cases h; rfl
  | case5 => cases h; rfl
  | case6 _ _ _ _ _ _ ih => exact ih h
  | case7 _ _ _ ih => exact ih h
  | case8 => cases h; rfl
  | case9 _ _ _ _ ih => exact ih h
  | case10 => cases h; rfl

theorem createDirAll_error {t : Library.Trees.Tree String (StagedLeaf Bytes)} {links : Nat}
    {dir names : List String} {e : AppError} (h : createDirAll t links dir names = .error e) :
    AppError.blamesManifest e = false := by
  induction names generalizing t links dir with
  | nil => cases h
  | cons name names ih =>
      unfold createDirAll at h
      split at h
      · exact ih h
      · exact ih h
      · cases h
        rfl
      · split at h
        · cases h
          rfl
        · split at h
          · rename_i hresolve
            cases h
            exact resolveDir_error hresolve
          · exact ih h

theorem refusedName_error {p : Prop} [Decidable p] {e : AppError}
    (h : refuseIf p nameTooLong = .error e) : AppError.blamesManifest e = false := by
  rw [(refuseIf_eq_error.mp h).2]
  rfl

theorem createParents_error {s : Staging Bytes} {staging path : String} {e : AppError}
    (h : s.createParents staging path = .error e) : AppError.blamesManifest e = false := by
  rcases bind_eq_error.mp h with hlong | ⟨_, -, h⟩
  · exact refusedName_error hlong
  rcases bind_eq_error.mp h with hdirs | ⟨r, -, h⟩
  · exact createDirAll_error hdirs
  · cases h

theorem getManifestObject_error {store : String → Option Bytes} {f : ManifestFile} {e : AppError}
    (h : getManifestObject store f = .error e) : AppError.blamesManifest e = false := by
  unfold getManifestObject at h
  split at h
  · cases h
    rfl
  · cases h

theorem putFile_error {s : Staging Bytes} {p : List String} {content : Bytes} {e : AppError}
    (h : s.putFile p content = .error e) : AppError.blamesManifest e = false := by
  unfold Staging.putFile at h
  split at h
  · cases h
  · cases h
    rfl
  · cases h

theorem addLeaf_error {s : Staging Bytes} {p : List String} {leaf : StagedLeaf Bytes}
    {e : AppError} (h : s.addLeaf p leaf = .error e) : AppError.blamesManifest e = false := by
  unfold Staging.addLeaf at h
  split at h
  · cases h
  · cases h
    rfl

theorem leafAt_error {s : Staging Bytes} {path : String} {e : AppError}
    (h : s.leafAt path = .error e) : AppError.blamesManifest e = false := by
  rcases bind_eq_error.mp h with hname | ⟨_, -, h⟩
  · rw [(refuseIf_eq_error.mp hname).2]
    rfl
  rcases bind_eq_error.mp h with hdir | ⟨r, -, h⟩
  · exact resolveDir_error hdir
  dsimp only at h
  split at h
  · cases h
    rfl
  · cases h
    rfl
  · cases h

/-! ## The materialiser on a manifest in order -/

def SourceListed (files : List ManifestFile) (f : ManifestFile) : Prop :=
  ∀ path, f.duplicateOf = some path → f.symlinkTarget = none →
    validateRelativePath path = .ok () ∧
      ∃ source, (files.find? fun g => g.path = path) = some source ∧
        source.duplicateOf = none ∧ source.symlinkTarget = none ∧
        source.sha256 = f.sha256 ∧ source.size = f.size

theorem materializeRegular_error {c : Contents Bytes} {store : String → Option Bytes}
    {staging : String} {s : Staging Bytes} {f : ManifestFile} {e : AppError}
    (hpath : validateRelativePath f.path = .ok ())
    (h : materializeRegular c store staging s f = .error e) :
    AppError.blamesManifest e = false := by
  unfold materializeRegular at h
  rw [hpath] at h
  rcases bind_eq_error.mp h with h | ⟨_, -, h⟩
  · cases h
  rcases bind_eq_error.mp h with hparents | ⟨⟨s', target⟩, -, h⟩
  · exact createParents_error hparents
  rcases bind_eq_error.mp h with hobject | ⟨bytes, -, h⟩
  · exact getManifestObject_error hobject
  rcases bind_eq_error.mp h with hlong | ⟨_, -, h⟩
  · exact refusedName_error hlong
  rcases bind_eq_error.mp h with hsum | ⟨_, -, h⟩
  · rw [(refuseIf_eq_error.mp hsum).2]
    rfl
  rcases bind_eq_error.mp h with hname | ⟨_, -, h⟩
  · rw [(refuseIf_eq_error.mp hname).2]
    rfl
  exact putFile_error h

theorem materializeHardLink_error {files : List ManifestFile} {staging : String}
    {s : Staging Bytes} {f : ManifestFile} {e : AppError} (hpath : validateRelativePath f.path = .ok ())
    (hlink : f.isHardLink = true) (hsource : SourceListed files f)
    (h : materializeHardLink files staging s f = .error e) : AppError.blamesManifest e = false := by
  rw [ManifestFile.isHardLink, Bool.and_eq_true, Option.isSome_iff_exists,
    Option.isNone_iff_eq_none] at hlink
  obtain ⟨⟨path, hdup⟩, hregular⟩ := hlink
  obtain ⟨hvalid, source, hfind, hsourceDup, hsourceLink, hsha, hsize⟩ := hsource path hdup hregular
  unfold materializeHardLink at h
  rw [hpath, hdup] at h
  rcases bind_eq_error.mp h with h | ⟨_, -, h⟩
  · cases h
  dsimp only at h
  rw [hvalid] at h
  rcases bind_eq_error.mp h with h | ⟨_, -, h⟩
  · cases h
  rw [hfind] at h
  rcases bind_eq_error.mp h with hmeta | ⟨_, -, h⟩
  · have hbad := (refuseIf_eq_error.mp hmeta).1
    simp [hsourceDup, hsourceLink, hsha, hsize] at hbad
  rcases bind_eq_error.mp h with hparents | ⟨⟨s', target⟩, -, h⟩
  · exact createParents_error hparents
  rcases bind_eq_error.mp h with hleaf | ⟨leaf, -, h⟩
  · exact leafAt_error hleaf
  rcases bind_eq_error.mp h with hlong | ⟨_, -, h⟩
  · exact refusedName_error hlong
  rcases bind_eq_error.mp h with hname | ⟨_, -, h⟩
  · rw [(refuseIf_eq_error.mp hname).2]
    rfl
  exact addLeaf_error h

theorem materializeSymlink_error [DecidableEq Bytes] {c : Contents Bytes}
    {store : String → Option Bytes} {staging : String} {s : Staging Bytes} {f : ManifestFile}
    {e : AppError} (hok : ManifestFileOk c 3 f) (hlink : f.symlinkTarget.isSome = true)
    (h : materializeSymlink c store staging s f = .error e) :
    AppError.blamesManifest e = false := by
  obtain ⟨target, htarget⟩ := Option.isSome_iff_exists.mp hlink
  obtain ⟨-, -, hvalid, -⟩ := hok.symlink target htarget
  unfold materializeSymlink at h
  rw [hok.path, htarget] at h
  rcases bind_eq_error.mp h with h | ⟨_, -, h⟩
  · cases h
  dsimp only at h
  rw [hvalid] at h
  rcases bind_eq_error.mp h with h | ⟨_, -, h⟩
  · cases h
  rcases bind_eq_error.mp h with hobject | ⟨bytes, -, h⟩
  · exact getManifestObject_error hobject
  rcases bind_eq_error.mp h with hsum | ⟨_, -, h⟩
  · rw [(refuseIf_eq_error.mp hsum).2]
    rfl
  rcases bind_eq_error.mp h with hparents | ⟨⟨s', path⟩, -, h⟩
  · exact createParents_error hparents
  rcases bind_eq_error.mp h with hlong | ⟨_, -, h⟩
  · exact refusedName_error hlong
  rcases bind_eq_error.mp h with hname | ⟨_, -, h⟩
  · rw [(refuseIf_eq_error.mp hname).2]
    rfl
  exact addLeaf_error h

theorem materialize_error [DecidableEq Bytes] {c : Contents Bytes}
    {store : String → Option Bytes} {m : Manifest} {staging : String} {e : AppError}
    (hfiles : ∀ f ∈ m.files, ManifestFileOk c 3 f) (hsources : ∀ f ∈ m.files, SourceListed m.files f)
    (h : materializeManifestFiles c store m staging = .error e) : AppError.blamesManifest e = false := by
  rcases bind_eq_error.mp h with hregular | ⟨s, -, h⟩
  · obtain ⟨f, hf, s, hs⟩ := foldlM_eq_error hregular
    exact materializeRegular_error (hfiles f (List.mem_filter.mp hf).1).path hs
  rcases bind_eq_error.mp h with hhard | ⟨s', -, h⟩
  · obtain ⟨f, hf, t, ht⟩ := foldlM_eq_error hhard
    obtain ⟨hmem, hlink⟩ := List.mem_filter.mp hf
    exact materializeHardLink_error (hfiles f hmem).path hlink (hsources f hmem) ht
  · obtain ⟨f, hf, t, ht⟩ := foldlM_eq_error h
    obtain ⟨hmem, hlink⟩ := List.mem_filter.mp hf
    exact materializeSymlink_error (hfiles f hmem) hlink ht

/-! ## The manifest of a scan -/

def scannedPath (names : List OsName) : String :=
  replaceBackslashes (joinPath (names.map OsName.toStringLossy))

def leafPaths (walk : List (WalkEntry Bytes)) : List String :=
  (walk.filter fun e => leafNode e.node).map fun e => scannedPath e.names

section Scan

variable {c : Contents Bytes} {walk : List (WalkEntry Bytes)} {scan : ScanResult}

theorem ScanReports.paths (h : ScanReports c walk scan.files) :
    scan.files.map FileEntry.path = leafPaths walk := by
  have hscanned := h.scanned
  unfold leafPaths
  generalize walk.filter (fun e => leafNode e.node) = leaves at hscanned ⊢
  generalize scan.files = files at hscanned ⊢
  induction hscanned with
  | nil => rfl
  | cons hentry _ ih =>
      rw [List.map_cons, List.map_cons, ih]
      exact congrArg (· :: _) (normalizedRelativePath_eq_ok.mp hentry.path).1

theorem ScanReports.manifestFileOk (h : ScanReports c walk scan.files) {f : FileEntry}
    (hf : f ∈ scan.files) : ManifestFileOk c 3 f.toManifestFile := by
  obtain ⟨e, -, hscanned⟩ := h.walked hf
  refine ⟨(normalizedRelativePath_eq_ok.mp hscanned.path).2, rfl, ?_⟩
  intro target htarget
  have hnode := hscanned.node
  cases hkind : e.node with
  | dir | special =>
      rw [hkind] at hnode
      exact hnode.elim
  | file inode content =>
      rw [hkind] at hnode
      have htarget' : f.symlinkTarget = some target := htarget
      rw [hnode.1] at htarget'
      cases htarget'
  | symlink osTarget =>
      rw [hkind] at hnode
      obtain ⟨hdup, text, -, hlink, hvalid, hsha, hsize⟩ := hnode
      obtain rfl : text = target := Option.some.inj (hlink.symm.trans htarget)
      exact ⟨Nat.le_refl 3, hdup, hvalid, hsha, hsize⟩

theorem ScanReports.size_eq (h : ScanReports c walk scan.files) (hsame : SameContents walk)
    {f g : FileEntry} (hf : f ∈ scan.files) (hg : g ∈ scan.files) (hfile : f.symlinkTarget = none)
    (hgile : g.symlinkTarget = none) (hinode : (g.dev, g.ino) = (f.dev, f.ino)) :
    g.size = f.size := by
  obtain ⟨e, he, hscanned⟩ := h.walked hf
  obtain ⟨e', he', hscanned'⟩ := h.walked hg
  have hnode := hscanned.node
  have hnode' := hscanned'.node
  cases hkind : e.node with
  | dir | special =>
      rw [hkind] at hnode
      exact hnode.elim
  | symlink target =>
      rw [hkind] at hnode
      obtain ⟨-, text, -, hlink, -⟩ := hnode
      rw [hfile] at hlink
      cases hlink
  | file i x =>
      rw [hkind] at hnode
      cases hkind' : e'.node with
      | dir | special =>
          rw [hkind'] at hnode'
          exact hnode'.elim
      | symlink target =>
          rw [hkind'] at hnode'
          obtain ⟨-, text, -, hlink, -⟩ := hnode'
          rw [hgile] at hlink
          cases hlink
      | file i' x' =>
          rw [hkind'] at hnode'
          have hstat : e'.stat.inode = e.stat.inode :=
            hscanned'.inode.symm.trans (hinode.trans hscanned.inode)
          rw [hnode.2.2, hnode'.2.2, hsame e' he' e he i' x' i x hkind' hkind hstat]

theorem ScanReports.sourceListed (h : ScanReports c walk scan.files) (hsame : SameContents walk)
    {files : List ManifestFile} (hfiles : files.Perm (scan.files.map FileEntry.toManifestFile))
    (hpaths : (leafPaths walk).Nodup) {f : ManifestFile} (hf : f ∈ files) :
    SourceListed files f := by
  obtain ⟨g, hg, rfl⟩ := List.mem_map.mp (hfiles.mem_iff.mp hf)
  intro path hdup hregular
  obtain ⟨source, hsource, hsourceFile, hsourceDup, hinode, hroot, hsha⟩ := h.first g hg hregular
  have hdup' : g.duplicateOf = some path := hdup
  have hpath : source.path = path := by rw [hroot, root, hdup', Option.getD_some]
  refine ⟨hpath ▸ (h.manifestFileOk hsource).path, source.toManifestFile, ?_, hsourceDup,
    hsourceFile, hsha, h.size_eq hsame hg hsource hregular hsourceFile hinode⟩
  have hmem : source.toManifestFile ∈ files :=
    hfiles.mem_iff.mpr (List.mem_map_of_mem hsource)
  have hnodup : (files.map ManifestFile.path).Nodup := by
    refine (hfiles.map ManifestFile.path).nodup_iff.mpr ?_
    rw [List.map_map]
    exact h.paths ▸ hpaths
  -- with different paths the first match is the only one
  cases hfound : files.find? fun g => g.path = path with
  | none =>
      have hnone := List.find?_eq_none.mp hfound source.toManifestFile hmem
      exact absurd (decide_eq_true hpath) hnone
  | some first =>
      have hfirst : first.path = path := by simpa using List.find?_some hfound
      rw [List.inj_on_of_nodup_map hnodup (List.mem_of_find?_eq_some hfound) hmem
        (hfirst.trans hpath.symm)]

theorem canonical_accepted (h : ScanReports c walk scan.files) {initYml : Option String}
    {canonical : String} (hcanonical : canonicalDownloadPath initYml scan.files = some canonical)
    {m : Manifest} (hm : m.canonicalDownloadPath = some canonical)
    (hfiles : m.files.Perm (scan.files.map FileEntry.toManifestFile))
    (hpaths : (leafPaths walk).Nodup) : validateCanonical m = .ok () := by
  obtain ⟨f, hf, rfl, hregular⟩ := canonicalDownloadPath_eq_some hcanonical
  have hmem : f.toManifestFile ∈ m.files := hfiles.mem_iff.mpr (List.mem_map_of_mem hf)
  unfold validateCanonical
  rw [hm]
  refine check_eq_ok.mpr ⟨(h.manifestFileOk hf).path, check_eq_ok.mpr ⟨?_, ?_⟩⟩
  · rw [refuseIf_eq_ok]
    intro hmissing
    exact hmissing _ hmem rfl
  · rw [refuseIf_eq_ok]
    rintro ⟨g, hg, hpath, hlink⟩
    obtain ⟨f', hf', rfl⟩ := List.mem_map.mp (hfiles.mem_iff.mp hg)
    have hnodup : (scan.files.map FileEntry.path).Nodup := h.paths ▸ hpaths
    obtain rfl : f' = f := List.inj_on_of_nodup_map hnodup hf' hf hpath
    have hlink' : f'.symlinkTarget.isSome = true := hlink
    rw [hregular] at hlink'
    cases hlink'

theorem restorable_iff [DecidableEq Bytes] (h : ScanReports c walk scan.files)
    (hsame : SameContents walk) {initYml : Option String} {canonical : String}
    (hcanonical : canonicalDownloadPath initYml scan.files = some canonical)
    {uploaded : List ManifestFile}
    (huploaded : uploaded.Perm (scan.files.map FileEntry.toManifestFile)) (problemId : String)
    (generation : Int) (createdAt : Timestamp) :
    Restorable c (buildManifest problemId scan.code generation createdAt canonical
      (sortManifestFiles uploaded)) problemId generation ↔ (leafPaths walk).Nodup := by
  have hfiles : (sortManifestFiles uploaded).Perm (scan.files.map FileEntry.toManifestFile) :=
    (List.perm_insertionSort _ _).trans huploaded
  have hmap : ((sortManifestFiles uploaded).map ManifestFile.path).Perm (leafPaths walk) := by
    have hpaths := hfiles.map ManifestFile.path
    rw [List.map_map] at hpaths
    exact h.paths ▸ hpaths
  have hok : ∀ f ∈ sortManifestFiles uploaded, ManifestFileOk c 3 f := by
    intro f hf
    obtain ⟨g, hg, rfl⟩ := List.mem_map.mp (hfiles.mem_iff.mp hf)
    exact h.manifestFileOk hg
  constructor
  · rintro ⟨hvalid, -⟩
    simp only [validateManifest, check_eq_ok] at hvalid
    exact hmap.nodup_iff.mp (validateManifestFiles_eq_ok.mp hvalid.2.2.1).2.1
  · intro hpaths
    constructor
    · simp only [validateManifest, check_eq_ok, refuseIf_eq_ok]
      refine ⟨by simp [buildManifest], by simp [buildManifest], ?_, by simp [buildManifest], ?_⟩
      · exact validateManifestFiles_eq_ok.mpr ⟨hok, hmap.nodup_iff.mpr hpaths, by simp⟩
      · exact canonical_accepted h hcanonical rfl hfiles hpaths
    · intro store staging e herror
      exact materialize_error hok (fun f hf => h.sourceListed hsame hfiles hpaths hf) herror

end Scan

/-! ## Runs -/

/-- What run `r` reads as its `init.yml`. -/
def ReadsInitYml (initYml : Option String) (r : Nat) (_ : World Bytes) (a : Action Bytes)
    (_ : World Bytes) : Prop :=
  match a with
  | .run r' (.prepare read) => r' = r → read = initYml
  | _ => True

def PublishesScan (initYml : Option String) (run : Run) : Prop :=
  match run.phase with
  | .uploading canonical .. => canonicalDownloadPath initYml run.scan.files = some canonical
  | .verifying m | .published m | .finalizing m | .checked m | .committed m =>
      ∃ canonical uploaded, canonicalDownloadPath initYml run.scan.files = some canonical ∧
        uploaded.Perm (run.scan.files.map FileEntry.toManifestFile) ∧
        m = run.manifest canonical uploaded
  | _ => True

theorem runStep_publishesScan {d : DataPlane Bytes} {now : Timestamp} {db : Database}
    {store : Store Bytes} {run : Run} {op : RunOp Bytes} {e : Effect Bytes}
    (h : RunStep d now db store run op e) {initYml : Option String}
    (hread : ∀ read, op = .prepare read → read = initYml)
    (haccounted : run.accounted) (hrun : PublishesScan initYml run) :
    PublishesScan initYml e.run := by
  unfold PublishesScan at hrun
  cases h with
  | prepared phase prepare archive =>
      rw [hread _ rfl] at archive
      exact archive
  | started phase | task phase _ _ | recorded phase _ _ _ =>
      rw [phase] at hrun
      exact hrun
  | @verifying canonical uploaded phase =>
      rw [phase] at hrun
      simp only [Run.accounted, phase, List.map_nil, List.append_nil] at haccounted
      exact ⟨canonical, uploaded, hrun, haccounted, rfl⟩
  | published phase | verified phase _ | checked phase _ | committed phase _ =>
      rw [phase] at hrun
      exact hrun
  | _ => trivial

def RunPublishes (initYml : Option String) (r : Nat) (w : World Bytes) : Prop :=
  ∀ run, w.runs[r]? = some run → PublishesScan initYml run

theorem runPublishes_step {d : DataPlane Bytes} {w w' : World Bytes} {a : Action Bytes}
    {initYml : Option String} {r : Nat} (hconsistent : Consistent w)
    (hread : ReadsInitYml initYml r w a w') (hw : RunPublishes initYml r w)
    (h : step d w a = some w') : RunPublishes initYml r w' := by
  cases a with
  | begin id problemId generation token version scan =>
      obtain ⟨-, -, rfl⟩ := step_begin h
      intro run hr
      rcases getElem?_begin hr with hr | ⟨-, rfl⟩
      · exact hw run hr
      · trivial
  | run r' op =>
      obtain ⟨run', e, hr', -, hstep, rfl⟩ := step_run h
      intro run hr
      rw [getElem?_afterRun hr'] at hr
      split at hr
      · rename_i hsame
        subst hsame
        cases hr
        refine runStep_publishesScan hstep ?_ (hconsistent.accounted r' run' hr') (hw run' hr')
        rintro read rfl
        exact hread rfl
      · exact hw run hr
  | gcList id token =>
      obtain ⟨m, -, rfl⟩ := step_gcList h
      exact hw
  | gc g op =>
      obtain ⟨worker, e, -, -, -, rfl⟩ := step_gc h
      exact hw
  | retention ids | failStalled | tick elapsed | external tables =>
      cases h
      exact hw

/-- A run that reaches READY has published a manifest that can be restored, exactly when the
files and links of its folder have different paths for the scanner. -/
theorem published_manifest_restorable [DecidableEq Bytes] (c : Contents Bytes) (root : String)
    (walk : List (WalkEntry Bytes)) (initYml : Option String) {d : DataPlane Bytes}
    {w w' : World Bytes} {actions : List (Action Bytes)} {r : Nat} {run : Run} {m : Manifest}
    (hinit : Initial w)
    (hread : EveryStep (step d) (ReadsInitYml initYml r) w actions)
    (hrun : exec (step d) w actions = some w') (hr : w'.runs[r]? = some run)
    (hready : run.phase = .committed m) (hsame : SameContents walk)
    (hscan : scanProblemFolder c root run.scan.code (some walk) = .ok run.scan) :
    Restorable c m run.problemId run.generation ↔ (leafPaths walk).Nodup := by
  have hinv : Consistent w' ∧ RunPublishes initYml r w' := by
    refine exec_invariant (I := fun w => Consistent w ∧ RunPublishes initYml r w) ?_
      ⟨consistent_initial hinit, ?_⟩ hread hrun
    · rintro w a w' ⟨hw, hpublishes⟩ hread hstep
      exact ⟨consistent_step hw hstep, runPublishes_step hw hread hpublishes hstep⟩
    · intro run hr
      simp [hinit.runs] at hr
  have hpublishes := hinv.2 run hr
  rw [PublishesScan, hready] at hpublishes
  obtain ⟨canonical, uploaded, hpath, huploaded, rfl⟩ := hpublishes
  exact restorable_iff (scan_reports hsame hscan) hsame hpath huploaded run.problemId
    run.generation run.createdAt

/-! The folder `aplusb` of the samples, and one with two copies of its archive. -/

def folderContents : Contents Content where
  sha256Bytes := sampleDigest
  textBytes := .file
  len
    | .file text => text.utf8ByteSize
    | .manifestJson _ => 0

def sampleEntry (names : List String) (inode : Nat) (text : String) : WalkEntry Content :=
  ⟨names.map OsName.ofText, .file inode (.file text), ⟨2049, inode, 1, 8, 0o100644⟩⟩

def sampleWalk : List (WalkEntry Content) :=
  [sampleEntry ["data.zip"] 11 dataZipText, sampleEntry ["init.yml"] 12 initYmlText]

def sampleRun : List (Action Content) := claimingRun 0 1 1 ++ uploadingRun 0 ++ publishingRun 0

theorem initial_sampleWorld : Initial sampleWorld := by
  refine ⟨⟨List.nodup_nil, ?_⟩, rfl, rfl, fun _ => rfl⟩
  intro a ha
  cases ha

instance (initYml : Option String) (r : Nat) (w : World Content) (a : Action Content)
    (w' : World Content) : Decidable (ReadsInitYml initYml r w a w') := by
  unfold ReadsInitYml
  split <;> infer_instance

theorem sampleEntry_sameContents (entries : List (List String × Nat × String))
    (h : ∀ e ∈ entries, ∀ e' ∈ entries, e.2.1 = e'.2.1 → e.2.2 = e'.2.2) :
    SameContents (entries.map fun e => sampleEntry e.1 e.2.1 e.2.2) := by
  intro e he e' he' i x i' x' hx hx' hinode
  obtain ⟨⟨names, inode, text⟩, hmem, rfl⟩ := List.mem_map.mp he
  obtain ⟨⟨names', inode', text'⟩, hmem', rfl⟩ := List.mem_map.mp he'
  cases hx
  cases hx'
  have hsame : inode = inode' := congrArg Prod.snd hinode
  exact congrArg Content.file (h _ hmem _ hmem' hsame)

theorem published_manifest_restorable_sample :
    ∃ w' run m, exec (step samplePlane) sampleWorld sampleRun = some w' ∧
      w'.runs[0]? = some run ∧ run.phase = .committed m ∧
      Restorable folderContents m "101" 1 := by
  have hsame : SameContents sampleWalk :=
    sampleEntry_sameContents [(["data.zip"], 11, dataZipText), (["init.yml"], 12, initYmlText)]
      (by decide)
  -- both in one evaluation of the run
  have ⟨hread, hcommitted⟩ :
      EveryStep (step samplePlane) (ReadsInitYml (some initYmlText) 0) sampleWorld sampleRun ∧
        (exec (step samplePlane) sampleWorld sampleRun).any (fun w =>
          (w.runs[0]?).any fun run => run.phase.committedManifest.isSome &&
            run.problemId = "101" && run.generation = 1 && run.scan = sampleScan) = true := by
    decide +kernel
  obtain ⟨w', hw', hrun⟩ := (Option.any_eq_true _ _).mp hcommitted
  obtain ⟨run, hr, hrun⟩ := (Option.any_eq_true _ _).mp hrun
  simp only [Bool.and_eq_true, decide_eq_true_eq] at hrun
  obtain ⟨⟨⟨hphase, hproblem⟩, hgeneration⟩, hscan⟩ := hrun
  obtain ⟨m, hm⟩ := Option.isSome_iff_exists.mp hphase
  have hready := RunPhase.committedManifest_eq_some.mp hm
  refine ⟨w', run, m, hw', hr, hready, ?_⟩
  rw [← hproblem, ← hgeneration]
  refine (published_manifest_restorable folderContents "/problems" sampleWalk (some initYmlText)
    initial_sampleWorld hread hw' hr hready hsame ?_).mpr (by decide +kernel)
  rw [hscan]
  decide +kernel

/-- The copies are `old/data.zip` and a file named `old\data.zip`. -/
def copiesWalk : List (WalkEntry Content) :=
  sampleWalk ++ [⟨[OsName.ofText "old"], .dir, ⟨2049, 20, 2, 0, 0o40755⟩⟩,
    sampleEntry ["old", "data.zip"] 13 dataZipText, sampleEntry ["old\\data.zip"] 14 dataZipText]

def copyOf (ino : Nat) : FileEntry := { dataZip with path := "old/data.zip", ino := ino }

def copiesScan : ScanResult :=
  { sampleScan with
    logicalBytes := 84, allocatedBytes := 16384, archiveBytes := 66, fileCount := 4
    files := [dataZip, initYml, copyOf 13, copyOf 14] }

def copiesRun : List (Action Content) :=
  [.begin 1 "101" 1 1 (some 1) copiesScan, .run 0 .claim, .run 0 .cleanup, .run 0 .setHashing,
    .run 0 (.prepare (some initYmlText))] ++ uploadAbsent 0 dataZip dataZipText ++
    uploadAbsent 0 initYml initYmlText ++ uploadExisting 0 (copyOf 13) ++
    uploadExisting 0 (copyOf 14) ++ [.run 0 .setVerifying] ++ publishingRun 0

/-- The run reaches READY, and its manifest names one path twice. -/
theorem published_manifest_refused :
    scanProblemFolder folderContents "/problems" "aplusb" (some copiesWalk) = .ok copiesScan ∧
      Initial sampleWorld ∧
      EveryStep (step samplePlane) (ReadsInitYml (some initYmlText) 0) sampleWorld copiesRun ∧
      ∃ w' run m, exec (step samplePlane) sampleWorld copiesRun = some w' ∧
        w'.runs[0]? = some run ∧ run.phase = .committed m ∧ run.scan = copiesScan ∧
        validateManifest folderContents m "101" 1 =
          .error (.manifestIntegrity "duplicate path old/data.zip") := by
  have ⟨hread, hcommitted⟩ :
      EveryStep (step samplePlane) (ReadsInitYml (some initYmlText) 0) sampleWorld copiesRun ∧
        (exec (step samplePlane) sampleWorld copiesRun).any (fun w =>
          (w.runs[0]?).any fun run => run.phase.committedManifest.any (fun m =>
            decide (validateManifest folderContents m "101" 1 =
              .error (.manifestIntegrity "duplicate path old/data.zip"))) &&
            run.scan = copiesScan) = true := by
    decide +kernel
  obtain ⟨w', hw', hrun⟩ := (Option.any_eq_true _ _).mp hcommitted
  obtain ⟨run, hr, hrun⟩ := (Option.any_eq_true _ _).mp hrun
  rw [Bool.and_eq_true, decide_eq_true_eq] at hrun
  obtain ⟨m, hm, hrefused⟩ := (Option.any_eq_true _ _).mp hrun.1
  exact ⟨by decide +kernel, initial_sampleWorld, hread, w', run, m, hw', hr,
    RunPhase.committedManifest_eq_some.mp hm, hrun.2, of_decide_eq_true hrefused⟩

end ExternalStorage.Restore
