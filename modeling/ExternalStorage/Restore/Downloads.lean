import ExternalStorage.Restore.Durability

/-!
# Links to the files of a backup

`presign_download` checks an object and signs a link for it; the object is read when somebody
follows the link, after other steps of the runs, the collectors and the maintenance.
-/

namespace ExternalStorage.Restore

open ExternalStorage.Model ExternalStorage.Snapshot Library.Loops Library.Runs

variable {Bytes : Type}

/-! ## `presign_download` -/

/-- `head_object` of `InMemoryStore`. -/
def memoryHead (c : Contents Bytes) (store : Store Bytes) (key : String) :
    Except AppError ObjectMeta :=
  match store key with
  | some data => .ok ⟨c.len data, some (c.sha256Bytes data), true⟩
  | none => .ok ⟨0, none, false⟩

/-- What the checks of a download rely on: in memory the hash is computed, R2 keeps the one that
came with the put. -/
def HeadTells (c : Contents Bytes) (store : Store Bytes)
    (head : String → Except AppError ObjectMeta) : Prop :=
  ∀ key bytes, store key = some bytes →
    head key = .ok ⟨c.len bytes, some (c.sha256Bytes bytes), true⟩

theorem headTells_memory (c : Contents Bytes) (store : Store Bytes) :
    HeadTells c store (memoryHead c store) := by
  intro key bytes hbytes
  rw [memoryHead, hbytes]

def checkStored (head : String → Except AppError ObjectMeta) (m : Manifest) (file : ManifestFile) :
    Except AppError ManifestFile := do
  let stored ← head file.objectKey
  refuseIf (stored.exists = false ∨ stored.size ≠ file.size) (.r2NotReady m.problemId)
  match stored.sha256 with
  | none => .error (.r2NotReady m.problemId)
  | some sha => do
      refuseIf (sha ≠ file.sha256) (.checksumMismatch file.sha256 sha)
      return file

/-- `presign_file_from_manifest` up to the signing. -/
def manifestFile (head : String → Except AppError ObjectMeta) (m : Manifest) (relPath : String) :
    Except AppError ManifestFile := do
  validateRelativePath relPath
  match m.files.find? fun f => f.path = relPath with
  | none => .error (.objectNotFound s!"manifest file {relPath}")
  | some file => checkStored head m file

def presignDownloadPath (c : Contents Bytes) (fromSlice : Bytes → Except String Manifest)
    (store : Store Bytes) (head : String → Except AppError ObjectMeta)
    (presignGet : String → String → Option Nat → Except AppError PresignResult) (db : Database)
    (problemId relPath : String) (ttl : Option Nat) : Except AppError PresignResult := do
  let generation ← resolveReadyGeneration db problemId 0
  let manifest ← downloadManifest c fromSlice store problemId generation
  let file ← manifestFile head manifest relPath
  presignGet file.objectKey (((pathNames file.path).getLast?).getD "download") ttl

/-- `POST /internal/presign`. -/
def presignRoute (c : Contents Bytes) (fromSlice : Bytes → Except String Manifest)
    (store : Store Bytes) (head : String → Except AppError ObjectMeta)
    (presignGet : String → String → Option Nat → Except AppError PresignResult) (db : Database)
    (problemId : String) (path : Option String) (ttl : Option Nat) :
    Except AppError PresignResult :=
  match path with
  | none | some "" => presignDownload c fromSlice store head presignGet db problemId ttl
  | some relPath =>
      presignDownloadPath c fromSlice store head presignGet db problemId relPath ttl

section Checks

variable {c : Contents Bytes} {fromSlice : Bytes → Except String Manifest} {store : Store Bytes}
  {head : String → Except AppError ObjectMeta}
  {presignGet : String → String → Option Nat → Except AppError PresignResult} {db : Database}
  {problemId relPath : String} {ttl : Option Nat} {generation : Int} {m : Manifest}
  {f : ManifestFile}

theorem canonicalArchive_eq_checkStored {canonical : String}
    (hcanonical : m.canonicalDownloadPath = some canonical)
    (hfind : m.files.find? (fun f => f.path = canonical) = some f) :
    canonicalArchive head m = checkStored head m f := by
  simp only [canonicalArchive, hcanonical, Option.bind_some, hfind]
  rfl

theorem checkStored_eq_ok {bytes : Bytes} (hhead : HeadTells c store head)
    (hbytes : store f.objectKey = some bytes) (hsha : c.sha256Bytes bytes = f.sha256)
    (hsize : c.len bytes = f.size) : checkStored head m f = .ok f := by
  refine bind_eq_ok.mpr ⟨_, hhead _ _ hbytes, check_eq_ok.mpr ⟨?_, check_eq_ok.mpr ⟨?_, rfl⟩⟩⟩
  · rw [refuseIf_eq_ok]
    rintro (habsent | hne)
    · cases habsent
    · exact hne hsize
  · rw [refuseIf_eq_ok, not_not]
    exact hsha

theorem presignRoute_path (hne : relPath ≠ "") :
    presignRoute c fromSlice store head presignGet db problemId (some relPath) ttl =
      presignDownloadPath c fromSlice store head presignGet db problemId relPath ttl := by
  unfold presignRoute
  split
  · cases ‹some relPath = none›
  · exact absurd (Option.some.inj ‹some relPath = some ""›) hne
  · cases ‹some relPath = some _›
    rfl

theorem presignRoute_of_checked (hresolved : resolveReadyGeneration db problemId 0 = .ok generation)
    (hfetched : downloadManifest c fromSlice store problemId generation = .ok m)
    (hpath : validateRelativePath relPath = .ok ())
    (hfind : m.files.find? (fun f => f.path = relPath) = some f)
    (hchecked : checkStored head m f = .ok f) :
    presignRoute c fromSlice store head presignGet db problemId (some relPath) ttl =
      presignGet f.objectKey (((pathNames f.path).getLast?).getD "download") ttl := by
  have hne : relPath ≠ "" := (validateRelativePath_eq_ok.mp hpath).1.2
  have hfile : manifestFile head m relPath = .ok f := by
    refine check_eq_ok.mpr ⟨hpath, ?_⟩
    rw [hfind]
    exact hchecked
  rw [presignRoute_path hne]
  simp only [presignDownloadPath, hresolved, hfetched, hfile, bind, Except.bind]

theorem presignRoute_of_absent (hresolved : resolveReadyGeneration db problemId 0 = .ok generation)
    (hfetched : downloadManifest c fromSlice store problemId generation = .ok m)
    (hne : relPath ≠ "") (hfind : m.files.find? (fun f => f.path = relPath) = none) :
    ∃ e, presignRoute c fromSlice store head presignGet db problemId (some relPath) ttl =
      .error e := by
  have hfile : ∃ e, manifestFile head m relPath = .error e := by
    unfold manifestFile
    cases hpath : validateRelativePath relPath with
    | error e => exact ⟨e, rfl⟩
    | ok _ =>
        rw [hfind]
        exact ⟨_, rfl⟩
  obtain ⟨e, hfile⟩ := hfile
  refine ⟨e, ?_⟩
  rw [presignRoute_path hne]
  simp only [presignDownloadPath, hresolved, hfetched, hfile, bind, Except.bind]

theorem presignRoute_canonical {canonical : String}
    (hresolved : resolveReadyGeneration db problemId 0 = .ok generation)
    (hfetched : downloadManifest c fromSlice store problemId generation = .ok m)
    (hcanonical : m.canonicalDownloadPath = some canonical)
    (hfind : m.files.find? (fun f => f.path = canonical) = some f)
    (hchecked : checkStored head m f = .ok f) :
    presignRoute c fromSlice store head presignGet db problemId none ttl =
      presignGet f.objectKey (downloadName db problemId f) ttl := by
  have harchive : canonicalArchive head m = .ok f :=
    (canonicalArchive_eq_checkStored hcanonical hfind).trans hchecked
  simp only [presignRoute, presignDownload, downloadArchive, hresolved, hfetched, harchive, bind,
    Except.bind]

end Checks

/-! ## The backup -/

def nodeBytes (c : Contents Bytes) : Node Bytes → Option Bytes
  | .file _ content => some content
  | .symlink target => target.toStr?.map c.textBytes
  | .dir | .special => none

section Backup

variable {c : Contents Bytes} {fromSlice : Bytes → Except String Manifest} {store : Store Bytes}
  {rootPath : String} {walk : List (WalkEntry Bytes)} {initYml : Option String} {run : Run}
  {m : Manifest} {e e' : WalkEntry Bytes} {f : ManifestFile} {path : String}

theorem BackedUp.object (h : BackedUp c fromSlice store initYml run m)
    (hfolder : ScannedFrom c rootPath walk run.scan) (hf : f ∈ m.files) :
    ∃ e ∈ walk, leafNode e.node = true ∧ normalizedRelativePath e.names = .ok f.path ∧
      ∃ bytes, nodeBytes c e.node = some bytes ∧ store f.objectKey = some bytes ∧
        c.sha256Bytes bytes = f.sha256 ∧ c.len bytes = f.size := by
  have hreports := scan_reports hfolder.same hfolder.scanned
  have hmap := h.files.mem_iff.mp hf
  obtain ⟨bytes, hbytes, hsha⟩ := h.stored f hf
  have hinj := hfolder.collisionFree f hmap
  obtain ⟨g, hg, rfl⟩ := List.mem_map.mp hmap
  obtain ⟨e, he, hscanned⟩ := hreports.walked hg
  have hnode := hscanned.node
  cases hkind : e.node with
  | dir | special =>
      rw [hkind] at hnode
      exact hnode.elim
  | file inode content =>
      rw [hkind] at hnode
      obtain ⟨-, hcontent, hsize⟩ := hnode
      obtain rfl : bytes = content := hinj _ _ hsha hcontent.symm
      exact ⟨e, he, by rw [hkind]; rfl, hscanned.path, bytes, by rw [hkind]; rfl, hbytes, hsha,
        hsize.symm⟩
  | symlink target =>
      rw [hkind] at hnode
      obtain ⟨-, text, htext, -, -, hcontent, hsize⟩ := hnode
      obtain rfl : bytes = c.textBytes text := hinj _ _ hsha hcontent.symm
      exact ⟨e, he, by rw [hkind]; rfl, hscanned.path, _,
        by rw [hkind, nodeBytes, htext]; rfl, hbytes, hsha, hsize.symm⟩

theorem BackedUp.listed (h : BackedUp c fromSlice store initYml run m)
    (hfolder : ScannedFrom c rootPath walk run.scan) (he : e ∈ walk)
    (hleaf : leafNode e.node = true) (hpath : normalizedRelativePath e.names = .ok path) :
    ∃ f ∈ m.files, f.path = path := by
  obtain ⟨g, hg, hscanned⟩ :=
    (scan_reports hfolder.same hfolder.scanned).reported he hleaf
  refine ⟨g.toManifestFile, h.files.mem_iff.mpr (List.mem_map_of_mem hg), ?_⟩
  exact Except.ok.inj (hscanned.path.symm.trans hpath)

theorem ScannedFrom.leaf_unique {scan : ScanResult} (h : ScannedFrom c rootPath walk scan)
    (he : e ∈ walk) (he' : e' ∈ walk) (hleaf : leafNode e.node = true)
    (hleaf' : leafNode e'.node = true) (hpath : normalizedRelativePath e.names = .ok path)
    (hpath' : normalizedRelativePath e'.names = .ok path) : e = e' := by
  refine List.inj_on_of_nodup_map h.paths.distinct (List.mem_filter.mpr ⟨he, hleaf⟩)
    (List.mem_filter.mpr ⟨he', hleaf'⟩) ?_
  exact (normalizedRelativePath_eq_ok.mp hpath).1.symm.trans
    (normalizedRelativePath_eq_ok.mp hpath').1

theorem BackedUp.find (h : BackedUp c fromSlice store initYml run m)
    (hfolder : ScannedFrom c rootPath walk run.scan) (hf : f ∈ m.files) :
    m.files.find? (fun g => g.path = f.path) = some f := by
  have hnodup : (m.files.map ManifestFile.path).Nodup := by
    refine (h.files.map ManifestFile.path).nodup_iff.mpr ?_
    rw [List.map_map]
    exact (scan_reports hfolder.same hfolder.scanned).paths ▸ hfolder.paths.distinct
  cases hfind : m.files.find? fun g => g.path = f.path with
  | none => exact absurd (decide_eq_true rfl) (List.find?_eq_none.mp hfind f hf)
  | some g =>
      have hpath : g.path = f.path := by simpa using List.find?_some hfind
      rw [List.inj_on_of_nodup_map hnodup (List.mem_of_find?_eq_some hfind) hf hpath]

end Backup

/-! ## Between the link and the download -/

/-- The row is READY after the step. -/
def StaysReady (id : Uuid) (_ : World Bytes) (_ : Action Bytes) (w' : World Bytes) : Prop :=
  ∃ s ∈ w'.db.snapshots, s.id = id ∧ s.state = .ready

structure ReadyOf (id : Uuid) (r : Nat) (scan : ScanResult) (w : World Bytes) : Prop where
  ready : ∃ s ∈ w.db.snapshots, s.id = id ∧ s.state = .ready
  owner : w.owner id = some r
  scanned : ∃ run, w.runs[r]? = some run ∧ run.scan = scan

section Later

variable {d : DataPlane Bytes} {w w' : World Bytes} {a : Action Bytes} {id : Uuid} {r : Nat}
  {scan : ScanResult}

theorem owner_of_step (hw : Consistent w)
    (hready : ∃ s ∈ w.db.snapshots, s.id = id ∧ s.state = .ready) (h : step d w a = some w') :
    w'.owner id = w.owner id := by
  cases a with
  | begin id problemId generation token version scan =>
      obtain ⟨-, -, rfl⟩ := step_begin h
      rfl
  | run r op =>
      obtain ⟨run, e, hr, -, hstep, rfl⟩ := step_run h
      obtain ⟨s, hs, rfl, hready⟩ := hready
      exact owner_of_ready hw hr hstep hs hready
  | gcList id token =>
      obtain ⟨m, -, rfl⟩ := step_gcList h
      rfl
  | gc g op =>
      obtain ⟨worker, e, -, -, -, rfl⟩ := step_gc h
      rfl
  | retention ids | failStalled | tick elapsed | external tables =>
      cases h
      rfl

theorem scan_of_step {run : Run} (hr : w.runs[r]? = some run) (h : step d w a = some w') :
    ∃ run', w'.runs[r]? = some run' ∧ run'.scan = run.scan := by
  cases a with
  | begin id problemId generation token version scan =>
      obtain ⟨-, -, rfl⟩ := step_begin h
      refine ⟨run, ?_, rfl⟩
      rw [List.getElem?_append_left (List.getElem?_eq_some_iff.mp hr).1]
      exact hr
  | run r' op =>
      obtain ⟨run', e, hr', -, hstep, rfl⟩ := step_run h
      rw [getElem?_afterRun hr']
      split
      · rename_i hsame
        subst hsame
        obtain rfl : run = run' := Option.some.inj (hr.symm.trans hr')
        exact ⟨e.run, rfl, hstep.kept.2.2.1⟩
      · exact ⟨run, hr, rfl⟩
  | gcList id token =>
      obtain ⟨m, -, rfl⟩ := step_gcList h
      exact ⟨run, hr, rfl⟩
  | gc g op =>
      obtain ⟨worker, e, -, -, -, rfl⟩ := step_gc h
      exact ⟨run, hr, rfl⟩
  | retention ids | failStalled | tick elapsed | external tables =>
      cases h
      exact ⟨run, hr, rfl⟩

theorem ReadyOf.step (h : ReadyOf id r scan w) (hw : Consistent w)
    (hstays : StaysReady id w a w') (hstep : step d w a = some w') : ReadyOf id r scan w' := by
  refine ⟨hstays, (owner_of_step hw h.ready hstep).trans h.owner, ?_⟩
  obtain ⟨run, hr, rfl⟩ := h.scanned
  exact scan_of_step hr hstep

/-- What `backedUp_of_ready` needs holds until the link is followed. -/
theorem readyOf_later {initYml : Option String} {v : World Bytes} {later : List (Action Bytes)}
    (hw : DurableInv d w) (hpublishes : RunPublishes initYml r w) (h : ReadyOf id r scan w)
    (hcareful : EveryStep (step d) (fun w a w' => Careful d w a w' ∧
      ReadsInitYml initYml r w a w') w later)
    (hstays : EveryStep (step d) (StaysReady id) w later)
    (hrun : exec (step d) w later = some v) :
    DurableInv d v ∧ RunPublishes initYml r v ∧ ReadyOf id r scan v := by
  refine exec_invariant (I := fun w => DurableInv d w ∧ RunPublishes initYml r w ∧
    ReadyOf id r scan w) ?_ ⟨hw, hpublishes, h⟩ (hcareful.and hstays) hrun
  rintro w a w' ⟨hw, hpublishes, hof⟩ ⟨⟨hcareful, hread⟩, hstays⟩ hstep
  have hconsistent := hw.collection.consistent
  exact ⟨durableInv_step hw hcareful hstep,
    runPublishes_step hconsistent hread hpublishes hstep, hof.step hconsistent hstays hstep⟩

end Later

/-- A link to a file of the newest READY backup is signed for an object that keeps the bytes of the
scanned folder as long as the row stays READY, whatever else happens; so is the link to the archive,
and nothing else gets a link. -/
theorem download_links_hold [DecidableEq Bytes] {c : Contents Bytes}
    {fromSlice : Bytes → Except String Manifest} {d : DataPlane Bytes} {w u v : World Bytes}
    {actions later : List (Action Bytes)} {rootPath : String} {walk : List (WalkEntry Bytes)}
    {initYml : Option String} {s : SnapshotRow} {r : Nat} {run : Run} {problemId : String}
    {head : String → Except AppError ObjectMeta}
    (presignGet : String → String → Option Nat → Except AppError PresignResult) (ttl : Option Nat)
    (hdigest : c.sha256Bytes = d.sha256Bytes) (hjson : ∀ m, fromSlice (d.manifestToVec m) = .ok m)
    (hinit : Initial w) (hstored : ReadyStored w)
    (hcareful : EveryStep (step d) (fun w a w' => Careful d w a w' ∧
      ReadsInitYml initYml r w a w') w (actions ++ later))
    (hrun : exec (step d) w actions = some u) (hs : s ∈ u.db.snapshots) (hready : s.state = .ready)
    (howner : u.owner s.id = some r) (hr : u.runs[r]? = some run)
    (hfolder : ScannedFrom c rootPath walk run.scan) (hproblem : problemId = s.problemId)
    (hresolved : resolveReadyGeneration u.db problemId 0 = .ok s.generation)
    (hhead : HeadTells c u.store head) (hstays : EveryStep (step d) (StaysReady s.id) u later)
    (hlater : exec (step d) u later = some v) :
    (∀ e ∈ walk, leafNode e.node = true → ∀ path, normalizedRelativePath e.names = .ok path →
      ∃ key name bytes, nodeBytes c e.node = some bytes ∧ v.store key = some bytes ∧
        presignRoute c fromSlice u.store head presignGet u.db problemId (some path) ttl =
          presignGet key name ttl) ∧
    (∃ canonical, canonicalDownloadPath initYml run.scan.files = some canonical ∧
      ∃ e ∈ walk, leafNode e.node = true ∧ normalizedRelativePath e.names = .ok canonical ∧
      ∃ key name bytes, nodeBytes c e.node = some bytes ∧ v.store key = some bytes ∧
        presignRoute c fromSlice u.store head presignGet u.db problemId none ttl =
          presignGet key name ttl) ∧
    ∀ path, path ≠ "" →
      (∀ e ∈ walk, leafNode e.node = true → normalizedRelativePath e.names ≠ .ok path) →
      ∃ e, presignRoute c fromSlice u.store head presignGet u.db problemId (some path) ttl =
        .error e := by
  obtain ⟨hcareful, hcarefulLater⟩ := everyStep_append.mp hcareful
  obtain ⟨hinv, hpublishes⟩ := durable_of_run (durableInv_initial hinit hstored)
    (runPublishes_initial hinit initYml r) hcareful hrun
  obtain ⟨hp, hg, m, hbackup⟩ := backedUp_of_ready hdigest hjson hinv hpublishes hs hready howner hr
    hfolder
  obtain ⟨hinv', hpublishes', ⟨s', hs', hid, hready'⟩, howner', run', hr', hscan⟩ :=
    readyOf_later hinv hpublishes ⟨⟨s, hs, rfl, hready⟩, howner, run, hr, rfl⟩
      (hcarefulLater u hrun) hstays hlater
  obtain ⟨-, -, m', hbackup'⟩ := backedUp_of_ready hdigest hjson hinv' hpublishes' hs' hready'
    (hid ▸ howner') hr' (hscan ▸ hfolder)
  -- the files of the two manifests are those of the one scan
  have hsame : ∀ f ∈ m.files, f ∈ m'.files := by
    intro f hf
    have hfiles := hbackup'.files
    rw [hscan] at hfiles
    exact hfiles.mem_iff.mpr (hbackup.files.mem_iff.mp hf)
  have hfetched : downloadManifest c fromSlice u.store problemId s.generation = .ok m := by
    rw [downloadManifest_eq_ok, hproblem, hp, hg]
    exact hbackup.fetched
  have hobject : ∀ f ∈ m.files, ∀ e ∈ walk, leafNode e.node = true →
      normalizedRelativePath e.names = .ok f.path → checkStored head m f = .ok f ∧
        ∃ bytes, nodeBytes c e.node = some bytes ∧ v.store f.objectKey = some bytes := by
    intro f hf e he hleaf hpath
    obtain ⟨e₁, he₁, hleaf₁, hpath₁, bytes, -, hbytes, hsha, hsize⟩ := hbackup.object hfolder hf
    obtain ⟨e₂, he₂, hleaf₂, hpath₂, bytes', hnode, hbytes', -, -⟩ :=
      hbackup'.object (hscan ▸ hfolder) (hsame f hf)
    obtain rfl := hfolder.leaf_unique he he₂ hleaf hleaf₂ hpath hpath₂
    exact ⟨checkStored_eq_ok hhead hbytes hsha hsize, bytes', hnode, hbytes'⟩
  refine ⟨?_, ?_, ?_⟩
  · intro e he hleaf path hpath
    obtain ⟨f, hf, rfl⟩ := hbackup.listed hfolder he hleaf hpath
    obtain ⟨hchecked, bytes, hnode, hbytes⟩ := hobject f hf e he hleaf hpath
    exact ⟨f.objectKey, _, bytes, hnode, hbytes, presignRoute_of_checked hresolved hfetched
      (normalizedRelativePath_eq_ok.mp hpath).2 (hbackup.find hfolder hf) hchecked⟩
  · obtain ⟨canonical, hcanonical, hm⟩ := hbackup.canonical
    obtain ⟨g, hg', hpath, -⟩ := canonicalDownloadPath_eq_some hcanonical
    have hf : g.toManifestFile ∈ m.files := hbackup.files.mem_iff.mpr (List.mem_map_of_mem hg')
    obtain ⟨e, he, hleaf, hnames, -⟩ := hbackup.object hfolder hf
    obtain ⟨hchecked, bytes, hnode, hbytes⟩ := hobject _ hf e he hleaf hnames
    have hfind := hbackup.find hfolder hf
    obtain rfl : g.toManifestFile.path = canonical := hpath
    exact ⟨_, hcanonical, e, he, hleaf, hnames, g.toManifestFile.objectKey, _, bytes, hnode, hbytes,
      presignRoute_canonical hresolved hfetched hm hfind hchecked⟩
  · intro path hne hnone
    refine presignRoute_of_absent hresolved hfetched hne ?_
    rw [List.find?_eq_none]
    intro f hf hpath
    obtain ⟨e, he, hleaf, hnames, -⟩ := hbackup.object hfolder hf
    rw [of_decide_eq_true hpath] at hnames
    exact hnone e he hleaf hnames

/-- `presign_get` of `InMemoryStore`; durations are in seconds. -/
def memoryPresignGet (now : Timestamp) (store : Store Bytes) (presignTtl : Nat)
    (key filename : String) (ttl : Option Nat) : Except AppError PresignResult :=
  let ttl := min (ttl.getD presignTtl) 300
  if (store key).isNone then .error (.objectNotFound key)
  else .ok ⟨s!"memory://localhost/bucket/{key}?filename={filename}&ttl={ttl}s", now + ttl * 1000000⟩

instance (id : Uuid) (w : World Bytes) (a : Action Bytes) (w' : World Bytes) :
    Decidable (StaysReady id w a w') :=
  inferInstanceAs (Decidable (∃ s ∈ w'.db.snapshots, s.id = id ∧ s.state = .ready))

/-- The link to `init.yml` is followed after five minutes and a pass of the retention. -/
theorem download_links_hold_sample :
    ∃ u v key name, exec (step samplePlane) (markedWorld dataZip dataZipText) collectingRun =
        some u ∧
      exec (step samplePlane) u [.tick 300000000, .retention fun _ => 9] = some v ∧
      presignRoute folderContents contentFromSlice u.store (memoryHead folderContents u.store)
          (memoryPresignGet u.now u.store 300) u.db "101" (some "init.yml") none =
        memoryPresignGet u.now u.store 300 key name none ∧
      v.store key = some (.file initYmlText) := by
  have hinit : Initial (markedWorld dataZip dataZipText) :=
    ⟨⟨by decide, by decide⟩, rfl, rfl, fun _ => rfl⟩
  have hstored : ReadyStored (markedWorld dataZip dataZipText) := by decide
  have ⟨hcareful, hbacked⟩ : EveryStep (step samplePlane) (fun w a w' =>
        Careful samplePlane w a w' ∧ ReadsInitYml (some initYmlText) 0 w a w')
        (markedWorld dataZip dataZipText)
        (collectingRun ++ [.tick 300000000, .retention fun _ => 9]) ∧
      (exec (step samplePlane) (markedWorld dataZip dataZipText) collectingRun).any (fun u =>
        (u.runs[0]?).any (fun run => run.scan = sampleScan) ∧
          resolveReadyGeneration u.db "101" 0 = .ok 1 ∧
          (exec (step samplePlane) u [.tick 300000000, .retention fun _ => 9]).isSome = true ∧
          ∃ s ∈ u.db.snapshots, s.state = .ready ∧ s.problemId = "101" ∧ s.generation = 1 ∧
            u.owner s.id = some 0 ∧ EveryStep (step samplePlane) (StaysReady s.id) u
              [.tick 300000000, .retention fun _ => 9]) = true := by
    decide +kernel
  obtain ⟨u, hu, hbacked⟩ := (Option.any_eq_true _ _).mp hbacked
  obtain ⟨hscan, hresolved, hlater, s, hs, hready, hproblem, hgeneration, howner, hstays⟩ :=
    of_decide_eq_true hbacked
  obtain ⟨run, hr, hscan⟩ := (Option.any_eq_true _ _).mp hscan
  have hscan : run.scan = sampleScan := of_decide_eq_true hscan
  obtain ⟨v, hv⟩ := Option.isSome_iff_exists.mp hlater
  have hfolder : ScannedFrom folderContents "/problems" sampleWalk run.scan := by
    rw [hscan]
    exact scannedFrom_sample
  have hjson : ∀ m, contentFromSlice (samplePlane.manifestToVec m) = .ok m := fun _ => rfl
  obtain ⟨key, name, bytes, hnode, hbytes, hlink⟩ := (download_links_hold
    (memoryPresignGet u.now u.store 300) none rfl hjson hinit hstored hcareful hu hs hready howner
    hr hfolder hproblem.symm (hgeneration ▸ hresolved) (headTells_memory folderContents u.store)
    hstays hv).1
    (sampleEntry ["init.yml"] 12 initYmlText) (by simp [sampleWalk]) rfl "init.yml"
    (by decide +kernel)
  cases hnode
  exact ⟨u, v, key, name, hu, hv, hlink, hbytes⟩

end ExternalStorage.Restore
