import ExternalStorage.Library.FirstSeen
import ExternalStorage.Restore.Restorability

/-!
# The counters of a scan

Every inode of a regular file is counted where the walk meets it first, under the class of the
name it is met by, and every symlink is counted as auxiliary.  The counters of a scan, its
entries and the total that the manifest adds up again agree on what that comes to.
-/

namespace ExternalStorage.Restore

open ExternalStorage.Model ExternalStorage.Snapshot Library.FirstSeen Library.Loops Library.Runs

variable {Bytes : Type}

/-! ## What is counted -/

def regularFiles (walk : List (WalkEntry Bytes)) : List (WalkEntry Bytes × Bytes) :=
  walk.filterMap fun e =>
    match e.node with
    | .file _ content => some (e, content)
    | .dir | .symlink _ | .special => none

def fileInode (p : WalkEntry Bytes × Bytes) : Nat × Nat := p.1.stat.inode

def fileLength (c : Contents Bytes) (p : WalkEntry Bytes × Bytes) : Nat := c.len p.2

def fileBlocks (p : WalkEntry Bytes × Bytes) : Nat := p.1.stat.blocks * 512

def archiveNamed (p : WalkEntry Bytes × Bytes) : Bool := p.1.names.getLast?.any isArchive

def links (walk : List (WalkEntry Bytes)) : List (Stat × String) :=
  walk.filterMap fun e =>
    match e.node with
    | .symlink target => target.toStr?.map fun text => (e.stat, text)
    | .dir | .file .. | .special => none

def linkBytes (c : Contents Bytes) (walk : List (WalkEntry Bytes)) : Nat :=
  ((links walk).map fun p => c.len (c.textBytes p.2)).sum

def linkBlocks (walk : List (WalkEntry Bytes)) : Nat :=
  ((links walk).map fun p => p.1.blocks * 512).sum

def original (f : FileEntry) : Bool := f.symlinkTarget.isNone && f.duplicateOf.isNone

/-- The sizes of the entries without `duplicate_of`. -/
def originalBytes (files : List FileEntry) : Nat :=
  ((files.filter fun f => f.duplicateOf.isNone).map FileEntry.size).sum

/-! ## One turn of the walk -/

def ScanState.withLink (c : Contents Bytes) (st : ScanState) (e : WalkEntry Bytes)
    (path text : String) : ScanState :=
  let size := c.len (c.textBytes text)
  { st with
    logicalBytes := st.logicalBytes + size
    allocatedBytes := st.allocatedBytes + e.stat.blocks * 512
    auxiliaryBytes := st.auxiliaryBytes + size
    fileCount := st.fileCount + 1
    files := st.files ++ [{
      path := path, sha256 := c.sha256Bytes (c.textBytes text), size := size
      allocatedBytes := e.stat.blocks * 512, dev := e.stat.dev, ino := e.stat.ino
      nlink := e.stat.nlink, mode := e.stat.mode, duplicateOf := none
      symlinkTarget := some text }] }

def ScanState.withDuplicate (c : Contents Bytes) (st : ScanState) (e : WalkEntry Bytes)
    (content : Bytes) (path firstPath firstSha : String) : ScanState :=
  { st with
    fileCount := st.fileCount + 1
    files := st.files ++ [regularEntry e path firstSha (c.len content) (some firstPath)] }

def ScanState.withOriginal (c : Contents Bytes) (st : ScanState) (e : WalkEntry Bytes)
    (content : Bytes) (path : String) : ScanState :=
  let size := c.len content
  let sha256 := c.sha256Bytes content
  let archive := e.names.getLast?.any isArchive
  { st with
    inodePaths := st.inodePaths ++ [(e.stat.inode, path, sha256)]
    logicalBytes := st.logicalBytes + size
    allocatedBytes := st.allocatedBytes + e.stat.blocks * 512
    archiveBytes := if archive then st.archiveBytes + size else st.archiveBytes
    auxiliaryBytes := if archive then st.auxiliaryBytes else st.auxiliaryBytes + size
    fileCount := st.fileCount + 1
    files := st.files ++ [regularEntry e path sha256 size none] }

inductive Turn (c : Contents Bytes) (st : ScanState) (e : WalkEntry Bytes) : ScanState → Prop
  | dir (node : e.node = .dir) : Turn c st e st
  | link {target path text} (node : e.node = .symlink target) (readable : target.toStr? = some text) :
      Turn c st e (ScanState.withLink c st e path text)
  | duplicate {inode content path firstPath firstSha} (node : e.node = .file inode content)
      (seen : (st.inodePaths.find? fun i => i.1 = e.stat.inode) =
        some (e.stat.inode, firstPath, firstSha)) :
      Turn c st e (ScanState.withDuplicate c st e content path firstPath firstSha)
  | original {inode content path} (node : e.node = .file inode content)
      (unseen : (st.inodePaths.find? fun i => i.1 = e.stat.inode) = none) :
      Turn c st e (ScanState.withOriginal c st e content path)

theorem scanEntry_turn {c : Contents Bytes} {folder : String} {st st' : ScanState}
    {e : WalkEntry Bytes} (h : scanEntry c folder st e = .ok st') : Turn c st e st' := by
  unfold scanEntry at h
  split at h
  · rename_i target node
    obtain ⟨path, -, h⟩ := bind_eq_ok.mp h
    cases readable : target.toStr? with
    | none =>
        rw [readable] at h
        cases h
    | some text =>
        rw [readable] at h
        obtain ⟨_, -, h⟩ := bind_eq_ok.mp h
        cases h
        exact .link node readable
  · rename_i node
    cases h
    exact .dir node
  · cases h
  · rename_i inode content node
    obtain ⟨path, -, h⟩ := bind_eq_ok.mp h
    cases hseen : st.inodePaths.find? fun i => i.1 = e.stat.inode with
    | none =>
        rw [hseen] at h
        cases h
        exact .original node hseen
    | some i =>
        obtain ⟨key, firstPath, firstSha⟩ := i
        obtain rfl : key = e.stat.inode := by simpa using List.find?_some hseen
        rw [hseen] at h
        cases h
        exact .duplicate node hseen

/-! ## The counters -/

section Concat

variable (done : List (WalkEntry Bytes)) {e : WalkEntry Bytes}

theorem regularFiles_concat_file {inode : Nat} {content : Bytes} (node : e.node = .file inode content) :
    regularFiles (done ++ [e]) = regularFiles done ++ [(e, content)] := by
  simp only [regularFiles, List.filterMap_append, List.filterMap_cons, node, List.filterMap_nil]

theorem regularFiles_concat_other (node : ∀ inode content, e.node ≠ .file inode content) :
    regularFiles (done ++ [e]) = regularFiles done := by
  rw [regularFiles, List.filterMap_append]
  cases hnode : e.node with
  | file inode content => exact absurd hnode (node inode content)
  | dir | symlink | special => simp [hnode, regularFiles]

theorem links_concat_link {target : OsName} {text : String} (node : e.node = .symlink target)
    (readable : target.toStr? = some text) :
    links (done ++ [e]) = links done ++ [(e.stat, text)] := by
  simp only [links, List.filterMap_append, List.filterMap_cons, node, readable, Option.map_some,
    List.filterMap_nil]

theorem links_concat_other (node : ∀ target, e.node ≠ .symlink target) :
    links (done ++ [e]) = links done := by
  rw [links, List.filterMap_append]
  cases hnode : e.node with
  | symlink target => exact absurd hnode (node target)
  | dir | file | special => simp [hnode, links]

end Concat

/-- The counters of the scanner behind a part of the walk. -/
structure ScanTotals (c : Contents Bytes) (done : List (WalkEntry Bytes)) (st : ScanState) :
    Prop where
  inodes : st.inodePaths.map Prod.fst = (firsts fileInode (regularFiles done)).map fileInode
  logical : st.logicalBytes =
    ((firsts fileInode (regularFiles done)).map (fileLength c)).sum + linkBytes c done
  allocated : st.allocatedBytes =
    ((firsts fileInode (regularFiles done)).map fileBlocks).sum + linkBlocks done
  archive : st.archiveBytes = weightOf fileInode archiveNamed (fileLength c) (regularFiles done)
  split : st.logicalBytes = st.archiveBytes + st.auxiliaryBytes
  count : st.fileCount = st.files.length
  originals : (st.files.filter original).map (fun f => (f.dev, f.ino)) =
    (firsts fileInode (regularFiles done)).map fileInode
  listed : st.logicalBytes = originalBytes st.files

theorem originalBytes_concat (files : List FileEntry) (f : FileEntry) :
    originalBytes (files ++ [f]) =
      originalBytes files + if f.duplicateOf.isNone then f.size else 0 := by
  rw [originalBytes, List.filter_append, List.map_append, List.sum_append]
  cases hdup : f.duplicateOf <;> simp [hdup, originalBytes]

theorem filter_original_concat (files : List FileEntry) (f : FileEntry) :
    (files ++ [f]).filter original = files.filter original ++ if original f then [f] else [] := by
  rw [List.filter_append]
  cases h : original f <;> simp [h]

theorem seen_iff {done : List (WalkEntry Bytes)} {st : ScanState}
    (hinodes : st.inodePaths.map Prod.fst = (firsts fileInode (regularFiles done)).map fileInode)
    (inode : Nat × Nat) :
    (st.inodePaths.find? fun i => i.1 = inode).isSome =
      (firsts fileInode (regularFiles done)).any fun p => fileInode p = inode := by
  rw [Bool.eq_iff_iff, List.find?_isSome, List.any_eq_true]
  have hmem : inode ∈ st.inodePaths.map Prod.fst ↔
      inode ∈ (firsts fileInode (regularFiles done)).map fileInode := by rw [hinodes]
  simpa only [List.mem_map, decide_eq_true_eq] using hmem

theorem ScanTotals.dir {c : Contents Bytes} {done : List (WalkEntry Bytes)} {st : ScanState}
    {e : WalkEntry Bytes} (h : ScanTotals c done st) (node : e.node = .dir) :
    ScanTotals c (done ++ [e]) st := by
  have hfiles : regularFiles (done ++ [e]) = regularFiles done :=
    regularFiles_concat_other done fun _ _ => by rw [node]; exact nofun
  have hlinks : links (done ++ [e]) = links done :=
    links_concat_other done fun _ => by rw [node]; exact nofun
  refine ⟨?_, ?_, ?_, ?_, h.split, h.count, ?_, h.listed⟩
  · rw [hfiles, h.inodes]
  · rw [hfiles, linkBytes, hlinks, h.logical, linkBytes]
  · rw [hfiles, linkBlocks, hlinks, h.allocated, linkBlocks]
  · rw [hfiles, h.archive]
  · rw [hfiles, h.originals]

theorem ScanTotals.link {c : Contents Bytes} {done : List (WalkEntry Bytes)} {st : ScanState}
    {e : WalkEntry Bytes} {target : OsName} {path text : String} (h : ScanTotals c done st)
    (node : e.node = .symlink target) (readable : target.toStr? = some text) :
    ScanTotals c (done ++ [e]) (ScanState.withLink c st e path text) := by
  have hfiles : regularFiles (done ++ [e]) = regularFiles done :=
    regularFiles_concat_other done fun _ _ => by rw [node]; exact nofun
  have hlinks := links_concat_link done node readable
  have hbytes : linkBytes c (done ++ [e]) = linkBytes c done + c.len (c.textBytes text) := by
    simp [linkBytes, hlinks]
  have hblocks : linkBlocks (done ++ [e]) = linkBlocks done + e.stat.blocks * 512 := by
    simp [linkBlocks, hlinks]
  have hlogical := h.logical
  have hallocated := h.allocated
  have hsplit := h.split
  have hcount := h.count
  have hlisted := h.listed
  refine ⟨?_, ?_, ?_, ?_, ?_, ?_, ?_, ?_⟩
  · rw [hfiles]
    exact h.inodes
  · rw [hfiles, hbytes]
    dsimp only [ScanState.withLink]
    omega
  · rw [hfiles, hblocks]
    dsimp only [ScanState.withLink]
    omega
  · rw [hfiles]
    exact h.archive
  · dsimp only [ScanState.withLink]
    omega
  · dsimp only [ScanState.withLink]
    rw [List.length_append, List.length_singleton, hcount]
  · rw [hfiles, ← h.originals]
    dsimp only [ScanState.withLink]
    rw [filter_original_concat]
    simp [original]
  · dsimp only [ScanState.withLink]
    rw [originalBytes_concat, hlisted]
    simp

theorem ScanTotals.duplicate {c : Contents Bytes} {done : List (WalkEntry Bytes)} {st : ScanState}
    {e : WalkEntry Bytes} {inode : Nat} {content : Bytes} {path firstPath firstSha : String}
    (h : ScanTotals c done st) (node : e.node = .file inode content)
    (seen : (st.inodePaths.find? fun i => i.1 = e.stat.inode) =
      some (e.stat.inode, firstPath, firstSha)) :
    ScanTotals c (done ++ [e]) (ScanState.withDuplicate c st e content path firstPath firstSha) := by
  have hmet := seen_iff h.inodes e.stat.inode
  rw [seen, Option.isSome_some] at hmet
  have hfirsts : firsts fileInode (regularFiles (done ++ [e])) =
      firsts fileInode (regularFiles done) := by
    rw [regularFiles_concat_file done node, firsts_concat]
    exact if_pos hmet.symm
  have hlinks : links (done ++ [e]) = links done :=
    links_concat_other done fun _ => by rw [node]; exact nofun
  refine ⟨?_, ?_, ?_, ?_, h.split, ?_, ?_, ?_⟩
  · rw [hfirsts]
    exact h.inodes
  · rw [hfirsts, linkBytes, hlinks]
    exact h.logical
  · rw [hfirsts, linkBlocks, hlinks]
    exact h.allocated
  · rw [weightOf, hfirsts]
    exact h.archive
  · dsimp only [ScanState.withDuplicate]
    rw [List.length_append, List.length_singleton, h.count]
  · rw [hfirsts, ← h.originals]
    dsimp only [ScanState.withDuplicate]
    rw [filter_original_concat]
    simp [original, regularEntry]
  · dsimp only [ScanState.withDuplicate]
    rw [originalBytes_concat, h.listed]
    simp [regularEntry]

theorem ScanTotals.original {c : Contents Bytes} {done : List (WalkEntry Bytes)} {st : ScanState}
    {e : WalkEntry Bytes} {inode : Nat} {content : Bytes} {path : String}
    (h : ScanTotals c done st) (node : e.node = .file inode content)
    (unseen : (st.inodePaths.find? fun i => i.1 = e.stat.inode) = none) :
    ScanTotals c (done ++ [e]) (ScanState.withOriginal c st e content path) := by
  have hmet := seen_iff h.inodes e.stat.inode
  rw [unseen, Option.isSome_none] at hmet
  have hfirsts : firsts fileInode (regularFiles (done ++ [e])) =
      firsts fileInode (regularFiles done) ++ [(e, content)] := by
    rw [regularFiles_concat_file done node, firsts_concat]
    exact if_neg fun hany => Bool.false_ne_true (hmet.trans hany)
  have hlinks : links (done ++ [e]) = links done :=
    links_concat_other done fun _ => by rw [node]; exact nofun
  have hlogical := h.logical
  have hallocated := h.allocated
  have hsplit := h.split
  have hlisted := h.listed
  refine ⟨?_, ?_, ?_, ?_, ?_, ?_, ?_, ?_⟩
  · rw [hfirsts, List.map_append, ← h.inodes]
    dsimp only [ScanState.withOriginal]
    rw [List.map_append]
    rfl
  · rw [hfirsts, List.map_append, List.sum_append, linkBytes, hlinks, ← linkBytes]
    simp only [ScanState.withOriginal, List.map_cons, List.map_nil, List.sum_cons, List.sum_nil,
      fileLength]
    omega
  · rw [hfirsts, List.map_append, List.sum_append, linkBlocks, hlinks, ← linkBlocks]
    simp only [ScanState.withOriginal, List.map_cons, List.map_nil, List.sum_cons, List.sum_nil,
      fileBlocks]
    omega
  · rw [weightOf, hfirsts, List.filter_append, List.map_append, List.sum_append]
    dsimp only [ScanState.withOriginal]
    rw [h.archive, weightOf]
    cases harchive : archiveNamed (e, content) with
    | false =>
        have hname : e.names.getLast?.any isArchive = false := harchive
        simp [harchive, hname]
    | true =>
        have hname : e.names.getLast?.any isArchive = true := harchive
        simp [harchive, hname, fileLength]
  · dsimp only [ScanState.withOriginal]
    cases e.names.getLast?.any isArchive with
    | false =>
        simp only [Bool.false_eq_true, if_false]
        omega
    | true =>
        simp only [if_true]
        omega
  · dsimp only [ScanState.withOriginal]
    rw [List.length_append, List.length_singleton, h.count]
  · rw [hfirsts, List.map_append, ← h.originals]
    dsimp only [ScanState.withOriginal]
    rw [filter_original_concat, List.map_append]
    rfl
  · dsimp only [ScanState.withOriginal]
    rw [originalBytes_concat, hlisted]
    simp [regularEntry]

theorem scanTotals_nil (c : Contents Bytes) : ScanTotals c [] {} := by
  constructor <;> rfl

theorem scanTotals_scan {c : Contents Bytes} {folder : String} {walk : List (WalkEntry Bytes)}
    {st : ScanState} (h : walk.foldlM (scanEntry c folder) {} = .ok st) : ScanTotals c walk st := by
  refine foldlM_invariant (I := ScanTotals c) ?_ (scanTotals_nil c) h
  intro done e s t hdone hstep
  cases scanEntry_turn hstep with
  | dir node => exact hdone.dir node
  | link node readable => exact hdone.link node readable
  | duplicate node seen => exact hdone.duplicate node seen
  | original node unseen => exact hdone.original node unseen

/-! ## Duplicates -/

structure IsRootOf (path : String) (f g : FileEntry) : Prop where
  path : g.path = path
  regular : g.symlinkTarget = none
  original : g.duplicateOf = none
  inode : (g.dev, g.ino) = (f.dev, f.ino)
  sha256 : g.sha256 = f.sha256
  size : g.size = f.size

/-- Every entry with `duplicate_of` is a regular file and names one in front of it. -/
def Rooted (files : List FileEntry) : Prop :=
  ∀ front f back, files = front ++ f :: back → ∀ path, f.duplicateOf = some path →
    f.symlinkTarget = none ∧ ∃ g ∈ front, IsRootOf path f g

theorem rooted_concat {files : List FileEntry} {new : FileEntry} (h : Rooted files)
    (hnew : ∀ path, new.duplicateOf = some path →
      new.symlinkTarget = none ∧ ∃ g ∈ files, IsRootOf path new g) :
    Rooted (files ++ [new]) := by
  intro front f back hfiles
  rcases List.eq_nil_or_concat back with rfl | ⟨back, last, rfl⟩
  · obtain ⟨rfl, hlast⟩ := List.append_inj' hfiles rfl
    cases hlast
    exact hnew
  · rw [List.concat_eq_append, ← List.cons_append, ← List.append_assoc] at hfiles
    exact h front f back (List.append_inj' hfiles rfl).1

theorem rooted_original {files : List FileEntry} {new : FileEntry} (h : Rooted files)
    (hnew : new.duplicateOf = none) : Rooted (files ++ [new]) := by
  apply rooted_concat h
  intro path hpath
  rw [hnew] at hpath
  cases hpath

theorem rooted_scan {c : Contents Bytes} {folder : String} {walk : List (WalkEntry Bytes)}
    {st : ScanState} (hsame : SameContents walk)
    (h : walk.foldlM (scanEntry c folder) {} = .ok st) : Rooted st.files := by
  have hloop : ScanInv c walk st ∧ Rooted st.files := by
    refine foldlM_invariant (I := fun done st => SameContents done →
      ScanInv c done st ∧ Rooted st.files) ?_ ?_ h hsame
    · intro done e s t hdone hstep hsame'
      obtain ⟨hinv, hrooted⟩ := hdone (hsame'.mono fun _ he => List.mem_append_left _ he)
      refine ⟨scanInv_entry hinv hsame' hstep, ?_⟩
      cases scanEntry_turn hstep with
      | dir node => exact hrooted
      | link node readable => exact rooted_original hrooted rfl
      | original node unseen => exact rooted_original hrooted rfl
      | duplicate node seen =>
          apply rooted_concat hrooted
          rintro path hpath
          cases hpath
          obtain ⟨g, hg, hregular, horiginal, hinode, hgpath, hsha⟩ :=
            hinv.first _ (List.mem_of_find?_eq_some seen)
          have hcontents := hinv.contents hsame' node hg hregular hinode
          exact ⟨rfl, g, hg, hgpath, hregular, horiginal, hinode, hsha, hcontents.2⟩
    · intro _
      refine ⟨⟨.nil, nofun, nofun⟩, ?_⟩
      intro front f back hfiles
      exact absurd hfiles.symm (List.append_ne_nil_of_right_ne_nil _ (List.cons_ne_nil f back))
  exact hloop.2

/-! ## The manifest's total -/

def manifestOf : Snapshot.RunPhase → Option Manifest
  | .verifying m | .published m | .finalizing m | .checked m | .committed m => some m
  | _ => none

def AddsUp (run : Run) : Prop :=
  ∀ m, manifestOf run.phase = some m → m.totalBytes = manifestTotalBytes m.files

theorem addsUp_step {d : DataPlane Bytes} {now : Timestamp} {db : Database} {store : Store Bytes}
    {run : Run} {op : RunOp Bytes} {e : Effect Bytes} (h : RunStep d now db store run op e)
    (hrun : AddsUp run) : AddsUp e.run := by
  unfold AddsUp at hrun
  cases h with
  | verifying phase =>
      intro m hm
      cases hm
      rfl
  | published phase | verified phase _ | checked phase _ | committed phase _ =>
      rw [phase] at hrun
      exact hrun
  | _ => exact nofun

theorem addsUp_exec {d : DataPlane Bytes} {w w' : World Bytes} {actions : List (Action Bytes)}
    (hinit : Initial w) (hrun : exec (step d) w actions = some w') {r : Nat} {run : Run}
    (hr : w'.runs[r]? = some run) : run.accounted ∧ AddsUp run := by
  have hinv : Consistent w' ∧ ∀ (r : Nat) (run : Run), w'.runs[r]? = some run → AddsUp run := by
    refine exec_invariant (C := fun _ _ _ => True) (I := fun w => Consistent w ∧
      ∀ (r : Nat) (run : Run), w.runs[r]? = some run → AddsUp run) ?_
      ⟨consistent_initial hinit, ?_⟩ (everyStep_of_forall_mem fun _ _ => trivial) hrun
    · rintro w a w' ⟨hw, hadds⟩ - hstep
      refine ⟨consistent_step hw hstep, ?_⟩
      cases a with
      | begin id problemId generation token version scan =>
          obtain ⟨-, -, rfl⟩ := step_begin hstep
          intro r run hr
          rcases getElem?_begin hr with hr | ⟨-, rfl⟩
          · exact hadds r run hr
          · exact nofun
      | run r' op =>
          obtain ⟨run', e, hr', -, htaken, rfl⟩ := step_run hstep
          intro r run hr
          rw [getElem?_afterRun hr'] at hr
          split at hr
          · cases hr
            exact addsUp_step htaken (hadds r' run' hr')
          · exact hadds r run hr
      | gcList id token =>
          obtain ⟨m, -, rfl⟩ := step_gcList hstep
          exact hadds
      | gc g op =>
          obtain ⟨worker, e, -, -, -, rfl⟩ := step_gc hstep
          exact hadds
      | retention ids | failStalled | tick elapsed | external tables =>
          cases hstep
          exact hadds
    · intro r run hr
      simp [hinit.runs] at hr
  exact ⟨hinv.1.accounted r run hr, hinv.2 r run hr⟩

theorem manifestTotalBytes_of_perm {files : List ManifestFile} {entries : List FileEntry}
    (h : files.Perm (entries.map FileEntry.toManifestFile)) :
    manifestTotalBytes files = originalBytes entries % 2 ^ 64 := by
  have hsum : ((files.filter fun f => f.duplicateOf.isNone).map ManifestFile.size).sum =
      originalBytes entries := by
    calc ((files.filter fun f => f.duplicateOf.isNone).map ManifestFile.size).sum =
          (((entries.map FileEntry.toManifestFile).filter fun f =>
            f.duplicateOf.isNone).map ManifestFile.size).sum :=
        ((h.filter _).map _).sum_eq
      _ = originalBytes entries := by
        rw [List.filter_map, List.map_map]
        rfl
  rw [manifestTotalBytes, hsum]

/-! ## The accounting -/

/-- The counters of a scan are those of its entries, and of the folder it has walked. -/
structure Conserved (walk : List (WalkEntry Bytes)) (scan : ScanResult) : Prop where
  split : scan.logicalBytes = scan.archiveBytes + scan.auxiliaryBytes
  logical : scan.logicalBytes = originalBytes scan.files
  count : scan.fileCount = scan.files.length
  /-- Every inode of a regular file is counted once. -/
  once : ∀ e ∈ walk, ∀ inode content, e.node = .file inode content →
    (scan.files.countP fun f => original f && (f.dev, f.ino) = e.stat.inode) = 1
  rooted : Rooted scan.files

theorem conserved_scan {c : Contents Bytes} {folder code : String}
    {walk : List (WalkEntry Bytes)} {st : ScanState} (hsame : SameContents walk)
    (h : walk.foldlM (scanEntry c folder) {} = .ok st) :
    Conserved walk (st.toScanResult code) := by
  have htotals := scanTotals_scan h
  refine ⟨htotals.split, htotals.listed, htotals.count, ?_, rooted_scan hsame h⟩
  intro e he inode content node
  have hfile : (e, content) ∈ regularFiles walk :=
    List.mem_filterMap.mpr ⟨e, he, by rw [node]⟩
  obtain ⟨b, hb, hkey⟩ := exists_mem_firsts fileInode hfile
  have hinodes := htotals.originals
  have hmem : e.stat.inode ∈ (st.files.filter original).map fun f => (f.dev, f.ino) := by
    rw [hinodes]
    exact List.mem_map.mpr ⟨b, hb, hkey⟩
  have hnodup : ((st.files.filter original).map fun f => (f.dev, f.ino)).Nodup := by
    rw [hinodes]
    exact nodup_keys_firsts _
  calc
    (st.files.countP fun f => original f && (f.dev, f.ino) = e.stat.inode) =
        ((st.files.filter original).map fun f => (f.dev, f.ino)).count e.stat.inode := by
      rw [List.count, List.countP_map, List.countP_filter]
      apply List.countP_congr
      intro f _
      simp [and_comm]
    _ = 1 := List.count_eq_one_of_mem hnodup hmem

/-- The counters of a scan are conserved, in whatever order the folder was walked, and the
manifest that an upload of the scan makes adds up to the same: both counters are 64 bits
wide. -/
theorem scan_accounting_conserved (c : Contents Bytes) (rootPath code : String)
    (walk : List (WalkEntry Bytes)) (scan : ScanResult) (hsame : SameContents walk)
    (hscan : scanProblemFolder c rootPath code (some walk) = .ok scan) :
    Conserved walk scan ∧
      ∀ (d : DataPlane Bytes) (w w' : World Bytes) (actions : List (Action Bytes)) (r : Nat)
        (run : Run) (m : Manifest), Initial w → exec (step d) w actions = some w' →
        w'.runs[r]? = some run → run.scan = scan → manifestOf run.phase = some m →
        m.totalBytes = scan.logicalBytes % 2 ^ 64 := by
  obtain ⟨st, hst, rfl⟩ := scanProblemFolder_eq_ok hscan
  have hconserved : Conserved walk (st.toScanResult code) := conserved_scan hsame hst
  refine ⟨hconserved, ?_⟩
  intro d w w' actions r run m hinit hrun hr hrunScan hm
  obtain ⟨haccounted, hadds⟩ := addsUp_exec hinit hrun hr
  have hperm : m.files.Perm (run.scan.files.map FileEntry.toManifestFile) := by
    unfold Run.accounted at haccounted
    cases hphase : run.phase <;> rw [hphase] at haccounted hm <;> cases hm <;> exact haccounted
  rw [hadds m hm, manifestTotalBytes_of_perm hperm, hrunScan, hconserved.logical]

/-! The folder of the samples, with a second name for its archive. -/

def linkedWalk : List (WalkEntry Content) :=
  sampleWalk ++ [sampleEntry ["data.txt"] 11 dataZipText]

def linkedScan : ScanResult :=
  { sampleScan with
    fileCount := 3
    files := [dataZip, initYml, { dataZip with path := "data.txt", duplicateOf := some "data.zip" }] }

def linkedRun : List (Action Content) :=
  [.begin 1 "101" 1 1 (some 1) linkedScan, .run 0 .claim, .run 0 .cleanup, .run 0 .setHashing,
    .run 0 (.prepare (some initYmlText))] ++ uploadAbsent 0 dataZip dataZipText ++
    uploadAbsent 0 initYml initYmlText ++
    uploadExisting 0 { dataZip with path := "data.txt", duplicateOf := some "data.zip" } ++
    [.run 0 .setVerifying] ++ publishingRun 0

theorem scan_accounting_conserved_linked :
    scanProblemFolder folderContents "/problems" "aplusb" (some linkedWalk) = .ok linkedScan ∧
      Conserved linkedWalk linkedScan ∧
      ∃ w' run m, exec (step samplePlane) sampleWorld linkedRun = some w' ∧
        w'.runs[0]? = some run ∧ manifestOf run.phase = some m ∧ m.files.length = 3 ∧
        m.totalBytes = linkedScan.logicalBytes % 2 ^ 64 := by
  have hsame : SameContents linkedWalk :=
    sampleEntry_sameContents [(["data.zip"], 11, dataZipText), (["init.yml"], 12, initYmlText),
      (["data.txt"], 11, dataZipText)] (by decide)
  have hscan : scanProblemFolder folderContents "/problems" "aplusb" (some linkedWalk) =
      .ok linkedScan := by
    decide +kernel
  have hconserved := scan_accounting_conserved folderContents "/problems" "aplusb" linkedWalk
    linkedScan hsame hscan
  have hcommitted : (exec (step samplePlane) sampleWorld linkedRun).any (fun w =>
      (w.runs[0]?).any fun run => (manifestOf run.phase).any (fun m =>
        m.files.length = 3) && run.scan = linkedScan) = true := by
    decide +kernel
  obtain ⟨w', hw', hrun⟩ := (Option.any_eq_true _ _).mp hcommitted
  obtain ⟨run, hr, hrun⟩ := (Option.any_eq_true _ _).mp hrun
  rw [Bool.and_eq_true, decide_eq_true_eq] at hrun
  obtain ⟨m, hm, hfiles⟩ := (Option.any_eq_true _ _).mp hrun.1
  exact ⟨hscan, hconserved.1, w', run, m, hw', hr, hm, of_decide_eq_true hfiles,
    hconserved.2 samplePlane sampleWorld w' linkedRun 0 run m initial_sampleWorld hw' hr hrun.2 hm⟩

end ExternalStorage.Restore
