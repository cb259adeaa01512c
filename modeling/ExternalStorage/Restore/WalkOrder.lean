import ExternalStorage.Restore.Totals
import ExternalStorage.Snapshot.Matching

/-!
# The order of the walk

`WalkDir` yields the entries of a directory in the order of the file system.  An inode is put
among the archives or the auxiliary files by the name it is met by first, so of all that a scan
returns only the split between the two depends on the order.
-/

namespace ExternalStorage.Restore

open ExternalStorage.Model ExternalStorage.Snapshot Library.FirstSeen Library.Loops

variable {Bytes : Type}

/-! ## Statements -/

/-- A folder that stays as it is: an inode has one content and one allocation. -/
structure StaticWalk (walk : List (WalkEntry Bytes)) : Prop where
  contents : SameContents walk
  blocks : ∀ e ∈ walk, ∀ e' ∈ walk, ∀ i x i' x', e.node = .file i x → e'.node = .file i' x' →
    e.stat.inode = e'.stat.inode → e.stat.blocks = e'.stat.blocks

/-- Two scans return the same totals and the same contents. -/
structure SameTotals (scan scan' : ScanResult) : Prop where
  logical : scan.logicalBytes = scan'.logicalBytes
  allocated : scan.allocatedBytes = scan'.allocatedBytes
  archive : scan.archiveBytes = scan'.archiveBytes
  auxiliary : scan.auxiliaryBytes = scan'.auxiliaryBytes
  count : scan.fileCount = scan'.fileCount
  contents : ∀ t, t ∈ scan.files.map FileEntry.triple ↔ t ∈ scan'.files.map FileEntry.triple

/-- The bytes of the inodes that the first order meets by an archive name and the second by
another. -/
def turnedBytes (c : Contents Bytes) (walk walk' : List (WalkEntry Bytes)) : Nat :=
  turned fileInode archiveNamed (fileLength c) (regularFiles walk) (regularFiles walk')

/-- The names of an inode that has any bytes are all of archives or none is. -/
def OneClass (c : Contents Bytes) (walk : List (WalkEntry Bytes)) : Prop :=
  ∀ p ∈ regularFiles walk, ∀ q ∈ regularFiles walk, fileInode p = fileInode q →
    fileLength c p ≠ 0 → archiveNamed p = archiveNamed q

/-! ## What the walk determines -/

theorem mem_regularFiles {walk : List (WalkEntry Bytes)} {p : WalkEntry Bytes × Bytes} :
    p ∈ regularFiles walk ↔ p.1 ∈ walk ∧ ∃ inode, p.1.node = .file inode p.2 := by
  rw [regularFiles, List.mem_filterMap]
  constructor
  · rintro ⟨e, he, h⟩
    split at h
    · rename_i inode content node
      cases h
      exact ⟨he, inode, node⟩
    · cases h
    · cases h
    · cases h
  · rintro ⟨he, inode, node⟩
    exact ⟨p.1, he, by rw [node]⟩

theorem StaticWalk.lengths {walk : List (WalkEntry Bytes)} (h : StaticWalk walk)
    (c : Contents Bytes) : Determines fileInode (fileLength c) (regularFiles walk) := by
  intro p hp q hq hinode
  obtain ⟨hp, i, hpnode⟩ := mem_regularFiles.mp hp
  obtain ⟨hq, i', hqnode⟩ := mem_regularFiles.mp hq
  rw [fileLength, fileLength, h.contents p.1 hp q.1 hq i p.2 i' q.2 hpnode hqnode hinode]

theorem StaticWalk.allocations {walk : List (WalkEntry Bytes)} (h : StaticWalk walk) :
    Determines fileInode fileBlocks (regularFiles walk) := by
  intro p hp q hq hinode
  obtain ⟨hp, i, hpnode⟩ := mem_regularFiles.mp hp
  obtain ⟨hq, i', hqnode⟩ := mem_regularFiles.mp hq
  rw [fileBlocks, fileBlocks, h.blocks p.1 hp q.1 hq i p.2 i' q.2 hpnode hqnode hinode]

theorem perm_regularFiles {walk walk' : List (WalkEntry Bytes)} (h : walk.Perm walk') :
    (regularFiles walk).Perm (regularFiles walk') := h.filterMap _

theorem SameContents.perm {walk walk' : List (WalkEntry Bytes)} (h : SameContents walk)
    (hperm : walk.Perm walk') : SameContents walk' :=
  h.mono fun _ he => hperm.mem_iff.mpr he

theorem Scanned.leaf {c : Contents Bytes} {e : WalkEntry Bytes} {f : FileEntry}
    (h : Scanned c e f) : leafNode e.node = true := by
  have hnode := h.node
  cases hcase : e.node with
  | file | symlink => rfl
  | dir | special =>
      rw [hcase] at hnode
      exact hnode.elim

theorem Scanned.triple_eq {c : Contents Bytes} {e : WalkEntry Bytes} {f g : FileEntry}
    (hf : Scanned c e f) (hg : Scanned c e g) : FileEntry.triple f = FileEntry.triple g := by
  have hpath : f.path = g.path := Except.ok.inj (hf.path.symm.trans hg.path)
  have hf' := hf.node
  have hg' := hg.node
  cases hnode : e.node with
  | dir | special =>
      rw [hnode] at hf'
      exact hf'.elim
  | file inode content =>
      rw [hnode] at hf' hg'
      rw [FileEntry.triple, FileEntry.triple, hpath, hf'.2.1, hg'.2.1, hf'.2.2, hg'.2.2]
  | symlink target =>
      rw [hnode] at hf' hg'
      obtain ⟨-, text, htext, -, -, hsha, hsize⟩ := hf'
      obtain ⟨-, text', htext', -, -, hsha', hsize'⟩ := hg'
      obtain rfl : text = text' := Option.some.inj (htext.symm.trans htext')
      rw [FileEntry.triple, FileEntry.triple, hpath, hsha, hsha', hsize, hsize']

theorem scannable_of_scan {c : Contents Bytes} {folder : String} {walk : List (WalkEntry Bytes)}
    {st : ScanState} (h : walk.foldlM (scanEntry c folder) {} = .ok st) {e : WalkEntry Bytes}
    (he : e ∈ walk) : Scannable e := by
  obtain ⟨done, todo, rfl⟩ := List.append_of_mem he
  obtain ⟨t, -, u, hu⟩ := foldlM_eq_ok_at h
  unfold scanEntry at hu
  unfold Scannable
  split at hu
  · rename_i target node
    rw [node]
    obtain ⟨path, hpath, hu⟩ := bind_eq_ok.mp hu
    cases htext : target.toStr? with
    | none =>
        rw [htext] at hu
        cases hu
    | some text =>
        rw [htext] at hu
        exact ⟨path, text, hpath, htext, (check_eq_ok.mp hu).1⟩
  · rename_i node
    rw [node]
    trivial
  · cases hu
  · rename_i inode content node
    rw [node]
    obtain ⟨path, hpath, -⟩ := bind_eq_ok.mp hu
    exact ⟨path, hpath⟩

/-! ## Two scans -/

section Scans

variable {c : Contents Bytes} {rootPath code : String} {walk walk' : List (WalkEntry Bytes)}
  {scan scan' : ScanResult}

theorem scan_reordered (hperm : walk.Perm walk')
    (hscan : scanProblemFolder c rootPath code (some walk) = .ok scan) :
    ∃ scan', scanProblemFolder c rootPath code (some walk') = .ok scan' := by
  obtain ⟨hcode, -⟩ := check_eq_ok.mp hscan
  obtain ⟨st, hst, -⟩ := scanProblemFolder_eq_ok hscan
  exact scan_total hcode fun e he => scannable_of_scan hst (hperm.mem_iff.mpr he)

theorem contents_reordered (hsame : SameContents walk) (hperm : walk.Perm walk')
    (hscan : scanProblemFolder c rootPath code (some walk) = .ok scan)
    (hscan' : scanProblemFolder c rootPath code (some walk') = .ok scan')
    {t : String × String × Int} (ht : t ∈ scan.files.map FileEntry.triple) :
    t ∈ scan'.files.map FileEntry.triple := by
  obtain ⟨f, hf, rfl⟩ := List.mem_map.mp ht
  obtain ⟨e, he, hscanned⟩ := (scan_reports hsame hscan).walked hf
  obtain ⟨g, hg, hscanned'⟩ := (scan_reports (hsame.perm hperm) hscan').reported
    (hperm.mem_iff.mp he) hscanned.leaf
  exact List.mem_map.mpr ⟨g, hg, hscanned'.triple_eq hscanned⟩

theorem length_reordered (hsame : SameContents walk) (hperm : walk.Perm walk')
    (hscan : scanProblemFolder c rootPath code (some walk) = .ok scan)
    (hscan' : scanProblemFolder c rootPath code (some walk') = .ok scan') :
    scan.files.length = scan'.files.length :=
  calc scan.files.length = (walk.filter fun e => leafNode e.node).length :=
        (scan_reports hsame hscan).scanned.length_eq.symm
    _ = (walk'.filter fun e => leafNode e.node).length := (hperm.filter _).length_eq
    _ = scan'.files.length := (scan_reports (hsame.perm hperm) hscan').scanned.length_eq

/-- Two orders agree in everything as soon as they agree on the archives. -/
theorem sameTotals_iff_archive (hstatic : StaticWalk walk) (hperm : walk.Perm walk')
    (hscan : scanProblemFolder c rootPath code (some walk) = .ok scan)
    (hscan' : scanProblemFolder c rootPath code (some walk') = .ok scan') :
    SameTotals scan scan' ↔ scan.archiveBytes = scan'.archiveBytes := by
  have hlength := length_reordered hstatic.contents hperm hscan hscan'
  have hcontents : ∀ t, t ∈ scan.files.map FileEntry.triple ↔
      t ∈ scan'.files.map FileEntry.triple := fun t =>
    ⟨contents_reordered hstatic.contents hperm hscan hscan',
      contents_reordered (hstatic.contents.perm hperm) hperm.symm hscan' hscan⟩
  obtain ⟨st, hst, rfl⟩ := scanProblemFolder_eq_ok hscan
  obtain ⟨st', hst', rfl⟩ := scanProblemFolder_eq_ok hscan'
  have htotals := scanTotals_scan hst
  have htotals' := scanTotals_scan hst'
  have hfiles := perm_regularFiles hperm
  have hlinks : (links walk).Perm (links walk') := hperm.filterMap _
  have hlogical : st.logicalBytes = st'.logicalBytes := by
    rw [htotals.logical, htotals'.logical, linkBytes, linkBytes, (hlinks.map _).sum_eq,
      (perm_map_firsts hfiles (hstatic.lengths c)).sum_eq]
  have hallocated : st.allocatedBytes = st'.allocatedBytes := by
    rw [htotals.allocated, htotals'.allocated, linkBlocks, linkBlocks, (hlinks.map _).sum_eq,
      (perm_map_firsts hfiles hstatic.allocations).sum_eq]
  have hcount : st.fileCount = st'.fileCount := by
    rw [htotals.count, htotals'.count]
    exact hlength
  have hsplit := htotals.split
  have hsplit' := htotals'.split
  constructor
  · exact SameTotals.archive
  · intro harchive
    have harchive : st.archiveBytes = st'.archiveBytes := harchive
    refine ⟨hlogical, hallocated, harchive, ?_, hcount, hcontents⟩
    show st.auxiliaryBytes = st'.auxiliaryBytes
    omega

end Scans

/-- Another order of the same folder is scanned as well, and returns the same exactly when the
files that only the one order meets by an archive name have as many bytes as those that only
the other does; where the names of an inode are of one class, there are none of either. -/
theorem scan_order_independent_iff (c : Contents Bytes) (rootPath code : String)
    (walk walk' : List (WalkEntry Bytes)) (scan : ScanResult) (hstatic : StaticWalk walk)
    (hperm : walk.Perm walk') (hscan : scanProblemFolder c rootPath code (some walk) = .ok scan) :
    ∃ scan', scanProblemFolder c rootPath code (some walk') = .ok scan' ∧
      (SameTotals scan scan' ↔ turnedBytes c walk walk' = turnedBytes c walk' walk) ∧
      (OneClass c walk → SameTotals scan scan') := by
  obtain ⟨scan', hscan'⟩ := scan_reordered hperm hscan
  have hfiles := perm_regularFiles hperm
  have hiff : SameTotals scan scan' ↔ turnedBytes c walk walk' = turnedBytes c walk' walk := by
    rw [sameTotals_iff_archive hstatic hperm hscan hscan']
    obtain ⟨st, hst, rfl⟩ := scanProblemFolder_eq_ok hscan
    obtain ⟨st', hst', rfl⟩ := scanProblemFolder_eq_ok hscan'
    show st.archiveBytes = st'.archiveBytes ↔ _
    rw [(scanTotals_scan hst).archive, (scanTotals_scan hst').archive]
    exact weightOf_eq_iff hfiles (hstatic.lengths c)
  refine ⟨scan', hscan', hiff, ?_⟩
  intro hclass
  have hclass' : OneClass c walk' := fun p hp q hq =>
    hclass p (hfiles.mem_iff.mpr hp) q (hfiles.mem_iff.mpr hq)
  rw [hiff, turnedBytes, turnedBytes, turned_eq_zero hfiles hclass,
    turned_eq_zero hfiles.symm hclass']

/-! ## A file under an archive name and another -/

theorem scan_order_independent_sample :
    ∃ scan', scanProblemFolder folderContents "/problems" "aplusb" (some sampleWalk.reverse) =
      .ok scan' ∧ SameTotals sampleScan scan' := by
  have hstatic : StaticWalk sampleWalk := by
    refine ⟨sampleEntry_sameContents
      [(["data.zip"], 11, dataZipText), (["init.yml"], 12, initYmlText)] (by decide), ?_⟩
    intro e he e' he' i x i' x' _ _ _
    simp only [sampleWalk, List.mem_cons, List.not_mem_nil, or_false] at he he'
    rcases he with rfl | rfl <;> rcases he' with rfl | rfl <;> rfl
  obtain ⟨scan', hscan', -, hclass⟩ := scan_order_independent_iff folderContents "/problems"
    "aplusb" sampleWalk sampleWalk.reverse sampleScan hstatic (List.reverse_perm _).symm
    (by decide +kernel)
  exact ⟨scan', hscan', hclass (by unfold OneClass; decide +kernel)⟩

/-- By `data.zip` first the 22 bytes are an archive, by `data.txt` first they are auxiliary. -/
theorem linked_archive_depends_on_order :
    ∃ scan scan', scanProblemFolder folderContents "/problems" "aplusb" (some linkedWalk) = .ok scan ∧
      scanProblemFolder folderContents "/problems" "aplusb" (some linkedWalk.reverse) = .ok scan' ∧
      scan.archiveBytes = 22 ∧ scan'.archiveBytes = 0 ∧ ¬ SameTotals scan scan' := by
  have hscans : ((scanProblemFolder folderContents "/problems" "aplusb"
      (some linkedWalk)).toOption.any fun scan => scan.archiveBytes = 22) = true ∧
      ((scanProblemFolder folderContents "/problems" "aplusb"
        (some linkedWalk.reverse)).toOption.any fun scan => scan.archiveBytes = 0) = true := by
    decide +kernel
  obtain ⟨scan, hscan, harchive⟩ := (Option.any_eq_true _ _).mp hscans.1
  obtain ⟨scan', hscan', harchive'⟩ := (Option.any_eq_true _ _).mp hscans.2
  have harchive : scan.archiveBytes = 22 := of_decide_eq_true harchive
  have harchive' : scan'.archiveBytes = 0 := of_decide_eq_true harchive'
  refine ⟨scan, scan', Library.Runs.toOption_eq_some.mp hscan,
    Library.Runs.toOption_eq_some.mp hscan', harchive, harchive', ?_⟩
  intro h
  have hsame := h.archive
  omega

end ExternalStorage.Restore
