import ExternalStorage.Library.Loops
import ExternalStorage.Model.Scan

/-!
# What a scan reports

The files of a scan are the files and links of the folder, in the order of the walk, and
`duplicate_of` names the first file of the same inode.
-/

namespace ExternalStorage.Restore

open ExternalStorage.Model Library.Loops

variable {Bytes : Type}

/-! ## Statements -/

def leafNode : Node Bytes → Bool
  | .file .. | .symlink _ => true
  | .dir | .special => false

/-- What the scanner reports of a node, except for `duplicate_of`. -/
def NodeScanned (c : Contents Bytes) (f : FileEntry) : Node Bytes → Prop
  | .file _ content =>
      f.symlinkTarget = none ∧ f.sha256 = c.sha256Bytes content ∧ f.size = c.len content
  | .symlink target => f.duplicateOf = none ∧ ∃ text, target.toStr? = some text ∧
      f.symlinkTarget = some text ∧ validateSymlinkTarget f.path text = .ok () ∧
      f.sha256 = c.sha256Bytes (c.textBytes text) ∧ f.size = c.len (c.textBytes text)
  | .dir | .special => False

structure Scanned (c : Contents Bytes) (e : WalkEntry Bytes) (f : FileEntry) : Prop where
  path : normalizedRelativePath e.names = .ok f.path
  inode : (f.dev, f.ino) = e.stat.inode
  node : NodeScanned c f e.node

/-- Entries of one inode have one content. -/
def SameContents (walk : List (WalkEntry Bytes)) : Prop :=
  ∀ e ∈ walk, ∀ e' ∈ walk, ∀ i x i' x', e.node = .file i x → e'.node = .file i' x' →
    e.stat.inode = e'.stat.inode → x = x'

def root (f : FileEntry) : String := f.duplicateOf.getD f.path

def Scannable (e : WalkEntry Bytes) : Prop :=
  match e.node with
  | .dir => True
  | .special => False
  | .file .. => ∃ path, normalizedRelativePath e.names = .ok path
  | .symlink target => ∃ path text, normalizedRelativePath e.names = .ok path ∧
      target.toStr? = some text ∧ validateSymlinkTarget path text = .ok ()

/-! ## The loop -/

structure ScanInv (c : Contents Bytes) (done : List (WalkEntry Bytes)) (st : ScanState) :
    Prop where
  scanned : List.Forall₂ (Scanned c) (done.filter fun e => leafNode e.node) st.files
  roots : ∀ f ∈ st.files, f.symlinkTarget = none →
    (st.inodePaths.find? fun i => i.1 = (f.dev, f.ino)) =
      some ((f.dev, f.ino), root f, f.sha256)
  first : ∀ i ∈ st.inodePaths, ∃ g ∈ st.files, g.symlinkTarget = none ∧ g.duplicateOf = none ∧
    (g.dev, g.ino) = i.1 ∧ g.path = i.2.1 ∧ g.sha256 = i.2.2

theorem mem_of_forall₂ {α β : Type} {R : α → β → Prop} {as : List α} {bs : List β}
    (h : List.Forall₂ R as bs) {b : β} (hb : b ∈ bs) : ∃ a ∈ as, R a b := by
  induction h with
  | nil => cases hb
  | cons hR _ ih =>
      rcases List.mem_cons.mp hb with rfl | hb
      · exact ⟨_, List.mem_cons_self, hR⟩
      · obtain ⟨a, ha, hab⟩ := ih hb
        exact ⟨a, List.mem_cons_of_mem _ ha, hab⟩

theorem ScanInv.append_leaf {c : Contents Bytes} {done : List (WalkEntry Bytes)}
    {st : ScanState} {e : WalkEntry Bytes} {f : FileEntry} (hinv : ScanInv c done st)
    (hleaf : leafNode e.node = true) (hf : Scanned c e f) :
    List.Forall₂ (Scanned c) ((done ++ [e]).filter fun e => leafNode e.node)
      (st.files ++ [f]) := by
  rw [List.filter_append, List.filter_cons_of_pos (by exact hleaf)]
  exact List.rel_append hinv.scanned (.cons hf .nil)

/-- A turn that only adds a file keeps what is known of the inodes. -/
theorem scanInv_added {c : Contents Bytes} {done : List (WalkEntry Bytes)} {st st' : ScanState}
    {e : WalkEntry Bytes} {f : FileEntry} (hinv : ScanInv c done st)
    (hleaf : leafNode e.node = true) (hf : Scanned c e f) (hfiles : st'.files = st.files ++ [f])
    (hpaths : st'.inodePaths = st.inodePaths)
    (hroot : f.symlinkTarget = none → (st.inodePaths.find? fun i => i.1 = (f.dev, f.ino)) =
      some ((f.dev, f.ino), root f, f.sha256)) :
    ScanInv c (done ++ [e]) st' := by
  refine ⟨?_, ?_, ?_⟩
  · rw [hfiles]
    exact hinv.append_leaf hleaf hf
  · intro g hg hregular
    rw [hpaths]
    rw [hfiles] at hg
    rcases List.mem_append.mp hg with hold | hnew
    · exact hinv.roots g hold hregular
    · obtain rfl := List.mem_singleton.mp hnew
      exact hroot hregular
  · intro i hi
    rw [hpaths] at hi
    rw [hfiles]
    obtain ⟨g, hg, hrest⟩ := hinv.first i hi
    exact ⟨g, List.mem_append_left _ hg, hrest⟩

theorem scanSymlink_eq_ok {c : Contents Bytes} {st st' : ScanState} {e : WalkEntry Bytes}
    {target : OsName} (hnode : e.node = .symlink target)
    (h : scanSymlink c st e target = .ok st') :
    ∃ f, Scanned c e f ∧ f.symlinkTarget ≠ none ∧ st'.files = st.files ++ [f] ∧
      st'.inodePaths = st.inodePaths := by
  obtain ⟨path, hpath, h⟩ := bind_eq_ok.mp h
  cases htext : target.toStr? with
  | none =>
      rw [htext] at h
      cases h
  | some text =>
      rw [htext] at h
      obtain ⟨_, hvalid, h⟩ := bind_eq_ok.mp h
      cases h
      refine ⟨_, ⟨hpath, rfl, ?_⟩, by simp, rfl, rfl⟩
      rw [hnode]
      exact ⟨rfl, text, htext, rfl, hvalid, rfl, rfl⟩

theorem ScanInv.contents {c : Contents Bytes} {done : List (WalkEntry Bytes)} {st : ScanState}
    {e : WalkEntry Bytes} {inode : Nat} {content : Bytes} (hinv : ScanInv c done st)
    (hsame : SameContents (done ++ [e])) (hnode : e.node = .file inode content) {g : FileEntry}
    (hg : g ∈ st.files) (hregular : g.symlinkTarget = none)
    (hinode : (g.dev, g.ino) = e.stat.inode) :
    g.sha256 = c.sha256Bytes content ∧ g.size = c.len content := by
  obtain ⟨e', he', hscanned⟩ := mem_of_forall₂ hinv.scanned hg
  cases hnode' : e'.node with
  | dir | special | symlink =>
      have hother := hscanned.node
      rw [hnode'] at hother
      simp only [NodeScanned, hregular, reduceCtorEq, false_and, and_false, exists_false] at hother
  | file inode' content' =>
      have hfile := hscanned.node
      rw [hnode'] at hfile
      have hcontent := hsame e' (List.mem_append_left _ (List.mem_filter.mp he').1) e
        (List.mem_append_right _ List.mem_cons_self) inode' content' inode content hnode'
        hnode (hscanned.inode.symm.trans hinode)
      rw [← hcontent]
      exact hfile.2

theorem scanInv_file {c : Contents Bytes} {done : List (WalkEntry Bytes)} {st st' : ScanState}
    {e : WalkEntry Bytes} {inode : Nat} {content : Bytes} (hinv : ScanInv c done st)
    (hsame : SameContents (done ++ [e])) (hnode : e.node = .file inode content)
    (h : scanFile c st e content = .ok st') : ScanInv c (done ++ [e]) st' := by
  obtain ⟨path, hpath, h⟩ := bind_eq_ok.mp h
  have hleaf : leafNode e.node = true := by rw [hnode]; rfl
  cases hseen : st.inodePaths.find? fun i => i.1 = e.stat.inode with
  | some i =>
      obtain ⟨key, firstPath, firstSha⟩ := i
      have hkey : key = e.stat.inode := by simpa using List.find?_some hseen
      subst hkey
      -- The first file of the inode was hashed, and the content is the same.
      obtain ⟨g, hg, hregular, -, hinode, -, hsha⟩ :=
        hinv.first _ (List.mem_of_find?_eq_some hseen)
      have hfirstSha : firstSha = c.sha256Bytes content :=
        hsha.symm.trans (hinv.contents hsame hnode hg hregular hinode).1
      rw [hseen] at h
      cases h
      refine scanInv_added (f := regularEntry e path firstSha (c.len content) (some firstPath))
        hinv hleaf ⟨hpath, rfl, ?_⟩ rfl rfl fun _ => hseen
      rw [hnode]
      exact ⟨rfl, hfirstSha, rfl⟩
  | none =>
      rw [hseen] at h
      cases h
      have hscanned : Scanned c e
          (regularEntry e path (c.sha256Bytes content) (c.len content) none) := by
        refine ⟨hpath, rfl, ?_⟩
        rw [hnode]
        exact ⟨rfl, rfl, rfl⟩
      refine ⟨hinv.append_leaf hleaf hscanned, ?_, ?_⟩
      · intro g hg hregular
        rw [List.find?_append]
        rcases List.mem_append.mp hg with hold | hnew
        · rw [hinv.roots g hold hregular]
          rfl
        · obtain rfl := List.mem_singleton.mp hnew
          have hkey : ((regularEntry e path (c.sha256Bytes content) (c.len content) none).dev,
              (regularEntry e path (c.sha256Bytes content) (c.len content) none).ino) =
                e.stat.inode := rfl
          rw [hkey, hseen]
          simp [root, regularEntry]
      · intro i hi
        rcases List.mem_append.mp hi with hold | hnew
        · obtain ⟨g, hg, hrest⟩ := hinv.first i hold
          exact ⟨g, List.mem_append_left _ hg, hrest⟩
        · rw [List.mem_singleton.mp hnew]
          exact ⟨_, List.mem_append_right _ List.mem_cons_self, rfl, rfl, rfl, rfl, rfl⟩

theorem scanInv_entry {c : Contents Bytes} {folder : String} {done : List (WalkEntry Bytes)}
    {st st' : ScanState} {e : WalkEntry Bytes} (hinv : ScanInv c done st)
    (hsame : SameContents (done ++ [e])) (h : scanEntry c folder st e = .ok st') :
    ScanInv c (done ++ [e]) st' := by
  unfold scanEntry at h
  split at h
  · rename_i target hnode
    obtain ⟨f, hf, hlink, hfiles, hpaths⟩ := scanSymlink_eq_ok hnode h
    exact scanInv_added hinv (by rw [hnode]; rfl) hf hfiles hpaths fun hnone => absurd hnone hlink
  · rename_i hnode
    cases h
    refine ⟨?_, hinv.roots, hinv.first⟩
    rw [List.filter_append, List.filter_cons_of_neg (by rw [hnode]; simp [leafNode])]
    simpa using hinv.scanned
  · cases h
  · rename_i inode content hnode
    exact scanInv_file hinv hsame hnode h

/-! ## The result -/

theorem scanProblemFolder_eq_ok {c : Contents Bytes} {rootPath code : String}
    {walk : List (WalkEntry Bytes)} {scan : ScanResult}
    (h : scanProblemFolder c rootPath code (some walk) = .ok scan) :
    ∃ st : ScanState, walk.foldlM (scanEntry c s!"{rootPath}/{code}") {} = .ok st ∧
      scan = st.toScanResult code := by
  obtain ⟨-, h⟩ := check_eq_ok.mp h
  obtain ⟨st, hst, h⟩ := bind_eq_ok.mp h
  cases h
  exact ⟨st, hst, rfl⟩

theorem SameContents.mono {walk walk' : List (WalkEntry Bytes)} (h : SameContents walk)
    (hsub : ∀ e ∈ walk', e ∈ walk) : SameContents walk' :=
  fun e he e' he' => h e (hsub e he) e' (hsub e' he')

theorem scanInv_scan {c : Contents Bytes} {folder : String} {walk : List (WalkEntry Bytes)}
    {st : ScanState} (hsame : SameContents walk)
    (h : walk.foldlM (scanEntry c folder) {} = .ok st) : ScanInv c walk st := by
  refine foldlM_invariant (I := fun done st => SameContents done → ScanInv c done st)
    ?_ ?_ h hsame
  · intro done e s t hdone hstep hsame'
    refine scanInv_entry (hdone (hsame'.mono ?_)) hsame' hstep
    exact fun e he => List.mem_append_left _ he
  · exact fun _ => ⟨.nil, fun f hf => absurd hf List.not_mem_nil,
      fun i hi => absurd hi List.not_mem_nil⟩

structure ScanReports (c : Contents Bytes) (walk : List (WalkEntry Bytes))
    (files : List FileEntry) : Prop where
  scanned : List.Forall₂ (Scanned c) (walk.filter fun e => leafNode e.node) files
  /-- Files of one inode have one root. -/
  roots : ∀ f ∈ files, ∀ g ∈ files, f.symlinkTarget = none → g.symlinkTarget = none →
    (f.dev, f.ino) = (g.dev, g.ino) → root f = root g
  /-- The root is a file of the inode that is no duplicate. -/
  first : ∀ f ∈ files, f.symlinkTarget = none → ∃ g ∈ files, g.symlinkTarget = none ∧
    g.duplicateOf = none ∧ (g.dev, g.ino) = (f.dev, f.ino) ∧ g.path = root f ∧
    g.sha256 = f.sha256

theorem scan_reports {c : Contents Bytes} {rootPath code : String}
    {walk : List (WalkEntry Bytes)} {scan : ScanResult} (hsame : SameContents walk)
    (h : scanProblemFolder c rootPath code (some walk) = .ok scan) :
    ScanReports c walk scan.files := by
  obtain ⟨st, hst, rfl⟩ := scanProblemFolder_eq_ok h
  have hinv := scanInv_scan hsame hst
  refine ⟨hinv.scanned, ?_, ?_⟩
  · intro f hf g hg hregular hregular' hinode
    have hroot := hinv.roots f hf hregular
    rw [hinode, hinv.roots g hg hregular'] at hroot
    exact (congrArg (fun i => i.2.1) (Option.some.inj hroot)).symm
  · intro f hf hregular
    have hroot := hinv.roots f hf hregular
    exact hinv.first _ (List.mem_of_find?_eq_some hroot)

theorem ScanReports.walked {c : Contents Bytes} {walk : List (WalkEntry Bytes)}
    {files : List FileEntry} (h : ScanReports c walk files) {f : FileEntry} (hf : f ∈ files) :
    ∃ e ∈ walk, Scanned c e f := by
  obtain ⟨e, he, hscanned⟩ := mem_of_forall₂ h.scanned hf
  exact ⟨e, (List.mem_filter.mp he).1, hscanned⟩

theorem ScanReports.reported {c : Contents Bytes} {walk : List (WalkEntry Bytes)}
    {files : List FileEntry} (h : ScanReports c walk files) {e : WalkEntry Bytes}
    (he : e ∈ walk) (hleaf : leafNode e.node = true) : ∃ f ∈ files, Scanned c e f := by
  have hmem : e ∈ walk.filter fun e => leafNode e.node := List.mem_filter.mpr ⟨he, hleaf⟩
  obtain ⟨f, hf, hscanned⟩ := mem_of_forall₂ h.scanned.flip hmem
  exact ⟨f, hf, hscanned⟩

theorem scanEntry_total {c : Contents Bytes} {folder : String} {st : ScanState}
    {e : WalkEntry Bytes} (he : Scannable e) : ∃ st', scanEntry c folder st e = .ok st' := by
  unfold Scannable at he
  unfold scanEntry
  cases hnode : e.node with
  | dir => exact ⟨st, rfl⟩
  | special =>
      rw [hnode] at he
      exact he.elim
  | file inode content =>
      rw [hnode] at he
      obtain ⟨path, hpath⟩ := he
      simp only [scanFile, hpath]
      cases hseen : st.inodePaths.find? fun i => i.1 = e.stat.inode with
      | none => exact ⟨_, rfl⟩
      | some i => exact ⟨_, rfl⟩
  | symlink target =>
      rw [hnode] at he
      obtain ⟨path, text, hpath, htext, hvalid⟩ := he
      simp only [scanSymlink, hpath, htext]
      exact ⟨_, bind_eq_ok.mpr ⟨path, rfl, check_eq_ok.mpr ⟨hvalid, rfl⟩⟩⟩

theorem scan_total {c : Contents Bytes} {rootPath code : String}
    {walk : List (WalkEntry Bytes)} (hcode : validateRelativePath code = .ok ())
    (hscannable : ∀ e ∈ walk, Scannable e) :
    ∃ scan, scanProblemFolder c rootPath code (some walk) = .ok scan := by
  have hloop : ∃ st, walk.foldlM (scanEntry c s!"{rootPath}/{code}") {} = .ok st ∧ True := by
    refine foldlM_total (I := fun _ _ => True) ?_ trivial
    intro done e todo st hwalk _
    have hmem : e ∈ walk := by
      rw [hwalk]
      exact List.mem_append_right _ List.mem_cons_self
    obtain ⟨st', hst'⟩ := scanEntry_total (hscannable e hmem)
    exact ⟨st', hst', trivial⟩
  obtain ⟨st, hst, -⟩ := hloop
  exact ⟨st.toScanResult code, check_eq_ok.mpr ⟨hcode, bind_eq_ok.mpr ⟨st, hst, rfl⟩⟩⟩

end ExternalStorage.Restore
