import ExternalStorage.Restore.Materialising
import ExternalStorage.Restore.Symlinks
import ExternalStorage.Restore.WalkOrder

/-!
# A folder after its snapshot and its restore

The scanner writes the paths that the manifest lists, and `materialize_manifest_files` makes the
folder again out of these paths alone.  The restored folder scans as the first one did exactly
where the paths are those of one tree; then the watcher finds nothing new in it.
-/

namespace ExternalStorage.Restore

open ExternalStorage.Model ExternalStorage.Snapshot Library.Loops Library.Runs Library.Trees

variable {Bytes : Type}

/-! ## Statements -/

/-- What a scan says of a file or link, apart from the other names of its inode. -/
def FileEntry.record (f : FileEntry) : String × String × Nat × Option String :=
  (f.path, f.sha256, f.size, f.symlinkTarget)

/-- Two scans report the same files and links, and the same names as those of one inode. -/
structure SameFolder (files files' : List FileEntry) : Prop where
  records : (files.map FileEntry.record).Perm (files'.map FileEntry.record)
  hardLinks : ∀ f ∈ files, ∀ g ∈ files, ∀ f' ∈ files', ∀ g' ∈ files', f.path = f'.path →
    g.path = g'.path → f.symlinkTarget = none → g.symlinkTarget = none →
      (root f = root g ↔ root f' = root g')

/-- The manifest is restored, and every scan of the folder that it leaves reports `files`. -/
def RoundTrips [DecidableEq Bytes] (c : Contents Bytes) (rootPath code staging : String)
    (store : String → Option Bytes) (m : Manifest) (files : List FileEntry) : Prop :=
  ∃ s, materializeManifestFiles c store m staging = .ok s ∧ ∀ walk, Walks walk s.entries →
    ∃ scan, scanProblemFolder c rootPath code (some walk) = .ok scan ∧ SameFolder files scan.files

/-- A folder of files whose names the scanner does not change. -/
structure PlainFolder (entries : Entries Bytes) : Prop where
  names : ∀ e ∈ entries, ∃ names, names ≠ [] ∧ (∀ name ∈ names, PlainName name) ∧
    e.1 = names.map OsName.ofText
  distinct : (entries.map Prod.fst).Nodup
  leaves : ∀ e ∈ entries, ∀ e' ∈ entries, leafNode e.2 = true → e.1 <+: e'.1 → e.1 = e'.1
  contents : ∀ p q i x y, (p, .file i x) ∈ entries → (q, .file i y) ∈ entries → x = y

/-! ## The tree of any manifest -/

structure StagedWell (s : Staging Bytes) : Prop where
  wellFormed : WellFormed s.tree
  names : ∀ e ∈ s.tree, ∀ name ∈ e.1, PlainName name
  bounded : ∀ p i x, (p, some (.file i x)) ∈ s.tree → i < s.nextInode
  contents : ∀ p q i x y, (p, some (.file i x)) ∈ s.tree → (q, some (.file i y)) ∈ s.tree → x = y

structure PlainDir (t : Tree String (StagedLeaf Bytes)) (dir : List String) : Prop where
  found : lookup t dir = some none
  names : ∀ name ∈ dir, PlainName name

section Staged

variable {t t' : Tree String (StagedLeaf Bytes)} {s s' : Staging Bytes}

theorem plainDir_root : PlainDir t [] := ⟨lookup_root t, fun _ h => absurd h List.not_mem_nil⟩

theorem PlainDir.parent (ht : WellFormed t) {dir : List String} (h : PlainDir t dir)
    (hne : dir ≠ []) : PlainDir t dir.dropLast := by
  refine ⟨ht.lookup_prefix h.found (List.dropLast_prefix dir) ?_,
    fun name hname => h.names name (List.mem_of_mem_dropLast hname)⟩
  intro heq
  have hlength := congrArg List.length heq
  rw [List.length_dropLast] at hlength
  have hpos := List.length_pos_of_ne_nil hne
  omega

theorem plainDir_of_lookup {dir : List String} {name : String}
    (hnames : ∀ e ∈ t, ∀ name ∈ e.1, PlainName name)
    (hfound : lookup t (dir ++ [name]) = some none) : PlainDir t (dir ++ [name]) :=
  ⟨hfound, hnames _ (mem_of_lookup
    (List.append_ne_nil_of_right_ne_nil _ (List.cons_ne_nil name [])) hfound)⟩

theorem resolveDir_dir (ht : WellFormed t) (hnames : ∀ e ∈ t, ∀ name ∈ e.1, PlainName name)
    {links links' : Nat} {dir dir' : List String} {cs : List Component} (hdir : PlainDir t dir)
    (h : resolveDir t links dir cs = .ok (links', dir')) : PlainDir t dir' := by
  fun_induction resolveDir t links dir cs with
  | case1 =>
      cases h
      exact hdir
  | case2 => cases h
  | case3 links dir name cs hfound ih => exact ih (plainDir_of_lookup hnames hfound) h
  | case4 => cases h
  | case5 => cases h
  | case6 _ _ _ _ _ _ ih => exact ih hdir h
  | case7 _ _ _ ih => exact ih hdir h
  | case8 => cases h
  | case9 _ _ _ hne ih => exact ih (hdir.parent ht hne) h
  | case10 => cases h

theorem createDirAll_wellFormed (ht : WellFormed t)
    (hnames : ∀ e ∈ t, ∀ name ∈ e.1, PlainName name) {links : Nat} {dir dir' names : List String}
    (hdir : PlainDir t dir) (hplain : ∀ name ∈ names, PlainName name)
    (h : createDirAll t links dir names = .ok (t', dir')) :
    WellFormed t' ∧ (∀ e ∈ t', ∀ name ∈ e.1, PlainName name) ∧ PlainDir t' dir' := by
  induction names generalizing t links dir with
  | nil =>
      cases h
      exact ⟨ht, hnames, hdir⟩
  | cons name names ih =>
      have hrest : ∀ name ∈ names, PlainName name := fun name hname =>
        hplain name (List.mem_cons_of_mem _ hname)
      have hne : dir ++ [name] ≠ [] :=
        List.append_ne_nil_of_right_ne_nil _ (List.cons_ne_nil name [])
      unfold createDirAll at h
      split at h
      · rename_i hfree
        have hkey : ∀ part ∈ dir ++ [name], PlainName part := by
          intro part hpart
          rcases List.mem_append.mp hpart with hold | hnew
          · exact hdir.names part hold
          · rw [List.mem_singleton.mp hnew]
            exact hplain name List.mem_cons_self
        refine ih (ht.concat hdir.found hfree) ?_ ⟨?_, hkey⟩ hrest h
        · intro e he
          rcases List.mem_append.mp he with hold | hnew
          · exact hnames e hold
          · rw [List.mem_singleton.mp hnew]
            exact hkey
        · rw [lookup_concat hne hfree, if_pos rfl]
      · rename_i hfound
        exact ih ht hnames (plainDir_of_lookup hnames hfound) hrest h
      · cases h
      · split at h
        · cases h
        · split at h
          · cases h
          · rename_i hresolve
            exact ih ht hnames (resolveDir_dir ht hnames hdir hresolve) hrest h

theorem createParents_well (hs : StagedWell s) {staging path : String} {p : List String}
    (hplain : ∀ name ∈ pathNames path, PlainName name) (hne : pathNames path ≠ [])
    (h : s.createParents staging path = .ok (s', p)) :
    StagedWell s' ∧ ∃ dir name, p = dir ++ [name] ∧ PlainName name ∧ PlainDir s'.tree dir := by
  obtain ⟨-, h⟩ := check_eq_ok.mp h
  obtain ⟨⟨tree, dir⟩, hdirs, h⟩ := bind_eq_ok.mp h
  cases h
  obtain ⟨htree, hnames, hdir⟩ := createDirAll_wellFormed hs.wellFormed hs.names plainDir_root
    (fun name hname => hplain name (List.mem_of_mem_dropLast hname)) hdirs
  refine ⟨⟨htree, hnames, ?_, ?_⟩, dir, (pathNames path).getLast hne, ?_,
    hplain _ (List.getLast_mem hne), hdir⟩
  · exact fun p i x hp => hs.bounded p i x (createDirAll_leaf hdirs hp)
  · exact fun p q i x y hp hq => hs.contents p q i x y (createDirAll_leaf hdirs hp)
      (createDirAll_leaf hdirs hq)
  · rw [List.getLast?_eq_getLast_of_ne_nil hne, Option.toList_some]

theorem StagedWell.leaf (hs : StagedWell s) {dir : List String} {name : String}
    {leaf : StagedLeaf Bytes} {next : Nat} (hname : PlainName name) (hdir : PlainDir s.tree dir)
    {tree : Tree String (StagedLeaf Bytes)} (htree : WellFormed tree)
    (hkeys : ∀ e ∈ tree, e ∈ s.tree ∨ e = (dir ++ [name], some leaf)) (hnext : s.nextInode ≤ next)
    (hleaf : ∀ i x, leaf = .file i x → i < next ∧
      ∀ p y, (p, some (.file i y)) ∈ s.tree → x = y) :
    StagedWell ⟨tree, next⟩ := by
  refine ⟨htree, ?_, ?_, ?_⟩
  · intro e he
    rcases hkeys e he with hold | rfl
    · exact hs.names e hold
    · intro part hpart
      rcases List.mem_append.mp hpart with hpart | hpart
      · exact hdir.names part hpart
      · rw [List.mem_singleton.mp hpart]
        exact hname
  · intro p i x hp
    rcases hkeys _ hp with hold | hnew
    · exact Nat.lt_of_lt_of_le (hs.bounded p i x hold) hnext
    · exact (hleaf i x (Option.some.inj (congrArg Prod.snd hnew)).symm).1
  · intro p q i x y hp hq
    rcases hkeys _ hp with hold | hnew <;> rcases hkeys _ hq with hold' | hnew'
    · exact hs.contents p q i x y hold hold'
    · exact ((hleaf i y (Option.some.inj (congrArg Prod.snd hnew')).symm).2 p x hold).symm
    · exact (hleaf i x (Option.some.inj (congrArg Prod.snd hnew)).symm).2 q y hold'
    · have hsame := (congrArg Prod.snd hnew).trans (congrArg Prod.snd hnew').symm
      cases hsame
      rfl

theorem putFile_well (hs : StagedWell s) {dir : List String} {name : String} {content : Bytes}
    (hname : PlainName name) (hdir : PlainDir s.tree dir)
    (h : s.putFile (dir ++ [name]) content = .ok s') : StagedWell s' := by
  have hfresh : ∀ i x, StagedLeaf.file s.nextInode content = .file i x → i < s.nextInode + 1 ∧
      ∀ p y, (p, some (.file i y)) ∈ s.tree → x = y := by
    intro i x hsame
    cases hsame
    refine ⟨Nat.lt_succ_self _, fun p y hp => ?_⟩
    exact absurd (hs.bounded p _ y hp) (Nat.lt_irrefl _)
  unfold Staging.putFile at h
  split at h
  · rename_i hfree
    cases h
    refine hs.leaf hname hdir (hs.wellFormed.concat hdir.found hfree) ?_ (Nat.le_succ _) hfresh
    intro e he
    rcases List.mem_append.mp he with hold | hnew
    · exact .inl hold
    · exact .inr (List.mem_singleton.mp hnew)
  · cases h
  · rename_i hfound
    cases h
    refine hs.leaf hname hdir (hs.wellFormed.setLeaf hfound) ?_ (Nat.le_succ _) hfresh
    intro e he
    rcases mem_setLeaf.mp he with ⟨hold, -⟩ | ⟨hnew, -⟩
    · exact .inl hold
    · exact .inr hnew

theorem addLeaf_well (hs : StagedWell s) {dir : List String} {name : String}
    {leaf : StagedLeaf Bytes} (hname : PlainName name) (hdir : PlainDir s.tree dir)
    (hleaf : ∀ i x, leaf = .file i x → ∃ p, (p, some (.file i x)) ∈ s.tree)
    (h : s.addLeaf (dir ++ [name]) leaf = .ok s') : StagedWell s' := by
  have hkept : ∀ i x, leaf = .file i x → i < s.nextInode ∧
      ∀ p y, (p, some (.file i y)) ∈ s.tree → x = y := by
    intro i x hsame
    obtain ⟨q, hq⟩ := hleaf i x hsame
    exact ⟨hs.bounded q i x hq, fun p y hp => hs.contents q p i x y hq hp⟩
  unfold Staging.addLeaf at h
  split at h
  · rename_i hfree
    cases h
    refine hs.leaf hname hdir (hs.wellFormed.concat hdir.found hfree) ?_ (Nat.le_refl _) hkept
    intro e he
    rcases List.mem_append.mp he with hold | hnew
    · exact .inl hold
    · exact .inr (List.mem_singleton.mp hnew)
  · cases h

end Staged

section Manifest

variable {c : Contents Bytes} {store : String → Option Bytes} {staging : String}
  {s s' : Staging Bytes} {f : ManifestFile}

theorem materializeRegular_well (hpath : '\\' ∉ f.path.toList) (hs : StagedWell s)
    (h : materializeRegular c store staging s f = .ok s') : StagedWell s' := by
  simp only [materializeRegular, check_eq_ok] at h
  obtain ⟨hvalid, h⟩ := h
  simp only [bind_eq_ok] at h
  obtain ⟨⟨s₁, target⟩, hparents, bytes, -, _, -, _, -, _, -, hput⟩ := h
  obtain ⟨hs₁, dir, name, rfl, hname, hdir⟩ := createParents_well hs
    (fun name hname => plainName_of_mem_pathNames hpath hname) (pathNames_ne_nil hvalid) hparents
  exact putFile_well hs₁ hname hdir hput

theorem materializeHardLink_well {files : List ManifestFile} (hpath : '\\' ∉ f.path.toList)
    (hs : StagedWell s) (h : materializeHardLink files staging s f = .ok s') : StagedWell s' := by
  simp only [materializeHardLink, check_eq_ok] at h
  obtain ⟨hvalid, h⟩ := h
  split at h
  · cases h
  · simp only [check_eq_ok] at h
    obtain ⟨-, h⟩ := h
    split at h
    · cases h
    · simp only [bind_eq_ok] at h
      obtain ⟨_, -, ⟨s₁, target⟩, hparents, leaf, hleaf, _, -, _, -, hadd⟩ := h
      have hplain : ∀ name ∈ pathNames f.path, PlainName name := fun name hname =>
        plainName_of_mem_pathNames hpath hname
      obtain ⟨hs₁, dir, name, rfl, hname, hdir⟩ :=
        createParents_well hs hplain (pathNames_ne_nil hvalid) hparents
      obtain ⟨q, hq⟩ := leafAt_mem hleaf
      refine addLeaf_well hs₁ hname hdir ?_ hadd
      rintro i x rfl
      exact ⟨q, hq⟩

theorem materializeSymlink_well [DecidableEq Bytes] (hpath : '\\' ∉ f.path.toList)
    (hs : StagedWell s) (h : materializeSymlink c store staging s f = .ok s') : StagedWell s' := by
  simp only [materializeSymlink, check_eq_ok] at h
  obtain ⟨hvalid, h⟩ := h
  split at h
  · cases h
  · simp only [bind_eq_ok] at h
    obtain ⟨_, -, bytes, -, _, -, ⟨s₁, target⟩, hparents, _, -, _, -, hadd⟩ := h
    obtain ⟨hs₁, dir, name, rfl, hname, hdir⟩ := createParents_well hs
      (fun name hname => plainName_of_mem_pathNames hpath hname) (pathNames_ne_nil hvalid) hparents
    refine addLeaf_well hs₁ hname hdir ?_ hadd
    intro i x hsame
    cases hsame

theorem foldlM_well {body : Staging Bytes → ManifestFile → Except AppError (Staging Bytes)}
    {files : List ManifestFile}
    (step : ∀ f ∈ files, ∀ s s', StagedWell s → body s f = .ok s' → StagedWell s')
    (hs : StagedWell s) (h : files.foldlM body s = .ok s') : StagedWell s' := by
  have hloop := foldlM_invariant (I := fun done s => (∀ f ∈ done, f ∈ files) → StagedWell s)
    (fun done f s t hdone hstep hmem => step f (hmem f (by simp)) s t
      (hdone fun g hg => hmem g (List.mem_append_left _ hg)) hstep)
    (fun _ => hs) h
  exact hloop fun _ hf => hf

theorem materialized_well [DecidableEq Bytes] {m : Manifest}
    (hpaths : ∀ f ∈ m.files, '\\' ∉ f.path.toList)
    (h : materializeManifestFiles c store m staging = .ok s) : StagedWell s := by
  simp only [materializeManifestFiles, bind_eq_ok] at h
  obtain ⟨s₁, hregular, s₂, hhard, hsymlink⟩ := h
  have hempty : StagedWell ({} : Staging Bytes) :=
    ⟨wellFormed_nil, fun _ h => absurd h List.not_mem_nil, fun _ _ _ h => absurd h List.not_mem_nil,
      fun _ _ _ _ _ h => absurd h List.not_mem_nil⟩
  have hs₁ := foldlM_well (fun f hf _ _ => materializeRegular_well
    (hpaths f (List.mem_filter.mp hf).1)) hempty hregular
  have hs₂ := foldlM_well (fun f hf _ _ => materializeHardLink_well
    (hpaths f (List.mem_filter.mp hf).1)) hs₁ hhard
  exact foldlM_well (fun f hf _ _ => materializeSymlink_well
    (hpaths f (List.mem_filter.mp hf).1)) hs₂ hsymlink

theorem isRegular_iff :
    f.isRegular = true ↔ f.isHardLink = false ∧ f.symlinkTarget.isSome = false := by
  rw [ManifestFile.isRegular, ManifestFile.isHardLink]
  cases f.duplicateOf <;> cases f.symlinkTarget <;> simp

theorem materializeRegular_fits (hregular : f.isRegular = true)
    (h : materializeRegular c store staging s f = .ok s') :
    fits staging (ManifestFile.written f) = true := by
  simp only [materializeRegular, bind_eq_ok, refuseIf_eq_ok, Bool.not_eq_false] at h
  obtain ⟨_, -, _, -, _, -, _, hfits, -⟩ := h
  rw [ManifestFile.written, if_pos hregular]
  exact hfits

theorem materializeHardLink_fits {files : List ManifestFile} (hlink : f.isHardLink = true)
    (h : materializeHardLink files staging s f = .ok s') :
    fits staging (ManifestFile.written f) = true := by
  rw [written_of_not_regular (Bool.eq_false_iff.mpr fun h => by simp [isRegular_iff.mp h] at hlink)]
  obtain ⟨-, h⟩ := check_eq_ok.mp h
  split at h
  · cases h
  · obtain ⟨-, h⟩ := check_eq_ok.mp h
    split at h
    · cases h
    · simp only [bind_eq_ok, refuseIf_eq_ok, Bool.not_eq_false] at h
      obtain ⟨_, -, _, -, _, -, _, hfits, -⟩ := h
      exact hfits

theorem materializeSymlink_fits [DecidableEq Bytes] (hlink : f.symlinkTarget.isSome = true)
    (h : materializeSymlink c store staging s f = .ok s') :
    fits staging (ManifestFile.written f) = true := by
  rw [written_of_not_regular (Bool.eq_false_iff.mpr fun h => by simp [isRegular_iff.mp h] at hlink)]
  obtain ⟨-, h⟩ := check_eq_ok.mp h
  split at h
  · cases h
  · simp only [bind_eq_ok, refuseIf_eq_ok, Bool.not_eq_false] at h
    obtain ⟨_, -, _, -, _, -, _, -, _, hfits, -⟩ := h
    exact hfits

theorem foldlM_each {body : Staging Bytes → ManifestFile → Except AppError (Staging Bytes)}
    {files : List ManifestFile} (h : files.foldlM body s = .ok s') (hf : f ∈ files) :
    ∃ t u, body t f = .ok u := by
  obtain ⟨done, todo, rfl⟩ := List.append_of_mem hf
  obtain ⟨t, -, u, hu⟩ := foldlM_eq_ok_at h
  exact ⟨t, u, hu⟩

/-- A restore that gets to its end has written no name that the system turns down. -/
theorem materialized_fit [DecidableEq Bytes] {m : Manifest}
    (h : materializeManifestFiles c store m staging = .ok s) : FilesFit staging m.files := by
  simp only [materializeManifestFiles, bind_eq_ok] at h
  obtain ⟨s₁, hregular, s₂, hhard, hsymlink⟩ := h
  intro f hf
  cases hlink : f.symlinkTarget.isSome with
  | true =>
      obtain ⟨t, u, hstep⟩ := foldlM_each hsymlink (List.mem_filter.mpr ⟨hf, hlink⟩)
      exact materializeSymlink_fits hlink hstep
  | false =>
      cases hdup : f.isHardLink with
      | true =>
          obtain ⟨t, u, hstep⟩ := foldlM_each hhard (List.mem_filter.mpr ⟨hf, hdup⟩)
          exact materializeHardLink_fits hdup hstep
      | false =>
          have hkind : f.isRegular = true := isRegular_iff.mpr ⟨hdup, hlink⟩
          obtain ⟨t, u, hstep⟩ := foldlM_each hregular (List.mem_filter.mpr ⟨hf, hkind⟩)
          exact materializeRegular_fits hkind hstep

end Manifest

/-! ## Walks of the staging directory -/

section Walks

variable {s : Staging Bytes} {walk : List (WalkEntry Bytes)}

/-- A walk of the staging directory, with the inodes for inode numbers. -/
def stagedWalk (s : Staging Bytes) : List (WalkEntry Bytes) :=
  s.entries.map fun e => ⟨e.1, e.2, ⟨0, match e.2 with | .file i _ => i | _ => 0, 1, 0, 0⟩⟩

theorem walks_stagedWalk (s : Staging Bytes) : Walks (stagedWalk s) s.entries := by
  refine ⟨?_, ?_⟩
  · rw [stagedWalk, List.map_map]
    exact List.Perm.of_eq (List.map_id _)
  · intro e he e' he' i x i' x' hnode hnode'
    obtain ⟨entry, -, rfl⟩ := List.mem_map.mp he
    obtain ⟨entry', -, rfl⟩ := List.mem_map.mp he'
    dsimp only at hnode hnode'
    simp only [Stat.inode, hnode, hnode', Prod.mk.injEq, true_and]

theorem staged_of_walks (h : Walks walk s.entries) {e : WalkEntry Bytes} (he : e ∈ walk) :
    ∃ p leaf, (p, leaf) ∈ s.tree ∧ e.names = p.map OsName.ofText ∧
      e.node = (leaf.map StagedLeaf.node).getD .dir := by
  have hentries := h.entries.mem_iff.mp (List.mem_map_of_mem he)
  obtain ⟨⟨p, leaf⟩, hmem, hentry⟩ := List.mem_map.mp hentries
  exact ⟨p, leaf, hmem, (congrArg Prod.fst hentry).symm, (congrArg Prod.snd hentry).symm⟩

theorem met_of_walks (h : Walks walk s.entries) {p : List String} {leaf : StagedLeaf Bytes}
    (hp : (p, some leaf) ∈ s.tree) :
    ∃ e ∈ walk, e.names = p.map OsName.ofText ∧ e.node = leaf.node := by
  have hentry : (p.map OsName.ofText, leaf.node) ∈ s.entries := List.mem_map.mpr ⟨_, hp, rfl⟩
  obtain ⟨e, he, heq⟩ := List.mem_map.mp (h.entries.mem_iff.mpr hentry)
  exact ⟨e, he, congrArg Prod.fst heq, congrArg Prod.snd heq⟩

end Walks

/-! ## Folders with plain names -/

theorem sameContents_of_walks {entries : Entries Bytes}
    (h : ∀ p q i x y, (p, .file i x) ∈ entries → (q, .file i y) ∈ entries → x = y)
    {walk : List (WalkEntry Bytes)} (hwalk : Walks walk entries) : SameContents walk := by
  intro e he e' he' i x i' x' hnode hnode' hinode
  have hsame := (hwalk.inodes e he e' he' i x i' x' hnode hnode').mp hinode
  have hmem := hwalk.entries.mem_iff.mp (List.mem_map_of_mem he)
  have hmem' := hwalk.entries.mem_iff.mp (List.mem_map_of_mem he')
  rw [hnode] at hmem
  rw [hnode', ← hsame] at hmem'
  exact h _ _ i x x' hmem hmem'

theorem PlainFolder.sameContents {entries : Entries Bytes} (h : PlainFolder entries)
    {walk : List (WalkEntry Bytes)} (hwalk : Walks walk entries) : SameContents walk :=
  sameContents_of_walks h.contents hwalk

theorem scannedPath_ofText {names : List String} (hnames : names ≠ [])
    (hplain : ∀ name ∈ names, PlainName name) :
    scannedPath (names.map OsName.ofText) = joinPath names :=
  (normalizedRelativePath_eq_ok.mp (normalizedRelativePath_ofText hnames hplain)).1.symm

theorem PlainFolder.treePaths {entries : Entries Bytes} (h : PlainFolder entries)
    {walk : List (WalkEntry Bytes)} (hwalk : Walks walk entries) : TreePaths (leafPaths walk) := by
  have hentry : ∀ e ∈ walk, (e.names, e.node) ∈ entries := fun e he =>
    hwalk.entries.mem_iff.mp (List.mem_map_of_mem he)
  have hnames : ∀ e ∈ walk, ∃ names, names ≠ [] ∧ (∀ name ∈ names, PlainName name) ∧
      e.names = names.map OsName.ofText ∧ pathNames (scannedPath e.names) = names := by
    intro e he
    obtain ⟨names, hne, hplain, heq⟩ := h.names _ (hentry e he)
    have heq : e.names = names.map OsName.ofText := heq
    refine ⟨names, hne, hplain, heq, ?_⟩
    rw [heq, scannedPath_ofText hne hplain]
    exact pathNames_joinPath fun name hname => (hplain name hname).entryName
  have hdistinct : (walk.map WalkEntry.names).Nodup := by
    have hkeys := (hwalk.entries.map Prod.fst).nodup_iff.mpr h.distinct
    rwa [List.map_map] at hkeys
  have hleaf : ∀ path ∈ leafPaths walk, ∃ e ∈ walk, leafNode e.node = true ∧
      scannedPath e.names = path := by
    intro path hpath
    obtain ⟨e, he, rfl⟩ := List.mem_map.mp hpath
    exact ⟨e, (List.mem_filter.mp he).1, (List.mem_filter.mp he).2, rfl⟩
  refine ⟨?_, ?_, ?_⟩
  · intro path hpath
    obtain ⟨e, he, -, rfl⟩ := hleaf path hpath
    obtain ⟨names, hne, hplain, heq, hback⟩ := hnames e he
    rw [hback, heq, scannedPath_ofText hne hplain]
  · refine List.Nodup.map_on ?_ ((List.Nodup.of_map _ hdistinct).filter _)
    intro e he e' he' hpath
    have he := (List.mem_filter.mp he).1
    have he' := (List.mem_filter.mp he').1
    obtain ⟨names, -, -, heq, hback⟩ := hnames e he
    obtain ⟨names', -, -, heq', hback'⟩ := hnames e' he'
    apply List.inj_on_of_nodup_map hdistinct he he'
    rw [heq, heq', ← hback, ← hback', hpath]
  · intro path hpath other hother hpre
    obtain ⟨e, he, hfile, rfl⟩ := hleaf path hpath
    obtain ⟨e', he', -, rfl⟩ := hleaf other hother
    obtain ⟨names, -, -, heq, hback⟩ := hnames e he
    obtain ⟨names', -, -, heq', hback'⟩ := hnames e' he'
    rw [hback, hback'] at hpre
    have hbelow : e.names <+: e'.names := by
      rw [heq, heq']
      exact hpre.map _
    have hsame := h.leaves _ (hentry e he) _ (hentry e' he') hfile hbelow
    have hsame : e.names = e'.names := hsame
    rw [hsame]

theorem leaf_of_node {leaf : Option (StagedLeaf Bytes)} {i : Nat} {x : Bytes}
    (h : (leaf.map StagedLeaf.node).getD .dir = .file i x) : leaf = some (.file i x) := by
  cases leaf with
  | none => cases h
  | some leaf =>
      cases leaf with
      | file i' x' =>
          cases h
          rfl
      | symlink target => cases h

theorem StagedWell.plainFolder {s : Staging Bytes} (hs : StagedWell s) :
    PlainFolder s.entries := by
  have hinj : Function.Injective (List.map OsName.ofText) := by
    apply List.map_injective_iff.mpr
    intro a b hab
    simpa [OsName.ofText] using hab
  refine ⟨?_, ?_, ?_, ?_⟩
  · intro e he
    obtain ⟨entry, hentry, rfl⟩ := List.mem_map.mp he
    exact ⟨entry.1, hs.wellFormed.ne_root hentry, hs.names _ hentry, rfl⟩
  · have hkeys : s.entries.map Prod.fst = (s.tree.map Prod.fst).map (List.map OsName.ofText) := by
      rw [Staging.entries, List.map_map, List.map_map]
      rfl
    rw [hkeys]
    exact hs.wellFormed.keys.map hinj
  · intro e he e' he' hleaf hpre
    obtain ⟨⟨p, leaf⟩, hp, rfl⟩ := List.mem_map.mp he
    obtain ⟨⟨q, other⟩, hq, rfl⟩ := List.mem_map.mp he'
    have hbelow : p <+: q := by
      rw [List.prefix_iff_eq_take] at hpre ⊢
      rw [List.length_map, ← List.map_take] at hpre
      exact hinj hpre
    cases leaf with
    | none => cases hleaf
    | some leaf => rw [hs.wellFormed.eq_of_leaf_prefix hp hq hbelow]
  · intro p q i x y hp hq
    obtain ⟨entry, hentry, heq⟩ := List.mem_map.mp hp
    obtain ⟨entry', hentry', heq'⟩ := List.mem_map.mp hq
    have hleaf : entry.2 = some (.file i x) := leaf_of_node (congrArg Prod.snd heq)
    have hleaf' : entry'.2 = some (.file i y) := leaf_of_node (congrArg Prod.snd heq')
    exact hs.contents entry.1 entry'.1 i x y (hleaf ▸ hentry) (hleaf' ▸ hentry')

/-! ## From the scan to the tree -/

section Scan

variable {c : Contents Bytes} {walk : List (WalkEntry Bytes)} {scan : ScanResult}

theorem ScanReports.root_eq_iff (h : ScanReports c walk scan.files)
    (hpaths : (scan.files.map FileEntry.path).Nodup) {f g : FileEntry} (hf : f ∈ scan.files)
    (hg : g ∈ scan.files) (hfile : f.symlinkTarget = none) (hgile : g.symlinkTarget = none) :
    root f = root g ↔ (f.dev, f.ino) = (g.dev, g.ino) := by
  constructor
  · intro hroot
    obtain ⟨f₀, hf₀, -, -, hinode, hpath, -⟩ := h.first f hf hfile
    obtain ⟨g₀, hg₀, -, -, hinode', hpath', -⟩ := h.first g hg hgile
    have hsame : f₀ = g₀ := by
      apply List.inj_on_of_nodup_map hpaths hf₀ hg₀
      rw [hpath, hpath', hroot]
    rw [← hinode, ← hinode', hsame]
  · exact h.roots f hf g hg hfile hgile

/-- What was scanned of a file, and the object that has the hash of it. -/
theorem ScanReports.content (h : ScanReports c walk scan.files) {f : FileEntry}
    (hf : f ∈ scan.files)
    (hsha : ∀ x y, c.sha256Bytes x = f.sha256 → c.sha256Bytes y = f.sha256 → x = y)
    (hfile : f.symlinkTarget = none) {bytes : Bytes} (hsum : c.sha256Bytes bytes = f.sha256) :
    f.size = c.len bytes := by
  obtain ⟨e, -, hscanned⟩ := h.walked hf
  have hnode := hscanned.node
  cases hkind : e.node with
  | dir | special =>
      rw [hkind] at hnode
      exact hnode.elim
  | symlink target =>
      rw [hkind] at hnode
      obtain ⟨-, text, -, hlink, -⟩ := hnode
      rw [hfile] at hlink
      cases hlink
  | file i content =>
      rw [hkind] at hnode
      have hcontent : bytes = content := hsha _ _ hsum hnode.2.1.symm
      rw [hcontent]
      exact hnode.2.2

theorem ScanReports.record_eq (h : ScanReports c walk scan.files) {store : String → Option Bytes}
    {f f' : FileEntry} (hf : f ∈ scan.files)
    (hsha : ∀ x y, c.sha256Bytes x = f.sha256 → c.sha256Bytes y = f.sha256 → x = y)
    (hcanonical : joinPath (pathNames f.path) = f.path)
    (hstored : ∃ bytes, store f.toManifestFile.objectKey = some bytes ∧
      c.sha256Bytes bytes = f.sha256)
    {leaf : StagedLeaf Bytes} (hleaf : LeafOf store f.toManifestFile leaf) {e : WalkEntry Bytes}
    (hnames : e.names = (pathNames f.path).map OsName.ofText) (hnode : e.node = leaf.node)
    (hscanned : Scanned c e f') : FileEntry.record f' = FileEntry.record f := by
  have hok := h.manifestFileOk hf
  obtain ⟨e₀, -, hscanned₀⟩ := h.walked hf
  have hplain : ∀ name ∈ pathNames f.path, PlainName name := fun name hname =>
    plainName_of_mem_pathNames (backslash_notMem_normalized hscanned₀.path) hname
  have hpath : f'.path = f.path := by
    have hnormal := hscanned.path
    have hne : pathNames f.path ≠ [] := pathNames_ne_nil hok.path
    rw [hnames, normalizedRelativePath_ofText hne hplain] at hnormal
    rw [← hcanonical]
    exact (Except.ok.inj hnormal).symm
  have hreported := hscanned.node
  cases leaf with
  | file i content =>
      rw [hnode, StagedLeaf.node] at hreported
      obtain ⟨hfile, hobject⟩ := hleaf
      obtain ⟨bytes, hbytes, hsum⟩ := hstored
      obtain rfl : bytes = content := Option.some.inj (hbytes.symm.trans hobject)
      rw [FileEntry.record, FileEntry.record, hpath, hreported.1, hreported.2.1, hreported.2.2,
        hsum, h.content hf hsha hfile hsum]
      exact congrArg (fun target => (f.path, f.sha256, c.len bytes, target)) hfile.symm
  | symlink target =>
      rw [hnode, StagedLeaf.node] at hreported
      obtain ⟨-, text, htext, hlink, -, hsum, hsize⟩ := hreported
      obtain rfl : target = text := Option.some.inj ((OsName.toStr?_ofText target).symm.trans htext)
      have hlinked : f.symlinkTarget = some target := hleaf
      obtain ⟨-, -, -, hdigest, hlength⟩ := hok.symlink target hlinked
      have hdigest : f.sha256 = c.sha256Bytes (c.textBytes target) := hdigest
      have hlength : f.size = c.len (c.textBytes target) := hlength
      rw [FileEntry.record, FileEntry.record, hpath, hsum, hsize, hlink, hlinked, hdigest, hlength]

end Scan

/-! ## The restored folder -/

/-- The tree `s` was made of a manifest of the scan's files. -/
structure RestoredTree (c : Contents Bytes) (store : String → Option Bytes)
    (walk : List (WalkEntry Bytes)) (scan : ScanResult) (files : List ManifestFile)
    (s : Staging Bytes) : Prop where
  reports : ScanReports c walk scan.files
  manifest : files.Perm (scan.files.map FileEntry.toManifestFile)
  stored : StoreHolds c store files
  collisionFree : CollisionFree c files
  paths : TreePaths (leafPaths walk)
  materialised : ∃ done, (∀ f, f ∈ done ↔ f ∈ files) ∧ Materialised store files done s
  well : StagedWell s

section Restored

variable {c : Contents Bytes} {store : String → Option Bytes} {walk walk' : List (WalkEntry Bytes)}
  {scan : ScanResult} {files : List ManifestFile} {s : Staging Bytes}

theorem RestoredTree.canonical (h : RestoredTree c store walk scan files s) {f : FileEntry}
    (hf : f ∈ scan.files) : joinPath (pathNames f.path) = f.path := by
  apply h.paths.canonical
  rw [← h.reports.paths]
  exact List.mem_map_of_mem hf

theorem RestoredTree.mem (h : RestoredTree c store walk scan files s) {f : FileEntry}
    (hf : f ∈ scan.files) : f.toManifestFile ∈ files :=
  h.manifest.mem_iff.mpr (List.mem_map_of_mem hf)

theorem RestoredTree.treePaths (h : RestoredTree c store walk scan files s) :
    TreePaths (files.map ManifestFile.path) := by
  refine h.paths.perm ?_
  have hmap := h.manifest.map ManifestFile.path
  rw [List.map_map] at hmap
  rw [← h.reports.paths]
  exact hmap.symm

theorem RestoredTree.leaf (h : RestoredTree c store walk scan files s) {p : List String}
    {leaf : StagedLeaf Bytes} (hp : (p, some leaf) ∈ s.tree) :
    ∃ f ∈ scan.files, p = pathNames f.path ∧ LeafOf store f.toManifestFile leaf := by
  obtain ⟨done, hdone, hs⟩ := h.materialised
  obtain ⟨g, hg, hnames, hleaf⟩ := hs.leaves p leaf hp
  obtain ⟨f, hf, rfl⟩ := List.mem_map.mp (h.manifest.mem_iff.mp ((hdone g).mp hg))
  exact ⟨f, hf, hnames, hleaf⟩

theorem RestoredTree.file (h : RestoredTree c store walk scan files s) {f : FileEntry}
    (hf : f ∈ scan.files) :
    ∃ leaf, (pathNames f.path, some leaf) ∈ s.tree ∧ LeafOf store f.toManifestFile leaf := by
  obtain ⟨done, hdone, hs⟩ := h.materialised
  obtain ⟨leaf, hmem⟩ := hs.placed _ ((hdone _).mpr (h.mem hf))
  exact ⟨leaf, hmem, hs.leafOf h.treePaths (fun g hg => (hdone g).mp hg) (h.mem hf) hmem⟩

theorem RestoredTree.scannable (h : RestoredTree c store walk scan files s)
    (hwalk : Walks walk' s.entries) {e : WalkEntry Bytes} (he : e ∈ walk') : Scannable e := by
  obtain ⟨p, leaf, hp, hnames, hnode⟩ := staged_of_walks hwalk he
  have hpath : normalizedRelativePath e.names = .ok (joinPath p) := by
    rw [hnames]
    exact normalizedRelativePath_ofText (h.well.wellFormed.ne_root hp) (h.well.names _ hp)
  unfold Scannable
  rw [hnode]
  cases leaf with
  | none => trivial
  | some leaf =>
      cases leaf with
      | file i content => exact ⟨_, hpath⟩
      | symlink target =>
          obtain ⟨f, hf, rfl, hlink⟩ := h.leaf hp
          obtain ⟨-, -, hvalid, -⟩ := (h.reports.manifestFileOk hf).symlink target hlink
          refine ⟨_, target, hpath, OsName.toStr?_ofText target, ?_⟩
          rw [h.canonical hf]
          exact hvalid

theorem RestoredTree.record_eq (h : RestoredTree c store walk scan files s) {f f' : FileEntry}
    (hf : f ∈ scan.files) {leaf : StagedLeaf Bytes} (hleaf : LeafOf store f.toManifestFile leaf)
    {e : WalkEntry Bytes} (hnames : e.names = (pathNames f.path).map OsName.ofText)
    (hnode : e.node = leaf.node) (hscanned : Scanned c e f') :
    FileEntry.record f' = FileEntry.record f :=
  h.reports.record_eq hf (h.collisionFree _ (h.mem hf)) (h.canonical hf) (h.stored _ (h.mem hf))
    hleaf hnames hnode hscanned

theorem RestoredTree.reported (h : RestoredTree c store walk scan files s)
    (hwalk : Walks walk' s.entries)
    {files' : List FileEntry} (hreports : ScanReports c walk' files') {f' : FileEntry}
    (hf' : f' ∈ files') :
    ∃ f ∈ scan.files, FileEntry.record f' = FileEntry.record f ∧
      ∃ leaf, (pathNames f.path, some leaf) ∈ s.tree ∧ LeafOf store f.toManifestFile leaf ∧
        ∃ e ∈ walk', e.node = leaf.node ∧ (f'.dev, f'.ino) = e.stat.inode := by
  obtain ⟨e, he, hscanned⟩ := hreports.walked hf'
  obtain ⟨p, leaf, hp, hnames, hnode⟩ := staged_of_walks hwalk he
  cases leaf with
  | none =>
      have hleaf := hscanned.leaf
      rw [hnode] at hleaf
      cases hleaf
  | some leaf =>
      obtain ⟨f, hf, rfl, hleaf⟩ := h.leaf hp
      exact ⟨f, hf, h.record_eq hf hleaf hnames hnode hscanned, leaf, hp, hleaf, e, he, hnode,
        hscanned.inode⟩

theorem nodup_records {files : List FileEntry} (h : (files.map FileEntry.path).Nodup) :
    (files.map FileEntry.record).Nodup := by
  apply List.Nodup.of_map Prod.fst
  rwa [List.map_map]

theorem RestoredTree.records (h : RestoredTree c store walk scan files s)
    (hwalk : Walks walk' s.entries)
    {files' : List FileEntry} (hreports : ScanReports c walk' files')
    (hpaths : (files'.map FileEntry.path).Nodup) :
    (scan.files.map FileEntry.record).Perm (files'.map FileEntry.record) := by
  have hnodup : (scan.files.map FileEntry.path).Nodup := h.reports.paths ▸ h.paths.distinct
  refine (List.perm_ext_iff_of_nodup (nodup_records hnodup) (nodup_records hpaths)).mpr ?_
  intro r
  constructor
  · intro hr
    obtain ⟨f, hf, rfl⟩ := List.mem_map.mp hr
    obtain ⟨leaf, hmem, hleaf⟩ := h.file hf
    obtain ⟨e, he, hnames, hnode⟩ := met_of_walks hwalk hmem
    obtain ⟨f', hf', hscanned⟩ := hreports.reported he (by rw [hnode]; cases leaf <;> rfl)
    rw [← h.record_eq hf hleaf hnames hnode hscanned]
    exact List.mem_map_of_mem hf'
  · intro hr
    obtain ⟨f', hf', rfl⟩ := List.mem_map.mp hr
    obtain ⟨f, hf, hrecord, -⟩ := h.reported hwalk hreports hf'
    rw [hrecord]
    exact List.mem_map_of_mem hf

theorem RestoredTree.inode_eq_iff (h : RestoredTree c store walk scan files s) {f g : FileEntry}
    (hf : f ∈ scan.files) (hg : g ∈ scan.files) (hfile : f.symlinkTarget = none)
    (hgile : g.symlinkTarget = none) {i j : Nat} {x y : Bytes}
    (hi : (pathNames f.path, some (.file i x)) ∈ s.tree)
    (hj : (pathNames g.path, some (.file j y)) ∈ s.tree) : i = j ↔ root f = root g := by
  obtain ⟨done, hdone, hs⟩ := h.materialised
  have hplaced : ∀ {f : FileEntry}, f ∈ scan.files → f.toManifestFile ∈ done := fun hf =>
    (hdone _).mpr (h.mem hf)
  have hrootf : (pathNames (root f), some (.file i x)) ∈ s.tree :=
    hs.links _ (hplaced hf) hfile _ hi
  have hrootg : (pathNames (root g), some (.file j y)) ∈ s.tree :=
    hs.links _ (hplaced hg) hgile _ hj
  constructor
  · rintro rfl
    obtain ⟨f₀, hf₀, hfile₀, hdup₀, -, hpath₀, -⟩ := h.reports.first f hf hfile
    obtain ⟨g₀, hg₀, hgile₀, hdup₀', -, hpath₀', -⟩ := h.reports.first g hg hgile
    have hregular : ∀ {f : FileEntry}, f.symlinkTarget = none → f.duplicateOf = none →
        f.toManifestFile.isRegular = true := by
      intro f hfile hdup
      have hfile : f.toManifestFile.symlinkTarget = none := hfile
      have hdup : f.toManifestFile.duplicateOf = none := hdup
      rw [ManifestFile.isRegular, hfile, hdup]
      rfl
    rw [← hpath₀] at hrootf ⊢
    rw [← hpath₀'] at hrootg ⊢
    exact hs.originals _ (hplaced hf₀) _ (hplaced hg₀) (hregular hfile₀ hdup₀)
      (hregular hgile₀ hdup₀') i x y hrootf hrootg
  · intro hroot
    rw [← hroot] at hrootg
    have hsame := h.well.wellFormed.entry_eq hrootf hrootg rfl
    cases hsame
    rfl

theorem RestoredTree.sameFolder (h : RestoredTree c store walk scan files s)
    (hwalk : Walks walk' s.entries)
    {scan' : ScanResult} (hreports : ScanReports c walk' scan'.files) :
    SameFolder scan.files scan'.files := by
  have hpaths' : (scan'.files.map FileEntry.path).Nodup := by
    rw [hreports.paths]
    exact (h.well.plainFolder.treePaths hwalk).distinct
  have hnodup : (scan.files.map FileEntry.path).Nodup := h.reports.paths ▸ h.paths.distinct
  refine ⟨h.records hwalk hreports hpaths', ?_⟩
  have hplace : ∀ f ∈ scan.files, ∀ f' ∈ scan'.files, f.path = f'.path → f.symlinkTarget = none →
      f'.symlinkTarget = none ∧ ∃ i x, (pathNames f.path, some (.file i x)) ∈ s.tree ∧
        ∃ e ∈ walk', e.node = .file i x ∧ (f'.dev, f'.ino) = e.stat.inode := by
    intro f hf f' hf' hpath hfile
    obtain ⟨f₁, hf₁, hrecord, leaf, hmem, hleaf, e, he, hnode, hinode⟩ :=
      h.reported hwalk hreports hf'
    have hsame : f₁ = f := by
      apply List.inj_on_of_nodup_map hnodup hf₁ hf
      rw [hpath]
      exact (congrArg Prod.fst hrecord).symm
    rw [hsame] at hrecord hmem hleaf
    refine ⟨(congrArg (fun r => r.2.2.2) hrecord).trans hfile, ?_⟩
    cases leaf with
    | symlink target =>
        have hlink : f.symlinkTarget = some target := hleaf
        rw [hfile] at hlink
        cases hlink
    | file i x => exact ⟨i, x, hmem, e, he, hnode, hinode⟩
  intro f hf g hg f' hf' g' hg' hpath hpath' hfile hgile
  obtain ⟨hfile', i, x, hi, e, he, hnode, hinode⟩ := hplace f hf f' hf' hpath hfile
  obtain ⟨hgile', j, y, hj, e', he', hnode', hinode'⟩ := hplace g hg g' hg' hpath' hgile
  rw [hreports.root_eq_iff hpaths' hf' hg' hfile' hgile', hinode, hinode',
    hwalk.inodes e he e' he' i x j y hnode hnode', h.inode_eq_iff hf hg hfile hgile hi hj]

end Restored

/-! ## Snapshots -/

section Snapshots

variable {c : Contents Bytes} {store : String → Option Bytes}
  {walk : List (WalkEntry Bytes)} {scan : ScanResult} {m : Manifest}
  {rootPath code staging : String}

theorem restoredTree_of_treePaths [DecidableEq Bytes] (hsame : SameContents walk)
    (hreports : ScanReports c walk scan.files)
    (hfiles : m.files.Perm (scan.files.map FileEntry.toManifestFile))
    (hsha : CollisionFree c m.files) (hstored : StoreHolds c store m.files)
    (hpaths : TreePaths (leafPaths walk)) (hfits : FilesFit staging m.files) :
    ∃ s, materializeManifestFiles c store m staging = .ok s ∧
      RestoredTree c store walk scan m.files s := by
  have hmem : ∀ f ∈ m.files, ∃ g ∈ scan.files, g.toManifestFile = f := fun f hf =>
    List.mem_map.mp (hfiles.mem_iff.mp hf)
  have htree : TreePaths (m.files.map ManifestFile.path) := by
    have hmap := hfiles.map ManifestFile.path
    rw [List.map_map] at hmap
    rw [← hreports.paths] at hpaths
    exact hpaths.perm hmap.symm
  have hok : ∀ f ∈ m.files, ManifestFileOk c 3 f := by
    intro f hf
    obtain ⟨g, hg, rfl⟩ := hmem f hf
    exact hreports.manifestFileOk hg
  have hback : ∀ f ∈ m.files, '\\' ∉ f.path.toList := by
    intro f hf
    obtain ⟨g, hg, rfl⟩ := hmem f hf
    obtain ⟨e, -, hscanned⟩ := hreports.walked hg
    exact backslash_notMem_normalized hscanned.path
  obtain ⟨s, hs, done, hdone, hmaterialised⟩ := manifest_materialises hsha htree hok hfits
    (fun f hf => hreports.sourceListed hsame hfiles hpaths.distinct hf) hstored
  exact ⟨s, hs, hreports, hfiles, hstored, hsha, hpaths, ⟨done, hdone, hmaterialised⟩,
    materialized_well hback hs⟩

theorem RestoredTree.rescanned {s : Staging Bytes}
    (h : RestoredTree c store walk scan m.files s) (hcode : validateRelativePath code = .ok ())
    {walk' : List (WalkEntry Bytes)} (hwalk : Walks walk' s.entries) :
    ∃ scan', scanProblemFolder c rootPath code (some walk') = .ok scan' ∧
      ScanReports c walk' scan'.files ∧ SameFolder scan.files scan'.files := by
  have hscan : ∃ scan', scanProblemFolder c rootPath code (some walk') = .ok scan' :=
    scan_total hcode fun e he => h.scannable hwalk he
  obtain ⟨scan', hscan'⟩ := hscan
  have hreports := scan_reports (h.well.plainFolder.sameContents hwalk) hscan'
  exact ⟨scan', hscan', hreports, h.sameFolder hwalk hreports⟩

theorem roundTrips_iff [DecidableEq Bytes] (hsame : SameContents walk)
    (hscan : scanProblemFolder c rootPath code (some walk) = .ok scan)
    (hfiles : m.files.Perm (scan.files.map FileEntry.toManifestFile))
    (hsha : CollisionFree c m.files) (hstored : StoreHolds c store m.files) :
    RoundTrips c rootPath code staging store m scan.files ↔
      TreePaths (leafPaths walk) ∧ FilesFit staging m.files := by
  have hreports := scan_reports hsame hscan
  constructor
  · rintro ⟨s, hs, hscans⟩
    have hback : ∀ f ∈ m.files, '\\' ∉ f.path.toList := by
      intro f hf
      obtain ⟨g, hg, rfl⟩ := List.mem_map.mp (hfiles.mem_iff.mp hf)
      obtain ⟨e, -, hscanned⟩ := hreports.walked hg
      exact backslash_notMem_normalized hscanned.path
    have hplain := (materialized_well hback hs).plainFolder
    obtain ⟨scan', hscan', hfolder⟩ := hscans _ (walks_stagedWalk s)
    have hreports' := scan_reports (hplain.sameContents (walks_stagedWalk s)) hscan'
    have hpaths := hfolder.records.map Prod.fst
    rw [List.map_map, List.map_map] at hpaths
    have htree := hplain.treePaths (walks_stagedWalk s)
    rw [← hreports'.paths] at htree
    rw [← hreports.paths]
    exact ⟨htree.perm hpaths.symm, materialized_fit hs⟩
  · rintro ⟨hpaths, hfits⟩
    obtain ⟨s, hs, htree⟩ :=
      restoredTree_of_treePaths hsame hreports hfiles hsha hstored hpaths hfits
    refine ⟨s, hs, fun walk' hwalk => ?_⟩
    obtain ⟨scan', hscan', -, hfolder⟩ := htree.rescanned (check_eq_ok.mp hscan).1 hwalk
    exact ⟨scan', hscan', hfolder⟩

end Snapshots

/-- The manifest that a run has committed is restored to the folder of its scan, names, contents,
links and hard links, exactly where the paths that the scanner wrote are those of one tree and the
system takes all names that the restore writes. -/
theorem committed_snapshot_round_trips_iff [DecidableEq Bytes] (c : Contents Bytes)
    (rootPath staging : String) (walk : List (WalkEntry Bytes)) (store : String → Option Bytes)
    {d : DataPlane Bytes} {w w' : World Bytes} {actions : List (Action Bytes)} {r : Nat} {run : Run}
    {m : Manifest} (hinit : Initial w) (hrun : exec (step d) w actions = some w')
    (hr : w'.runs[r]? = some run) (hready : run.phase = .committed m) (hsame : SameContents walk)
    (hscan : scanProblemFolder c rootPath run.scan.code (some walk) = .ok run.scan)
    (hsha : CollisionFree c m.files) (hstored : StoreHolds c store m.files) :
    RoundTrips c rootPath run.scan.code staging store m run.scan.files ↔
      TreePaths (leafPaths walk) ∧ FilesFit staging m.files := by
  have hsteps : EveryStep (step d) (fun _ _ _ => True) w actions :=
    everyStep_of_forall_mem (Q := fun _ => True) fun _ _ => trivial
  have hconsistent : Consistent w' := exec_invariant
    (fun w a w' hw _ hstep => consistent_step hw hstep) (consistent_initial hinit) hsteps hrun
  have hfiles : m.files.Perm (run.scan.files.map FileEntry.toManifestFile) := by
    have haccounted := hconsistent.accounted r run hr
    rwa [Run.accounted, hready] at haccounted
  exact roundTrips_iff hsame hscan hfiles hsha hstored

/-! The folder `aplusb` again. -/

def aplusbFiles : List ManifestFile := [dataZip.toManifestFile, initYml.toManifestFile]

def aplusbStore (key : String) : Option Content :=
  if key = objectKeyForSha256 dataZip.sha256 then some (.file dataZipText)
  else if key = objectKeyForSha256 initYml.sha256 then some (.file initYmlText)
  else none

theorem sampleDigest_dataZip {x : Content} (h : sampleDigest x = dataZip.sha256) :
    x = .file dataZipText := by
  cases x with
  | file text =>
      simp only [sampleDigest] at h
      split_ifs at h with hdata
      · rw [hdata]
      all_goals exact absurd h (by decide)
  | manifestJson m =>
      simp only [sampleDigest] at h
      split_ifs at h <;> exact absurd h (by decide)

theorem sampleDigest_initYml {x : Content} (h : sampleDigest x = initYml.sha256) :
    x = .file initYmlText := by
  cases x with
  | file text =>
      simp only [sampleDigest] at h
      split_ifs at h with hdata hinit
      · exact absurd h (by decide)
      · rw [hinit]
      all_goals exact absurd h (by decide)
  | manifestJson m =>
      simp only [sampleDigest] at h
      split_ifs at h <;> exact absurd h (by decide)

theorem committed_snapshot_round_trips_sample :
    ∃ m, RoundTrips folderContents "/problems" "aplusb" "/problems/.aplusb" aplusbStore m
      sampleScan.files := by
  have hcommitted : (exec (step samplePlane) sampleWorld sampleRun).any (fun w =>
      (w.runs[0]?).any fun run => run.phase.committedManifest.any (fun m =>
        m.files.all fun f => decide (f ∈ aplusbFiles)) && run.scan = sampleScan) = true := by
    decide +kernel
  obtain ⟨w', hw', hrun⟩ := (Option.any_eq_true _ _).mp hcommitted
  obtain ⟨run, hr, hrun⟩ := (Option.any_eq_true _ _).mp hrun
  rw [Bool.and_eq_true, decide_eq_true_eq] at hrun
  obtain ⟨m, hm, hfiles⟩ := (Option.any_eq_true _ _).mp hrun.1
  have hfiles : ∀ f ∈ m.files, f = dataZip.toManifestFile ∨ f = initYml.toManifestFile := by
    intro f hf
    have hmem := of_decide_eq_true (List.all_eq_true.mp hfiles f hf)
    simpa [aplusbFiles] using hmem
  have hsame : SameContents sampleWalk :=
    sampleEntry_sameContents [(["data.zip"], 11, dataZipText), (["init.yml"], 12, initYmlText)]
      (by decide)
  have hscan : scanProblemFolder folderContents "/problems" run.scan.code (some sampleWalk) =
      .ok run.scan := by
    rw [hrun.2]
    decide +kernel
  have hsha : CollisionFree folderContents m.files := by
    intro f hf x y hx hy
    rcases hfiles f hf with rfl | rfl
    · exact (sampleDigest_dataZip hx).trans (sampleDigest_dataZip hy).symm
    · exact (sampleDigest_initYml hx).trans (sampleDigest_initYml hy).symm
  have hstored : StoreHolds folderContents aplusbStore m.files := by
    intro f hf
    rcases hfiles f hf with rfl | rfl
    · exact ⟨.file dataZipText, by decide, by decide⟩
    · exact ⟨.file initYmlText, by decide, by decide⟩
  have hfits : FilesFit "/problems/.aplusb" m.files := by
    intro f hf
    rcases hfiles f hf with rfl | rfl
    · decide
    · decide
  have htrips := (committed_snapshot_round_trips_iff folderContents "/problems" "/problems/.aplusb"
    sampleWalk aplusbStore initial_sampleWorld hw' hr (RunPhase.committedManifest_eq_some.mp hm)
    hsame hscan hsha hstored).mpr ⟨by decide +kernel, hfits⟩
  rw [hrun.2] at htrips
  exact ⟨m, htrips⟩

end ExternalStorage.Restore
