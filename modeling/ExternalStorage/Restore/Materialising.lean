import ExternalStorage.Restore.Restorability

/-!
# The tree that a restore makes

`materialize_manifest_files` puts each file of the manifest under the names of its path.  Where
the paths are those of the leaves of one tree, no call is in the way of another, and what comes
out is that tree.
-/

namespace ExternalStorage.Restore

open ExternalStorage.Model Library.Loops Library.Trees

variable {Bytes : Type}

/-! ## Paths of one tree -/

/-- Each path is written as its names, and none leads through another. -/
structure TreePaths (paths : List String) : Prop where
  canonical : ∀ path ∈ paths, joinPath (pathNames path) = path
  distinct : paths.Nodup
  leaves : ∀ path ∈ paths, ∀ other ∈ paths, pathNames path <+: pathNames other → path = other

instance (paths : List String) : Decidable (TreePaths paths) :=
  decidable_of_iff ((∀ path ∈ paths, joinPath (pathNames path) = path) ∧ paths.Nodup ∧
      ∀ path ∈ paths, ∀ other ∈ paths, pathNames path <+: pathNames other → path = other)
    ⟨fun h => ⟨h.1, h.2.1, h.2.2⟩, fun h => ⟨h.canonical, h.distinct, h.leaves⟩⟩

theorem TreePaths.perm {paths paths' : List String} (h : TreePaths paths)
    (hperm : paths.Perm paths') : TreePaths paths' :=
  ⟨fun p hp => h.canonical p (hperm.mem_iff.mpr hp), hperm.nodup_iff.mp h.distinct,
    fun p hp q hq => h.leaves p (hperm.mem_iff.mpr hp) q (hperm.mem_iff.mpr hq)⟩

theorem components_eq {path : String} (h : validateRelativePath path = .ok ()) :
    components path = (pathNames path).map .normal := by
  have hnormal := (validateRelativePath_eq_ok.mp h).2
  rw [pathNames]
  clear h
  generalize components path = cs at hnormal ⊢
  induction cs with
  | nil => rfl
  | cons c cs ih =>
      rw [List.all_cons, Bool.and_eq_true] at hnormal
      obtain ⟨name, hname⟩ := Option.isSome_iff_exists.mp hnormal.1
      cases c with
      | normal n =>
          rw [List.filterMap_cons_some (f := Component.name?) rfl, List.map_cons, ← ih hnormal.2]
      | rootDir | curDir | parentDir => cases hname

theorem namesDirectory_joinPath {names : List String} (hnames : names ≠ [])
    (hentry : ∀ name ∈ names, EntryName name) : namesDirectory (joinPath names) = false := by
  rw [namesDirectory, pathParts_joinPath hnames fun name hname => (hentry name hname).noSlash,
    List.getLast?_eq_getLast_of_ne_nil hnames, Option.any_some]
  have hlast := hentry _ (List.getLast_mem hnames)
  simp [hlast.nonempty, hlast.notCur]

theorem namesDirectory_canonical {path : String} (h : validateRelativePath path = .ok ())
    (hcanonical : joinPath (pathNames path) = path) : namesDirectory path = false := by
  have hnames := namesDirectory_joinPath (pathNames_ne_nil h) fun name hname =>
    entryName_of_mem_pathNames hname
  rwa [hcanonical] at hnames

/-! ## Names that the system takes -/

def ManifestFile.written (f : ManifestFile) : List String :=
  if f.isRegular then temporaryNames (pathNames f.path) else pathNames f.path

/-- The system takes every path that a restore in the staging directory writes. -/
def FilesFit (staging : String) (files : List ManifestFile) : Prop :=
  ∀ f ∈ files, fits staging (ManifestFile.written f) = true

instance (staging : String) (files : List ManifestFile) : Decidable (FilesFit staging files) := by
  unfold FilesFit
  infer_instance

theorem fits_left {base : String} {names names' : List String}
    (h : fits base (names ++ names') = true) : fits base names = true := by
  simp only [fits, Bool.and_eq_true, List.all_append, List.map_append, List.sum_append,
    decide_eq_true_eq] at h ⊢
  exact ⟨h.1.1, by omega⟩

theorem fits_parents {staging : String} {f : ManifestFile}
    (h : fits staging (ManifestFile.written f) = true) :
    fits staging (pathNames f.path).dropLast = true := by
  unfold ManifestFile.written at h
  split at h
  · exact fits_left h
  · cases hlast : (pathNames f.path).getLast? with
    | none =>
        rw [List.getLast?_eq_none_iff.mp hlast] at h ⊢
        exact h
    | some name =>
        rw [← List.dropLast_append_getLast? name hlast] at h
        exact fits_left h

/-! ## The calls on a path with nothing in the way -/

section Calls

variable {s : Staging Bytes} {t : Tree String (StagedLeaf Bytes)}

theorem createDirAll_eq {links : Nat} {dir names : List String}
    (hclear : ∀ q leaf, (q, some leaf) ∈ t → ¬ q <+: dir ++ names) :
    createDirAll t links dir names = .ok (addDirs t dir names, dir ++ names) := by
  induction names generalizing t dir with
  | nil => rw [createDirAll, addDirs, List.append_nil]
  | cons name names ih =>
      have hne : dir ++ [name] ≠ [] :=
        List.append_ne_nil_of_right_ne_nil _ (List.cons_ne_nil name [])
      have hsplit : dir ++ name :: names = (dir ++ [name]) ++ names := by simp
      rw [hsplit] at hclear ⊢
      unfold createDirAll addDirs
      cases hfound : lookup t (dir ++ [name]) with
      | none =>
          rw [if_pos rfl]
          apply ih
          intro q leaf hq
          rcases List.mem_append.mp hq with hold | hnew
          · exact hclear q leaf hold
          · cases List.mem_singleton.mp hnew
      | some x =>
          rw [if_neg (by simp)]
          cases x with
          | none => exact ih hclear
          | some leaf =>
              exact absurd (List.prefix_append _ _) (hclear _ leaf (mem_of_lookup hne hfound))

theorem createParents_eq {staging path : String} (hopen : Open s.tree (pathNames path))
    (hfits : fits staging (pathNames path).dropLast = true) :
    s.createParents staging path =
      .ok ({ s with tree := addDirs s.tree [] (pathNames path).dropLast }, pathNames path) := by
  have hpath : (pathNames path).dropLast ++ (pathNames path).getLast?.toList = pathNames path := by
    rw [List.getLast?_eq_getLast_of_ne_nil hopen.nonempty, Option.toList_some]
    exact List.dropLast_append_getLast hopen.nonempty
  unfold Staging.createParents
  rw [createDirAll_eq hopen.clear, hfits]
  simp only [refuseIf, Bool.true_eq_false, if_false, bind, Except.bind, pure, Except.pure,
    List.nil_append, hpath]

theorem resolveDir_eq (ht : WellFormed t) {links : Nat} {dir names : List String}
    (hdir : lookup t (dir ++ names) = some none) :
    resolveDir t links dir (names.map .normal) = .ok (links, dir ++ names) := by
  induction names generalizing dir with
  | nil => rw [List.map_nil, resolveDir, List.append_nil]
  | cons name names ih =>
      have hsplit : dir ++ name :: names = (dir ++ [name]) ++ names := by simp
      rw [hsplit] at hdir ⊢
      have hfound : lookup t (dir ++ [name]) = some none := by
        by_cases hlast : dir ++ [name] = (dir ++ [name]) ++ names
        · rw [hlast]
          exact hdir
        · exact ht.lookup_prefix hdir (List.prefix_append _ _) hlast
      rw [List.map_cons, resolveDir, hfound]
      exact ih hdir

theorem leafAt_eq (ht : WellFormed s.tree) {path : String} {leaf : StagedLeaf Bytes}
    (hvalid : validateRelativePath path = .ok ()) (hname : namesDirectory path = false)
    (hleaf : (pathNames path, some leaf) ∈ s.tree) : s.leafAt path = .ok leaf := by
  have hne := pathNames_ne_nil hvalid
  have hfound := ht.lookup_of_mem hleaf
  have hpath := List.dropLast_append_getLast hne
  have hdir : lookup s.tree ([] ++ (pathNames path).dropLast) = some none := by
    rw [List.nil_append]
    refine ht.lookup_prefix hfound (List.dropLast_prefix _) ?_
    intro heq
    have hlength := congrArg List.length heq
    rw [List.length_dropLast] at hlength
    have hpos := List.length_pos_of_ne_nil hne
    omega
  have hlast : (pathNames path).dropLast ++ (pathNames path).getLast?.toList = pathNames path := by
    rw [List.getLast?_eq_getLast_of_ne_nil hne, Option.toList_some]
    exact hpath
  have hcomponents : (components path).dropLast = ((pathNames path).dropLast).map .normal := by
    rw [components_eq hvalid, List.map_dropLast]
  unfold Staging.leafAt
  rw [hname, hcomponents, resolveDir_eq ht hdir]
  simp only [refuseIf, Bool.false_eq_true, if_false, bind, Except.bind, List.nil_append, hlast,
    hfound]

end Calls

/-! ## One file -/

section File

variable {c : Contents Bytes} {store : String → Option Bytes} {staging : String}
  {s : Staging Bytes} {f : ManifestFile}

theorem materializeRegular_eq {bytes : Bytes} (hvalid : validateRelativePath f.path = .ok ())
    (hname : namesDirectory f.path = false) (hregular : f.isRegular = true)
    (hfits : fits staging (ManifestFile.written f) = true)
    (hopen : Open s.tree (pathNames f.path))
    (hstored : store f.objectKey = some bytes) (hsum : c.sha256Bytes bytes = f.sha256) :
    materializeRegular c store staging s f =
      .ok ⟨grow s.tree (pathNames f.path) (.file s.nextInode bytes), s.nextInode + 1⟩ := by
  have hparents := fits_parents hfits
  rw [ManifestFile.written, if_pos hregular] at hfits
  unfold materializeRegular
  rw [hvalid, createParents_eq hopen hparents, getManifestObject, hstored, hname, hfits]
  simp only [refuseIf, hsum, ne_eq, not_true_eq_false, Bool.false_eq_true, Bool.true_eq_false,
    if_false, bind, Except.bind, Staging.putFile, hopen.lookup_addDirs, grow]

theorem addLeaf_eq {leaf : StagedLeaf Bytes} {p : List String} (hopen : Open s.tree p) :
    Staging.addLeaf { s with tree := addDirs s.tree [] p.dropLast } p leaf =
      .ok { s with tree := grow s.tree p leaf } := by
  simp only [Staging.addLeaf, hopen.lookup_addDirs, grow]

theorem written_of_not_regular (h : f.isRegular = false) :
    ManifestFile.written f = pathNames f.path := by
  rw [ManifestFile.written, h]
  rfl

theorem materializeHardLink_eq {files : List ManifestFile} {sourcePath : String}
    {leaf : StagedLeaf Bytes} (hs : WellFormed s.tree)
    (hvalid : validateRelativePath f.path = .ok ()) (hname : namesDirectory f.path = false)
    (hfits : fits staging (ManifestFile.written f) = true)
    (hopen : Open s.tree (pathNames f.path)) (hdup : f.duplicateOf = some sourcePath)
    (hfile : f.symlinkTarget = none) (hsource : SourceListed files f)
    (hsourceName : namesDirectory sourcePath = false)
    (hleaf : (pathNames sourcePath, some leaf) ∈ s.tree) :
    materializeHardLink files staging s f =
      .ok { s with tree := grow s.tree (pathNames f.path) leaf } := by
  have hparents := fits_parents hfits
  rw [written_of_not_regular (by simp [ManifestFile.isRegular, hdup])] at hfits
  obtain ⟨hsourceValid, source, hfind, hsourceDup, hsourceFile, hsha, hsize⟩ :=
    hsource sourcePath hdup hfile
  have hdirs := (hs.addDirs (lookup_root s.tree) hopen.clear).1
  have hfound : Staging.leafAt
      { s with tree := addDirs s.tree [] (pathNames f.path).dropLast } sourcePath = .ok leaf :=
    leafAt_eq hdirs hsourceValid hsourceName (mem_addDirs_of_mem hleaf)
  unfold materializeHardLink
  rw [hvalid, hdup, createParents_eq hopen hparents, hname, hfits]
  simp only [bind, Except.bind, hsourceValid, hfind, hsourceDup, hsourceFile, hsha, hsize, refuseIf,
    Option.isSome_none, Bool.false_eq_true, Bool.true_eq_false, ne_eq, not_true_eq_false, or_self,
    if_false, hfound, addLeaf_eq hopen]

theorem materializeSymlink_eq [DecidableEq Bytes] {target : String}
    (hok : ManifestFileOk c 3 f) (hname : namesDirectory f.path = false)
    (hfits : fits staging (ManifestFile.written f) = true)
    (hopen : Open s.tree (pathNames f.path)) (hlink : f.symlinkTarget = some target)
    (hstored : store f.objectKey = some (c.textBytes target)) :
    materializeSymlink c store staging s f =
      .ok { s with tree := grow s.tree (pathNames f.path) (.symlink target) } := by
  obtain ⟨-, -, hvalid, hsha, -⟩ := hok.symlink target hlink
  have hparents := fits_parents hfits
  rw [written_of_not_regular (by simp [ManifestFile.isRegular, hlink])] at hfits
  unfold materializeSymlink
  rw [hok.path, hlink, createParents_eq hopen hparents, hname, hfits]
  simp only [bind, Except.bind, hvalid, getManifestObject, hstored, ← hsha, refuseIf, ne_eq,
    not_true_eq_false, or_self, if_false, Bool.false_eq_true, Bool.true_eq_false, addLeaf_eq hopen]

end File

/-! ## The tree so far -/

def origin (f : ManifestFile) : String := f.duplicateOf.getD f.path

def LeafOf (store : String → Option Bytes) (f : ManifestFile) : StagedLeaf Bytes → Prop
  | .file _ bytes => f.symlinkTarget = none ∧ store f.objectKey = some bytes
  | .symlink target => f.symlinkTarget = some target

/-- The files `done` are in the tree, under directories that lead to files. -/
structure Materialised (store : String → Option Bytes) (files done : List ManifestFile)
    (s : Staging Bytes) : Prop where
  wellFormed : WellFormed s.tree
  dirs : ∀ p, (p, none) ∈ s.tree →
    ∃ f ∈ files, p <+: pathNames f.path ∧ p ≠ pathNames f.path
  leaves : ∀ p leaf, (p, some leaf) ∈ s.tree →
    ∃ f ∈ done, p = pathNames f.path ∧ LeafOf store f leaf
  placed : ∀ f ∈ done, ∃ leaf, (pathNames f.path, some leaf) ∈ s.tree
  bounded : ∀ p i bytes, (p, some (.file i bytes)) ∈ s.tree → i < s.nextInode
  /-- A hard link is another name of its source. -/
  links : ∀ f ∈ done, f.symlinkTarget = none → ∀ leaf, (pathNames f.path, some leaf) ∈ s.tree →
    (pathNames (origin f), some leaf) ∈ s.tree
  /-- Files that are no hard links have inodes of their own. -/
  originals : ∀ f ∈ done, ∀ g ∈ done, f.isRegular = true → g.isRegular = true →
    ∀ i x y, (pathNames f.path, some (.file i x)) ∈ s.tree →
      (pathNames g.path, some (.file i y)) ∈ s.tree → f.path = g.path

section Place

variable {store : String → Option Bytes} {files done : List ManifestFile} {s : Staging Bytes}
  {f : ManifestFile}

theorem materialised_nil : Materialised store files [] ({} : Staging Bytes) where
  wellFormed := wellFormed_nil
  dirs := fun _ h => absurd h List.not_mem_nil
  leaves := fun _ _ h => absurd h List.not_mem_nil
  placed := fun _ h => absurd h List.not_mem_nil
  bounded := fun _ _ _ h => absurd h List.not_mem_nil
  links := fun _ h => absurd h List.not_mem_nil
  originals := fun _ h => absurd h List.not_mem_nil

/-- Nothing is in the way of a file that has not been put in its place. -/
theorem Materialised.vacant (h : Materialised store files done s)
    (hpaths : TreePaths (files.map ManifestFile.path)) (hdone : ∀ g ∈ done, g ∈ files)
    (hf : f ∈ files) (hvalid : validateRelativePath f.path = .ok ())
    (hnew : ∀ g ∈ done, g.path ≠ f.path) : Open s.tree (pathNames f.path) := by
  have hpath : ∀ {g : ManifestFile}, g ∈ files → g.path ∈ files.map ManifestFile.path :=
    fun hg => List.mem_map_of_mem hg
  refine ⟨pathNames_ne_nil hvalid, ?_, ?_⟩
  · intro q leaf hq hpre
    obtain ⟨g, hg, rfl, -⟩ := h.leaves q leaf hq
    exact hnew g hg (hpaths.leaves _ (hpath (hdone g hg)) _ (hpath hf) hpre)
  · rintro ⟨q, x⟩ hq hpre
    cases x with
    | some leaf =>
        obtain ⟨g, hg, rfl, -⟩ := h.leaves q leaf hq
        exact hnew g hg (hpaths.leaves _ (hpath hf) _ (hpath (hdone g hg)) hpre).symm
    | none =>
        obtain ⟨g, hg, hbelow, hne⟩ := h.dirs q hq
        have hsame := hpaths.leaves _ (hpath hf) _ (hpath hg) (hpre.trans hbelow)
        -- the directory would lie between a path and itself
        rw [hsame] at hpre
        exact hne (hbelow.eq_of_length_le hpre.length_le)

theorem TreePaths.eq_of_names (hpaths : TreePaths (files.map ManifestFile.path))
    {g : ManifestFile} (hf : f ∈ files) (hg : g ∈ files)
    (hnames : pathNames f.path = pathNames g.path) : f.path = g.path := by
  apply hpaths.leaves _ (List.mem_map_of_mem hf) _ (List.mem_map_of_mem hg)
  rw [hnames]

theorem Materialised.place (h : Materialised store files done s)
    (hpaths : TreePaths (files.map ManifestFile.path)) (hdone : ∀ g ∈ done, g ∈ files)
    (hf : f ∈ files) (hnew : ∀ g ∈ done, g.path ≠ f.path)
    (hopen : Open s.tree (pathNames f.path)) {leaf : StagedLeaf Bytes} {next : Nat}
    (hleaf : LeafOf store f leaf) (hnext : s.nextInode ≤ next)
    (hbounded : ∀ i bytes, leaf = .file i bytes → i < next)
    (hlink : f.symlinkTarget = none → origin f = f.path ∨
      (pathNames (origin f), some leaf) ∈ s.tree)
    (hfresh : f.isRegular = true → ∀ i bytes, leaf = .file i bytes → s.nextInode ≤ i) :
    Materialised store files (done ++ [f])
      ⟨Library.Trees.grow s.tree (pathNames f.path) leaf, next⟩ := by
  have hold : ∀ {g : ManifestFile} {leaf' : StagedLeaf Bytes}, g ∈ done →
      (pathNames g.path, some leaf') ∈ Library.Trees.grow s.tree (pathNames f.path) leaf →
        (pathNames g.path, some leaf') ∈ s.tree := by
    intro g leaf' hg hmem
    rcases mem_grow_leaf.mp hmem with hmem | ⟨hnames, -⟩
    · exact hmem
    · exact absurd (hpaths.eq_of_names (hdone g hg) hf hnames) (hnew g hg)
  have hown : ∀ {leaf' : StagedLeaf Bytes},
      (pathNames f.path, some leaf') ∈ Library.Trees.grow s.tree (pathNames f.path) leaf →
        leaf' = leaf := by
    intro leaf' hmem
    rcases mem_grow_leaf.mp hmem with hmem | ⟨-, hsame⟩
    · exact absurd (List.prefix_refl _) (hopen.above _ _ hmem)
    · exact hsame
  refine ⟨hopen.wellFormed_grow h.wellFormed, ?_, ?_, ?_, ?_, ?_, ?_⟩
  · intro p hp
    rcases mem_grow_dir hp with hp | hbelow
    · exact h.dirs p hp
    · exact ⟨f, hf, hbelow⟩
  · intro p leaf' hp
    rcases mem_grow_leaf.mp hp with hp | ⟨rfl, rfl⟩
    · obtain ⟨g, hg, hplace⟩ := h.leaves p leaf' hp
      exact ⟨g, List.mem_append_left _ hg, hplace⟩
    · exact ⟨f, List.mem_append_right _ (List.mem_singleton_self f), rfl, hleaf⟩
  · intro g hg
    rcases List.mem_append.mp hg with hg | hg
    · obtain ⟨leaf', hmem⟩ := h.placed g hg
      exact ⟨leaf', mem_grow_leaf.mpr (.inl hmem)⟩
    · rw [List.mem_singleton.mp hg]
      exact ⟨leaf, mem_grow_leaf.mpr (.inr ⟨rfl, rfl⟩)⟩
  · intro p i bytes hp
    rcases mem_grow_leaf.mp hp with hp | ⟨-, hsame⟩
    · exact Nat.lt_of_lt_of_le (h.bounded p i bytes hp) hnext
    · exact hbounded i bytes hsame.symm
  · intro g hg hregular leaf' hmem
    rcases List.mem_append.mp hg with hg | hg
    · exact mem_grow_leaf.mpr (.inl (h.links g hg hregular leaf' (hold hg hmem)))
    · rw [List.mem_singleton.mp hg] at hmem hregular ⊢
      rw [hown hmem]
      rcases hlink hregular with hself | hsource
      · rw [hself]
        exact mem_grow_leaf.mpr (.inr ⟨rfl, rfl⟩)
      · exact mem_grow_leaf.mpr (.inl hsource)
  · -- the inode of a new file is above all others
    intro g hg g' hg' hregular hregular' i x y hmem hmem'
    rcases List.mem_append.mp hg with hg | hg <;> rcases List.mem_append.mp hg' with hg' | hg'
    · exact h.originals g hg g' hg' hregular hregular' i x y (hold hg hmem) (hold hg' hmem')
    · rw [List.mem_singleton.mp hg'] at hmem' hregular'
      have hle := hfresh hregular' i y (hown hmem').symm
      have hlt := h.bounded _ i x (hold hg hmem)
      omega
    · rw [List.mem_singleton.mp hg] at hmem hregular
      have hle := hfresh hregular i x (hown hmem).symm
      have hlt := h.bounded _ i y (hold hg' hmem')
      omega
    · rw [List.mem_singleton.mp hg, List.mem_singleton.mp hg']

end Place

/-! ## The three loops -/

section Loops

variable {c : Contents Bytes} {store : String → Option Bytes} {staging : String}
  {files : List ManifestFile}

/-- The store has what the manifest lists. -/
def StoreHolds (c : Contents Bytes) (store : String → Option Bytes) (files : List ManifestFile) :
    Prop :=
  ∀ f ∈ files, ∃ bytes, store f.objectKey = some bytes ∧ c.sha256Bytes bytes = f.sha256

/-- No two contents share the hash of a file. -/
def CollisionFree (c : Contents Bytes) (files : List ManifestFile) : Prop :=
  ∀ f ∈ files, ∀ x y, c.sha256Bytes x = f.sha256 → c.sha256Bytes y = f.sha256 → x = y

theorem kinds_of_regular {f : ManifestFile} (h : f.isRegular = true) :
    f.duplicateOf = none ∧ f.symlinkTarget = none := by
  simpa [ManifestFile.isRegular] using h

theorem not_hardLink_of_regular {f : ManifestFile} (h : f.isRegular = true) :
    f.isHardLink = false := by
  rw [ManifestFile.isHardLink, (kinds_of_regular h).1]
  rfl

/-- The source of a hard link is one of the regular files. -/
theorem SourceListed.regular {f : ManifestFile} (h : SourceListed files f) {path : String}
    (hdup : f.duplicateOf = some path) (hfile : f.symlinkTarget = none) :
    ∃ source ∈ files, source.isRegular = true ∧ source.path = path ∧
      source.sha256 = f.sha256 := by
  obtain ⟨-, source, hfind, hsourceDup, hsourceFile, hsha, -⟩ := h path hdup hfile
  refine ⟨source, List.mem_of_find?_eq_some hfind, ?_, by simpa using List.find?_some hfind, hsha⟩
  rw [ManifestFile.isRegular, hsourceDup, hsourceFile]
  rfl

theorem TreePaths.eq_of_path (hpaths : TreePaths (files.map ManifestFile.path)) {f g : ManifestFile}
    (hf : f ∈ files) (hg : g ∈ files) (hpath : f.path = g.path) : f = g :=
  List.inj_on_of_nodup_map hpaths.distinct hf hg hpath

/-- A file that comes up has not come up before, in its own loop or in an earlier one. -/
theorem TreePaths.path_ne (hpaths : TreePaths (files.map ManifestFile.path))
    {p : ManifestFile → Bool} {before done todo : List ManifestFile} {f : ManifestFile}
    (hbefore : ∀ g ∈ before, g ∈ files ∧ p g = false)
    (hsplit : files.filter p = done ++ f :: todo) :
    f ∈ files ∧ p f = true ∧ ∀ g ∈ before ++ done, g ∈ files ∧ g.path ≠ f.path := by
  have hmem : ∀ {g : ManifestFile}, g ∈ done ++ f :: todo → g ∈ files ∧ p g = true := by
    intro g hg
    rw [← hsplit] at hg
    exact List.mem_filter.mp hg
  obtain ⟨hf, hpf⟩ := hmem (List.mem_append_right _ List.mem_cons_self)
  refine ⟨hf, hpf, ?_⟩
  intro g hg
  rcases List.mem_append.mp hg with hg | hg
  · obtain ⟨hfile, hother⟩ := hbefore g hg
    refine ⟨hfile, fun hpath => ?_⟩
    rw [hpaths.eq_of_path hfile hf hpath, hpf] at hother
    cases hother
  · have hfile := (hmem (List.mem_append_left _ hg)).1
    refine ⟨hfile, fun hpath => ?_⟩
    have hnodup : (files.filter p).Nodup := (List.Nodup.of_map _ hpaths.distinct).filter _
    rw [hsplit] at hnodup
    exact (List.nodup_append.mp hnodup).2.2 g hg f List.mem_cons_self
      (hpaths.eq_of_path hfile hf hpath)

theorem TreePaths.namesDirectory (hpaths : TreePaths (files.map ManifestFile.path))
    {f : ManifestFile} (hf : f ∈ files) (hvalid : validateRelativePath f.path = .ok ()) :
    Model.namesDirectory f.path = false :=
  namesDirectory_canonical hvalid (hpaths.canonical _ (List.mem_map_of_mem hf))

/-- What stands at the path of a file is what its entry in the manifest says. -/
theorem Materialised.leafOf {done : List ManifestFile} {s : Staging Bytes}
    (h : Materialised store files done s) (hpaths : TreePaths (files.map ManifestFile.path))
    (hdone : ∀ g ∈ done, g ∈ files) {f : ManifestFile} (hf : f ∈ files) {leaf : StagedLeaf Bytes}
    (hleaf : (pathNames f.path, some leaf) ∈ s.tree) : LeafOf store f leaf := by
  obtain ⟨g, hg, hnames, hkind⟩ := h.leaves _ _ hleaf
  obtain rfl : g = f := by
    apply hpaths.eq_of_path (hdone g hg) hf
    exact hpaths.eq_of_names (hdone g hg) hf hnames.symm
  exact hkind

theorem regulars_materialise (hpaths : TreePaths (files.map ManifestFile.path))
    (hok : ∀ f ∈ files, ManifestFileOk c 3 f) (hfits : FilesFit staging files)
    (hstored : StoreHolds c store files) :
    ∃ s, (files.filter ManifestFile.isRegular).foldlM (materializeRegular c store staging) {} =
        .ok s ∧
      Materialised store files (files.filter ManifestFile.isRegular) s := by
  refine foldlM_total (I := fun done s => Materialised store files done s) ?_ materialised_nil
  intro done f todo s hsplit hs
  obtain ⟨hf, hregular, hothers⟩ := hpaths.path_ne (List.forall_mem_nil _) hsplit
  rw [List.nil_append] at hothers
  obtain ⟨bytes, hbytes, hsum⟩ := hstored f hf
  have hvalid := (hok f hf).path
  have hopen := hs.vacant hpaths (fun g hg => (hothers g hg).1) hf hvalid
    fun g hg => (hothers g hg).2
  refine ⟨_, materializeRegular_eq hvalid (hpaths.namesDirectory hf hvalid) hregular (hfits f hf)
    hopen hbytes hsum, ?_⟩
  have hkind := kinds_of_regular hregular
  apply hs.place hpaths (fun g hg => (hothers g hg).1) hf (fun g hg => (hothers g hg).2) hopen
  · exact ⟨hkind.2, hbytes⟩
  · exact Nat.le_succ _
  · rintro i x hsame
    cases hsame
    exact Nat.lt_succ_self _
  · intro _
    left
    rw [origin, hkind.1, Option.getD_none]
  · rintro _ i x hsame
    cases hsame
    exact Nat.le_refl _

theorem hardLinks_materialise (hpaths : TreePaths (files.map ManifestFile.path))
    (hok : ∀ f ∈ files, ManifestFileOk c 3 f) (hfits : FilesFit staging files)
    (hsources : ∀ f ∈ files, SourceListed files f) {s₁ : Staging Bytes}
    (hs₁ : Materialised store files (files.filter ManifestFile.isRegular) s₁) :
    ∃ s, (files.filter ManifestFile.isHardLink).foldlM (materializeHardLink files staging) s₁ =
        .ok s ∧
      Materialised store files
        (files.filter ManifestFile.isRegular ++ files.filter ManifestFile.isHardLink) s := by
  refine foldlM_total
    (I := fun done s => Materialised store files (files.filter ManifestFile.isRegular ++ done) s)
    ?_ (by rwa [List.append_nil])
  intro done f todo s hsplit hs
  have hbefore : ∀ g ∈ files.filter ManifestFile.isRegular,
      g ∈ files ∧ g.isHardLink = false := by
    intro g hg
    obtain ⟨hfile, hregular⟩ := List.mem_filter.mp hg
    exact ⟨hfile, not_hardLink_of_regular hregular⟩
  obtain ⟨hf, hlink, hothers⟩ := hpaths.path_ne hbefore hsplit
  rw [ManifestFile.isHardLink, Bool.and_eq_true, Option.isSome_iff_exists,
    Option.isNone_iff_eq_none] at hlink
  obtain ⟨⟨sourcePath, hdup⟩, hfile⟩ := hlink
  have hvalid := (hok f hf).path
  have hopen := hs.vacant hpaths (fun g hg => (hothers g hg).1) hf hvalid
    fun g hg => (hothers g hg).2
  obtain ⟨source, hsource, hregular, hsourcePath, hsha⟩ := (hsources f hf).regular hdup hfile
  obtain ⟨leaf, hleaf⟩ :=
    hs.placed source (List.mem_append_left _ (List.mem_filter.mpr ⟨hsource, hregular⟩))
  have hkind := hs.leafOf hpaths (fun g hg => (hothers g hg).1) hsource hleaf
  rw [hsourcePath] at hleaf
  have hsourceName : Model.namesDirectory sourcePath = false :=
    hsourcePath ▸ hpaths.namesDirectory hsource (hok source hsource).path
  refine ⟨_, materializeHardLink_eq hs.wellFormed hvalid (hpaths.namesDirectory hf hvalid)
    (hfits f hf) hopen hdup hfile (hsources f hf) hsourceName hleaf, ?_⟩
  have horigin : origin f = sourcePath := by rw [origin, hdup, Option.getD_some]
  rw [← List.append_assoc]
  apply hs.place hpaths (fun g hg => (hothers g hg).1) hf (fun g hg => (hothers g hg).2) hopen
  · cases leaf with
    | symlink target =>
        rw [LeafOf, (kinds_of_regular hregular).2] at hkind
        cases hkind
    | file i bytes =>
        refine ⟨hfile, ?_⟩
        rw [(hok f hf).key, ← hsha, ← (hok source hsource).key]
        exact hkind.2
  · exact Nat.le_refl _
  · rintro i bytes rfl
    exact hs.bounded _ i bytes hleaf
  · intro _
    right
    rw [horigin]
    exact hleaf
  · intro hnot
    rw [ManifestFile.isRegular, hdup] at hnot
    cases hnot

theorem symlinks_materialise [DecidableEq Bytes] (hsha : CollisionFree c files)
    (hpaths : TreePaths (files.map ManifestFile.path))
    (hok : ∀ f ∈ files, ManifestFileOk c 3 f) (hfits : FilesFit staging files)
    (hstored : StoreHolds c store files) {before : List ManifestFile}
    (hbefore : ∀ g ∈ before, g ∈ files ∧ g.symlinkTarget.isSome = false) {s₂ : Staging Bytes}
    (hs₂ : Materialised store files before s₂) :
    ∃ s, (files.filter fun f => f.symlinkTarget.isSome).foldlM
          (materializeSymlink c store staging) s₂ = .ok s ∧
      Materialised store files (before ++ files.filter fun f => f.symlinkTarget.isSome) s := by
  refine foldlM_total (I := fun done s => Materialised store files (before ++ done) s)
    ?_ (by rwa [List.append_nil])
  intro done f todo s hsplit hs
  obtain ⟨hf, hlink, hothers⟩ := hpaths.path_ne hbefore hsplit
  obtain ⟨target, htarget⟩ := Option.isSome_iff_exists.mp hlink
  have hvalid := (hok f hf).path
  have hopen := hs.vacant hpaths (fun g hg => (hothers g hg).1) hf hvalid
    fun g hg => (hothers g hg).2
  obtain ⟨bytes, hbytes, hsum⟩ := hstored f hf
  obtain ⟨-, hdup, -, hdigest, -⟩ := (hok f hf).symlink target htarget
  have hcontent : bytes = c.textBytes target := hsha f hf _ _ hsum hdigest.symm
  rw [hcontent] at hbytes
  refine ⟨_, materializeSymlink_eq (hok f hf) (hpaths.namesDirectory hf hvalid) (hfits f hf) hopen
    htarget hbytes, ?_⟩
  rw [← List.append_assoc]
  apply hs.place hpaths (fun g hg => (hothers g hg).1) hf (fun g hg => (hothers g hg).2) hopen
  · exact htarget
  · exact Nat.le_refl _
  · rintro i x hsame
    cases hsame
  · intro hfile
    rw [htarget] at hfile
    cases hfile
  · rintro - i x hsame
    cases hsame

theorem manifest_materialises [DecidableEq Bytes] {m : Manifest}
    (hsha : CollisionFree c m.files) (hpaths : TreePaths (m.files.map ManifestFile.path))
    (hok : ∀ f ∈ m.files, ManifestFileOk c 3 f) (hfits : FilesFit staging m.files)
    (hsources : ∀ f ∈ m.files, SourceListed m.files f) (hstored : StoreHolds c store m.files) :
    ∃ s, materializeManifestFiles c store m staging = .ok s ∧
      ∃ done, (∀ f, f ∈ done ↔ f ∈ m.files) ∧ Materialised store m.files done s := by
  obtain ⟨s₁, hregular, hs₁⟩ := regulars_materialise hpaths hok hfits hstored
  obtain ⟨s₂, hhard, hs₂⟩ := hardLinks_materialise hpaths hok hfits hsources hs₁
  have hbefore : ∀ g ∈ m.files.filter ManifestFile.isRegular ++
      m.files.filter ManifestFile.isHardLink, g ∈ m.files ∧ g.symlinkTarget.isSome = false := by
    intro g hg
    rcases List.mem_append.mp hg with hg | hg
    · obtain ⟨hfile, hkind⟩ := List.mem_filter.mp hg
      rw [ManifestFile.isRegular, Bool.and_eq_true] at hkind
      exact ⟨hfile, by simpa using hkind.2⟩
    · obtain ⟨hfile, hkind⟩ := List.mem_filter.mp hg
      rw [ManifestFile.isHardLink, Bool.and_eq_true] at hkind
      exact ⟨hfile, by simpa using hkind.2⟩
  obtain ⟨s, hsymlink, hs⟩ := symlinks_materialise hsha hpaths hok hfits hstored hbefore hs₂
  refine ⟨s, ?_, _, ?_, hs⟩
  · unfold materializeManifestFiles
    rw [hregular]
    exact bind_eq_ok.mpr ⟨s₁, rfl, bind_eq_ok.mpr ⟨s₂, hhard, hsymlink⟩⟩
  · intro f
    simp only [List.mem_append, List.mem_filter, ManifestFile.isRegular, ManifestFile.isHardLink]
    cases f.duplicateOf <;> cases f.symlinkTarget <;> simp

end Loops

end ExternalStorage.Restore
