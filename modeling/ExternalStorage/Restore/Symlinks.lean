import ExternalStorage.Library.Loops
import ExternalStorage.Library.Resolution
import ExternalStorage.Model.Staging
import ExternalStorage.Restore.Scanning

/-!
# Where symbolic links lead

`validate_symlink_target` counts the components of a target.  The system follows the links
that it meets on the way, and takes `..` from the place it has reached.  The two agree on a
link that lies as deep as the path it was checked under and whose target meets no link
before a `..`.
-/

namespace ExternalStorage.Restore

open ExternalStorage.Model Library.Resolution Library.Loops
open Library.Trees (lookup setLeaf)

variable {Bytes : Type}

/-! ## Resolution in a folder -/

def Component.step : Component → Option (Step OsName)
  | .normal name => some (.name (OsName.ofText name))
  | .parentDir => some .up
  | .curDir => none
  | .rootDir => some .root

/-- A target that is not text is taken to lead anywhere. -/
def targetSteps (target : OsName) : List (Step OsName) :=
  match target.toStr? with
  | some text => (components text).filterMap Component.step
  | none => [.root]

def Node.place : Node Bytes → Place OsName
  | .dir => .dir
  | .file .. => .leaf
  | .special => .leaf
  | .symlink target => .link (targetSteps target)

def Entries.node? (entries : Entries Bytes) (names : List OsName) : Option (Node Bytes) :=
  if names = [] then some .dir else (entries.find? fun e => e.1 = names).map Prod.snd

def Entries.look (entries : Entries Bytes) (names : List OsName) : Option (Place OsName) :=
  (Entries.node? entries names).map Node.place

/-- No symbolic link of the folder leads outside of it. -/
def Entries.StaysInside (entries : Entries Bytes) : Prop :=
  Library.Resolution.StaysInside (Entries.look entries)

/-- The link `name` of the directory `dir`, with its target. -/
def Entries.HasLink (entries : Entries Bytes) (dir : List OsName) (name : OsName)
    (text : String) : Prop :=
  ∃ target, Entries.node? entries (dir ++ [name]) = some (.symlink target) ∧
    target.toStr? = some text

/-- A `..` of the target is met at the problem folder itself, behind another link or in a
link that lies less deep than it was counted from. -/
def Misstep (entries : Entries Bytes) (counted : Nat) (dir : List OsName) (text : String) : Prop :=
  ∃ before after, targetSteps (OsName.ofText text) = before ++ .up :: after ∧
    ∃ n m, walk (Entries.look entries) n dir before = .at m [] ∧
      (dir.length < counted ∨ walk (Entries.look entries) 0 dir before ≠ .at 0 [])

/-! ## Counting and walking -/

theorem targetSteps_text {target : OsName} {text : String} (h : target.toStr? = some text) :
    targetSteps target = (components text).filterMap Component.step := by
  rw [targetSteps, h]

theorem resolvedDepth_eq_lexicalDepth (d : Nat) (cs : List Component) :
    resolvedDepth d cs = lexicalDepth d (cs.filterMap Component.step) := by
  induction cs generalizing d with
  | nil => rfl
  | cons c cs ih =>
      cases c with
      | normal name => exact ih (d + 1)
      | curDir => cases d <;> exact ih _
      | rootDir => cases d <;> rfl
      | parentDir =>
          cases d with
          | zero => rfl
          | succ d => exact ih d

theorem Entries.node_of_look {entries : Entries Bytes} {names : List OsName}
    {steps : List (Step OsName)} (h : Entries.look entries names = some (.link steps)) :
    ∃ target, Entries.node? entries names = some (.symlink target) ∧ steps = targetSteps target := by
  obtain ⟨node, hnode, hplace⟩ := Option.map_eq_some_iff.mp h
  cases node with
  | symlink target =>
      cases hplace
      exact ⟨target, hnode, rfl⟩
  | dir => cases hplace
  | file inode content => cases hplace
  | special => cases hplace

/-- A folder in which the target of each link was counted from some level: it stays inside
exactly when no link missteps. -/
theorem staysInside_iff_misstep {entries : Entries Bytes}
    (counted : List OsName → OsName → String → Nat → Prop)
    (hchecked : ∀ dir name target,
      Entries.node? entries (dir ++ [name]) = some (.symlink target) →
        ∃ text d, target.toStr? = some text ∧ counted dir name text d ∧
          (resolvedDepth d (components text)).isSome = true) :
    Entries.StaysInside entries ↔
      ∀ dir name text d, Entries.HasLink entries dir name text → counted dir name text d →
        ¬ Misstep entries d dir text := by
  rw [Entries.StaysInside, staysInside_iff]
  constructor
  · rintro h dir name text d ⟨target, hnode, htext⟩ -
      ⟨before, after, hsteps, n, m, hwalk, -⟩
    have hlook : Entries.look entries (dir ++ [name]) = some (.link (targetSteps target)) := by
      rw [Entries.look, hnode]
      rfl
    refine h dir name _ hlook n ⟨before, .up, after, ?_, m, [], hwalk, .inr ⟨rfl, rfl⟩⟩
    rw [targetSteps_text htext, ← hsteps, targetSteps_text (OsName.toStr?_ofText text)]
  · intro h dir name steps hlook n hout
    obtain ⟨target, hnode, rfl⟩ := Entries.node_of_look hlook
    obtain ⟨text, d, htext, hcounted, hdepth⟩ := hchecked dir name target hnode
    obtain ⟨before, step, after, hsteps, m, q, hwalk, hout⟩ := hout
    rw [targetSteps_text htext] at hsteps
    rw [resolvedDepth_eq_lexicalDepth, hsteps] at hdepth
    rcases hout with rfl | ⟨rfl, rfl⟩
    · exact root_notMem_of_lexicalDepth hdepth (by simp)
    · refine h dir name text d ⟨target, hnode, htext⟩ hcounted
        ⟨before, after, by rw [targetSteps_text (OsName.toStr?_ofText text), hsteps], n, m, hwalk, ?_⟩
      by_contra hnot
      rw [not_or, not_not, not_lt] at hnot
      -- the count has a level left where the walk has none
      obtain ⟨e, hbefore⟩ := lexicalDepth_up hdepth
      have hlevel := lexicalDepth_of_straight hbefore hnot.2
      rw [List.length_nil] at hlevel
      omega

theorem validateSymlinkTarget_depth {linkPath text : String}
    (h : validateSymlinkTarget linkPath text = .ok ()) :
    (resolvedDepth ((components linkPath).length - 1) (components text)).isSome = true := by
  simp only [validateSymlinkTarget, check_eq_ok, refuseIf_eq_ok] at h
  rw [Option.isSome_iff_ne_none]
  simpa using h.2.2

theorem Entries.mem_of_node {entries : Entries Bytes} {dir : List OsName} {name : OsName}
    {node : Node Bytes} (h : Entries.node? entries (dir ++ [name]) = some node) :
    (dir ++ [name], node) ∈ entries := by
  rw [Entries.node?, if_neg (by simp)] at h
  obtain ⟨e, he, rfl⟩ := Option.map_eq_some_iff.mp h
  have hkey : e.1 = dir ++ [name] := by simpa using List.find?_some he
  rw [← hkey]
  exact List.mem_of_find?_eq_some he

/-! ## A folder whose links are checked under their own paths -/

def ownPath (names : List OsName) : String := joinPath (names.map OsName.toStringLossy)

/-- The names are names of directory entries. -/
def Entries.RealNames (entries : Entries Bytes) : Prop :=
  ∀ e ∈ entries, ∀ name ∈ e.1, EntryName name.toStringLossy

def Entries.LinksChecked (entries : Entries Bytes) : Prop :=
  ∀ dir name target, Entries.node? entries (dir ++ [name]) = some (.symlink target) →
    ∃ text, target.toStr? = some text ∧ validateSymlinkTarget (ownPath (dir ++ [name])) text = .ok ()

theorem length_components_ownPath {entries : Entries Bytes} (hnames : Entries.RealNames entries)
    {dir : List OsName} {name : OsName} {node : Node Bytes}
    (h : Entries.node? entries (dir ++ [name]) = some node) :
    (components (ownPath (dir ++ [name]))).length - 1 = dir.length := by
  have hentry : ∀ text ∈ (dir ++ [name]).map OsName.toStringLossy, EntryName text := by
    intro text htext
    obtain ⟨n, hn, rfl⟩ := List.mem_map.mp htext
    exact hnames _ (Entries.mem_of_node h) n hn
  rw [ownPath, components_joinPath (by simp) hentry]
  simp

theorem ownPaths_staysInside {entries : Entries Bytes} (hnames : Entries.RealNames entries)
    (hchecked : Entries.LinksChecked entries) :
    Entries.StaysInside entries ↔
      ∀ dir name text, Entries.HasLink entries dir name text →
        ¬ Misstep entries dir.length dir text := by
  rw [staysInside_iff_misstep fun dir _ _ d => d = dir.length]
  · constructor
    · intro h dir name text hlink
      exact h dir name text _ hlink rfl
    · rintro h dir name text d hlink rfl
      exact h dir name text hlink
  · intro dir name target hnode
    obtain ⟨text, htext, hvalid⟩ := hchecked dir name target hnode
    refine ⟨text, dir.length, htext, rfl, ?_⟩
    rw [← length_components_ownPath hnames hnode]
    exact validateSymlinkTarget_depth hvalid

/-! ## A scanned folder -/

/-- The level that the scanner counts a link's target from: its path has a level more for
each backslash in a name. -/
def CountedByScan (dir : List OsName) (name : OsName) (_ : String) (d : Nat) : Prop :=
  ∃ relPath, normalizedRelativePath (dir ++ [name]) = .ok relPath ∧
    d = (components relPath).length - 1

theorem scanned_staysInside {c : Contents Bytes} {root code : String}
    {walk : List (WalkEntry Bytes)} {entries : Entries Bytes} {result : ScanResult}
    (hwalk : Walks walk entries)
    (hscan : scanProblemFolder c root code (some walk) = .ok result) :
    Entries.StaysInside entries ↔
      ∀ dir name text d, Entries.HasLink entries dir name text → CountedByScan dir name text d →
        ¬ Misstep entries d dir text := by
  apply staysInside_iff_misstep CountedByScan
  intro dir name target hnode
  obtain ⟨e, he, hentry⟩ := List.mem_map.mp (hwalk.entries.mem_iff.mpr (Entries.mem_of_node hnode))
  obtain ⟨st, hst, -⟩ := scanProblemFolder_eq_ok hscan
  obtain ⟨done, todo, rfl⟩ := List.append_of_mem he
  obtain ⟨t, -, u, hu⟩ := foldlM_eq_ok_at hst
  have hnames : e.names = dir ++ [name] := congrArg Prod.fst hentry
  have hkind : e.node = .symlink target := congrArg Prod.snd hentry
  rw [scanEntry, hkind] at hu
  obtain ⟨f, hscanned, -⟩ := scanSymlink_eq_ok hkind hu
  have hreported := hscanned.node
  rw [hkind] at hreported
  obtain ⟨-, text, htext, -, hvalid, -⟩ := hreported
  exact ⟨text, _, htext, ⟨f.path, hnames ▸ hscanned.path, rfl⟩, validateSymlinkTarget_depth hvalid⟩

/-! ## A materialised manifest -/

/-- The level that a link of a manifest is counted from: that of its path, which may lead
through links that were made before it. -/
def CountedByManifest (m : Manifest) (_ : List OsName) (_ : OsName) (text : String) (d : Nat) :
    Prop :=
  ∃ f ∈ m.files, f.symlinkTarget = some text ∧ d = (components f.path).length - 1

def LinksOf (m : Manifest) (s : Staging Bytes) : Prop :=
  ∀ p text, (p, some (.symlink text)) ∈ s.tree →
    ∃ f ∈ m.files, f.symlinkTarget = some text ∧ validateSymlinkTarget f.path text = .ok ()

theorem createDirAll_leaf {t t' : Library.Trees.Tree String (StagedLeaf Bytes)} {links : Nat}
    {dir dir' names : List String} (h : createDirAll t links dir names = .ok (t', dir'))
    {p : List String} {leaf : StagedLeaf Bytes} (hp : (p, some leaf) ∈ t') : (p, some leaf) ∈ t := by
  induction names generalizing t links dir with
  | nil =>
      cases h
      exact hp
  | cons name names ih =>
      unfold createDirAll at h
      split at h
      · have hmem := ih h
        simpa using hmem
      · exact ih h
      · cases h
      · split at h
        · cases h
        · split at h
          · cases h
          · exact ih h

theorem createParents_leaf {s s' : Staging Bytes} {staging path : String} {p : List String}
    (h : s.createParents staging path = .ok (s', p)) {q : List String} {leaf : StagedLeaf Bytes}
    (hq : (q, some leaf) ∈ s'.tree) : (q, some leaf) ∈ s.tree := by
  obtain ⟨-, h⟩ := check_eq_ok.mp h
  obtain ⟨r, hdirs, h⟩ := bind_eq_ok.mp h
  cases h
  exact createDirAll_leaf hdirs hq

theorem addLeaf_leaf {s s' : Staging Bytes} {p : List String} {leaf : StagedLeaf Bytes}
    (h : s.addLeaf p leaf = .ok s') {q : List String} {leaf' : StagedLeaf Bytes}
    (hq : (q, some leaf') ∈ s'.tree) : (q, some leaf') ∈ s.tree ∨ leaf' = leaf := by
  unfold Staging.addLeaf at h
  split at h
  · cases h
    rcases List.mem_append.mp hq with hq | hq
    · exact .inl hq
    · exact .inr (Option.some.inj (congrArg Prod.snd (List.mem_singleton.mp hq)))
  · cases h

theorem putFile_leaf {s s' : Staging Bytes} {p : List String} {content : Bytes}
    (h : s.putFile p content = .ok s') {q : List String} {leaf : StagedLeaf Bytes}
    (hq : (q, some leaf) ∈ s'.tree) :
    (q, some leaf) ∈ s.tree ∨ leaf = .file s.nextInode content := by
  unfold Staging.putFile at h
  split at h
  · cases h
    rcases List.mem_append.mp hq with hq | hq
    · exact .inl hq
    · exact .inr (Option.some.inj (congrArg Prod.snd (List.mem_singleton.mp hq)))
  · cases h
  · cases h
    rcases Library.Trees.mem_setLeaf.mp hq with ⟨hq, -⟩ | ⟨hq, -⟩
    · exact .inl hq
    · exact .inr (Option.some.inj (congrArg Prod.snd hq))

theorem leafAt_mem {s : Staging Bytes} {path : String} {leaf : StagedLeaf Bytes}
    (h : s.leafAt path = .ok leaf) : ∃ p, (p, some leaf) ∈ s.tree := by
  simp only [Staging.leafAt, bind_eq_ok] at h
  obtain ⟨_, -, r, -, hfound⟩ := h
  split at hfound
  · cases hfound
  · cases hfound
  · rename_i hlookup
    cases hfound
    refine ⟨_, Library.Trees.mem_of_lookup ?_ hlookup⟩
    intro hroot
    rw [hroot, Library.Trees.lookup_root] at hlookup
    cases hlookup

theorem materializeRegular_links {c : Contents Bytes} {store : String → Option Bytes}
    {m : Manifest} {staging : String} {s s' : Staging Bytes} {f : ManifestFile} (hs : LinksOf m s)
    (h : materializeRegular c store staging s f = .ok s') : LinksOf m s' := by
  simp only [materializeRegular, bind_eq_ok] at h
  obtain ⟨_, -, ⟨s₁, target⟩, hparents, bytes, -, _, -, _, -, _, -, hput⟩ := h
  intro p text hp
  rcases putFile_leaf hput hp with hp | hleaf
  · exact hs p text (createParents_leaf hparents hp)
  · cases hleaf

theorem materializeHardLink_links {files : List ManifestFile} {m : Manifest} {staging : String}
    {s s' : Staging Bytes} {f : ManifestFile} (hs : LinksOf m s)
    (h : materializeHardLink files staging s f = .ok s') : LinksOf m s' := by
  simp only [materializeHardLink, check_eq_ok] at h
  obtain ⟨-, h⟩ := h
  split at h
  · cases h
  · simp only [check_eq_ok] at h
    obtain ⟨-, h⟩ := h
    split at h
    · cases h
    · simp only [bind_eq_ok] at h
      obtain ⟨_, -, ⟨s₁, target⟩, hparents, leaf, hleaf, _, -, _, -, hadd⟩ := h
      intro p text hp
      rcases addLeaf_leaf hadd hp with hp | rfl
      · exact hs p text (createParents_leaf hparents hp)
      · obtain ⟨q, hq⟩ := leafAt_mem hleaf
        exact hs q text (createParents_leaf hparents hq)

theorem materializeSymlink_links [DecidableEq Bytes] {c : Contents Bytes}
    {store : String → Option Bytes} {m : Manifest} {staging : String} {s s' : Staging Bytes}
    {f : ManifestFile} (hf : f ∈ m.files) (hs : LinksOf m s)
    (h : materializeSymlink c store staging s f = .ok s') : LinksOf m s' := by
  simp only [materializeSymlink, check_eq_ok] at h
  obtain ⟨-, h⟩ := h
  split at h
  · cases h
  · rename_i linkTarget htarget
    simp only [bind_eq_ok] at h
    obtain ⟨_, hvalid, bytes, -, _, -, ⟨s₁, target⟩, hparents, _, -, _, -, hadd⟩ := h
    intro p text hp
    rcases addLeaf_leaf hadd hp with hp | hleaf
    · exact hs p text (createParents_leaf hparents hp)
    · cases hleaf
      exact ⟨f, hf, htarget, hvalid⟩

theorem materialized_links [DecidableEq Bytes] {c : Contents Bytes}
    {store : String → Option Bytes} {m : Manifest} {staging : String} {s : Staging Bytes}
    (h : materializeManifestFiles c store m staging = .ok s) : LinksOf m s := by
  simp only [materializeManifestFiles, bind_eq_ok] at h
  obtain ⟨s₁, hregular, s₂, hhard, hsymlink⟩ := h
  have h₁ : LinksOf m s₁ := foldlM_invariant (I := fun _ => LinksOf m)
    (fun _ _ _ _ hs hstep => materializeRegular_links hs hstep)
    (by intro p text hp; cases hp) hregular
  have h₂ : LinksOf m s₂ := foldlM_invariant (I := fun _ => LinksOf m)
    (fun _ _ _ _ hs hstep => materializeHardLink_links hs hstep) h₁ hhard
  have hend := foldlM_invariant
    (I := fun done s => (∀ f ∈ done, f ∈ m.files) → LinksOf m s)
    (fun done f s t hs hstep hmem => materializeSymlink_links
      (hmem f (List.mem_append_right _ (List.mem_singleton_self f)))
      (hs fun g hg => hmem g (List.mem_append_left _ hg)) hstep)
    (fun _ => h₂) hsymlink
  exact hend fun f hf => (List.mem_filter.mp hf).1

theorem materialized_staysInside [DecidableEq Bytes] {c : Contents Bytes}
    {store : String → Option Bytes} {m : Manifest} {staging : String} {s : Staging Bytes}
    (h : materializeManifestFiles c store m staging = .ok s) :
    Entries.StaysInside s.entries ↔
      ∀ dir name text d, Entries.HasLink s.entries dir name text →
        CountedByManifest m dir name text d → ¬ Misstep s.entries d dir text := by
  apply staysInside_iff_misstep (CountedByManifest m)
  intro dir name target hnode
  obtain ⟨⟨p, leaf⟩, hmem, hentry⟩ := List.mem_map.mp (Entries.mem_of_node hnode)
  have hkind : (leaf.map StagedLeaf.node).getD .dir = .symlink target := congrArg Prod.snd hentry
  cases leaf with
  | none => cases hkind
  | some leaf =>
      cases leaf with
      | file inode content => cases hkind
      | symlink text =>
          cases hkind
          obtain ⟨f, hf, htarget, hvalid⟩ := materialized_links h p text hmem
          exact ⟨text, _, OsName.toStr?_ofText text, ⟨f, hf, htarget, rfl⟩,
            validateSymlinkTarget_depth hvalid⟩

/-! ## Symbolic links of problems -/

/-- A folder whose links are all checked stays inside exactly when no target has a `..` that
is met at the folder itself, behind another link or in a link that lies less deep than it
was counted from: for links checked under their own paths, in a folder that the scanner
takes, and in one made from a manifest. -/
theorem problem_symlinks_stay_inside [DecidableEq Bytes] (c : Contents Bytes) :
    (∀ entries : Entries Bytes, Entries.RealNames entries → Entries.LinksChecked entries →
      (Entries.StaysInside entries ↔
        ∀ dir name text, Entries.HasLink entries dir name text →
          ¬ Misstep entries dir.length dir text)) ∧
    (∀ root code walk (entries : Entries Bytes) result, Walks walk entries →
      scanProblemFolder c root code (some walk) = .ok result →
      (Entries.StaysInside entries ↔
        ∀ dir name text d, Entries.HasLink entries dir name text → CountedByScan dir name text d →
          ¬ Misstep entries d dir text)) ∧
    ∀ store m problemId generation staging s,
      validateManifest c m problemId generation = .ok () →
      materializeManifestFiles c store m staging = .ok s →
      (Entries.StaysInside s.entries ↔
        ∀ dir name text d, Entries.HasLink s.entries dir name text →
          CountedByManifest m dir name text d → ¬ Misstep s.entries d dir text) := by
  refine ⟨?_, ?_, ?_⟩
  · intro entries hnames hchecked
    exact ownPaths_staysInside hnames hchecked
  · intro root code walk entries result hwalk hscan
    exact scanned_staysInside hwalk hscan
  · intro store m problemId generation staging s _ hfiles
    exact materialized_staysInside hfiles

def text (name : String) : OsName := OsName.ofText name

def textContents : Contents String := ⟨fun text => "ab" ++ text, id, String.length⟩

/-- The link `a/up` leads to `b`, beside `a`. -/
def besideEntries : Entries String :=
  [([text "a"], .dir), ([text "b"], .dir), ([text "a", text "up"], .symlink (text "../b"))]

theorem problem_symlinks_stay_inside_beside : Entries.StaysInside besideEntries := by
  have hlink : ∀ dir name target,
      Entries.node? besideEntries (dir ++ [name]) = some (.symlink target) →
        dir ++ [name] = [text "a"] ++ [text "up"] ∧ target = text "../b" := by
    intro dir name target hnode
    have hmem := Entries.mem_of_node hnode
    simpa [besideEntries] using hmem
  refine ((problem_symlinks_stay_inside textContents).1 besideEntries ?_ ?_).mpr ?_
  · have hentry : ∀ name ∈ ["a", "b", "up"], EntryName name := by
      intro name hname
      simp only [List.mem_cons, List.not_mem_nil, or_false] at hname
      rcases hname with rfl | rfl | rfl
      all_goals exact ⟨by decide, by decide, by decide, by decide⟩
    intro e he name hname
    apply hentry
    simp only [besideEntries, List.mem_cons, List.not_mem_nil, or_false] at he
    rcases he with rfl | rfl | rfl
    all_goals
      simp only [List.mem_cons, List.not_mem_nil, or_false] at hname
      rcases hname with rfl | rfl
      all_goals decide
  · intro dir name target hnode
    obtain ⟨hnames, rfl⟩ := hlink dir name target hnode
    rw [hnames]
    exact ⟨"../b", by decide +kernel, by rfl⟩
  · rintro dir name target ⟨osTarget, hnode, htext⟩ ⟨before, after, hsteps, n, m, hwalk, -⟩
    obtain ⟨hnames, rfl⟩ := hlink dir name osTarget hnode
    obtain ⟨rfl, -⟩ := List.append_inj' hnames rfl
    rw [show OsName.toStr? (text "../b") = some "../b" from OsName.toStr?_ofText _] at htext
    cases htext
    have hup : targetSteps (OsName.ofText "../b") = [.up, .name (text "b")] := by decide +kernel
    rw [hup] at hsteps
    -- the only `..` is the first step, taken in `a`
    cases before with
    | nil =>
        rw [walk_nil] at hwalk
        cases hwalk
    | cons step before =>
        cases before with
        | nil => cases hsteps
        | cons next before => simp at hsteps

/-- `m` goes up behind `a/b/l`, which leads to the folder itself. -/
def detourWalk : List (WalkEntry String) :=
  [⟨[text "a"], .dir, ⟨1, 1, 2, 0, 0⟩⟩, ⟨[text "a", text "b"], .dir, ⟨1, 2, 2, 0, 0⟩⟩,
    ⟨[text "a", text "b", text "l"], .symlink (text "../.."), ⟨1, 3, 1, 0, 0⟩⟩,
    ⟨[text "m"], .symlink (text "a/b/l/.."), ⟨1, 4, 1, 0, 0⟩⟩]

def detourEntries : Entries String := detourWalk.map fun e => (e.names, e.node)

def linkFile (path target : String) (ino : Nat) : ManifestFile where
  path := path
  sha256 := "ab" ++ target
  size := target.length
  allocatedBytes := 0
  mode := 0
  dev := 1
  ino := ino
  nlink := 1
  duplicateOf := none
  symlinkTarget := some target
  objectKey := "objects/sha256/ab/ab" ++ target

def detourManifest : Manifest where
  schemaVersion := 3
  problemId := "7"
  code := "sums"
  generation := 1
  createdAt := 0
  files := [linkFile "a/b/l" "../.." 3, linkFile "m" "a/b/l/.." 4]
  canonicalDownloadPath := none
  totalBytes := 13
  fileCount := 2

def detourStore (key : String) : Option String :=
  if key = "objects/sha256/ab/ab../.." then some "../.." else some "a/b/l/.."

def detourStaging : Staging String where
  tree := [(["a"], none), (["a", "b"], none), (["a", "b", "l"], some (.symlink "../..")),
    (["m"], some (.symlink "a/b/l/.."))]
  nextInode := 0

/-- Every check passes, and `m` leads to the parent of the folder. -/
theorem checked_symlink_escapes :
    Entries.RealNames detourEntries ∧ Entries.LinksChecked detourEntries ∧
      Walks detourWalk detourEntries ∧
      (∃ result, scanProblemFolder textContents "/problems" "sums" (some detourWalk) = .ok result) ∧
      ¬ Entries.StaysInside detourEntries ∧
      validateManifest textContents detourManifest "7" 1 = .ok () ∧
      ∃ s, materializeManifestFiles textContents detourStore detourManifest "/problems/.sums" =
          .ok s ∧
        ¬ Entries.StaysInside s.entries := by
  refine ⟨?_, ?_, ⟨List.Perm.refl _, ?_⟩, ⟨_, rfl⟩, ?_, by decide +kernel, detourStaging,
    by decide +kernel, ?_⟩
  · have hentry : ∀ name ∈ ["a", "b", "l", "m"], EntryName name := by
      intro name hname
      simp only [List.mem_cons, List.not_mem_nil, or_false] at hname
      rcases hname with rfl | rfl | rfl | rfl
      all_goals exact ⟨by decide, by decide, by decide, by decide⟩
    intro e he name hname
    apply hentry
    have hall : ∀ e ∈ detourEntries, ∀ name ∈ e.1, name.toStringLossy ∈ ["a", "b", "l", "m"] := by
      decide +kernel
    exact hall e he name hname
  · intro dir name target hnode
    have hmem := Entries.mem_of_node hnode
    simp only [detourEntries, detourWalk, List.map_cons, List.map_nil, List.mem_cons,
      Prod.mk.injEq, List.not_mem_nil, or_false, reduceCtorEq, and_false, false_or,
      Node.symlink.injEq] at hmem
    rcases hmem with ⟨hnames, rfl⟩ | ⟨hnames, rfl⟩
    · rw [hnames]
      exact ⟨"../..", by decide +kernel, by rfl⟩
    · rw [hnames]
      exact ⟨"a/b/l/..", by decide +kernel, by rfl⟩
  · have hfiles : ∀ e ∈ detourWalk, Node.place e.node ≠ .leaf := by decide +kernel
    intro e he _ _ i x _ _ hfile _
    exact absurd (by rw [hfile]; rfl) (hfiles e he)
  · intro h
    exact h [] (text "m") _ (by rfl) 3 (by decide +kernel)
  · intro h
    exact h [] (text "m") _ (by rfl) 3 (by decide +kernel)

end ExternalStorage.Restore
