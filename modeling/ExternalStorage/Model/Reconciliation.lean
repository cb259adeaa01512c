import ExternalStorage.Model.Problems
import ExternalStorage.Model.Scan
import Mathlib.Data.List.Sort

/-!
# Reconciliation passes

`reconcile.rs`: a pass lists the folders of the problem root, reads the catalog, and then
goes through its plan one problem at a time, with a statement or a call to the file system
at a time.  `problem_tree_cache` keeps for a code the fingerprint of the tree that its
counters are those of.
-/

namespace ExternalStorage.Model

open Library.Table

variable {Bytes : Type}

/-! ## Fingerprints -/

/-- What `tree_fingerprint` reads of an entry besides what the scanner reads. -/
structure TreeEntry (Bytes : Type) where
  entry : WalkEntry Bytes
  len : Nat
  mtime : Int
  mtimeNsec : Int
  ctime : Int
  ctimeNsec : Int
  deriving DecidableEq, Repr

/-- A folder, with its own metadata. -/
structure Tree (Bytes : Type) where
  top : TreeEntry Bytes
  below : List (TreeEntry Bytes)
  deriving DecidableEq, Repr

def Tree.walk (tree : Tree Bytes) : List (WalkEntry Bytes) := tree.below.map TreeEntry.entry

def Tree.scan (c : Contents Bytes) (root code : String) (tree : Tree Bytes) :
    Except AppError ScanResult :=
  scanProblemFolder c root code (some tree.walk)

/-- `u64::to_le_bytes`. -/
def leBytes (value : Nat) : List UInt8 :=
  (List.range 8).map fun i => UInt8.ofNat (value / 256 ^ i)

/-- `as u64`. -/
def asU64 (value : Int) : Nat := (value % 2 ^ 64).toNat

/-- `OsStr::as_bytes`. -/
def OsName.bytes (name : OsName) : List UInt8 :=
  name.flatMap fun
    | .valid text => text.toUTF8.toList
    | .invalid bytes => bytes

def pathBytes (names : List OsName) : List UInt8 :=
  [47].intercalate (names.map OsName.bytes)

def TreeEntry.update (e : TreeEntry Bytes) : List UInt8 :=
  let name := pathBytes e.entry.names
  let stat := e.entry.stat
  leBytes name.length ++ name ++
    [stat.dev, stat.ino, stat.mode, e.len, stat.blocks, asU64 e.mtime, asU64 e.mtimeNsec,
      asU64 e.ctime, asU64 e.ctimeNsec].flatMap leBytes ++
    match e.entry.node with
    | .symlink target => leBytes target.bytes.length ++ target.bytes
    | .dir | .file .. | .special => []

/-- `tree_fingerprint`; `hash` is the SHA-256 in hex, and the walk is sorted by file name. -/
def treeFingerprint (hash : List UInt8 → String) (tree : Tree Bytes) : String :=
  let sorted := tree.below.insertionSort fun e e' =>
    e.entry.names.map OsName.bytes ≤ e'.entry.names.map OsName.bytes
  hash ("problem-tree-v1\x00".toUTF8.toList ++ (tree.top :: sorted).flatMap TreeEntry.update)

/-! ## `problem_tree_cache` -/

structure TreeCacheRow where
  code : String
  fingerprint : String
  usageFingerprint : Option String
  canonicalDownloadPath : Option String
  deriving DecidableEq, Repr

def cachedTree (code : String) (cache : List TreeCacheRow) : Option TreeCacheRow :=
  cache.find? fun r => r.code = code

def cacheTree (code fingerprint : String) (canonicalDownloadPath : Option String)
    (accounted : Bool) (cache : List TreeCacheRow) : List TreeCacheRow :=
  upsertOn TreeCacheRow.code
    ⟨code, fingerprint, if accounted then some fingerprint else none, canonicalDownloadPath⟩
    (fun r => { r with
      fingerprint := fingerprint, canonicalDownloadPath := canonicalDownloadPath
      usageFingerprint :=
        if accounted then some fingerprint
        else if r.fingerprint = fingerprint then r.usageFingerprint
        else none })
    cache

def invalidateTreeCache (code : String) (cache : List TreeCacheRow) : List TreeCacheRow :=
  deleteWhere (fun r => r.code = code) cache

def usageIsCurrent (db : Database) (code : String) (expectedId : Option String) : Bool :=
  db.problems.any fun p => p.code = code && (expectedId.all fun id => p.externalId = id) &&
    db.problemUsage.any fun u => u.problemId = p.externalId &&
      (u.localStatus = .present || u.localStatus = .orphan) && !u.stale

/-! ## Plans -/

structure CatalogProblem where
  externalId : String
  code : String
  catalogState : CatalogState
  deriving DecidableEq, Repr

def listCatalogProblems (db : Database) : List CatalogProblem :=
  (db.problems.filter fun p => p.catalogState.listed).map fun p =>
    ⟨p.externalId, p.code, p.catalogState⟩

structure ReconcilePlan where
  knownPresent : List CatalogProblem
  missingKnown : List CatalogProblem
  orphans : List String
  deriving DecidableEq, Repr

/-- `by_code.get`: of two problems with one code the later counts. -/
def problemByCode (active : List CatalogProblem) (code : String) : Option CatalogProblem :=
  active.reverse.find? fun p => p.code = code

def buildReconcilePlan (folders : List String) (catalog : List CatalogProblem) : ReconcilePlan :=
  let active := catalog.filter fun p => p.catalogState.listed
  { knownPresent := (folders.filterMap (problemByCode active)).insertionSort
      fun p p' => p.code ≤ p'.code
    missingKnown := (active.filter fun p => p.code ∉ folders).insertionSort
      fun p p' => p.code ≤ p'.code
    orphans := (folders.filter fun folder => (problemByCode active folder).isNone).insertionSort
      (· ≤ ·) }

/-- `list_problem_codes`, over the directories of the problem root with a UTF-8 name. -/
def listProblemCodes (directories : List String) : List String :=
  (directories.filter fun name => !".".toList.isPrefixOf name.toList).insertionSort (· ≤ ·)

/-! ## Passes -/

/-- What a pass reads of the file system at one moment. -/
structure Disk where
  directories : List String
  scan : String → Except AppError ScanResult
  fingerprint : String → Except AppError String
  initYml : String → Option String

/-- The database, and the table of fingerprints beside it. -/
structure Accounts where
  db : Database
  cache : List TreeCacheRow

inductive Stage where
  | opened
  /-- The usage of the orphan projection is deleted. -/
  | unprojected
  /-- The projection is removed. -/
  | projected
  /-- `cached_usage_matches` has found a fingerprint. -/
  | cached (saved : String)
  /-- … which is that of the tree. -/
  | unchanged (saved : String)
  /-- It has answered false. -/
  | outdated
  | invalidated
  | fingerprinted (before : String)
  | scanned (before : String) (scan : ScanResult)
  | accounted (before : String) (scan : ScanResult)
  /-- The fingerprint is the same after the scan. -/
  | stable (before : String) (scan : ScanResult)
  deriving DecidableEq, Repr

/-- A folder of the plan, with its problem if it is a known one. -/
structure Item where
  code : String
  externalId : Option String
  deriving DecidableEq, Repr

def accountUsage (now : Timestamp) (item : Item) (scan : ScanResult) (db : Database) : Database :=
  match item.externalId with
  | some id =>
      { db with
        problemUsage := DataPlane.upsertProblemUsage now id scan .present db.problemUsage }
  | none => DataPlane.upsertDiscoveredUsage now item.code scan db

/-- The statement that writes the usage succeeds: a foreign key asks for the problem, and
`fetch_one` for a problem with the code, which the insert does not add where the id of the
orphan is taken. -/
def accountable (item : Item) (db : Database) : Bool :=
  match item.externalId with
  | some id => db.problems.any fun p => p.externalId = id
  | none =>
      (db.problems.any fun p => p.code = item.code) ||
        !db.problems.any fun p => p.externalId = orphanId item.code

/-- The next step with a folder: `none` as the stage after it says that the folder is done,
and no step at all that the pass fails. -/
def advanceItem (now : Timestamp) (disk : Disk) (acc : Accounts) (item : Item) :
    Stage → Option (Accounts × Option Stage)
  | .opened =>
      some ({ acc with db := DataPlane.deleteOrphanUsage item.code acc.db }, some .unprojected)
  | .unprojected =>
      (DataPlane.deleteOrphanProblem item.code acc.db).map fun db =>
        ({ acc with db := db }, some .projected)
  | .projected =>
      match (cachedTree item.code acc.cache).bind TreeCacheRow.usageFingerprint with
      | none => some (acc, some .outdated)
      | some saved => some (acc, some (.cached saved))
  | .cached saved =>
      match disk.fingerprint item.code with
      | .error _ => none
      | .ok current => some (acc, some (if saved = current then .unchanged saved else .outdated))
  | .unchanged _ =>
      some (acc, if usageIsCurrent acc.db item.code item.externalId then none else some .outdated)
  | .outdated =>
      some ({ acc with cache := invalidateTreeCache item.code acc.cache }, some .invalidated)
  | .invalidated =>
      match disk.fingerprint item.code with
      | .error _ => none
      | .ok before => some (acc, some (.fingerprinted before))
  | .fingerprinted before =>
      match disk.scan item.code with
      | .ok scan => some (acc, some (.scanned before scan))
      -- An orphan that cannot be scanned is passed over.
      | .error _ => if item.externalId.isSome then none else some (acc, none)
  | .scanned before scan =>
      if accountable item acc.db then
        some ({ acc with db := accountUsage now item scan acc.db }, some (.accounted before scan))
      else
        none
  | .accounted before scan =>
      match disk.fingerprint item.code with
      | .error _ => none
      | .ok after => some (acc, if before = after then some (.stable before scan) else none)
  | .stable before scan =>
      let canonical := canonicalDownloadPath (disk.initYml item.code) scan.files
      some ({ acc with cache := cacheTree item.code before canonical true acc.cache }, none)

inductive Pass where
  | listed (folders : List String)
  | planned (plan : ReconcilePlan)
  /-- What is left of the plan; the stage is that of its first folder. -/
  | applying (plan : ReconcilePlan) (stage : Stage)
  deriving DecidableEq, Repr

def ReconcilePlan.firstStage (plan : ReconcilePlan) : Stage :=
  if plan.knownPresent.isEmpty then .projected else .opened

def continuePass (plan rest : ReconcilePlan) : Option Stage → Pass
  | some stage => .applying plan stage
  | none => .applying rest rest.firstStage

/-- The next step of a pass; there is none where it fails or the plan is done. -/
def advancePass (now : Timestamp) (disk : Disk) (acc : Accounts) : Pass → Option (Accounts × Pass)
  | .listed folders => some (acc, .planned (buildReconcilePlan folders (listCatalogProblems acc.db)))
  | .planned plan =>
      some ({ acc with db := DataPlane.healUsageReadyProjection now acc.db },
        .applying plan plan.firstStage)
  | .applying plan stage =>
      match plan.knownPresent, plan.missingKnown, plan.orphans with
      | p :: known, _, _ =>
          (advanceItem now disk acc ⟨p.code, some p.externalId⟩ stage).map fun (acc, next) =>
            (acc, continuePass plan { plan with knownPresent := known } next)
      | [], p :: missing, _ =>
          if acc.db.problems.any fun q => q.externalId = p.externalId then
            let usage := DataPlane.upsertMissingUsage now p.externalId acc.db
            some ({ acc with db := { acc.db with problemUsage := usage } },
              continuePass plan { plan with missingKnown := missing } none)
          else
            none
      | [], [], code :: orphans =>
          (advanceItem now disk acc ⟨code, none⟩ stage).map fun (acc, next) =>
            (acc, continuePass plan { plan with orphans := orphans } next)
      | [], [], [] => none

/-! ## What a step of a pass does -/

def ReconcilePlan.current (plan : ReconcilePlan) : Option Item :=
  match plan.knownPresent, plan.missingKnown, plan.orphans with
  | p :: _, _, _ => some ⟨p.code, some p.externalId⟩
  | [], [], code :: _ => some ⟨code, none⟩
  | [], _, _ => none

def marksMissing (problemId : String) : Pass → Bool
  | .applying ⟨[], p :: _, _⟩ _ => p.externalId = problemId
  | _ => false

def writtenUsage : Pass → Option (Item × ScanResult)
  | .applying plan (.scanned _ scan) => plan.current.map fun item => (item, scan)
  | _ => none

inductive PassMoves (now : Timestamp) (disk : Disk) (acc : Accounts) :
    Pass → Accounts → Pass → Prop
  | plan {folders} : PassMoves now disk acc (.listed folders) acc
      (.planned (buildReconcilePlan folders (listCatalogProblems acc.db)))
  | heal {plan} : PassMoves now disk acc (.planned plan)
      { acc with db := DataPlane.healUsageReadyProjection now acc.db }
      (.applying plan plan.firstStage)
  | item {plan rest stage item acc' next} : plan.current = some item →
      rest.missingKnown = plan.missingKnown → rest.knownPresent ⊆ plan.knownPresent →
      advanceItem now disk acc item stage = some (acc', next) →
      PassMoves now disk acc (.applying plan stage) acc' (continuePass plan rest next)
  | missing {p missing orphans stage} :
      PassMoves now disk acc (.applying ⟨[], p :: missing, orphans⟩ stage)
        { acc with
          db := { acc.db with
            problemUsage := DataPlane.upsertMissingUsage now p.externalId acc.db } }
        (continuePass ⟨[], p :: missing, orphans⟩ ⟨[], missing, orphans⟩ none)

theorem passMoves_of_advance {now : Timestamp} {disk : Disk} {acc acc' : Accounts}
    {pass pass' : Pass} (h : advancePass now disk acc pass = some (acc', pass')) :
    PassMoves now disk acc pass acc' pass' := by
  cases pass with
  | listed folders =>
      cases h
      exact .plan
  | planned plan =>
      cases h
      exact .heal
  | applying plan stage =>
      obtain ⟨known, missing, orphans⟩ := plan
      match known, missing, orphans with
      | p :: known, missing, orphans =>
          obtain ⟨⟨acc₁, next⟩, hitem, hpair⟩ := Option.map_eq_some_iff.mp h
          cases hpair
          exact .item rfl rfl (fun _ => List.mem_cons_of_mem _) hitem
      | [], p :: missing, orphans =>
          simp only [advancePass] at h
          split at h
          · cases h
            exact .missing
          · cases h
      | [], [], code :: orphans =>
          obtain ⟨⟨acc₁, next⟩, hitem, hpair⟩ := Option.map_eq_some_iff.mp h
          cases hpair
          exact .item rfl rfl (fun _ h => h) hitem
      | [], [], [] => cases h

theorem advanceItem_db {now : Timestamp} {disk : Disk} {acc acc' : Accounts} {item : Item}
    {stage : Stage} {next : Option Stage}
    (h : advanceItem now disk acc item stage = some (acc', next)) :
    (∃ before scan, stage = .scanned before scan ∧ acc'.db = accountUsage now item scan acc.db) ∨
      (∀ before scan, stage ≠ .scanned before scan) ∧
        (acc'.db = acc.db ∨ acc'.db = DataPlane.deleteOrphanUsage item.code acc.db ∨
          DataPlane.deleteOrphanProblem item.code acc.db = some acc'.db) := by
  cases stage with
  | opened =>
      cases h
      exact .inr ⟨nofun, .inr (.inl rfl)⟩
  | unprojected =>
      obtain ⟨db, hdb, hpair⟩ := Option.map_eq_some_iff.mp h
      cases hpair
      exact .inr ⟨nofun, .inr (.inr hdb)⟩
  | scanned before scan =>
      simp only [advanceItem] at h
      split at h
      · cases h
        exact .inl ⟨before, scan, rfl, rfl⟩
      · cases h
  | unchanged | outdated | stable =>
      cases h
      exact .inr ⟨nofun, .inl rfl⟩
  | projected | cached | invalidated | accounted =>
      refine .inr ⟨nofun, .inl ?_⟩
      simp only [advanceItem] at h
      split at h <;> cases h <;> rfl
  | fingerprinted before =>
      refine .inr ⟨nofun, .inl ?_⟩
      simp only [advanceItem] at h
      split at h
      · cases h
        rfl
      · split at h
        · cases h
        · cases h
          rfl

theorem deleteOrphanProblem_problems {code : String} {db db' : Database}
    (h : DataPlane.deleteOrphanProblem code db = some db') :
    ∀ p, p ∈ db'.problems ↔ p ∈ db.problems ∧
      ¬ (p.externalId = orphanId code ∧ p.catalogState = .orphan) := by
  unfold DataPlane.deleteOrphanProblem at h
  dsimp only at h
  split at h
  · split at h
    · cases h
    · cases h
      intro p
      simp [mem_deleteWhere]
  · rename_i hnone
    cases h
    intro p
    simp only [List.any_eq_true, Bool.and_eq_true, decide_eq_true_eq, not_exists] at hnone
    exact ⟨fun hp => ⟨hp, fun h => hnone p ⟨hp, h⟩⟩, fun h => h.1⟩

theorem deleteOrphanProblem_subset {code : String} {db db' : Database}
    (h : DataPlane.deleteOrphanProblem code db = some db') : db'.problems ⊆ db.problems :=
  fun p hp => ((deleteOrphanProblem_problems h p).mp hp).1

theorem deleteOrphanProblem_rows {code problemId : String} {db db' : Database}
    {R : ProblemUsageRow → ProblemUsageRow → Prop} (hrefl : ∀ u, R u u)
    (h : DataPlane.deleteOrphanProblem code db = some db') :
    KeepsRows problemId R db.problemUsage db'.problemUsage := by
  unfold DataPlane.deleteOrphanProblem at h
  dsimp only at h
  split at h
  · split at h
    · cases h
    · cases h
      exact keepsRows_deleteWhere hrefl _
  · cases h
    exact keepsRows_refl hrefl

theorem healUsageReadyProjection_rows {now : Timestamp} {db : Database} {problemId : String}
    {R : ProblemUsageRow → ProblemUsageRow → Prop} (hrefl : ∀ u, R u u)
    (hheal : ∀ u g, R u { u with
      r2Status := .ready, snapshotGeneration := g, observedAt := now, stale := false }) :
    KeepsRows problemId R db.problemUsage
      (DataPlane.healUsageReadyProjection now db).problemUsage := by
  apply keepsRows_map
  intro u
  split
  · exact ⟨rfl, hrefl u⟩
  · split
    · exact ⟨rfl, hheal u _⟩
    · exact ⟨rfl, hrefl u⟩

/-- What `upsert_discovered_usage` writes: the usage of the problem with the code, which is a
new orphan if neither its id nor its code is taken. -/
theorem upsertDiscoveredUsage_cases (now : Timestamp) (code : String) (scan : ScanResult)
    (db : Database) :
    (DataPlane.upsertDiscoveredUsage now code scan db = db ∧
      (∀ p ∈ db.problems, p.code ≠ code) ∧ ∃ p ∈ db.problems, p.externalId = orphanId code) ∨
    ∃ problems owner localStatus,
      (problems = db.problems ∨ (∀ p ∈ db.problems, p.externalId ≠ orphanId code ∧ p.code ≠ code) ∧
        ∃ orphan : ProblemRow, orphan.externalId = orphanId code ∧ orphan.code = code ∧
          problems = db.problems ++ [orphan]) ∧
      owner ∈ problems ∧ owner.code = code ∧
      (localStatus = .present ∨ localStatus = .orphan) ∧
      DataPlane.upsertDiscoveredUsage now code scan db =
        { db with
          problems := problems
          problemUsage := DataPlane.upsertProblemUsage now owner.externalId scan localStatus
            db.problemUsage } := by
  have hstatus : ∀ state : CatalogState,
      (if state = .orphan then LocalStatus.orphan else .present) = .present ∨
        (if state = .orphan then LocalStatus.orphan else .present) = .orphan := by
    intro state
    split
    · exact .inr rfl
    · exact .inl rfl
  unfold DataPlane.upsertDiscoveredUsage
  dsimp only
  by_cases htaken : (db.problems.any fun p => p.externalId = orphanId code || p.code = code) = true
  · simp only [htaken, if_true]
    split
    · rename_i hnone
      have hother : ∀ p ∈ db.problems, p.code ≠ code :=
        fun p hp hcode => List.find?_eq_none.mp hnone p hp (decide_eq_true hcode)
      obtain ⟨p, hp, hnamed⟩ := List.any_eq_true.mp htaken
      rw [Bool.or_eq_true, decide_eq_true_eq, decide_eq_true_eq] at hnamed
      exact .inl ⟨rfl, hother, p, hp, hnamed.resolve_right (hother p hp)⟩
    · rename_i owner howner
      have hcode : owner.code = code := by simpa using List.find?_some howner
      exact .inr ⟨_, owner, _, .inl rfl, List.mem_of_find?_eq_some howner, hcode, hstatus _, rfl⟩
  · have hfree : ∀ p ∈ db.problems, p.externalId ≠ orphanId code ∧ p.code ≠ code := by
      intro p hp
      have hfalse := Bool.eq_false_iff.mpr htaken
      rw [List.any_eq_false] at hfalse
      simpa using hfalse p hp
    simp only [htaken, if_false, Bool.false_eq_true]
    split
    · rename_i hnone
      have hnew := List.find?_eq_none.mp hnone _
        (List.mem_append_right _ (List.mem_singleton_self _))
      exact absurd (decide_eq_true rfl) hnew
    · rename_i owner howner
      have hcode : owner.code = code := by simpa using List.find?_some howner
      exact .inr ⟨_, owner, _, .inr ⟨hfree, _, rfl, rfl, rfl⟩, List.mem_of_find?_eq_some howner,
        hcode, hstatus _, rfl⟩

theorem PassMoves.rows {now : Timestamp} {disk : Disk} {acc acc' : Accounts} {pass pass' : Pass}
    {problemId : String} {R : ProblemUsageRow → ProblemUsageRow → Prop}
    (h : PassMoves now disk acc pass acc' pass') (hspares : marksMissing problemId pass = false)
    (hrefl : ∀ u, R u u) (hheal : ∀ u g, R u { u with
      r2Status := .ready, snapshotGeneration := g, observedAt := now, stale := false }) :
    (writtenUsage pass = none ∧ KeepsRows problemId R acc.db.problemUsage acc'.db.problemUsage) ∨
      ∃ item scan, writtenUsage pass = some (item, scan) ∧
        acc'.db = accountUsage now item scan acc.db := by
  cases h with
  | plan => exact .inl ⟨rfl, keepsRows_refl hrefl⟩
  | heal => exact .inl ⟨rfl, healUsageReadyProjection_rows hrefl hheal⟩
  | @missing p missing orphans stage =>
      have hother : p.externalId ≠ problemId := of_decide_eq_false hspares
      have hkeeps : KeepsRows problemId R acc.db.problemUsage
          (DataPlane.upsertMissingUsage now p.externalId acc.db) :=
        keepsRows_upsertOn hrefl hother fun u => rfl
      refine .inl ⟨?_, hkeeps⟩
      cases stage <;> rfl
  | @item plan rest stage item acc' next hcurrent _ _ hitem =>
      rcases advanceItem_db hitem with ⟨before, scan, rfl, hdb⟩ | ⟨hstage, hdb⟩
      · refine .inr ⟨item, scan, ?_, hdb⟩
        rw [writtenUsage, hcurrent, Option.map_some]
      · have hnone : writtenUsage (.applying plan stage) = none := by
          cases stage with
          | scanned before scan => exact absurd rfl (hstage before scan)
          | _ => rfl
        rcases hdb with hdb | hdb | hdb
        · rw [hdb]
          exact .inl ⟨hnone, keepsRows_refl hrefl⟩
        · rw [hdb]
          exact .inl ⟨hnone, keepsRows_deleteWhere hrefl _⟩
        · exact .inl ⟨hnone, deleteOrphanProblem_rows hrefl hdb⟩

end ExternalStorage.Model
