import ExternalStorage.Library.Runs
import ExternalStorage.Model.Publication
import ExternalStorage.Model.Reconciliation

/-!
# The accounting cache

A pass that finds the fingerprint of a tree in `problem_tree_cache`, and the usage of the
problem current, does not scan the folder again.  The fingerprint vouches for counters in
another table, which other writers change: a scan job writes what it has scanned some time
ago, and a missing-mark sets bytes to zero.
-/

namespace ExternalStorage.Catalog

open ExternalStorage.Model Library.Runs Library.Table

variable {Bytes : Type}

/-! ## The machine -/

/-- A folder below the problem root, and the problem that it belongs to. -/
structure AccountSite (Bytes : Type) where
  contents : Contents Bytes
  /-- SHA-256 in hex. -/
  hash : List UInt8 → String
  root : String
  problemId : String
  code : String

def AccountSite.fingerprint (site : AccountSite Bytes) (tree : Model.Tree Bytes) : String :=
  treeFingerprint site.hash tree

def AccountSite.scan (site : AccountSite Bytes) (tree : Model.Tree Bytes) :
    Except AppError ScanResult :=
  tree.scan site.contents site.root site.code

def AccountSite.disk (site : AccountSite Bytes) (tree : Option (Model.Tree Bytes)) (others : Disk) :
    Disk where
  directories :=
    (others.directories.filter fun name => name ≠ site.code) ++
      if tree.isSome && pathNames site.code = [site.code] then [site.code] else []
  scan code :=
    if code = site.code then
      scanProblemFolder site.contents site.root site.code (tree.map Model.Tree.walk)
    else
      others.scan code
  fingerprint code :=
    if code = site.code then
      match tree with
      | none => .error (.problemFolderMissing code)
      | some tree => .ok (site.fingerprint tree)
    else
      others.fingerprint code
  initYml := others.initYml

structure RunningPass where
  pass : Pass
  /-- The fingerprint of the site's tree at the last scan of the pass: history the program does
  not keep. -/
  scanned : Option String := none
  deriving DecidableEq, Repr

structure Accounting (Bytes : Type) where
  now : Timestamp
  acc : Accounts
  tree : Option (Model.Tree Bytes)
  passes : List RunningPass := []
  /-- Scans whose usage is not written yet, each with the fingerprint of its tree. -/
  scans : List (ScanResult × String) := []
  /-- The fingerprint of the tree that the counters of the problem were last written from, if
  they were written from a scan: history as well. -/
  origin : Option String := none
  /-- The trees that the folder has been. -/
  seen : List (Model.Tree Bytes)

def counters (u : ProblemUsageRow) : Int × Int × Int × Int × Int :=
  (u.logicalBytes, u.allocatedBytes, u.archiveBytes, u.auxiliaryBytes, u.fileCount)

def scanCounters (scan : ScanResult) : Int × Int × Int × Int × Int :=
  (asI64 scan.logicalBytes, asI64 scan.allocatedBytes, asI64 scan.archiveBytes,
    asI64 scan.auxiliaryBytes, scan.fileCount)

/-- A `BIGINT` column takes the counters as they are. -/
def fitsColumns (scan : ScanResult) : Bool :=
  [scan.logicalBytes, scan.allocatedBytes, scan.archiveBytes, scan.auxiliaryBytes].all
    fun n => n < 2 ^ 63

def KeepsCounters (problemId : String) (usage usage' : List ProblemUsageRow) : Prop :=
  ∀ u' ∈ usage', u'.problemId = problemId →
    ∃ u ∈ usage, u.problemId = problemId ∧ counters u = counters u'

instance (problemId : String) (usage usage' : List ProblemUsageRow) :
    Decidable (KeepsCounters problemId usage usage') :=
  inferInstanceAs (Decidable (∀ u' ∈ usage', u'.problemId = problemId →
    ∃ u ∈ usage, u.problemId = problemId ∧ counters u = counters u'))

/-- The writers of usage beside the passes; a number is that of a scan in flight. -/
inductive UsageStatement where
  | scanJob (i : Nat) (observedAt : Timestamp)
  | accounting (i : Nat) (observedAt : Timestamp)
  /-- The watcher, for a problem that it takes a snapshot of. -/
  | watched (i : Nat)
  /-- The watcher, for a folder without a dirty problem. -/
  | discovered (i : Nat)
  | markLocalPresent (generation : Option Int)
  /-- `createRestoreJobIfMissing`. -/
  | markMissing (observedAt : Timestamp)
  | restored (q : RestoreRequest)
  | evicted (q : EvictRequest) (generation : Int)
  | markLocalVerified (problemId : String) (generation : Int)
  | markLocalMissing (code : String)
  | markStale (code : String)
  /-- Any other statement: it leaves the counters and the names of the problems alone. -/
  | other (db : Database)

/-- The tree that the statement writes the counters from: no tree where it inserts a row with
the defaults of the columns. -/
def UsageStatement.writes (site : AccountSite Bytes) (s : Accounting Bytes) :
    UsageStatement → Option (Option String)
  | .scanJob i _ | .accounting i _ | .watched i | .discovered i =>
      s.scans[i]?.map fun scan => some scan.2
  | .markLocalPresent _ | .markMissing _ =>
      if s.acc.db.problemUsage.any fun u => u.problemId = site.problemId then none else some none
  | .restored _ | .evicted .. | .markLocalVerified .. | .markLocalMissing _ | .markStale _
  | .other _ => none

def UsageStatement.run (site : AccountSite Bytes) (s : Accounting Bytes) :
    UsageStatement → Option Database
  | .scanJob i observedAt =>
      s.scans[i]?.bind fun scan =>
        if fitsColumns scan.1 then
          some { s.acc.db with
            problemUsage := upsertProblemUsage s.now site.problemId (scan.1.scanUpdate observedAt)
              s.acc.db.problemUsage }
        else
          none
  | .accounting i observedAt =>
      s.scans[i]?.bind fun scan =>
        if fitsColumns scan.1 then
          some { s.acc.db with
            problemUsage := upsertProblemUsage s.now site.problemId
              (scan.1.accountingUpdate observedAt) s.acc.db.problemUsage }
        else
          none
  | .watched i =>
      s.scans[i]?.map fun scan =>
        { s.acc.db with
          problemUsage := DataPlane.upsertProblemUsage s.now site.problemId scan.1 .present
            s.acc.db.problemUsage }
  | .discovered i =>
      s.scans[i]?.map fun scan =>
        DataPlane.upsertDiscoveredUsage s.now site.code scan.1 s.acc.db
  | .markLocalPresent generation =>
      some { s.acc.db with
        problemUsage := Model.markLocalPresent s.now site.problemId generation s.acc.db.problemUsage }
  | .markMissing observedAt =>
      some { s.acc.db with
        problemUsage := markMissingForRestore site.problemId observedAt s.acc.db.problemUsage }
  | .restored q => some (Model.restored s.now q s.acc.db)
  | .evicted q generation => some (Model.evicted s.now q generation s.acc.db)
  | .markLocalVerified problemId generation =>
      some { s.acc.db with
        problemUsage := DataPlane.markLocalVerified s.now problemId generation
          s.acc.db.problemUsage }
  | .markLocalMissing code => some (DataPlane.markLocalMissingByCode s.now code s.acc.db)
  | .markStale code => some (DataPlane.markStale code s.acc.db)
  | .other db =>
      if KeepsCounters site.problemId s.acc.db.problemUsage db.problemUsage ∧
          db.problems.map (fun p => (p.externalId, p.code)) =
            s.acc.db.problems.map (fun p => (p.externalId, p.code)) then
        some db
      else
        none

inductive AccountAction (Bytes : Type) where
  | tick (elapsed : Nat)
  /-- The folder changes: an upload, a restore or an eviction, or any other hand. -/
  | change (tree : Option (Model.Tree Bytes))
  /-- A pass lists the folders. -/
  | list (others : Disk)
  /-- It takes its next step. -/
  | pass (i : Nat) (others : Disk)
  /-- A scan job, a backfill or the watcher scans the folder. -/
  | scan
  | statement (x : UsageStatement)
  /-- A readiness check caches a fingerprint, or removes it. -/
  | ready (fingerprint : String) (canonicalDownloadPath : Option String)
  | unready

def AccountSite.isCurrent (site : AccountSite Bytes) : Pass → Bool
  | .applying plan _ => plan.current.any fun item => item.code = site.code
  | _ => false

def RunningPass.writes (site : AccountSite Bytes) (r : RunningPass) : Option (Option String) :=
  if marksMissing site.problemId r.pass then
    some none
  else
    match writtenUsage r.pass with
    | some (item, _) => if item.code = site.code then some r.scanned else none
    | none => none

def isScanning : Pass → Bool
  | .applying _ (.fingerprinted _) => true
  | _ => false

def accountStep (site : AccountSite Bytes) (s : Accounting Bytes) :
    AccountAction Bytes → Option (Accounting Bytes)
  | .tick elapsed => some { s with now := s.now + elapsed }
  | .change tree => some { s with tree := tree, seen := tree.toList ++ s.seen }
  | .list others =>
      let directories := (site.disk s.tree others).directories
      some { s with passes := s.passes ++ [⟨.listed (listProblemCodes directories), none⟩] }
  | .pass i others =>
      s.passes[i]?.bind fun r =>
        (advancePass s.now (site.disk s.tree others) s.acc r.pass).map fun (acc, pass) =>
          let scanned := if isScanning r.pass then s.tree.map site.fingerprint else r.scanned
          { s with
            acc := acc, passes := s.passes.set i ⟨pass, scanned⟩
            origin := (r.writes site).getD s.origin }
  | .scan =>
      s.tree.bind fun tree =>
        match site.scan tree with
        | .error _ => none
        | .ok scan => some { s with scans := s.scans ++ [(scan, site.fingerprint tree)] }
  | .statement x =>
      (x.run site s).map fun db =>
        { s with acc := { s.acc with db := db }, origin := (x.writes site s).getD s.origin }
  | .ready fingerprint canonical =>
      some { s with
        acc := { s.acc with cache := cacheTree site.code fingerprint canonical false s.acc.cache } }
  | .unready => some { s with acc := { s.acc with cache := invalidateTreeCache site.code s.acc.cache } }

/-! ## What is claimed, and when it holds -/

/-- The fingerprint that a pass at this stage has read of the cache, or is about to write. -/
def Stage.vouched : Stage → Option String
  | .cached h | .unchanged h | .accounted h _ | .stable h _ => some h
  | _ => none

def AccountSite.vouched (site : AccountSite Bytes) (pass : Pass) : Option String :=
  match pass with
  | .applying _ stage => if site.isCurrent pass then Stage.vouched stage else none
  | _ => none

/-- The cache vouches for the tree with this fingerprint, a call has read that it does, or a
pass that has written the counters is about to say so. -/
def Vouched (site : AccountSite Bytes) (s : Accounting Bytes) (h : String) : Prop :=
  (∃ row ∈ s.acc.cache, row.code = site.code ∧ row.usageFingerprint = some h) ∨
    ∃ r ∈ s.passes, site.vouched r.pass = some h

instance (site : AccountSite Bytes) (s : Accounting Bytes) (h : String) :
    Decidable (Vouched site s h) :=
  inferInstanceAs (Decidable ((∃ row ∈ s.acc.cache, row.code = site.code ∧
    row.usageFingerprint = some h) ∨ ∃ r ∈ s.passes, site.vouched r.pass = some h))

/-- `cached_usage_matches` answers true: the fingerprints it has compared, and the problem. -/
def answer (site : AccountSite Bytes) (s : Accounting Bytes) (r : RunningPass) :
    Option (String × Option String) :=
  match r.pass with
  | .applying plan (.unchanged saved) => do
      let item ← plan.current
      if item.code = site.code ∧ usageIsCurrent s.acc.db item.code item.externalId = true then
        some (saved, item.externalId)
      else
        none
  | _ => none

/-- What `scan_problem_folder` finds in the folder as it is. -/
def Accounting.scan? (site : AccountSite Bytes) (s : Accounting Bytes) : Option ScanResult :=
  s.tree.bind fun tree => (site.scan tree).toOption

def CountersMatch (site : AccountSite Bytes) (s : Accounting Bytes) : Prop :=
  ∃ scan ∈ s.scan? site, ∀ u ∈ s.acc.db.problemUsage,
    (∃ p ∈ s.acc.db.problems, p.code = site.code ∧ p.externalId = u.problemId) →
      counters u = scanCounters scan

instance (site : AccountSite Bytes) (s : Accounting Bytes) : Decidable (CountersMatch site s) :=
  inferInstanceAs (Decidable (∃ scan ∈ s.scan? site, ∀ u ∈ s.acc.db.problemUsage,
    (∃ p ∈ s.acc.db.problems, p.code = site.code ∧ p.externalId = u.problemId) →
      counters u = scanCounters scan))

/-- Whenever `cached_usage_matches` answers true, the counters match. -/
def CacheSound (site : AccountSite Bytes) (s : Accounting Bytes) (a : AccountAction Bytes)
    (_ : Accounting Bytes) : Prop :=
  match a with
  | .pass i _ => ∀ r ∈ s.passes[i]?, (answer site s r).isSome = true → CountersMatch site s
  | _ => True

/-- Two trees with one fingerprint are one tree. -/
def FingerprintsTell (site : AccountSite Bytes) (s : Accounting Bytes) (a : AccountAction Bytes)
    (_ : Accounting Bytes) : Prop :=
  match a with
  | .change (some tree) => ∀ tree' ∈ s.seen,
      site.fingerprint tree' = site.fingerprint tree → tree' = tree
  | _ => True

def WrittenFor (site : AccountSite Bytes) (t : Accounting Bytes)
    (written : Option (Option String)) : Prop :=
  ∀ origin ∈ written, ∀ tree ∈ t.tree, Vouched site t (site.fingerprint tree) →
    origin = some (site.fingerprint tree)

/-- A write of the counters agrees with the tree that is vouched for, and so does a tree that
comes back while it is vouched for; the folder stays as it is between a call's look at it and
the answer. -/
def InStep (site : AccountSite Bytes) (s : Accounting Bytes) (a : AccountAction Bytes)
    (t : Accounting Bytes) : Prop :=
  match a with
  | .change tree => WrittenFor site { s with tree := tree } (some s.origin)
  | .pass i _ => ∀ r ∈ s.passes[i]?, WrittenFor site t (r.writes site) ∧
      ∀ saved ∈ answer site s r, s.tree.map site.fingerprint = some saved.1
  | .statement x => WrittenFor site t (x.writes site s)
  | _ => True

instance (site : AccountSite Bytes) (t : Accounting Bytes) (written : Option (Option String)) :
    Decidable (WrittenFor site t written) :=
  inferInstanceAs (Decidable (∀ origin ∈ written, ∀ tree ∈ t.tree,
    Vouched site t (site.fingerprint tree) → origin = some (site.fingerprint tree)))

instance (site : AccountSite Bytes) (s t : Accounting Bytes) :
    (a : AccountAction Bytes) → Decidable (CacheSound site s a t)
  | .pass i _ => inferInstanceAs (Decidable (∀ r ∈ s.passes[i]?,
      (answer site s r).isSome = true → CountersMatch site s))
  | .tick _ | .change _ | .list _ | .scan | .statement _ | .ready .. | .unready => isTrue trivial

instance [DecidableEq Bytes] (site : AccountSite Bytes) (s t : Accounting Bytes) :
    (a : AccountAction Bytes) → Decidable (FingerprintsTell site s a t)
  | .change (some tree) => inferInstanceAs (Decidable (∀ tree' ∈ s.seen,
      site.fingerprint tree' = site.fingerprint tree → tree' = tree))
  | .change none | .tick _ | .pass .. | .list _ | .scan | .statement _ | .ready .. | .unready =>
      isTrue trivial

instance (site : AccountSite Bytes) (s t : Accounting Bytes) :
    (a : AccountAction Bytes) → Decidable (InStep site s a t)
  | .change tree => inferInstanceAs (Decidable (WrittenFor site { s with tree := tree } (some s.origin)))
  | .pass i _ => inferInstanceAs (Decidable (∀ r ∈ s.passes[i]?, WrittenFor site t (r.writes site) ∧
      ∀ saved ∈ answer site s r, s.tree.map site.fingerprint = some saved.1))
  | .statement x => inferInstanceAs (Decidable (WrittenFor site t (x.writes site s)))
  | .tick _ | .list _ | .scan | .ready .. | .unready => isTrue trivial

/-! ## Counters -/

section Counters

variable {problemId : String} {usage : List ProblemUsageRow} {now : Timestamp}

def HasCounters (problemId : String) (scan : ScanResult) (usage : List ProblemUsageRow) : Prop :=
  ∀ u ∈ usage, u.problemId = problemId → counters u = scanCounters scan

theorem keepsCounters_refl (problemId : String) (usage : List ProblemUsageRow) :
    KeepsCounters problemId usage usage :=
  keepsRows_refl fun _ => rfl

theorem HasCounters.keep {scan : ScanResult} {usage' : List ProblemUsageRow}
    (h : HasCounters problemId scan usage) (hkeeps : KeepsCounters problemId usage usage') :
    HasCounters problemId scan usage' := by
  intro u' hu' hid
  obtain ⟨u, hu, huid, hcounters⟩ := hkeeps u' hu' hid
  rw [← hcounters]
  exact h u hu huid

theorem hasCounters_upsertOn {scan : ScanResult} {new : ProblemUsageRow}
    {merge : ProblemUsageRow → ProblemUsageRow} (hid : new.problemId = problemId)
    (hnew : counters new = scanCounters scan) (hmerge : ∀ u, counters (merge u) = scanCounters scan) :
    HasCounters problemId scan (upsertOn ProblemUsageRow.problemId new merge usage) := by
  intro u' hu' hown
  rcases mem_upsertOn.mp hu' with ⟨-, hother⟩ | ⟨u, -, -, rfl⟩ | ⟨rfl, -⟩
  · exact absurd (hown.trans hid.symm) hother
  · exact hmerge u
  · exact hnew

theorem counters_scannedUsage (scan : ScanResult) (localStatus : LocalStatus)
    (u : ProblemUsageRow) :
    counters (DataPlane.scannedUsage now scan localStatus u) = scanCounters scan := by
  simp only [counters, DataPlane.scannedUsage, scanCounters]

theorem hasCounters_scanned {scan : ScanResult} {localStatus : LocalStatus} :
    HasCounters problemId scan
      (DataPlane.upsertProblemUsage now problemId scan localStatus usage) :=
  hasCounters_upsertOn (by rw [DataPlane.scannedUsage_problemId]; rfl)
    (counters_scannedUsage scan localStatus _) (counters_scannedUsage scan localStatus)

theorem keepsCounters_scanned_other {id : String} {scan : ScanResult} {localStatus : LocalStatus}
    (hother : id ≠ problemId) :
    KeepsCounters problemId usage (DataPlane.upsertProblemUsage now id scan localStatus usage) := by
  apply keepsRows_upsertOn (R := fun u u' => counters u = counters u') (fun _ => rfl)
  · rw [DataPlane.scannedUsage_problemId]
    exact hother
  · intro u
    rw [DataPlane.scannedUsage_problemId]

theorem scanCounters_of_fits {scan : ScanResult} (h : fitsColumns scan = true) :
    scanCounters scan = ((scan.logicalBytes : Int), (scan.allocatedBytes : Int),
      (scan.archiveBytes : Int), (scan.auxiliaryBytes : Int), (scan.fileCount : Int)) := by
  simp only [fitsColumns, List.all_cons, List.all_nil, Bool.and_true, Bool.and_eq_true,
    decide_eq_true_eq] at h
  obtain ⟨hlogical, hallocated, harchive, hauxiliary⟩ := h
  rw [scanCounters, asI64_of_fits hlogical, asI64_of_fits hallocated, asI64_of_fits harchive,
    asI64_of_fits hauxiliary]

theorem hasCounters_scanJob {scan : ScanResult} {observedAt : Timestamp}
    (h : fitsColumns scan = true) :
    HasCounters problemId scan
      (upsertProblemUsage now problemId (scan.scanUpdate observedAt) usage) := by
  apply hasCounters_upsertOn rfl
  · rw [scanCounters_of_fits h]
    rfl
  · intro u
    rw [scanCounters_of_fits h]
    rfl

theorem hasCounters_accounting {scan : ScanResult} {observedAt : Timestamp}
    (h : fitsColumns scan = true) :
    HasCounters problemId scan
      (upsertProblemUsage now problemId (scan.accountingUpdate observedAt) usage) := by
  apply hasCounters_upsertOn rfl
  · rw [scanCounters_of_fits h]
    rfl
  · intro u
    rw [scanCounters_of_fits h]
    rfl

theorem keepsCounters_upsertOn {id : String} {new : ProblemUsageRow}
    {merge : ProblemUsageRow → ProblemUsageRow} (hid : new.problemId = id)
    (hthere : (usage.any fun u => u.problemId = id) = true)
    (hmerge : ∀ u, (merge u).problemId = u.problemId ∧ counters (merge u) = counters u) :
    KeepsCounters problemId usage (upsertOn ProblemUsageRow.problemId new merge usage) := by
  obtain ⟨v, hv, hvid⟩ := List.any_eq_true.mp hthere
  intro u' hu' hown
  rcases mem_upsertOn.mp hu' with ⟨hold, -⟩ | ⟨u, hu, -, rfl⟩ | ⟨-, hnone⟩
  · exact ⟨u', hold, hown, rfl⟩
  · exact ⟨u, hu, (hmerge u).1.symm.trans hown, (hmerge u).2.symm⟩
  · exact absurd ((of_decide_eq_true hvid).trans hid.symm) (hnone v hv)

end Counters

/-! ## The problem of the folder -/

section Owned

variable {site : AccountSite Bytes} {db db' : Database} {now : Timestamp}

/-- The site's problem is the one with its code, and it is there unless it is the orphan
projection of the folder. -/
structure Owned (site : AccountSite Bytes) (problems : List ProblemRow) : Prop where
  code : ∀ p ∈ problems, p.externalId = site.problemId → p.code = site.code
  owner : ∀ p ∈ problems, p.code = site.code → p.externalId = site.problemId
  orphan : ∀ code, site.problemId = orphanId code → code = site.code
  known : (∃ p ∈ problems, p.externalId = site.problemId) ∨ site.problemId = orphanId site.code

theorem Owned.of_names {problems problems' : List ProblemRow} (h : Owned site problems)
    (hnames : problems'.map (fun p => (p.externalId, p.code)) =
      problems.map (fun p => (p.externalId, p.code))) : Owned site problems' := by
  have hback : ∀ p' ∈ problems', ∃ p ∈ problems, p.externalId = p'.externalId ∧ p.code = p'.code := by
    intro p' hp'
    have hmem := List.mem_map_of_mem (f := fun p => (p.externalId, p.code)) hp'
    rw [hnames] at hmem
    obtain ⟨p, hp, heq⟩ := List.mem_map.mp hmem
    exact ⟨p, hp, congrArg Prod.fst heq, congrArg Prod.snd heq⟩
  refine ⟨?_, ?_, h.orphan, ?_⟩
  · intro p' hp' hid
    obtain ⟨p, hp, hpid, hcode⟩ := hback p' hp'
    exact hcode.symm.trans (h.code p hp (hpid.trans hid))
  · intro p' hp' hcode
    obtain ⟨p, hp, hpid, hpcode⟩ := hback p' hp'
    exact hpid.symm.trans (h.owner p hp (hpcode.trans hcode))
  · rcases h.known with ⟨p, hp, hid⟩ | horphan
    · have hmem := List.mem_map_of_mem (f := fun p => (p.externalId, p.code)) hp
      rw [← hnames] at hmem
      obtain ⟨p', hp', heq⟩ := List.mem_map.mp hmem
      have hsame : p'.externalId = p.externalId := congrArg Prod.fst heq
      exact .inl ⟨p', hp', hsame.trans hid⟩
    · exact .inr horphan

theorem Owned.deleteOrphan {code : String} (h : Owned site db.problems)
    (hdelete : DataPlane.deleteOrphanProblem code db = some db') : Owned site db'.problems := by
  have hrows := deleteOrphanProblem_problems hdelete
  refine ⟨fun p hp => h.code p ((hrows p).mp hp).1, fun p hp => h.owner p ((hrows p).mp hp).1,
    h.orphan, ?_⟩
  rcases h.known with ⟨p, hp, hid⟩ | horphan
  · by_cases hgone : p.externalId = orphanId code ∧ p.catalogState = .orphan
    · have hcode := h.orphan code (hid.symm.trans hgone.1)
      exact .inr (hid.symm.trans (hcode ▸ hgone.1))
    · exact .inl ⟨p, (hrows p).mpr ⟨hp, hgone⟩, hid⟩
  · exact .inr horphan

theorem Owned.discover {code : String} {scan : ScanResult} (h : Owned site db.problems) :
    Owned site (DataPlane.upsertDiscoveredUsage now code scan db).problems := by
  rcases upsertDiscoveredUsage_cases now code scan db with
    ⟨hdb, -⟩ | ⟨problems, owner, localStatus, hproblems, -, -, -, hdb⟩
  · rw [hdb]
    exact h
  · rw [hdb]
    rcases hproblems with rfl | ⟨hfree, orphan, hid, hcode, rfl⟩
    · exact h
    · refine ⟨?_, ?_, h.orphan, ?_⟩
      · intro p hp hown
        rcases List.mem_append.mp hp with hold | hnew
        · exact h.code p hold hown
        · obtain rfl := List.mem_singleton.mp hnew
          exact hcode.trans (h.orphan code (hown.symm.trans hid))
      · intro p hp hpcode
        rcases List.mem_append.mp hp with hold | hnew
        · exact h.owner p hold hpcode
        · obtain rfl := List.mem_singleton.mp hnew
          have hsite : code = site.code := hcode.symm.trans hpcode
          rcases h.known with ⟨q, hq, hqid⟩ | horphan
          · exact absurd ((h.code q hq hqid).trans hsite.symm) (hfree q hq).2
          · rw [hid, hsite, horphan]
      · rcases h.known with ⟨p, hp, hpid⟩ | horphan
        · exact .inl ⟨p, List.mem_append_left _ hp, hpid⟩
        · exact .inr horphan

theorem Owned.discovered {scan : ScanResult} (h : Owned site db.problems) :
    HasCounters site.problemId scan
      (DataPlane.upsertDiscoveredUsage now site.code scan db).problemUsage := by
  rcases upsertDiscoveredUsage_cases now site.code scan db with
    ⟨-, hnone, p, hp, hid⟩ | ⟨problems, owner, localStatus, -, howner, hcode, -, hdb⟩
  · rcases h.known with ⟨q, hq, hqid⟩ | horphan
    · exact absurd (h.code q hq hqid) (hnone q hq)
    · exact absurd (h.code p hp (hid.trans horphan.symm)) (hnone p hp)
  · have howned : Owned site (DataPlane.upsertDiscoveredUsage now site.code scan db).problems :=
      h.discover
    rw [hdb] at howned ⊢
    rw [howned.owner owner howner hcode]
    exact hasCounters_scanned

theorem Owned.discovered_other {code : String} {scan : ScanResult} (h : Owned site db.problems)
    (hother : code ≠ site.code) :
    KeepsCounters site.problemId db.problemUsage
      (DataPlane.upsertDiscoveredUsage now code scan db).problemUsage := by
  rcases upsertDiscoveredUsage_cases now code scan db with
    ⟨hdb, -⟩ | ⟨problems, owner, localStatus, -, howner, hcode, -, hdb⟩
  · rw [hdb]
    exact keepsCounters_refl _ _
  · have howned : Owned site (DataPlane.upsertDiscoveredUsage now code scan db).problems :=
      h.discover
    rw [hdb] at howned ⊢
    apply keepsCounters_scanned_other
    intro hid
    exact hother (hcode.symm.trans (howned.code owner howner hid))

end Owned

/-! ## Passes -/

section Passes

variable {site : AccountSite Bytes} {now : Timestamp} {disk : Disk} {acc acc' : Accounts}
  {pass pass' : Pass} {h : String}

def PlanOwned (site : AccountSite Bytes) : Pass → Prop
  | .listed _ => True
  | .planned plan | .applying plan _ =>
      ∀ p ∈ plan.knownPresent, p.code = site.code ↔ p.externalId = site.problemId

theorem problemByCode_mem {active : List CatalogProblem} {code : String} {p : CatalogProblem}
    (hp : problemByCode active code = some p) : p ∈ active :=
  List.mem_reverse.mp (List.mem_of_find?_eq_some hp)

theorem buildReconcilePlan_owned {folders : List String} {db : Database}
    (howned : Owned site db.problems) :
    ∀ p ∈ (buildReconcilePlan folders (listCatalogProblems db)).knownPresent,
      p.code = site.code ↔ p.externalId = site.problemId := by
  intro p hp
  have hp := (List.mem_insertionSort _).mp hp
  obtain ⟨folder, -, hfound⟩ := List.mem_filterMap.mp hp
  have hactive := (List.mem_filter.mp (problemByCode_mem hfound)).1
  obtain ⟨row, hrow, rfl⟩ := List.mem_map.mp hactive
  have hrow := (List.mem_filter.mp hrow).1
  exact ⟨howned.owner row hrow, howned.code row hrow⟩

theorem planOwned_continuePass {plan rest : ReconcilePlan} {next : Option Stage}
    (hplan : ∀ p ∈ plan.knownPresent, p.code = site.code ↔ p.externalId = site.problemId)
    (hrest : rest.knownPresent ⊆ plan.knownPresent) :
    PlanOwned site (continuePass plan rest next) := by
  cases next with
  | some stage => exact hplan
  | none => exact fun p hp => hplan p (hrest hp)

theorem passMoves_owned (hmove : PassMoves now disk acc pass acc' pass')
    (howned : Owned site acc.db.problems) (hplan : PlanOwned site pass) :
    Owned site acc'.db.problems ∧ PlanOwned site pass' := by
  cases hmove with
  | plan => exact ⟨howned, buildReconcilePlan_owned howned⟩
  | heal => exact ⟨howned, hplan⟩
  | missing => exact ⟨howned, planOwned_continuePass hplan fun _ h => h⟩
  | item _ _ hrest hitem =>
      refine ⟨?_, planOwned_continuePass hplan hrest⟩
      rcases advanceItem_db hitem with ⟨before, scan, -, hdb⟩ | ⟨-, hdb | hdb | hdb⟩
      · rw [hdb]
        unfold accountUsage
        split
        · exact howned
        · exact howned.discover
      · rw [hdb]
        exact howned
      · rw [hdb]
        exact howned
      · exact howned.deleteOrphan hdb

theorem writtenUsage_owned {item : Item} {scan : ScanResult} (hplan : PlanOwned site pass)
    (hwritten : writtenUsage pass = some (item, scan)) :
    ∀ id, item.externalId = some id → (item.code = site.code ↔ id = site.problemId) := by
  intro id hid
  match pass, hplan, hwritten with
  | .applying ⟨p :: _, _, _⟩ (.scanned _ _), hplan, hwritten =>
      cases hwritten
      cases hid
      exact hplan p List.mem_cons_self
  | .applying ⟨[], [], code :: _⟩ (.scanned _ _), _, hwritten =>
      cases hwritten
      cases hid

/-- A pass writes the counters of the site's problem from its scan of the folder, or keeps
them, or marks the problem missing. -/
theorem passMoves_counters {r : RunningPass} (hmove : PassMoves now disk acc r.pass acc' pass')
    (howned : Owned site acc.db.problems) (hplan : PlanOwned site r.pass) :
    r.writes site = some none ∨
      (r.writes site = none ∧
        KeepsCounters site.problemId acc.db.problemUsage acc'.db.problemUsage) ∨
      ∃ item scan, r.writes site = some r.scanned ∧ writtenUsage r.pass = some (item, scan) ∧
        item.code = site.code ∧ HasCounters site.problemId scan acc'.db.problemUsage := by
  by_cases hmarks : marksMissing site.problemId r.pass = true
  · left
    rw [RunningPass.writes, if_pos hmarks]
  · right
    have hspares := Bool.eq_false_iff.mpr hmarks
    rw [RunningPass.writes, if_neg hmarks]
    rcases hmove.rows hspares (R := fun u u' => counters u = counters u') (fun _ => rfl)
        (fun _ _ => rfl) with ⟨hnone, hkeeps⟩ | ⟨item, scan, hwritten, hdb⟩
    · rw [hnone]
      exact .inl ⟨rfl, hkeeps⟩
    · rw [hwritten, hdb]
      have hplace := writtenUsage_owned hplan hwritten
      dsimp only
      by_cases hcode : item.code = site.code
      · rw [if_pos hcode]
        refine .inr ⟨item, scan, rfl, rfl, hcode, ?_⟩
        unfold accountUsage
        split
        · rename_i id hid
          rw [(hplace id hid).mp hcode]
          exact hasCounters_scanned
        · rw [hcode]
          exact howned.discovered
      · rw [if_neg hcode]
        refine .inl ⟨rfl, ?_⟩
        unfold accountUsage
        split
        · rename_i id hid
          exact keepsCounters_scanned_other fun hown => hcode ((hplace id hid).mpr hown)
        · exact howned.discovered_other hcode

/-- A stage that vouches for a tree comes from one that does, from the cache, or from the write
of the counters. -/
theorem advanceItem_vouched {item : Item} {stage : Stage} {next : Option Stage}
    (hstep : advanceItem now disk acc item stage = some (acc', next))
    (hnext : next.bind Stage.vouched = some h) :
    Stage.vouched stage = some h ∨
      (∃ row ∈ acc.cache, row.code = item.code ∧ row.usageFingerprint = some h) ∨
      ∃ scan, stage = .scanned h scan := by
  cases stage with
  | opened | outdated | stable =>
      cases hstep
      cases hnext
  | unprojected =>
      obtain ⟨db, -, hpair⟩ := Option.map_eq_some_iff.mp hstep
      cases hpair
      cases hnext
  | projected =>
      simp only [advanceItem] at hstep
      split at hstep
      · cases hstep
        cases hnext
      · rename_i saved hsaved
        cases hstep
        cases hnext
        obtain ⟨row, hrow, hfingerprint⟩ := Option.bind_eq_some_iff.mp hsaved
        have hcode : row.code = item.code := by simpa using List.find?_some hrow
        exact .inr (.inl ⟨row, List.mem_of_find?_eq_some hrow, hcode, hfingerprint⟩)
  | cached saved =>
      simp only [advanceItem] at hstep
      split at hstep
      · cases hstep
      · cases hstep
        rw [Option.bind_some] at hnext
        split at hnext
        · exact .inl hnext
        · cases hnext
  | unchanged saved =>
      cases hstep
      split at hnext <;> cases hnext
  | invalidated =>
      simp only [advanceItem] at hstep
      split at hstep
      · cases hstep
      · cases hstep
        cases hnext
  | fingerprinted before =>
      simp only [advanceItem] at hstep
      split at hstep
      · cases hstep
        cases hnext
      · split at hstep
        · cases hstep
        · cases hstep
          cases hnext
  | scanned before scan =>
      simp only [advanceItem] at hstep
      split at hstep
      · cases hstep
        cases hnext
        exact .inr (.inr ⟨scan, rfl⟩)
      · cases hstep
  | accounted before scan =>
      simp only [advanceItem] at hstep
      split at hstep
      · cases hstep
      · cases hstep
        split at hnext
        · exact .inl hnext
        · cases hnext

theorem advanceItem_cache {item : Item} {stage : Stage} {next : Option Stage}
    (hstep : advanceItem now disk acc item stage = some (acc', next)) {row' : TreeCacheRow}
    (hrow' : row' ∈ acc'.cache) (hfingerprint : row'.usageFingerprint = some h) :
    (∃ row ∈ acc.cache, row.code = row'.code ∧ row.usageFingerprint = some h) ∨
      (row'.code = item.code ∧ Stage.vouched stage = some h) := by
  cases stage with
  | opened | unchanged =>
      cases hstep
      exact .inl ⟨row', hrow', rfl, hfingerprint⟩
  | scanned before scan =>
      simp only [advanceItem] at hstep
      split at hstep
      · cases hstep
        exact .inl ⟨row', hrow', rfl, hfingerprint⟩
      · cases hstep
  | outdated =>
      cases hstep
      exact .inl ⟨row', (mem_deleteWhere.mp hrow').1, rfl, hfingerprint⟩
  | unprojected =>
      obtain ⟨db, -, hpair⟩ := Option.map_eq_some_iff.mp hstep
      cases hpair
      exact .inl ⟨row', hrow', rfl, hfingerprint⟩
  | projected | cached | invalidated | accounted =>
      refine .inl ⟨row', ?_, rfl, hfingerprint⟩
      simp only [advanceItem] at hstep
      split at hstep <;> cases hstep <;> exact hrow'
  | fingerprinted before =>
      refine .inl ⟨row', ?_, rfl, hfingerprint⟩
      simp only [advanceItem] at hstep
      split at hstep
      · cases hstep
        exact hrow'
      · split at hstep
        · cases hstep
        · cases hstep
          exact hrow'
  | stable before scan =>
      cases hstep
      rcases mem_upsertOn.mp hrow' with ⟨hold, -⟩ | ⟨row, -, hcode, rfl⟩ | ⟨rfl, -⟩
      · exact .inl ⟨row', hold, rfl, hfingerprint⟩
      · exact .inr ⟨hcode, hfingerprint⟩
      · exact .inr ⟨rfl, hfingerprint⟩

theorem advanceItem_scanned {item : Item} {stage : Stage} {before : String} {scan : ScanResult}
    (hstep : advanceItem now disk acc item stage = some (acc', some (.scanned before scan))) :
    stage = .fingerprinted before ∧ disk.scan item.code = .ok scan := by
  cases stage with
  | fingerprinted first =>
      simp only [advanceItem] at hstep
      split at hstep
      · rename_i found hfound
        cases hstep
        exact ⟨rfl, hfound⟩
      · split at hstep <;> cases hstep
  | unprojected =>
      obtain ⟨db, -, hpair⟩ := Option.map_eq_some_iff.mp hstep
      cases hpair
  | opened | outdated | stable => cases hstep
  | projected | cached | unchanged | invalidated | accounted | scanned =>
      simp only [advanceItem, Option.some.injEq, Prod.mk.injEq] at hstep
      grind

theorem vouched_eq_some :
    site.vouched pass = some h ↔ ∃ plan stage item, pass = .applying plan stage ∧
      plan.current = some item ∧ item.code = site.code ∧ Stage.vouched stage = some h := by
  cases pass with
  | listed | planned => simp [AccountSite.vouched]
  | applying plan stage =>
      rw [AccountSite.vouched, AccountSite.isCurrent]
      cases hcurrent : plan.current with
      | none => simp [hcurrent]
      | some item =>
          by_cases hcode : item.code = site.code <;> simp [hcurrent, hcode]

theorem vouched_firstStage {plan : ReconcilePlan} :
    site.vouched (.applying plan plan.firstStage) = none := by
  rw [AccountSite.vouched, ReconcilePlan.firstStage]
  split <;> split <;> rfl

theorem writes_ne_none {r : RunningPass} {item : Item} {scan : ScanResult}
    (hwritten : writtenUsage r.pass = some (item, scan)) (hcode : item.code = site.code) :
    r.writes site ≠ none := by
  rw [RunningPass.writes, hwritten]
  split
  · exact nofun
  · dsimp only
    rw [if_pos hcode]
    exact nofun

theorem passMoves_vouched {r : RunningPass} (hmove : PassMoves now disk acc r.pass acc' pass')
    (hwrites : r.writes site = none)
    (hvouched : (∃ row ∈ acc'.cache, row.code = site.code ∧ row.usageFingerprint = some h) ∨
      site.vouched pass' = some h) :
    (∃ row ∈ acc.cache, row.code = site.code ∧ row.usageFingerprint = some h) ∨
      site.vouched r.pass = some h := by
  generalize hpass : r.pass = pass at hmove
  cases hmove with
  | plan =>
      rcases hvouched with hrow | hnone
      · exact .inl hrow
      · cases hnone
  | @heal plan =>
      rcases hvouched with hrow | hnone
      · exact .inl hrow
      · rw [vouched_firstStage] at hnone
        cases hnone
  | missing =>
      rcases hvouched with hrow | hnone
      · exact .inl hrow
      · rw [continuePass, vouched_firstStage] at hnone
        cases hnone
  | @item plan rest stage item acc' next hcurrent _ _ hstep =>
      rcases hvouched with ⟨row', hrow', hcode, hfingerprint⟩ | hnext
      · rcases advanceItem_cache hstep hrow' hfingerprint with ⟨row, hrow, hsame, hold⟩ | ⟨hitem, hstage⟩
        · exact .inl ⟨row, hrow, hsame.trans hcode, hold⟩
        · exact .inr (vouched_eq_some.mpr
            ⟨plan, stage, item, rfl, hcurrent, hitem.symm.trans hcode, hstage⟩)
      · cases next with
        | none =>
            rw [continuePass, vouched_firstStage] at hnext
            cases hnext
        | some stage' =>
            obtain ⟨plan', stage'', item', hpair, hcurrent', hcode, hstage⟩ :=
              vouched_eq_some.mp hnext
            cases hpair
            obtain rfl : item = item' := Option.some.inj (hcurrent.symm.trans hcurrent')
            rcases advanceItem_vouched hstep hstage with hstage | ⟨row, hrow, hitem, hold⟩ | ⟨scan, rfl⟩
            · exact .inr (vouched_eq_some.mpr ⟨plan, stage, item, rfl, hcurrent, hcode, hstage⟩)
            · exact .inl ⟨row, hrow, hitem.trans hcode, hold⟩
            · have hwritten : writtenUsage r.pass = some (item, scan) := by
                rw [hpass, writtenUsage, hcurrent, Option.map_some]
              exact absurd hwrites (writes_ne_none hwritten hcode)

/-- A pass that has a scan of a folder to write has just made it. -/
theorem passMoves_scanned {item : Item} {scan : ScanResult}
    (hmove : PassMoves now disk acc pass acc' pass')
    (hwritten : writtenUsage pass' = some (item, scan)) :
    isScanning pass = true ∧ disk.scan item.code = .ok scan := by
  cases hmove with
  | plan => cases hwritten
  | @heal plan =>
      rw [ReconcilePlan.firstStage] at hwritten
      split at hwritten <;> cases hwritten
  | missing =>
      rw [continuePass, ReconcilePlan.firstStage] at hwritten
      split at hwritten <;> cases hwritten
  | @item plan rest stage item' acc' next hcurrent _ _ hstep =>
      match next, hwritten with
      | none, hwritten =>
          rw [continuePass, ReconcilePlan.firstStage] at hwritten
          split at hwritten <;> cases hwritten
      | some (.scanned before found), hwritten =>
          rw [continuePass, writtenUsage, hcurrent, Option.map_some] at hwritten
          cases hwritten
          obtain ⟨rfl, hfound⟩ := advanceItem_scanned hstep
          exact ⟨rfl, hfound⟩

end Passes

/-! ## What every run keeps -/

section Invariant

variable {site : AccountSite Bytes} {s t : Accounting Bytes} {db : Database}

def ScanOf (site : AccountSite Bytes) (seen : List (Model.Tree Bytes)) (scan : ScanResult)
    (fingerprint : String) : Prop :=
  ∃ tree ∈ seen, site.fingerprint tree = fingerprint ∧ site.scan tree = .ok scan

def RemembersScan (site : AccountSite Bytes) (seen : List (Model.Tree Bytes)) (r : RunningPass) : Prop :=
  ∀ item scan, writtenUsage r.pass = some (item, scan) → item.code = site.code →
    ∃ f ∈ r.scanned, ScanOf site seen scan f

structure AccountingInv (site : AccountSite Bytes) (s : Accounting Bytes) : Prop where
  owned : Owned site s.acc.db.problems
  plans : ∀ r ∈ s.passes, PlanOwned site r.pass
  tree : ∀ tree ∈ s.tree, tree ∈ s.seen
  /-- The fingerprints tell the trees apart. -/
  apart : ∀ tree ∈ s.seen, ∀ tree' ∈ s.seen,
    site.fingerprint tree = site.fingerprint tree' → tree = tree'
  scans : ∀ x ∈ s.scans, ScanOf site s.seen x.1 x.2
  passScans : ∀ r ∈ s.passes, RemembersScan site s.seen r
  origin : ∀ f ∈ s.origin, ∃ scan, ScanOf site s.seen scan f ∧
    HasCounters site.problemId scan s.acc.db.problemUsage
  vouched : WrittenFor site s (some s.origin)

theorem ScanOf.mono {seen seen' : List (Model.Tree Bytes)} {scan : ScanResult} {f : String}
    (h : ScanOf site seen scan f) (hseen : seen ⊆ seen') : ScanOf site seen' scan f := by
  obtain ⟨tree, htree, hscan⟩ := h
  exact ⟨tree, hseen htree, hscan⟩

theorem RemembersScan.mono {seen seen' : List (Model.Tree Bytes)} {r : RunningPass}
    (h : RemembersScan site seen r) (hseen : seen ⊆ seen') : RemembersScan site seen' r := by
  intro item scan hwritten hcode
  obtain ⟨f, hf, hscan⟩ := h item scan hwritten hcode
  exact ⟨f, hf, hscan.mono hseen⟩

theorem WrittenFor.keep (h : WrittenFor site s (some s.origin)) (htree : t.tree = s.tree)
    (horigin : t.origin = s.origin) (hvouched : ∀ f, Vouched site t f → Vouched site s f) :
    WrittenFor site t (some t.origin) := by
  intro origin horigin' tree htree' hfingerprint
  cases horigin'
  rw [htree] at htree'
  rw [horigin]
  exact h s.origin rfl tree htree' (hvouched _ hfingerprint)

inductive StatementWrites (site : AccountSite Bytes) (s : Accounting Bytes) (db : Database) :
    Option (Option String) → Prop
  | keeps : KeepsCounters site.problemId s.acc.db.problemUsage db.problemUsage →
      StatementWrites site s db none
  | defaults : StatementWrites site s db (some none)
  | scan {i : Nat} {scan : ScanResult} {f : String} : s.scans[i]? = some (scan, f) →
      HasCounters site.problemId scan db.problemUsage → StatementWrites site s db (some (some f))

theorem statementWrites_of_run {x : UsageStatement} (howned : Owned site s.acc.db.problems)
    (hrun : x.run site s = some db) : StatementWrites site s db (x.writes site s) := by
  -- A problem without a row gets one with the defaults of the columns.
  have hupsert : ∀ new merge, new.problemId = site.problemId →
      (∀ u : ProblemUsageRow, (merge u).problemId = u.problemId ∧ counters (merge u) = counters u) →
      db.problemUsage = upsertOn ProblemUsageRow.problemId new merge s.acc.db.problemUsage →
      StatementWrites site s db
        (if s.acc.db.problemUsage.any fun u => u.problemId = site.problemId then none
          else some none) := by
    intro new merge hid hmerge hdb
    split
    · rename_i hthere
      refine .keeps ?_
      rw [hdb]
      exact keepsCounters_upsertOn hid hthere hmerge
    · exact .defaults
  have hupdate : ∀ (q : ProblemUsageRow → Bool) (f : ProblemUsageRow → ProblemUsageRow),
      (∀ u, (f u).problemId = u.problemId ∧ counters u = counters (f u)) →
      db.problemUsage = updateWhere q f s.acc.db.problemUsage → StatementWrites site s db none := by
    intro q f hf hdb
    refine .keeps ?_
    rw [hdb]
    exact keepsRows_updateWhere (fun _ => rfl) hf
  cases x with
  | scanJob i observedAt =>
      obtain ⟨⟨scan, f⟩, hscan, hdb⟩ := Option.bind_eq_some_iff.mp hrun
      rw [UsageStatement.writes, hscan, Option.map_some]
      split at hdb
      · rename_i hfits
        cases hdb
        exact .scan hscan (hasCounters_scanJob hfits)
      · cases hdb
  | accounting i observedAt =>
      obtain ⟨⟨scan, f⟩, hscan, hdb⟩ := Option.bind_eq_some_iff.mp hrun
      rw [UsageStatement.writes, hscan, Option.map_some]
      split at hdb
      · rename_i hfits
        cases hdb
        exact .scan hscan (hasCounters_accounting hfits)
      · cases hdb
  | watched i =>
      obtain ⟨⟨scan, f⟩, hscan, hdb⟩ := Option.map_eq_some_iff.mp hrun
      cases hdb
      rw [UsageStatement.writes, hscan, Option.map_some]
      exact .scan hscan hasCounters_scanned
  | discovered i =>
      obtain ⟨⟨scan, f⟩, hscan, hdb⟩ := Option.map_eq_some_iff.mp hrun
      cases hdb
      rw [UsageStatement.writes, hscan, Option.map_some]
      exact .scan hscan howned.discovered
  | markLocalPresent generation =>
      cases hrun
      refine hupsert _ _ ?_ ?_ rfl
      · rfl
      · exact fun u => ⟨rfl, rfl⟩
  | markMissing observedAt =>
      cases hrun
      refine hupsert _ _ ?_ ?_ rfl
      · rfl
      · exact fun u => ⟨rfl, rfl⟩
  | restored | evicted | markLocalVerified | markLocalMissing | markStale =>
      cases hrun
      refine hupdate _ _ ?_ rfl
      exact fun u => ⟨rfl, rfl⟩
  | other db' =>
      simp only [UsageStatement.run] at hrun
      split at hrun
      · rename_i hkeeps
        cases hrun
        exact .keeps hkeeps.1
      · cases hrun

theorem owned_of_run {x : UsageStatement} (howned : Owned site s.acc.db.problems)
    (hrun : x.run site s = some db) : Owned site db.problems := by
  cases x with
  | scanJob | accounting =>
      obtain ⟨scan, -, hdb⟩ := Option.bind_eq_some_iff.mp hrun
      split at hdb
      · cases hdb
        exact howned
      · cases hdb
  | watched =>
      obtain ⟨scan, -, hdb⟩ := Option.map_eq_some_iff.mp hrun
      cases hdb
      exact howned
  | discovered =>
      obtain ⟨scan, -, hdb⟩ := Option.map_eq_some_iff.mp hrun
      cases hdb
      exact howned.discover
  | markLocalPresent | markMissing | restored | evicted | markLocalVerified | markLocalMissing
  | markStale =>
      cases hrun
      exact howned
  | other db' =>
      simp only [UsageStatement.run] at hrun
      split at hrun
      · rename_i hkeeps
        cases hrun
        exact howned.of_names hkeeps.2
      · cases hrun

theorem disk_scan {tree : Option (Model.Tree Bytes)} {others : Disk} {scan : ScanResult}
    (h : (site.disk tree others).scan site.code = .ok scan) :
    ∃ tree' ∈ tree, site.scan tree' = .ok scan := by
  simp only [AccountSite.disk] at h
  cases tree with
  | none =>
      simp only [scanProblemFolder, Option.map_none] at h
      cases hpath : validateRelativePath site.code with
      | error e =>
          rw [hpath] at h
          cases h
      | ok _ =>
          rw [hpath] at h
          cases h
  | some tree' => exact ⟨tree', rfl, h⟩

theorem accountingInv_change {tree : Option (Model.Tree Bytes)} (h : AccountingInv site s)
    (htell : FingerprintsTell site s (.change tree) t)
    (hin : InStep site s (.change tree) t) :
    AccountingInv site { s with tree := tree, seen := tree.toList ++ s.seen } := by
  have hseen : s.seen ⊆ tree.toList ++ s.seen := List.subset_append_right _ _
  refine ⟨h.owned, h.plans, ?_, ?_, fun x hx => (h.scans x hx).mono hseen,
    fun r hr => (h.passScans r hr).mono hseen, ?_, hin⟩
  · intro tree' htree'
    exact List.mem_append_left _ (Option.mem_toList.mpr htree')
  · cases tree with
    | none => exact h.apart
    | some tree =>
        -- The new tree differs in its fingerprint from the others, or is one of them.
        intro tree₁ h₁ tree₂ h₂ heq
        rcases List.mem_cons.mp h₁ with rfl | hold₁ <;> rcases List.mem_cons.mp h₂ with rfl | hold₂
        · rfl
        · exact (htell tree₂ hold₂ heq.symm).symm
        · exact htell tree₁ hold₁ heq
        · exact h.apart tree₁ hold₁ tree₂ hold₂ heq
  · intro f hf
    obtain ⟨scan, hscan, hcounters⟩ := h.origin f hf
    exact ⟨scan, hscan.mono hseen, hcounters⟩

theorem accountingInv_statement {x : UsageStatement} (h : AccountingInv site s)
    (hrun : x.run site s = some db)
    (hin : WrittenFor site
      { s with acc := { s.acc with db := db }, origin := (x.writes site s).getD s.origin }
      (x.writes site s)) :
    AccountingInv site
      { s with acc := { s.acc with db := db }, origin := (x.writes site s).getD s.origin } := by
  refine ⟨owned_of_run h.owned hrun, h.plans, h.tree, h.apart, h.scans, h.passScans, ?_, ?_⟩
  · intro f hf
    have hwrites := statementWrites_of_run h.owned hrun
    generalize x.writes site s = written at hf hwrites
    cases hwrites with
    | keeps hkeeps =>
        obtain ⟨scan, hscan, hcounters⟩ := h.origin f hf
        exact ⟨scan, hscan, hcounters.keep hkeeps⟩
    | defaults => cases hf
    | scan hi hcounters =>
        cases hf
        exact ⟨_, h.scans _ (List.mem_of_getElem? hi), hcounters⟩
  · cases hwrites : x.writes site s with
    | none => exact h.vouched.keep rfl rfl fun f hf => hf
    | some origin =>
        rw [hwrites] at hin
        exact hin

theorem accountingInv_pass {i : Nat} {others : Disk} {r : RunningPass} {acc' : Accounts}
    {pass' : Pass} {scanned : Option String} (h : AccountingInv site s)
    (hr : s.passes[i]? = some r)
    (hmove : PassMoves s.now (site.disk s.tree others) s.acc r.pass acc' pass')
    (hscanned : scanned = if isScanning r.pass then s.tree.map site.fingerprint else r.scanned)
    (ht : t = { s with
      acc := acc', passes := s.passes.set i ⟨pass', scanned⟩
      origin := (r.writes site).getD s.origin })
    (hin : WrittenFor site t (r.writes site)) : AccountingInv site t := by
  have hmem := List.mem_of_getElem? hr
  obtain ⟨howned', hplan'⟩ := passMoves_owned hmove h.owned (h.plans r hmem)
  subst ht
  refine ⟨howned', ?_, h.tree, h.apart, h.scans, ?_, ?_, ?_⟩
  · intro r' hr'
    rcases List.mem_or_eq_of_mem_set hr' with hold | rfl
    · exact h.plans r' hold
    · exact hplan'
  · intro r' hr'
    rcases List.mem_or_eq_of_mem_set hr' with hold | rfl
    · exact h.passScans r' hold
    · intro item scan hwritten hcode
      obtain ⟨hscanning, hfound⟩ := passMoves_scanned hmove hwritten
      rw [hcode] at hfound
      obtain ⟨tree, htree, hscan⟩ := disk_scan hfound
      refine ⟨site.fingerprint tree, ?_, tree, h.tree tree htree, rfl, hscan⟩
      rw [Option.mem_def] at htree ⊢
      rw [hscanned, if_pos hscanning, htree, Option.map_some]
  · intro f hf
    rcases passMoves_counters hmove h.owned (h.plans r hmem) with
      hnone | ⟨hnone, hkeeps⟩ | ⟨item, scan, hwrites, hwritten, hcode, hcounters⟩
    · rw [hnone] at hf
      cases hf
    · rw [hnone] at hf
      obtain ⟨scan, hscan, hcounters⟩ := h.origin f hf
      exact ⟨scan, hscan, hcounters.keep hkeeps⟩
    · obtain ⟨f', hf', hscan⟩ := h.passScans r hmem item scan hwritten hcode
      rw [hwrites, Option.getD_some] at hf
      obtain rfl : f' = f := Option.some.inj (hf'.symm.trans hf)
      exact ⟨scan, hscan, hcounters⟩
  · cases hwrites : r.writes site with
    | some origin =>
        rw [hwrites] at hin
        exact hin
    | none =>
        refine h.vouched.keep rfl rfl ?_
        rintro f (hrow | ⟨r', hr', hvouched⟩)
        · rcases passMoves_vouched hmove hwrites (.inl hrow) with hrow | hvouched
          · exact .inl hrow
          · exact .inr ⟨r, hmem, hvouched⟩
        · rcases List.mem_or_eq_of_mem_set hr' with hold | rfl
          · exact .inr ⟨r', hold, hvouched⟩
          · rcases passMoves_vouched hmove hwrites (.inr hvouched) with hrow | hvouched
            · exact .inl hrow
            · exact .inr ⟨r, hmem, hvouched⟩

theorem cacheTree_vouched {code fingerprint : String} {canonical : Option String}
    {cache : List TreeCacheRow} {row' : TreeCacheRow} {f : String}
    (hrow' : row' ∈ cacheTree code fingerprint canonical false cache)
    (hf : row'.usageFingerprint = some f) :
    ∃ row ∈ cache, row.code = row'.code ∧ row.usageFingerprint = some f := by
  rcases mem_upsertOn.mp hrow' with ⟨hold, -⟩ | ⟨row, hrow, -, rfl⟩ | ⟨rfl, -⟩
  · exact ⟨row', hold, rfl, hf⟩
  · refine ⟨row, hrow, rfl, ?_⟩
    dsimp only at hf
    rw [if_neg Bool.false_ne_true] at hf
    split at hf
    · exact hf
    · cases hf
  · cases hf

theorem accountingInv_step {a : AccountAction Bytes} (h : AccountingInv site s)
    (htell : FingerprintsTell site s a t) (hin : InStep site s a t)
    (hstep : accountStep site s a = some t) : AccountingInv site t := by
  cases a with
  | tick elapsed =>
      cases hstep
      exact ⟨h.owned, h.plans, h.tree, h.apart, h.scans, h.passScans, h.origin, h.vouched⟩
  | change tree =>
      cases hstep
      exact accountingInv_change h htell hin
  | list others =>
      cases hstep
      refine ⟨h.owned, ?_, h.tree, h.apart, h.scans, ?_, h.origin, ?_⟩
      · intro r hr
        rcases List.mem_append.mp hr with hold | hnew
        · exact h.plans r hold
        · obtain rfl := List.mem_singleton.mp hnew
          trivial
      · intro r hr
        rcases List.mem_append.mp hr with hold | hnew
        · exact h.passScans r hold
        · obtain rfl := List.mem_singleton.mp hnew
          exact nofun
      · refine h.vouched.keep rfl rfl ?_
        rintro f (hrow | ⟨r, hr, hvouched⟩)
        · exact .inl hrow
        · rcases List.mem_append.mp hr with hold | hnew
          · exact .inr ⟨r, hold, hvouched⟩
          · obtain rfl := List.mem_singleton.mp hnew
            cases hvouched
  | pass i others =>
      obtain ⟨r, hr, hmap⟩ := Option.bind_eq_some_iff.mp hstep
      obtain ⟨⟨acc', pass'⟩, hadvance, ht⟩ := Option.map_eq_some_iff.mp hmap
      exact accountingInv_pass h hr (passMoves_of_advance hadvance) rfl ht.symm (hin r hr).1
  | scan =>
      obtain ⟨tree, htree, hmatch⟩ := Option.bind_eq_some_iff.mp hstep
      split at hmatch
      · cases hmatch
      · rename_i scan hscan
        cases hmatch
        refine ⟨h.owned, h.plans, h.tree, h.apart, ?_, h.passScans, h.origin, h.vouched⟩
        intro x hx
        rcases List.mem_append.mp hx with hold | hnew
        · exact h.scans x hold
        · obtain rfl := List.mem_singleton.mp hnew
          exact ⟨tree, h.tree tree htree, rfl, hscan⟩
  | statement x =>
      obtain ⟨db, hrun, ht⟩ := Option.map_eq_some_iff.mp hstep
      cases ht
      exact accountingInv_statement h hrun hin
  | ready fingerprint canonical =>
      cases hstep
      refine ⟨h.owned, h.plans, h.tree, h.apart, h.scans, h.passScans, h.origin, ?_⟩
      refine h.vouched.keep rfl rfl ?_
      rintro f (⟨row', hrow', hcode, hf⟩ | hpass)
      · obtain ⟨row, hrow, hsame, hold⟩ := cacheTree_vouched hrow' hf
        exact .inl ⟨row, hrow, hsame.trans hcode, hold⟩
      · exact .inr hpass
  | unready =>
      cases hstep
      refine ⟨h.owned, h.plans, h.tree, h.apart, h.scans, h.passScans, h.origin, ?_⟩
      refine h.vouched.keep rfl rfl ?_
      rintro f (⟨row, hrow, hcode, hf⟩ | hpass)
      · exact .inl ⟨row, (mem_deleteWhere.mp hrow).1, hcode, hf⟩
      · exact .inr hpass

/-- An answer is about the tree that the fingerprint has been read of. -/
theorem cacheSound_of_inv {a : AccountAction Bytes} (h : AccountingInv site s)
    (hin : InStep site s a t) : CacheSound site s a t := by
  cases a with
  | pass i others =>
      intro r hr hanswer
      obtain ⟨saved, hsaved⟩ := Option.isSome_iff_exists.mp hanswer
      have hmem := List.mem_of_getElem? hr
      have hread := (hin r hr).2 saved hsaved
      obtain ⟨tree, htree, hfingerprint⟩ := Option.map_eq_some_iff.mp hread
      have hvouched : site.vouched r.pass = some saved.1 := by
        unfold answer at hsaved
        split at hsaved
        · rename_i plan fingerprint hpass
          obtain ⟨item, hcurrent, hif⟩ := Option.bind_eq_some_iff.mp hsaved
          split at hif
          · rename_i hcode
            cases hif
            exact vouched_eq_some.mpr ⟨plan, _, item, hpass, hcurrent, hcode.1, rfl⟩
          · cases hif
        · cases hsaved
      have horigin : s.origin = some saved.1 := by
        rw [← hfingerprint]
        refine h.vouched s.origin rfl tree htree (.inr ⟨r, hmem, ?_⟩)
        rw [hfingerprint]
        exact hvouched
      obtain ⟨scan, ⟨tree', htree', hsame, hscan⟩, hcounters⟩ := h.origin saved.1 horigin
      obtain rfl : tree' = tree :=
        h.apart tree' htree' tree (h.tree tree htree) (hsame.trans hfingerprint.symm)
      refine ⟨scan, ?_, ?_⟩
      · rw [Accounting.scan?, htree, Option.bind_some, hscan]
        rfl
      · rintro u hu ⟨p, hp, hcode, hid⟩
        exact hcounters u hu (hid.symm.trans (h.owned.owner p hp hcode))
  | _ => trivial

end Invariant

/-! ## The cache is sound -/

/-- Where no writer leaves other counters behind a fingerprint that is vouched for, every
answer of `cached_usage_matches` is right. -/
theorem accounting_cache_sound {site : AccountSite Bytes} {s : Accounting Bytes}
    {as : List (AccountAction Bytes)} (howned : Owned site s.acc.db.problems)
    (hcache : s.acc.cache = []) (hpasses : s.passes = []) (hscans : s.scans = [])
    (horigin : s.origin = none) (hseen : s.seen = s.tree.toList)
    (htell : EveryStep (accountStep site) (FingerprintsTell site) s as)
    (hin : EveryStep (accountStep site) (InStep site) s as) :
    EveryStep (accountStep site) (CacheSound site) s as := by
  have hinit : AccountingInv site s := by
    refine ⟨howned, ?_, ?_, ?_, ?_, ?_, ?_, ?_⟩
    · rw [hpasses]
      exact nofun
    · intro tree htree
      rw [hseen]
      exact Option.mem_toList.mpr htree
    · intro tree htree tree' htree' _
      rw [hseen, Option.mem_toList] at htree htree'
      exact Option.some.inj (htree.symm.trans htree')
    · rw [hscans]
      exact nofun
    · rw [hpasses]
      exact nofun
    · rw [horigin]
      exact nofun
    · rintro origin - tree - (⟨row, hrow, -⟩ | ⟨r, hr, -⟩)
      · rw [hcache] at hrow
        cases hrow
      · rw [hpasses] at hr
        cases hr
  refine everyStep_of_invariant ?_ ?_ hinit (htell.and hin)
  · rintro s a t h ⟨htell, hin⟩ hstep
    exact accountingInv_step h htell hin hstep
  · rintro s a t h ⟨-, hin⟩ -
    exact cacheSound_of_inv h hin

/-! Problem 7 has a folder with one archive, which is replaced by a longer one. -/

def accountSite : AccountSite String where
  contents := ⟨id, id, String.length⟩
  hash bytes := String.ofList (bytes.map fun b => Char.ofNat b.toNat)
  root := "/problems"
  problemId := "7"
  code := "sums"

def archiveTree (content : String) (mtime : Int) : Model.Tree String where
  top := ⟨⟨[], .dir, ⟨1, 2, 2, 8, 16877⟩⟩, 4096, mtime, 0, mtime, 0⟩
  below := [⟨⟨[.ofText "sums.zip"], .file 3 content, ⟨1, 3, 1, 8, 33188⟩⟩, content.length, mtime, 0,
    mtime, 0⟩]

def countedRow : ProblemUsageRow :=
  { defaultUsage 0 "7" with localStatus := .present, stale := false }

def accountStart : Accounting String where
  now := 10
  acc :=
    ⟨{ problems :=
        [⟨"7", "sums", none, true, none, none, .present, 0, false, false, none, 0, none, 1⟩]
       problemUsage := [countedRow] }, []⟩
  tree := some (archiveTree "tests" 1)
  seen := [archiveTree "tests" 1]

def otherFolders : Disk where
  directories := []
  scan code := .error (.problemFolderMissing code)
  fingerprint code := .error (.problemFolderMissing code)
  initYml _ := none

def passSteps (i n : Nat) : List (AccountAction String) :=
  .list otherFolders :: List.replicate n (.pass i otherFolders)

/-- The scan job writes what it has scanned before the folder changes. -/
def earlyScanJob : List (AccountAction String) :=
  .scan :: .statement (.scanJob 0 5) :: .change (some (archiveTree "tests of today" 2)) ::
    passSteps 0 11 ++ passSteps 1 7

def lateScanJob : List (AccountAction String) :=
  .scan :: .change (some (archiveTree "tests of today" 2)) ::
    passSteps 0 11 ++ .statement (.scanJob 0 5) :: passSteps 1 7

theorem accounting_cache_sound_early :
    (exec (accountStep accountSite) accountStart earlyScanJob).isSome ∧
      EveryStep (accountStep accountSite) (CacheSound accountSite) accountStart earlyScanJob := by
  -- all in one evaluation of the run
  have ⟨hruns, htell, hin⟩ :
      (exec (accountStep accountSite) accountStart earlyScanJob).isSome = true ∧
        EveryStep (accountStep accountSite) (FingerprintsTell accountSite) accountStart
          earlyScanJob ∧
        EveryStep (accountStep accountSite) (InStep accountSite) accountStart earlyScanJob := by
    decide +kernel
  refine ⟨hruns, accounting_cache_sound ?_ rfl rfl rfl rfl rfl htell hin⟩
  refine ⟨by decide, by decide, ?_, .inl (by decide)⟩
  intro code hcode
  have hlist : "7".toList = ("orphan:" ++ code).toList := congrArg String.toList hcode
  simp at hlist

/-- The second pass answers from the cache, with the counters of the folder that was. -/
theorem late_scan_job_keeps_old_counters :
    (exec (accountStep accountSite) accountStart lateScanJob).isSome ∧
      EveryStep (accountStep accountSite) (FingerprintsTell accountSite) accountStart lateScanJob ∧
      ¬ EveryStep (accountStep accountSite) (CacheSound accountSite) accountStart lateScanJob := by
  decide +kernel

end ExternalStorage.Catalog
