import ExternalStorage.Catalog.Claims
import ExternalStorage.Model.Publication

/-!
# The backups of a claimed orphan

A claim gives the rows of the orphan the id of the catalog, and migration 006 takes its
snapshots along.  Their manifests stay under the keys of the old id, and name it.
-/

namespace ExternalStorage.Catalog

open ExternalStorage.Model Library.Table

/-! ## Statements -/

inductive CatalogWrite where
  | upsert
  | notify (idempotencyKey actor fingerprint : String) (deleted : Bool)
  deriving DecidableEq, Repr

def CatalogWrite.run (now : Timestamp) (e : CatalogEntry) (db : Database) :
    CatalogWrite → Except CatalogError Database
  | .upsert => upsertProblem now e db
  | .notify key actor fingerprint deleted =>
      (markProblemDirtyIdempotent now key actor fingerprint e deleted db).map Prod.fst

/-- The write is a new notification, and not of a deletion. -/
def CatalogWrite.Marks (db : Database) : CatalogWrite → Prop
  | .upsert => False
  | .notify key _ _ deleted => deleted = false ∧ FreshKey key db

/-- The foreign keys that point to `problems`. -/
structure References (db : Database) : Prop extends SchemaOk db where
  snapshots : ∀ s ∈ db.snapshots, Stored s.problemId db.problems
  jobs : ∀ j ∈ db.jobs, ∀ p ∈ j.problemId, Stored p db.problems

section Statements

variable {Bytes : Type} [DecidableEq Bytes] (c : Contents Bytes)
  (fromSlice : Bytes → Except String Manifest) (root : String) (store : String → Option Bytes)
  (head : String → Except AppError ObjectMeta)

/-- What was a backup of the orphan serves the problem: a restore puts the same files back,
now and after any eviction, and a download finds the same archive. -/
structure BackupUsable (e : CatalogEntry) (db claimed : Database)
    (folder : Option (List (WalkEntry Bytes))) (q : RestoreRequest) (staging : Staging Bytes) :
    Prop where
  restored : ∀ now, ∃ db', restoreSnapshot c fromSlice now root claimed store folder
    { q with problemId := e.externalId } = .ok (db', staging)
  undone : ∀ now (eviction : EvictRequest) walk gone result,
    eviction.problemId = e.externalId →
    evictLocal c now root claimed walk eviction = .ok (gone, none, result) →
      ∃ db', restoreSnapshot c fromSlice now root gone store none
        { q with problemId := e.externalId } = .ok (db', staging)
  downloaded : ∀ archive,
    downloadArchive c fromSlice store head db (orphanId e.code) = .ok archive →
      ∃ archive', downloadArchive c fromSlice store head claimed e.externalId = .ok archive' ∧
        archive'.objectKey = archive.objectKey

/-- The store has manifests of the problem too, for the generation that is restored and for
the one that is downloaded, and the claim leaves a folder that is there unmarked. -/
structure ManifestsCopied (e : CatalogEntry) (db : Database) (w : CatalogWrite)
    (folder : Option (List (WalkEntry Bytes))) (q : RestoreRequest) : Prop where
  restored : ∀ generation manifest,
    resolveReadyGeneration db q.problemId q.generation = .ok generation →
    fetchManifest c fromSlice store q.problemId generation = .ok manifest →
      ∃ copy, fetchManifest c fromSlice store e.externalId generation = .ok copy ∧
        materializeManifestFiles c store copy (q.pathBeside root (stagingName q newUuid)) =
          materializeManifestFiles c store manifest (q.pathBeside root (stagingName q newUuid))
  downloaded : ∀ generation manifest archive,
    resolveReadyGeneration db (orphanId e.code) 0 = .ok generation →
    fetchManifest c fromSlice store (orphanId e.code) generation = .ok manifest →
    canonicalArchive head manifest = .ok archive →
      ∃ copy, fetchManifest c fromSlice store e.externalId generation = .ok copy ∧
        ∃ archive', canonicalArchive head copy = .ok archive' ∧
          archive'.objectKey = archive.objectKey
  unmarked : folder ≠ none → ¬ w.Marks db

end Statements

/-! ## The rows of a claimed orphan -/

section Rows

variable {old new : String} {db : Database}

theorem renamed_eq_new {id : String} (hfresh : id ≠ new) : renamed old new id = new ↔ id = old := by
  unfold renamed
  split
  · rename_i hold
    simp [hold]
  · rename_i hold
    exact iff_of_false hfresh hold

theorem latestFencingToken_rekeyProblem (hfresh : ∀ j ∈ db.jobs, j.problemId ≠ some new) :
    latestFencingToken (rekeyProblem old new db).jobs new = latestFencingToken db.jobs old := by
  unfold latestFencingToken maxWhere rekeyProblem
  dsimp only
  rw [filter_map_congr (p := fun j => j.problemId = some old), List.map_map]
  · rfl
  · intro j hj
    have hid := hfresh j hj
    rw [decide_eq_decide]
    cases hproblem : j.problemId with
    | none => simp
    | some p =>
        rw [hproblem] at hid
        rw [Option.map_some, Option.some.injEq, Option.some.injEq]
        exact renamed_eq_new fun h => hid (congrArg some h)

theorem latestReady_rekeyProblem (hfresh : ∀ s ∈ db.snapshots, s.problemId ≠ new) :
    latestReady new (rekeyProblem old new db).snapshots =
      (latestReady old db.snapshots).map fun s =>
        { s with problemId := renamed old new s.problemId } := by
  unfold latestReady rekeyProblem
  dsimp only
  rw [filter_map_congr (p := fun s => s.problemId = old && s.state = .ready)]
  · apply firstBy_map
    intro s t
    rfl
  · intro s hs
    have hid : renamed old new s.problemId = new ↔ s.problemId = old :=
      renamed_eq_new (hfresh s hs)
    rw [Bool.eq_iff_iff]
    simp only [Bool.and_eq_true, decide_eq_true_eq]
    rw [hid]

end Rows

/-- What a claim makes of the tables that a restore reads. -/
structure Claimed (e : CatalogEntry) (db claimed : Database) : Prop where
  snapshots : claimed.snapshots = (rekeyProblem (orphanId e.code) e.externalId db).snapshots
  objects : claimed.snapshotObjects = db.snapshotObjects
  jobs : claimed.jobs = (rekeyProblem (orphanId e.code) e.externalId db).jobs

section Claim

variable {now : Timestamp} {e : CatalogEntry} {db claimed : Database} {w : CatalogWrite}

/-- A write that claims settles the code by the rekey; then it is the upsert, a replay or a
notification. -/
theorem run_claim (hunique : UniqueProblems db.problems) (hholds : OrphanHolds e.code db.problems)
    (hfresh : ¬ Stored e.externalId db.problems) (hrun : w.run now e db = .ok claimed) :
    ∃ rekeyed, rekeyed = rekeyProblem (orphanId e.code) e.externalId db ∧
      (w = .upsert ∧
          claimed = { rekeyed with problems := cataloged now e rekeyed.problems } ∨
        ∃ key actor fingerprint deleted, w = .notify key actor fingerprint deleted ∧
          (¬ FreshKey key db ∧ claimed = rekeyed ∨
            FreshKey key db ∧ claimed = { notifyProblem now e deleted rekeyed with
              idempotencyKeys := rekeyed.idempotencyKeys ++
                [⟨key, "problem.dirty", actor, fingerprint, e.externalId, some e.externalId⟩] })) := by
  obtain ⟨orphan, hmem, horphan⟩ := hholds
  refine ⟨_, rfl, ?_⟩
  cases w with
  | upsert =>
      obtain ⟨resolved, hresolved, -, rfl⟩ := upsertProblem_eq_ok.mp hrun
      rw [resolveCode_rekey hunique hmem horphan hfresh] at hresolved
      cases hresolved
      exact .inl ⟨rfl, rfl⟩
  | notify key actor fingerprint deleted =>
      refine .inr ⟨key, actor, fingerprint, deleted, rfl, ?_⟩
      change (markProblemDirtyIdempotent now key actor fingerprint e deleted db).map Prod.fst =
        .ok claimed at hrun
      cases hmark : markProblemDirtyIdempotent now key actor fingerprint e deleted db with
      | error err =>
          rw [hmark] at hrun
          cases hrun
      | ok marked =>
          rw [hmark] at hrun
          cases hrun
          obtain ⟨rekeyed, hrekeyed, hcases⟩ := markProblemDirtyIdempotent_cases hmark
          rw [claimCode_rekey hunique hmem horphan hfresh] at hrekeyed
          cases hrekeyed
          rw [freshKey_rekeyProblem] at hcases
          exact hcases

theorem claimed_run (hunique : UniqueProblems db.problems)
    (hholds : OrphanHolds e.code db.problems) (hfresh : ¬ Stored e.externalId db.problems)
    (hrun : w.run now e db = .ok claimed) : Claimed e db claimed := by
  obtain ⟨rekeyed, rfl, h⟩ := run_claim hunique hholds hfresh hrun
  rcases h with ⟨-, rfl⟩ | ⟨key, actor, fingerprint, deleted, -, ⟨-, rfl⟩ | ⟨-, rfl⟩⟩
  · exact ⟨rfl, rfl, rfl⟩
  · exact ⟨rfl, rfl, rfl⟩
  · cases deleted <;> exact ⟨rfl, rfl, rfl⟩

/-- The rows of the problem, as the write leaves them; the orphan's row is the only one. -/
theorem mem_cataloged_rekeyProblem (hfresh : ¬ Stored e.externalId db.problems)
    {new : ProblemRow} {merge : ProblemRow → ProblemRow} (hid : new.externalId = e.externalId)
    (hholds : OrphanHolds e.code db.problems) {p : ProblemRow}
    (hp : p ∈ upsertOn ProblemRow.externalId new merge
      (rekeyProblem (orphanId e.code) e.externalId db).problems)
    (hown : p.externalId = e.externalId) :
    ∃ o ∈ db.problems, o.externalId = orphanId e.code ∧ ∃ p₀, p = merge p₀ ∧ p₀.dirty = o.dirty := by
  have hmine : ∀ p₀ ∈ (rekeyProblem (orphanId e.code) e.externalId db).problems,
      p₀.externalId = e.externalId →
        ∃ o ∈ db.problems, o.externalId = orphanId e.code ∧ p₀.dirty = o.dirty := by
    intro p₀ hp₀ hkey
    obtain ⟨o, ho, rfl⟩ := List.mem_map.mp hp₀
    have hother : o.externalId ≠ e.externalId := fun h => hfresh ⟨o, ho, h⟩
    exact ⟨o, ho, (renamed_eq_new hother).mp hkey, rfl⟩
  rcases mem_upsertOn.mp hp with ⟨-, hne⟩ | ⟨p₀, hp₀, hkey, rfl⟩ | ⟨rfl, hfree⟩
  · exact absurd (hown.trans hid.symm) hne
  · obtain ⟨o, ho, hoid, hdirty⟩ := hmine p₀ hp₀ (hkey.trans hid)
    exact ⟨o, ho, hoid, p₀, rfl, hdirty⟩
  · obtain ⟨orphan, hmem, horphan⟩ := hholds
    have hrow : Stored e.externalId (rekeyProblem (orphanId e.code) e.externalId db).problems := by
      rw [stored_rekeyProblem]
      refine ⟨orphan, hmem, ?_⟩
      rw [(isOrphanOf_eq_true.mp horphan).2.1, renamed_self]
    obtain ⟨p₁, hp₁, hkey₁⟩ := hrow
    exact absurd (hkey₁.trans hid.symm) (hfree p₁ hp₁)

theorem dirty_claimed (hunique : UniqueProblems db.problems)
    (hholds : OrphanHolds e.code db.problems) (hfresh : ¬ Stored e.externalId db.problems)
    (hrun : w.run now e db = .ok claimed) (hmarks : ¬ w.Marks db) {p : ProblemRow}
    (hp : p ∈ claimed.problems) (hown : p.externalId = e.externalId) (hdirty : p.dirty = true) :
    ∃ o ∈ db.problems, o.externalId = orphanId e.code ∧ o.dirty = true := by
  obtain ⟨rekeyed, rfl, h⟩ := run_claim hunique hholds hfresh hrun
  rcases h with ⟨-, rfl⟩ | ⟨key, actor, fingerprint, deleted, rfl, ⟨-, rfl⟩ | ⟨hnew, rfl⟩⟩
  · obtain ⟨o, ho, hoid, p₀, rfl, hsame⟩ := mem_cataloged_rekeyProblem hfresh rfl hholds hp hown
    exact ⟨o, ho, hoid, hsame.symm.trans hdirty⟩
  · obtain ⟨o, ho, rfl⟩ := List.mem_map.mp hp
    have hother : o.externalId ≠ e.externalId := fun h => hfresh ⟨o, ho, h⟩
    exact ⟨o, ho, (renamed_eq_new hother).mp hown, hdirty⟩
  · cases deleted with
    | false => exact absurd ⟨rfl, hnew⟩ hmarks
    | true =>
        obtain ⟨o, ho, hoid, p₀, rfl, -⟩ := mem_cataloged_rekeyProblem hfresh rfl hholds hp hown
        cases hdirty

theorem dirty_marked (hunique : UniqueProblems db.problems)
    (hholds : OrphanHolds e.code db.problems) (hfresh : ¬ Stored e.externalId db.problems)
    (hrun : w.run now e db = .ok claimed) (hmarks : w.Marks db) :
    ∃ p ∈ claimed.problems, p.externalId = e.externalId ∧ p.dirty = true := by
  obtain ⟨rekeyed, rfl, h⟩ := run_claim hunique hholds hfresh hrun
  rcases h with ⟨rfl, -⟩ | ⟨key, actor, fingerprint, deleted, rfl, ⟨hold, -⟩ | ⟨-, rfl⟩⟩
  · exact absurd hmarks (by simp [CatalogWrite.Marks])
  · exact absurd hmarks.2 hold
  · obtain rfl : deleted = false := hmarks.1
    obtain ⟨p, hp, hown⟩ := (stored_notified now e.externalId).mpr (.inr rfl)
    refine ⟨p, hp, hown, ?_⟩
    obtain ⟨p₁, hp₁, rfl⟩ := mem_updateWhere.mp hp
    have hown₁ : p₁.externalId = e.externalId := by
      split at hown
      · exact hown
      · exact hown
    obtain ⟨-, -, -, p₀, rfl, -⟩ := mem_cataloged_rekeyProblem hfresh rfl hholds hp₁ hown₁
    split <;> rfl

theorem stored_claimed (hunique : UniqueProblems db.problems)
    (hholds : OrphanHolds e.code db.problems) (hfresh : ¬ Stored e.externalId db.problems)
    (hrun : w.run now e db = .ok claimed) : Stored e.externalId claimed.problems := by
  obtain ⟨rekeyed, rfl, h⟩ := run_claim hunique hholds hfresh hrun
  rcases h with ⟨-, rfl⟩ | ⟨key, actor, fingerprint, deleted, -, ⟨-, rfl⟩ | ⟨-, rfl⟩⟩
  · exact (stored_cataloged now e.externalId).mpr (.inr rfl)
  · obtain ⟨orphan, hmem, horphan⟩ := hholds
    rw [stored_rekeyProblem]
    refine ⟨orphan, hmem, ?_⟩
    rw [(isOrphanOf_eq_true.mp horphan).2.1, renamed_self]
  · cases deleted with
    | false => exact (stored_notified now e.externalId).mpr (.inr rfl)
    | true => exact (stored_upsertOn (by intro p; rfl) e.externalId).mpr (.inr rfl)

end Claim

/-! ## What a restore finds after the claim -/

section Restore

variable {e : CatalogEntry} {db claimed : Database}

theorem References.fresh_jobs (h : References db) (hfresh : ¬ Stored e.externalId db.problems) :
    ∀ j ∈ db.jobs, j.problemId ≠ some e.externalId :=
  fun j hj hid => hfresh (h.jobs j hj _ hid)

theorem References.fresh_snapshots (h : References db)
    (hfresh : ¬ Stored e.externalId db.problems) :
    ∀ s ∈ db.snapshots, s.problemId ≠ e.externalId := by
  intro s hs hid
  apply hfresh
  rw [← hid]
  exact h.snapshots s hs

theorem Claimed.fencing (h : Claimed e db claimed) (hrefs : References db)
    (hfresh : ¬ Stored e.externalId db.problems) (token : Int) :
    ensureLatestFencing claimed.jobs e.externalId token =
      ensureLatestFencing db.jobs (orphanId e.code) token := by
  unfold ensureLatestFencing
  rw [h.jobs, latestFencingToken_rekeyProblem (hrefs.fresh_jobs hfresh)]

theorem Claimed.latestReady (h : Claimed e db claimed) (hrefs : References db)
    (hfresh : ¬ Stored e.externalId db.problems) :
    Model.latestReady e.externalId claimed.snapshots =
      (Model.latestReady (orphanId e.code) db.snapshots).map fun s =>
        { s with problemId := renamed (orphanId e.code) e.externalId s.problemId } := by
  rw [h.snapshots, latestReady_rekeyProblem (hrefs.fresh_snapshots hfresh)]

theorem Claimed.resolved (h : Claimed e db claimed) (hrefs : References db)
    (hfresh : ¬ Stored e.externalId db.problems) {generation resolved : Int} :
    resolveReadyGeneration claimed e.externalId generation = .ok resolved ↔
      resolveReadyGeneration db (orphanId e.code) generation = .ok resolved := by
  unfold resolveReadyGeneration
  rw [h.latestReady hrefs hfresh]
  split
  · exact Iff.rfl
  · cases Model.latestReady (orphanId e.code) db.snapshots with
    | none => simp
    | some s => exact Iff.rfl

theorem Claimed.ready (h : Claimed e db claimed) {generation : Int}
    (hready : ∃ s ∈ db.snapshots, s.isFor (orphanId e.code) generation ∧ s.state = .ready) :
    ∃ s ∈ claimed.snapshots, s.isFor e.externalId generation ∧ s.state = .ready := by
  obtain ⟨s, hs, hfor, hstate⟩ := hready
  obtain ⟨hproblem, hgeneration⟩ := SnapshotRow.isFor_iff.mp hfor
  refine ⟨{ s with problemId := e.externalId }, ?_, ?_, hstate⟩
  · rw [h.snapshots]
    apply List.mem_map.mpr
    refine ⟨s, hs, ?_⟩
    rw [hproblem, renamed_self]
  · exact SnapshotRow.isFor_iff.mpr ⟨rfl, hgeneration⟩

theorem Claimed.matches (h : Claimed e db claimed) (hrefs : References db)
    (hfresh : ¬ Stored e.externalId db.problems) {scan : ScanResult} {generation : Int}
    (hclean : ∃ p ∈ claimed.problems, p.externalId = e.externalId ∧ p.dirty = false)
    (hmatch : readySnapshotMatchesScan db (orphanId e.code) scan = some generation) :
    readySnapshotMatchesScan claimed e.externalId scan = some generation := by
  obtain ⟨-, s, hs, hgeneration, hcontents⟩ := readySnapshotMatchesScan_eq_some.mp hmatch
  have hlatest := h.latestReady hrefs hfresh
  rw [hs, Option.map_some] at hlatest
  refine readySnapshotMatchesScan_eq_some.mpr ⟨hclean, _, hlatest, hgeneration, ?_⟩
  unfold recordedContents
  rw [h.objects]
  exact hcontents

variable {Bytes : Type} [DecidableEq Bytes] {c : Contents Bytes}
  {fromSlice : Bytes → Except String Manifest} {root : String} {store : String → Option Bytes}
  {folder : Option (List (WalkEntry Bytes))} {q : RestoreRequest} {staging : Staging Bytes}

theorem restoreNotDirty_eq_ok :
    restoreNotDirty db q = .ok () ↔
      ∀ p ∈ db.problems, p.externalId = q.problemId → p.dirty = false := by
  rw [restoreNotDirty, refuseIf_eq_ok, Bool.not_eq_true, List.any_eq_false]
  simp

theorem Restores.missing {db' : Database} {generation : Int} {manifest : Manifest}
    (h : Restores c fromSlice root db store folder q generation manifest staging)
    (hjobs : db'.jobs = db.jobs) (hsnapshots : db'.snapshots = db.snapshots) :
    Restores c fromSlice root db' store none q generation manifest staging := by
  refine ⟨?_, ?_, h.fetched, h.fileName, h.staged, h.files, ?_, by intro walk hwalk; cases hwalk⟩
  · rw [hjobs]
    exact h.fencing
  · unfold resolveReadyGeneration
    rw [hsnapshots]
    exact h.resolved
  · rw [hsnapshots]
    exact h.ready

omit [DecidableEq Bytes] in
theorem evictLocal_keeps {now : Timestamp} {gone : Database} {eviction : EvictRequest}
    {left : Option (List (WalkEntry Bytes))} {result : EvictResult}
    (h : evictLocal c now root db folder eviction = .ok (gone, left, result)) :
    gone.jobs = db.jobs ∧ gone.snapshots = db.snapshots := by
  obtain ⟨generation, -, h⟩ := bind_eq_ok.mp h
  obtain ⟨-, h⟩ := check_eq_ok.mp h
  cases folder with
  | none =>
      cases h
      exact ⟨rfl, rfl⟩
  | some walk =>
      obtain ⟨scan, -, h⟩ := bind_eq_ok.mp h
      obtain ⟨-, h⟩ := check_eq_ok.mp h
      split at h
      · cases h
        exact ⟨rfl, rfl⟩
      · obtain ⟨-, h⟩ := check_eq_ok.mp h
        cases h
        exact ⟨rfl, rfl⟩

theorem Claimed.restores (h : Claimed e db claimed) (hrefs : References db)
    (hfresh : ¬ Stored e.externalId db.problems) (hq : q.problemId = orphanId e.code)
    {generation : Int} {manifest copy : Manifest}
    (hrestores : Restores c fromSlice root db store folder q generation manifest staging)
    (hcopy : fetchManifest c fromSlice store e.externalId generation = .ok copy)
    (hfiles : materializeManifestFiles c store copy (q.pathBeside root (stagingName q newUuid)) =
      .ok staging)
    (hclean : folder ≠ none → ∀ p ∈ claimed.problems, p.externalId = e.externalId →
      p.dirty = false)
    (hstored : Stored e.externalId claimed.problems) :
    Restores c fromSlice root claimed store folder { q with problemId := e.externalId } generation
      copy staging := by
  refine ⟨?_, ?_, hcopy, hrestores.fileName, hrestores.staged, hfiles, ?_, ?_⟩
  · rw [h.fencing hrefs hfresh, ← hq]
    exact hrestores.fencing
  · rw [h.resolved hrefs hfresh, ← hq]
    exact hrestores.resolved
  · apply h.ready
    rw [← hq]
    exact hrestores.ready
  · intro walk hwalk
    have hthere : folder ≠ none := by
      rw [hwalk]
      simp
    obtain ⟨-, scan, hscan, hmatch⟩ := hrestores.replaced walk hwalk
    refine ⟨restoreNotDirty_eq_ok.mpr (hclean hthere), scan, hscan, ?_⟩
    obtain ⟨p, hp, hown⟩ := hstored
    rw [hq] at hmatch
    exact h.matches hrefs hfresh ⟨p, hp, hown, hclean hthere p hp hown⟩ hmatch

end Restore

/-! ## The backups stay usable where their manifests are copied -/

section Backups

variable {Bytes : Type} [DecidableEq Bytes] {c : Contents Bytes}
  {fromSlice : Bytes → Except String Manifest} {root : String} {store : String → Option Bytes}
  {head : String → Except AppError ObjectMeta} {folder : Option (List (WalkEntry Bytes))}
  {q : RestoreRequest} {staging : Staging Bytes} {now : Timestamp} {e : CatalogEntry}
  {db claimed restoredDb : Database} {w : CatalogWrite}

omit [DecidableEq Bytes] in
theorem downloadArchive_eq_ok {problemId : String} {archive : ManifestFile} :
    downloadArchive c fromSlice store head db problemId = .ok archive ↔
      ∃ generation manifest, resolveReadyGeneration db problemId 0 = .ok generation ∧
        fetchManifest c fromSlice store problemId generation = .ok manifest ∧
          canonicalArchive head manifest = .ok archive := by
  unfold downloadArchive
  simp only [bind_eq_ok, downloadManifest_eq_ok]
  constructor
  · rintro ⟨generation, hgeneration, manifest, hmanifest, harchive⟩
    exact ⟨generation, manifest, hgeneration, hmanifest, harchive⟩
  · rintro ⟨generation, manifest, hgeneration, hmanifest, harchive⟩
    exact ⟨generation, hgeneration, manifest, hmanifest, harchive⟩

theorem claimed_backups_usable {started : Timestamp} (hrefs : References db)
    (hholds : OrphanHolds e.code db.problems) (hfresh : ¬ Stored e.externalId db.problems)
    (hrun : w.run now e db = .ok claimed) (hq : q.problemId = orphanId e.code)
    (hrestores : restoreSnapshot c fromSlice started root db store folder q =
      .ok (restoredDb, staging)) :
    BackupUsable c fromSlice root store head e db claimed folder q staging ↔
      ManifestsCopied c fromSlice root store head e db w folder q := by
  have hunique := hrefs.problems
  have hclaimed := claimed_run hunique hholds hfresh hrun
  have hstored := stored_claimed hunique hholds hfresh hrun
  obtain ⟨-, generation, manifest, hrestores⟩ := restoreSnapshot_eq_ok.mp hrestores
  constructor
  · intro h
    obtain ⟨db', hafter⟩ := h.restored 0
    obtain ⟨-, generation', copy, hafter⟩ := restoreSnapshot_eq_ok.mp hafter
    refine ⟨?_, ?_, ?_⟩
    · intro g m hg hm
      have hsame := hafter.resolved
      rw [hclaimed.resolved hrefs hfresh, ← hq] at hsame
      obtain rfl : g = generation' := Except.ok.inj (hg.symm.trans hsame)
      obtain rfl : g = generation := Except.ok.inj (hg.symm.trans hrestores.resolved)
      obtain rfl : m = manifest := Except.ok.inj (hm.symm.trans hrestores.fetched)
      exact ⟨copy, hafter.fetched, hafter.files.trans hrestores.files.symm⟩
    · intro g m archive hg hm harchive
      obtain ⟨archive', hdownload, hkey⟩ :=
        h.downloaded archive (downloadArchive_eq_ok.mpr ⟨g, m, hg, hm, harchive⟩)
      obtain ⟨g', m', hg', hm', harchive'⟩ := downloadArchive_eq_ok.mp hdownload
      rw [hclaimed.resolved hrefs hfresh] at hg'
      obtain rfl : g = g' := Except.ok.inj (hg.symm.trans hg')
      exact ⟨m', hm', archive', harchive', hkey⟩
    · intro hthere hmarks
      obtain ⟨walk, hwalk⟩ := Option.ne_none_iff_exists'.mp hthere
      obtain ⟨p, hp, hown, hdirty⟩ := dirty_marked hunique hholds hfresh hrun hmarks
      have hclean := restoreNotDirty_eq_ok.mp (hafter.replaced walk hwalk).1 p hp hown
      rw [hdirty] at hclean
      cases hclean
  · intro h
    obtain ⟨copy, hcopy, hsame⟩ := h.restored generation manifest hrestores.resolved
      hrestores.fetched
    have hclean : folder ≠ none → ∀ p ∈ claimed.problems, p.externalId = e.externalId →
        p.dirty = false := by
      intro hthere p hp hown
      by_contra hdirty
      obtain ⟨walk, hwalk⟩ := Option.ne_none_iff_exists'.mp hthere
      obtain ⟨o, ho, hoid, hodirty⟩ := dirty_claimed hunique hholds hfresh hrun
        (h.unmarked hthere) hp hown (by simpa using hdirty)
      have hbefore := restoreNotDirty_eq_ok.mp (hrestores.replaced walk hwalk).1 o ho
        (hoid.trans hq.symm)
      rw [hodirty] at hbefore
      cases hbefore
    have hafter := hclaimed.restores hrefs hfresh hq hrestores hcopy
      (hsame.trans hrestores.files) hclean hstored
    refine ⟨?_, ?_, ?_⟩
    · intro now
      exact ⟨_, restoreSnapshot_eq_ok.mpr ⟨rfl, generation, copy, hafter⟩⟩
    · intro now eviction walk gone result _ hevict
      obtain ⟨hjobs, hsnapshots⟩ := evictLocal_keeps hevict
      exact ⟨_, restoreSnapshot_eq_ok.mpr
        ⟨rfl, generation, copy, Restores.missing hafter hjobs hsnapshots⟩⟩
    · intro archive hdownload
      obtain ⟨g, m, hg, hm, harchive⟩ := downloadArchive_eq_ok.mp hdownload
      obtain ⟨m', hm', archive', harchive', hkey⟩ := h.downloaded g m archive hg hm harchive
      refine ⟨archive', downloadArchive_eq_ok.mpr ⟨g, m', ?_, hm', harchive'⟩, hkey⟩
      rw [hclaimed.resolved hrefs hfresh]
      exact hg

end Backups

/-! The r2 backfill has backed up the orphan `sums`; then the catalog lists it as problem 7. -/

inductive SampleBytes where
  | text (text : String)
  | manifest (m : Manifest)
  deriving DecidableEq

def sampleContents : Contents SampleBytes where
  sha256Bytes
    | .text text => "ab" ++ text
    | .manifest m => "cd" ++ m.problemId
  textBytes := .text
  len
    | .text text => text.length
    | .manifest _ => 0

def sampleFromSlice : SampleBytes → Except String Manifest
  | .text _ => .error "expected value"
  | .manifest m => .ok m

def archiveFile : ManifestFile where
  path := "sums.zip"
  sha256 := "abtests"
  size := 5
  allocatedBytes := 512
  mode := 33188
  dev := 1
  ino := 2
  nlink := 1
  duplicateOf := none
  symlinkTarget := none
  objectKey := objectKeyForSha256 "abtests"

def archiveManifest (problemId : String) : Manifest :=
  buildManifest problemId "sums" 1 0 "sums.zip" [archiveFile]

def archiveStore (problems : List String) (key : String) : Option SampleBytes :=
  if key = archiveFile.objectKey then
    some (.text "tests")
  else
    (problems.find? fun p => key = manifestKey p 1).map fun p => .manifest (archiveManifest p)

def archiveHead (key : String) : Except AppError ObjectMeta :=
  .ok (if key = archiveFile.objectKey then ⟨5, some "abtests", true⟩ else ⟨0, none, false⟩)

def backedUpRow : SnapshotRow where
  id := 1
  problemId := orphanId "sums"
  generation := 1
  state := .ready
  fileCount := 1
  totalBytes := 5
  manifestKey := some (manifestKey (orphanId "sums") 1)
  errorCode := none
  errorMessage := none
  createdAt := 0
  completedAt := some 0
  supersededAt := none

def backedUpDb : Database where
  problems := [orphanRow "sums"]
  problemUsage := [{ scannedUsage (orphanId "sums") 5 with
    r2Status := .ready, snapshotGeneration := some 1 }]
  snapshots := [backedUpRow]
  snapshotObjects := [⟨1, "abtests", "sums.zip", 5, archiveFile.objectKey, true, true⟩]
  jobs := [finishedJob 1 "backfill" .snapshot (some (orphanId "sums")) 1 0]

def archiveWalk : List (WalkEntry SampleBytes) :=
  [⟨[.ofText "sums.zip"], .file 2 (.text "tests"), ⟨1, 2, 1, 1, 33188⟩⟩]

def restoreOrphan : RestoreRequest := ⟨orphanId "sums", 1, 2, "sums"⟩
def evictClaimed : EvictRequest := ⟨"7", "sums", false, true, 3, none⟩

theorem references_backedUp : References backedUpDb :=
  ⟨⟨⟨by decide, by decide⟩, by decide⟩, by decide, by decide⟩

theorem fetchManifest_archive :
    fetchManifest sampleContents sampleFromSlice (archiveStore [orphanId "sums", "7"])
        (orphanId "sums") 1 = .ok (archiveManifest (orphanId "sums")) ∧
      fetchManifest sampleContents sampleFromSlice (archiveStore [orphanId "sums", "7"]) "7" 1 =
        .ok (archiveManifest "7") :=
  ⟨by rfl, by rfl⟩

/-- Problem 7 has a copy of the manifest. -/
theorem claimed_backups_usable_copied :
    ∃ claimed restoredDb staging,
      upsertProblem 3 sampleEntry backedUpDb = .ok claimed ∧
        restoreSnapshot sampleContents sampleFromSlice 2 "/problems" backedUpDb
            (archiveStore [orphanId "sums", "7"]) (some archiveWalk) restoreOrphan =
          .ok (restoredDb, staging) ∧
        BackupUsable sampleContents sampleFromSlice "/problems"
          (archiveStore [orphanId "sums", "7"]) archiveHead sampleEntry backedUpDb claimed
          (some archiveWalk) restoreOrphan staging := by
  obtain ⟨hfetch, hfetch7⟩ := fetchManifest_archive
  obtain ⟨claimed, hclaimed⟩ : ∃ claimed, CatalogWrite.run 3 sampleEntry backedUpDb .upsert =
      .ok claimed := ⟨_, rfl⟩
  obtain ⟨restoredDb, staging, hrestored⟩ : ∃ restoredDb staging,
      restoreSnapshot sampleContents sampleFromSlice 2 "/problems" backedUpDb
        (archiveStore [orphanId "sums", "7"]) (some archiveWalk) restoreOrphan =
          .ok (restoredDb, staging) := ⟨_, _, by rfl⟩
  refine ⟨claimed, restoredDb, staging, hclaimed, hrestored, ?_⟩
  refine (claimed_backups_usable references_backedUp (by decide) (by decide) hclaimed rfl
    hrestored).mpr ⟨?_, ?_, ?_⟩
  · intro generation manifest hgeneration hmanifest
    obtain rfl : 1 = generation := Except.ok.inj hgeneration
    obtain rfl : archiveManifest (orphanId "sums") = manifest :=
      Except.ok.inj (hfetch.symm.trans hmanifest)
    exact ⟨_, hfetch7, by rfl⟩
  · intro generation manifest archive hgeneration hmanifest harchive
    obtain rfl : 1 = generation := Except.ok.inj hgeneration
    obtain rfl : archiveManifest (orphanId "sums") = manifest :=
      Except.ok.inj (hfetch.symm.trans hmanifest)
    obtain rfl : archiveFile = archive := Except.ok.inj harchive
    exact ⟨_, hfetch7, archiveFile, by rfl, rfl⟩
  · exact fun _ h => h

/-- The claim is accepted, and so is an eviction after it; nothing brings the files back. -/
theorem claimed_backup_lost :
    References backedUpDb ∧
      (∃ restored, restoreSnapshot sampleContents sampleFromSlice 2 "/problems" backedUpDb
        (archiveStore [orphanId "sums"]) (some archiveWalk) restoreOrphan = .ok restored) ∧
      downloadArchive sampleContents sampleFromSlice (archiveStore [orphanId "sums"]) archiveHead
        backedUpDb (orphanId "sums") = .ok archiveFile ∧
      ∃ claimed, upsertProblem 3 sampleEntry backedUpDb = .ok claimed ∧
        downloadArchive sampleContents sampleFromSlice (archiveStore [orphanId "sums"]) archiveHead
          claimed "7" = .error (.objectNotFound (manifestKey "7" 1)) ∧
        ∃ gone result, evictLocal sampleContents 4 "/problems" claimed (some archiveWalk)
            evictClaimed = .ok (gone, none, result) ∧
          restoreSnapshot sampleContents sampleFromSlice 5 "/problems" gone
              (archiveStore [orphanId "sums"]) none { restoreOrphan with problemId := "7" } =
            .error (.r2ManifestMissing "7" 1 (manifestKey "7" 1)) :=
  ⟨references_backedUp, ⟨_, by rfl⟩, by rfl, _, by rfl, by rfl, _, _, by rfl, by rfl⟩

end ExternalStorage.Catalog
