import ExternalStorage.Catalog.Accounting
import ExternalStorage.Model.ReconcileLoops

/-!
# Bad folders

A pass goes through its plan in the order of the codes.  A known folder whose fingerprint or
scan fails ends it, and so does an orphan whose fingerprint fails; whatever stands behind such
a folder in the plan stays as it was.
-/

namespace ExternalStorage.Catalog

open ExternalStorage.Model Library.Loops Library.Table

/-! ## What a pass is for -/

def Scannable (r : FolderReads) : Prop :=
  r.checked.isOk ∧ r.before.isOk ∧ r.scan.isOk ∧ r.after.isOk

instance (r : FolderReads) : Decidable (Scannable r) :=
  inferInstanceAs (Decidable (r.checked.isOk ∧ r.before.isOk ∧ r.scan.isOk ∧ r.after.isOk))

def HasUsage (db : Database) (item : Item) (R : ProblemUsageRow → Prop) : Prop :=
  ∃ p ∈ db.problems, p.code = item.code ∧ (∀ id ∈ item.externalId, p.externalId = id) ∧
    ∃ u ∈ db.problemUsage, u.problemId = p.externalId ∧ R u

/-- `usage_is_current` takes the row. -/
def CurrentRow (u : ProblemUsageRow) : Prop :=
  (u.localStatus = .present ∨ u.localStatus = .orphan) ∧ u.stale = false

/-- `cached_usage_matches` answers true, or the usage is what the scan has found. -/
def UpToDate (acc : Accounts) (item : Item) (r : FolderReads) : Prop :=
  cachedUsageMatches r acc item = .ok true ∨
    ∃ scan ∈ r.scan.toOption, HasUsage acc.db item fun u =>
      counters u = scanCounters scan ∧ CurrentRow u

def MarkedMissing (acc : Accounts) (p : CatalogProblem) : Prop :=
  ∃ u ∈ acc.db.problemUsage, u.problemId = p.externalId ∧ u.localStatus = .missing

/-- What one run is to have done, whichever folders fail. -/
structure Isolates (reads : String → FolderReads) (plan : ReconcilePlan) (acc : Accounts) : Prop
    where
  known : ∀ p ∈ plan.knownPresent, Scannable (reads p.code) → UpToDate acc p.item (reads p.code)
  missing : ∀ p ∈ plan.missingKnown, MarkedMissing acc p
  orphans : ∀ code ∈ plan.orphans, Scannable (reads code) →
    UpToDate acc ⟨code, none⟩ (reads code)

/-! ## How far a pass comes -/

def scanStops (r : FolderReads) (db : Database) (item : Item) : Bool :=
  match r.before, r.scan with
  | .error _, _ => true
  | .ok _, .error _ => item.externalId.isSome
  | .ok _, .ok _ => !accountable item db || !r.after.isOk

def visitStops (r : FolderReads) (acc : Accounts) (item : Item) : Bool :=
  match cachedUsageMatches r acc item with
  | .error _ => true
  | .ok true => false
  | .ok false => scanStops r acc.db item

/-- `remove_orphan_projection_for_code`, as far as it comes. -/
def sweepProjection (acc : Accounts) (p : CatalogProblem) : Accounts :=
  let db := DataPlane.deleteOrphanUsage p.code acc.db
  { acc with db := (DataPlane.deleteOrphanProblem p.code db).getD db }

def knownStops (reads : String → FolderReads) (acc : Accounts) (p : CatalogProblem) : Bool :=
  (DataPlane.deleteOrphanProblem p.code (DataPlane.deleteOrphanUsage p.code acc.db)).isNone ||
    visitStops (reads p.code) (sweepProjection acc p) p.item

/-- The known folders that a pass comes to, and those from the first one on that ends it; the
accounts are those before the pass without the projections that it removes on its way. -/
def knownReach (reads : String → FolderReads) (acc : Accounts) (plan : ReconcilePlan) :
    Reach CatalogProblem Accounts :=
  reach (knownStops reads) sweepProjection acc plan.knownPresent

/-- The orphans from the first one on that ends the pass, if it comes to them. -/
def orphansLeft (reads : String → FolderReads) (known : Reach CatalogProblem Accounts)
    (plan : ReconcilePlan) : List String :=
  if known.left = [] then
    (reach (fun acc code => visitStops (reads code) acc ⟨code, none⟩) (fun acc _ => acc) known.state
      plan.orphans).left
  else
    plan.orphans

/-- Whatever the pass does not come to needs nothing, and no problem that it has brought up to
date has the id of a projection that it removes later. -/
structure Unhindered (reads : String → FolderReads) (acc : Accounts) (plan : ReconcilePlan) : Prop
    where
  known : ∀ p ∈ (knownReach reads acc plan).left, Scannable (reads p.code) →
    UpToDate (knownReach reads acc plan).state p.item (reads p.code)
  missing : (knownReach reads acc plan).left ≠ [] → ∀ p ∈ plan.missingKnown,
    MarkedMissing (knownReach reads acc plan).state p
  orphans : ∀ code ∈ orphansLeft reads (knownReach reads acc plan) plan,
    Scannable (reads code) →
      UpToDate (knownReach reads acc plan).state ⟨code, none⟩ (reads code)
  removed : (knownReach reads acc plan).reached.Pairwise fun p q =>
    Scannable (reads p.code) → orphanId q.code ≠ p.externalId

/-! ## What a folder's state depends on -/

section Frame

variable {acc acc' acc'' : Accounts} {code : String} {item : Item} {r : FolderReads}

theorem usageIsCurrent_iff :
    usageIsCurrent acc.db item.code item.externalId = true ↔ HasUsage acc.db item CurrentRow := by
  simp [usageIsCurrent, HasUsage, CurrentRow, Option.all_eq_true, and_assoc]

theorem cachedUsageMatches_congr
    (hcache : (cachedTree item.code acc'.cache).bind TreeCacheRow.usageFingerprint =
      (cachedTree item.code acc.cache).bind TreeCacheRow.usageFingerprint)
    (husage : ∀ R, HasUsage acc'.db item R ↔ HasUsage acc.db item R) :
    cachedUsageMatches r acc' item = cachedUsageMatches r acc item := by
  have hcurrent : usageIsCurrent acc'.db item.code item.externalId =
      usageIsCurrent acc.db item.code item.externalId := by
    rw [Bool.eq_iff_iff, usageIsCurrent_iff, usageIsCurrent_iff, husage]
  unfold cachedUsageMatches
  rw [hcache, hcurrent]

theorem upToDate_congr
    (hcache : (cachedTree item.code acc'.cache).bind TreeCacheRow.usageFingerprint =
      (cachedTree item.code acc.cache).bind TreeCacheRow.usageFingerprint)
    (husage : ∀ R, HasUsage acc'.db item R ↔ HasUsage acc.db item R) :
    UpToDate acc' item r ↔ UpToDate acc item r := by
  unfold UpToDate
  rw [cachedUsageMatches_congr hcache husage]
  simp only [husage]

/-- Nothing has changed for the folder, its problems and their usage. -/
structure SameFolder (acc acc' : Accounts) (code : String) : Prop where
  cache : (cachedTree code acc'.cache).bind TreeCacheRow.usageFingerprint =
    (cachedTree code acc.cache).bind TreeCacheRow.usageFingerprint
  problems : ∀ p, p.code = code → (p ∈ acc'.db.problems ↔ p ∈ acc.db.problems)
  usage : ∀ p ∈ acc.db.problems, p.code = code → ∀ u, u.problemId = p.externalId →
    (u ∈ acc'.db.problemUsage ↔ u ∈ acc.db.problemUsage)
  taken : (∃ p ∈ acc'.db.problems, p.externalId = orphanId code) ↔
    ∃ p ∈ acc.db.problems, p.externalId = orphanId code

theorem sameFolder_refl (acc : Accounts) (code : String) : SameFolder acc acc code :=
  ⟨rfl, fun _ _ => Iff.rfl, fun _ _ _ _ _ => Iff.rfl, Iff.rfl⟩

theorem SameFolder.trans (h : SameFolder acc acc' code) (h' : SameFolder acc' acc'' code) :
    SameFolder acc acc'' code where
  cache := h'.cache.trans h.cache
  problems p hp := (h'.problems p hp).trans (h.problems p hp)
  usage p hp hcode u hu :=
    (h'.usage p ((h.problems p hcode).mpr hp) hcode u hu).trans (h.usage p hp hcode u hu)
  taken := h'.taken.trans h.taken

theorem SameFolder.hasUsage (h : SameFolder acc acc' item.code) (R : ProblemUsageRow → Prop) :
    HasUsage acc'.db item R ↔ HasUsage acc.db item R := by
  constructor
  · rintro ⟨p, hp, hcode, hid, u, hu, howner, hR⟩
    have hold := (h.problems p hcode).mp hp
    exact ⟨p, hold, hcode, hid, u, (h.usage p hold hcode u howner).mp hu, howner, hR⟩
  · rintro ⟨p, hp, hcode, hid, u, hu, howner, hR⟩
    exact ⟨p, (h.problems p hcode).mpr hp, hcode, hid, u, (h.usage p hp hcode u howner).mpr hu,
      howner, hR⟩

theorem SameFolder.upToDate (h : SameFolder acc acc' item.code) :
    UpToDate acc' item r ↔ UpToDate acc item r :=
  upToDate_congr h.cache h.hasUsage

theorem SameFolder.upToDate_orphan (h : SameFolder acc acc' code) :
    UpToDate acc' ⟨code, none⟩ r ↔ UpToDate acc ⟨code, none⟩ r :=
  upToDate_congr h.cache (SameFolder.hasUsage h)

def Listed (problems : List ProblemRow) (p : CatalogProblem) : Prop :=
  ∃ row ∈ problems, row.externalId = p.externalId ∧ row.code = p.code ∧
    row.catalogState.listed = true

theorem SameFolder.markedMissing {p : CatalogProblem} (h : SameFolder acc acc' p.code)
    (hlisted : Listed acc.db.problems p) : MarkedMissing acc' p ↔ MarkedMissing acc p := by
  obtain ⟨row, hrow, hid, hcode, -⟩ := hlisted
  unfold MarkedMissing
  constructor
  · rintro ⟨u, hu, howner, hmissing⟩
    exact ⟨u, (h.usage row hrow hcode u (howner.trans hid.symm)).mp hu, howner, hmissing⟩
  · rintro ⟨u, hu, howner, hmissing⟩
    exact ⟨u, (h.usage row hrow hcode u (howner.trans hid.symm)).mpr hu, howner, hmissing⟩

def HasOwner (problems : List ProblemRow) (item : Item) : Prop :=
  ∀ id ∈ item.externalId, ∃ p ∈ problems, p.externalId = id ∧ p.code = item.code

theorem SameFolder.accountable (h : SameFolder acc acc' item.code)
    (howner : HasOwner acc.db.problems item) :
    Model.accountable item acc'.db = Model.accountable item acc.db := by
  unfold Model.accountable
  cases hitem : item.externalId with
  | some id =>
      obtain ⟨p, hp, hid, hcode⟩ := howner id hitem
      have hold : (acc.db.problems.any fun p => p.externalId = id) = true :=
        List.any_eq_true.mpr ⟨p, hp, decide_eq_true hid⟩
      have hnew : (acc'.db.problems.any fun p => p.externalId = id) = true :=
        List.any_eq_true.mpr ⟨p, (h.problems p hcode).mpr hp, decide_eq_true hid⟩
      dsimp only
      rw [hold, hnew]
  | none =>
      have hcodes : (acc'.db.problems.any fun p => p.code = item.code) =
          acc.db.problems.any fun p => p.code = item.code := by
        rw [Bool.eq_iff_iff, List.any_eq_true, List.any_eq_true]
        simp only [decide_eq_true_eq]
        constructor
        · rintro ⟨p, hp, hcode⟩
          exact ⟨p, (h.problems p hcode).mp hp, hcode⟩
        · rintro ⟨p, hp, hcode⟩
          exact ⟨p, (h.problems p hcode).mpr hp, hcode⟩
      have htaken : (acc'.db.problems.any fun p => p.externalId = orphanId item.code) =
          acc.db.problems.any fun p => p.externalId = orphanId item.code := by
        rw [Bool.eq_iff_iff, List.any_eq_true, List.any_eq_true]
        simpa only [decide_eq_true_eq] using h.taken
      dsimp only
      rw [hcodes, htaken]

theorem SameFolder.visitStops (h : SameFolder acc acc' item.code)
    (howner : HasOwner acc.db.problems item) :
    Catalog.visitStops r acc' item = Catalog.visitStops r acc item := by
  unfold Catalog.visitStops
  rw [cachedUsageMatches_congr h.cache h.hasUsage]
  unfold scanStops
  rw [h.accountable howner]

end Frame

/-! ## A visit -/

section Visit

variable {now : Timestamp} {acc acc' acc'' : Accounts} {item : Item} {r : FolderReads}
  {scan : ScanResult}

def UniqueIds (problems : List ProblemRow) : Prop := (problems.map ProblemRow.externalId).Nodup

structure OnlyFolder (acc acc' : Accounts) (item : Item) : Prop where
  others : ∀ code, code ≠ item.code → SameFolder acc acc' code
  unique : UniqueIds acc'.db.problems
  known : item.externalId.isSome = true → acc'.db.problems = acc.db.problems ∧
    acc'.db.idempotencyKeys = acc.db.idempotencyKeys

theorem onlyFolder_refl (hunique : UniqueIds acc.db.problems) : OnlyFolder acc acc item :=
  ⟨fun code _ => sameFolder_refl acc code, hunique, fun _ => ⟨rfl, rfl⟩⟩

theorem OnlyFolder.trans (h : OnlyFolder acc acc' item) (h' : OnlyFolder acc' acc'' item) :
    OnlyFolder acc acc'' item where
  others code hne := (h.others code hne).trans (h'.others code hne)
  unique := h'.unique
  known hknown := ⟨(h'.known hknown).1.trans (h.known hknown).1,
    (h'.known hknown).2.trans (h.known hknown).2⟩

theorem onlyFolder_cache {cache : List TreeCacheRow} (hunique : UniqueIds acc.db.problems)
    (hcache : ∀ code, code ≠ item.code → cachedTree code cache = cachedTree code acc.cache) :
    OnlyFolder acc { acc with cache := cache } item where
  others code hne :=
    ⟨by rw [hcache code hne], fun _ _ => Iff.rfl, fun _ _ _ _ _ => Iff.rfl, Iff.rfl⟩
  unique := hunique
  known _ := ⟨rfl, rfl⟩

variable (item) in
theorem onlyFolder_invalidate (hunique : UniqueIds acc.db.problems) :
    OnlyFolder acc { acc with cache := invalidateTreeCache item.code acc.cache } item :=
  onlyFolder_cache hunique fun _ hne => find?_deleteWhere hne acc.cache

theorem onlyFolder_cacheTree (hunique : UniqueIds acc.db.problems) (before : String)
    (canonical : Option String) :
    OnlyFolder acc { acc with cache := cacheTree item.code before canonical true acc.cache }
      item := by
  refine onlyFolder_cache hunique fun code hne => ?_
  unfold cachedTree cacheTree
  rw [find?_upsertOn (by intro row; rfl), if_neg hne]

theorem mem_upsertProblemUsage_other {id : String} {localStatus : LocalStatus}
    {usage : List ProblemUsageRow} {u : ProblemUsageRow} (hne : u.problemId ≠ id) :
    u ∈ DataPlane.upsertProblemUsage now id scan localStatus usage ↔ u ∈ usage := by
  have hnew : (DataPlane.scannedUsage now scan localStatus (defaultUsage now id)).problemId = id := by
    rw [DataPlane.scannedUsage_problemId]
    rfl
  unfold DataPlane.upsertProblemUsage
  rw [mem_upsertOn, hnew]
  constructor
  · rintro (⟨hold, -⟩ | ⟨u₀, -, hid, rfl⟩ | ⟨rfl, -⟩)
    · exact hold
    · rw [DataPlane.scannedUsage_problemId] at hne
      exact absurd hid hne
    · exact absurd hnew hne
  · exact fun hold => .inl ⟨hold, hne⟩

theorem exists_upsertProblemUsage (now : Timestamp) (id : String) (scan : ScanResult)
    (localStatus : LocalStatus) (usage : List ProblemUsageRow) :
    ∃ u, u.problemId = id ∧ DataPlane.scannedUsage now scan localStatus u ∈
      DataPlane.upsertProblemUsage now id scan localStatus usage := by
  have hnew : (DataPlane.scannedUsage now scan localStatus (defaultUsage now id)).problemId = id := by
    rw [DataPlane.scannedUsage_problemId]
    rfl
  unfold DataPlane.upsertProblemUsage
  by_cases hrow : ∃ u ∈ usage, u.problemId = id
  · obtain ⟨u, hu, hid⟩ := hrow
    refine ⟨u, hid, mem_upsertOn.mpr (.inr (.inl ⟨u, hu, ?_, rfl⟩))⟩
    rw [hnew, hid]
  · refine ⟨defaultUsage now id, rfl, mem_upsertOn.mpr (.inr (.inr ⟨rfl, ?_⟩))⟩
    intro u hu hid
    exact hrow ⟨u, hu, hid.trans hnew⟩

variable (now scan) in
theorem onlyFolder_account (hunique : UniqueIds acc.db.problems)
    (howner : HasOwner acc.db.problems item) :
    OnlyFolder acc { acc with db := accountUsage now item scan acc.db } item := by
  unfold accountUsage
  cases hitem : item.externalId with
  | some id =>
      refine ⟨?_, hunique, fun _ => ⟨rfl, rfl⟩⟩
      intro code hne
      refine ⟨rfl, fun _ _ => Iff.rfl, ?_, Iff.rfl⟩
      intro p hp hcode u hu
      obtain ⟨q, hq, hid, hqcode⟩ := howner id hitem
      refine mem_upsertProblemUsage_other ?_
      intro hsame
      obtain rfl : p = q :=
        List.inj_on_of_nodup_map hunique hp hq ((hu.symm.trans hsame).trans hid.symm)
      exact hne (hcode.symm.trans hqcode)
  | none =>
      dsimp only
      rcases upsertDiscoveredUsage_cases now item.code scan acc.db with
        ⟨hdb, -⟩ | ⟨problems, owner, localStatus, hproblems, howned, hcode, -, hdb⟩
      · rw [hdb]
        exact onlyFolder_refl hunique
      · rw [hdb]
        have hmem : ∀ p, p.code ≠ item.code → (p ∈ problems ↔ p ∈ acc.db.problems) := by
          intro p hp
          rcases hproblems with rfl | ⟨-, orphan, -, horphan, rfl⟩
          · exact Iff.rfl
          · rw [List.mem_append, List.mem_singleton]
            refine ⟨fun h => h.resolve_right ?_, .inl⟩
            rintro rfl
            exact hp horphan
        have huniq : UniqueIds problems := by
          rcases hproblems with rfl | ⟨hfree, orphan, hid, -, rfl⟩
          · exact hunique
          · refine nodup_map_concat hunique fun p hp => ?_
            rw [hid]
            exact (hfree p hp).1
        refine ⟨?_, huniq, ?_⟩
        · intro code hne
          refine ⟨rfl, ?_, ?_, ?_⟩
          · intro p hp
            exact hmem p (hp ▸ hne)
          · intro p hp hpcode u hu
            refine mem_upsertProblemUsage_other ?_
            intro hsame
            obtain rfl : p = owner :=
              List.inj_on_of_nodup_map huniq ((hmem p (hpcode ▸ hne)).mpr hp) howned
                (hu.symm.trans hsame)
            exact hne (hpcode.symm.trans hcode)
          · dsimp only
            rcases hproblems with rfl | ⟨-, orphan, hid, -, rfl⟩
            · exact Iff.rfl
            · simp only [List.mem_append, List.mem_singleton]
              constructor
              · rintro ⟨p, hp | rfl, hpid⟩
                · exact ⟨p, hp, hpid⟩
                · exact absurd (orphanId_inj (hid.symm.trans hpid)) (Ne.symm hne)
              · rintro ⟨p, hp, hpid⟩
                exact ⟨p, .inl hp, hpid⟩
        · intro hsome
          rw [hitem] at hsome
          cases hsome

variable (now scan) in
theorem hasUsage_account (howner : HasOwner acc.db.problems item)
    (haccountable : accountable item acc.db = true) :
    HasUsage (accountUsage now item scan acc.db) item fun u =>
      counters u = scanCounters scan ∧ CurrentRow u := by
  unfold accountUsage
  cases hitem : item.externalId with
  | some id =>
      obtain ⟨p, hp, hid, hcode⟩ := howner id hitem
      obtain ⟨u, hu, hmem⟩ :=
        exists_upsertProblemUsage now id scan .present acc.db.problemUsage
      refine ⟨p, hp, hcode, ?_, _, hmem, ?_, counters_scannedUsage scan .present u, .inl rfl, rfl⟩
      · intro id' hid'
        rw [hitem] at hid'
        cases hid'
        exact hid
      · rw [DataPlane.scannedUsage_problemId, hu, hid]
  | none =>
      dsimp only
      rcases upsertDiscoveredUsage_cases now item.code scan acc.db with
        ⟨-, hnone, p, hp, hid⟩ | ⟨problems, owner, localStatus, -, howned, hcode, hstatus, hdb⟩
      · unfold accountable at haccountable
        rw [hitem, Bool.or_eq_true, List.any_eq_true] at haccountable
        rcases haccountable with ⟨q, hq, hqcode⟩ | hfree
        · exact absurd (of_decide_eq_true hqcode) (hnone q hq)
        · simp only [Bool.not_eq_true', List.any_eq_false, decide_eq_true_eq] at hfree
          exact absurd hid (hfree p hp)
      · rw [hdb]
        obtain ⟨u, hu, hmem⟩ :=
          exists_upsertProblemUsage now owner.externalId scan localStatus acc.db.problemUsage
        refine ⟨owner, howned, hcode, ?_, _, hmem, ?_, counters_scannedUsage scan localStatus u,
          hstatus, rfl⟩
        · intro id hid
          rw [hitem] at hid
          cases hid
        · rw [DataPlane.scannedUsage_problemId, hu]

theorem scanItem_frame (hunique : UniqueIds acc.db.problems)
    (howner : HasOwner acc.db.problems item) :
    OnlyFolder acc (scanItem now r acc item).1 item := by
  have hinvalidated := onlyFolder_invalidate item hunique
  unfold scanItem
  dsimp only
  split
  · exact hinvalidated
  · split
    · exact hinvalidated
    · rename_i before _ _ scan _
      split
      · have haccounted := hinvalidated.trans (onlyFolder_account now scan hunique howner)
        unfold cacheStableScan
        cases r.after with
        | error e => exact haccounted
        | ok after =>
            by_cases hstable : before = after
            · simp only [hstable, if_true]
              exact haccounted.trans (onlyFolder_cacheTree haccounted.unique _ _)
            · simp only [hstable, if_false]
              exact haccounted
      · exact hinvalidated

variable (now r) in
theorem visitItem_frame (hunique : UniqueIds acc.db.problems)
    (howner : HasOwner acc.db.problems item) :
    OnlyFolder acc (visitItem now r acc item).1 item := by
  unfold visitItem
  split
  · exact onlyFolder_refl hunique
  · exact onlyFolder_refl hunique
  · exact scanItem_frame hunique howner

theorem cachedUsageMatches_ne_error {e : PassError} (h : Scannable r) :
    cachedUsageMatches r acc item ≠ .error e := by
  obtain ⟨hchecked, -⟩ := h
  unfold cachedUsageMatches
  split
  · exact nofun
  · cases hread : r.checked with
    | error e' =>
        rw [hread] at hchecked
        cases hchecked
    | ok current => exact nofun

variable (now) in
/-- A visit that does not end the pass brings a folder that can be scanned up to date. -/
theorem visitItem_goes (howner : HasOwner acc.db.problems item)
    (hgo : visitStops r acc item = false) :
    ∃ visit, (visitItem now r acc item).2 = .ok visit ∧
      (Scannable r → UpToDate (visitItem now r acc item).1 item r) := by
  unfold visitStops at hgo
  unfold visitItem
  cases hmatches : cachedUsageMatches r acc item with
  | error e =>
      rw [hmatches] at hgo
      cases hgo
  | ok reused =>
      rw [hmatches] at hgo
      cases reused with
      | true => exact ⟨.reused, rfl, fun _ => .inl hmatches⟩
      | false =>
          unfold scanStops at hgo
          unfold scanItem
          dsimp only at hgo ⊢
          cases hbefore : r.before with
          | error e =>
              rw [hbefore] at hgo
              cases hgo
          | ok before =>
              cases hscan : r.scan with
              | error e =>
                  simp only [hbefore, hscan] at hgo ⊢
                  rw [if_neg (by rw [hgo]; exact Bool.false_ne_true)]
                  refine ⟨.passedOver, rfl, ?_⟩
                  rintro ⟨-, -, hok, -⟩
                  rw [hscan] at hok
                  cases hok
              | ok scan =>
                  simp only [hbefore, hscan, Bool.or_eq_false_iff, Bool.not_eq_false'] at hgo ⊢
                  obtain ⟨haccountable, hafter⟩ := hgo
                  rw [if_pos haccountable]
                  have husage := hasUsage_account now scan howner haccountable
                  have hscanned : scan ∈ r.scan.toOption := by
                    rw [hscan]
                    rfl
                  unfold cacheStableScan
                  cases hread : r.after with
                  | error e =>
                      rw [hread] at hafter
                      cases hafter
                  | ok after =>
                      by_cases hstable : before = after
                      · simp only [hstable, if_true]
                        exact ⟨.scanned, rfl, fun _ => .inr ⟨scan, hscanned, husage⟩⟩
                      · simp only [hstable, if_false]
                        exact ⟨.scanned, rfl, fun _ => .inr ⟨scan, hscanned, husage⟩⟩

/-- A folder that can be scanned ends the pass only where no problem can have its code. -/
theorem not_accountable_of_stops (hscannable : Scannable r)
    (hstops : visitStops r acc item = true) :
    cachedUsageMatches r acc item = .ok false ∧ accountable item acc.db = false := by
  unfold visitStops at hstops
  cases hmatches : cachedUsageMatches r acc item with
  | error e => exact absurd hmatches (cachedUsageMatches_ne_error hscannable)
  | ok reused =>
      rw [hmatches] at hstops
      cases reused with
      | true => cases hstops
      | false =>
          refine ⟨rfl, ?_⟩
          obtain ⟨-, hbefore, hscan, hafter⟩ := hscannable
          unfold scanStops at hstops
          cases hb : r.before with
          | error e =>
              rw [hb] at hbefore
              cases hbefore
          | ok before =>
              cases hs : r.scan with
              | error e =>
                  rw [hs] at hscan
                  cases hscan
              | ok scan => simpa [hb, hs, hafter] using hstops

theorem not_upToDate (hmatches : cachedUsageMatches r acc item ≠ .ok true)
    (hfree : ∀ p ∈ acc.db.problems, p.code ≠ item.code) : ¬ UpToDate acc item r := by
  rintro (h | ⟨-, -, p, hp, hcode, -⟩)
  · exact hmatches h
  · exact hfree p hp hcode

variable (now) in
theorem visitItem_stops (howner : HasOwner acc.db.problems item)
    (hstops : visitStops r acc item = true) :
    ∃ e, (visitItem now r acc item).2 = .error e ∧
      (Scannable r → (UpToDate (visitItem now r acc item).1 item r ↔ UpToDate acc item r)) := by
  have herror : ∃ e, (visitItem now r acc item).2 = .error e := by
    unfold visitStops at hstops
    unfold visitItem
    cases hmatches : cachedUsageMatches r acc item with
    | error e => exact ⟨e, rfl⟩
    | ok reused =>
        rw [hmatches] at hstops
        cases reused with
        | true => cases hstops
        | false =>
            unfold scanStops at hstops
            unfold scanItem
            dsimp only at hstops ⊢
            cases hbefore : r.before with
            | error e => exact ⟨.folder e, rfl⟩
            | ok before =>
                cases hscan : r.scan with
                | error e =>
                    simp only [hbefore, hscan] at hstops ⊢
                    rw [if_pos hstops]
                    exact ⟨.folder e, rfl⟩
                | ok scan =>
                    simp only [hbefore, hscan] at hstops ⊢
                    split
                    · rename_i haccountable
                      rw [haccountable, Bool.not_true, Bool.false_or] at hstops
                      unfold cacheStableScan
                      cases hread : r.after with
                      | error e => exact ⟨.folder e, rfl⟩
                      | ok after =>
                          rw [hread] at hstops
                          cases hstops
                    · exact ⟨.database, rfl⟩
  obtain ⟨e, he⟩ := herror
  refine ⟨e, he, fun hscannable => ?_⟩
  obtain ⟨hmatches, haccountable⟩ := not_accountable_of_stops hscannable hstops
  have hnone : item.externalId = none := by
    cases hitem : item.externalId with
    | none => rfl
    | some id =>
        obtain ⟨p, hp, hid, -⟩ := howner id hitem
        unfold accountable at haccountable
        rw [hitem, List.any_eq_false] at haccountable
        exact absurd (decide_eq_true hid) (haccountable p hp)
  have hfree : ∀ p ∈ acc.db.problems, p.code ≠ item.code := by
    intro p hp hcode
    unfold accountable at haccountable
    rw [hnone, Bool.or_eq_false_iff, List.any_eq_false] at haccountable
    exact haccountable.1 p hp (decide_eq_true hcode)
  have hleft : (visitItem now r acc item).1 =
      { acc with cache := invalidateTreeCache item.code acc.cache } := by
    unfold visitItem scanItem
    rw [hmatches]
    dsimp only
    cases r.before with
    | error e => rfl
    | ok before =>
        cases r.scan with
        | error e => rfl
        | ok scan => simp only [haccountable, Bool.false_eq_true, if_false]
  have huncached : cachedTree item.code (invalidateTreeCache item.code acc.cache) = none := by
    refine List.find?_eq_none.mpr fun row hrow => ?_
    exact Bool.eq_false_iff.mp (mem_deleteWhere.mp hrow).2
  rw [hleft]
  refine iff_of_false (not_upToDate ?_ hfree) (not_upToDate ?_ hfree)
  · unfold cachedUsageMatches
    rw [huncached]
    exact nofun
  · rw [hmatches]
    exact nofun

end Visit

/-! ## The removal of a projection -/

section Sweep

variable {acc b s : Accounts} {p q : CatalogProblem} {code : String}

/-- The removal depends on the problems and on what refers to them. -/
theorem sweep_congr (hproblems : s.db.problems = b.db.problems)
    (hkeys : s.db.idempotencyKeys = b.db.idempotencyKeys) :
    (sweepProjection s q).db.problems = (sweepProjection b q).db.problems ∧
      (DataPlane.deleteOrphanProblem q.code (DataPlane.deleteOrphanUsage q.code s.db)).isNone =
        (DataPlane.deleteOrphanProblem q.code (DataPlane.deleteOrphanUsage q.code b.db)).isNone := by
  unfold sweepProjection DataPlane.deleteOrphanProblem DataPlane.deleteOrphanUsage referenced
  dsimp only
  rw [hproblems, hkeys]
  split
  · split
    · exact ⟨rfl, rfl⟩
    · exact ⟨rfl, rfl⟩
  · exact ⟨rfl, rfl⟩

theorem sweep_keys (acc : Accounts) (q : CatalogProblem) :
    (sweepProjection acc q).db.idempotencyKeys = acc.db.idempotencyKeys := by
  unfold sweepProjection DataPlane.deleteOrphanProblem
  dsimp only
  split
  · split <;> rfl
  · rfl

theorem sweep_cache (acc : Accounts) (q : CatalogProblem) :
    (sweepProjection acc q).cache = acc.cache := rfl

theorem sweep_sublist (acc : Accounts) (q : CatalogProblem) :
    (sweepProjection acc q).db.problems.Sublist acc.db.problems := by
  unfold sweepProjection DataPlane.deleteOrphanProblem
  dsimp only
  split
  · split
    · exact List.Sublist.refl _
    · exact List.filter_sublist
  · exact List.Sublist.refl _

theorem mem_sweep_problems {row : ProblemRow} (hrow : row ∈ acc.db.problems)
    (hkept : row.externalId ≠ orphanId q.code ∨ row.catalogState ≠ .orphan) :
    row ∈ (sweepProjection acc q).db.problems := by
  have hfalse : (decide (row.externalId = orphanId q.code) &&
      decide (row.catalogState = .orphan)) = false := by
    rw [Bool.and_eq_false_iff, decide_eq_false_iff_not, decide_eq_false_iff_not]
    exact hkept
  unfold sweepProjection DataPlane.deleteOrphanProblem
  dsimp only
  split
  · split
    · exact hrow
    · exact mem_deleteWhere.mpr ⟨hrow, hfalse⟩
  · exact hrow

theorem mem_sweep_usage {u : ProblemUsageRow} :
    u ∈ (sweepProjection acc q).db.problemUsage ↔
      u ∈ acc.db.problemUsage ∧ u.problemId ≠ orphanId q.code := by
  have hdeleted : u ∈ (DataPlane.deleteOrphanUsage q.code acc.db).problemUsage ↔
      u ∈ acc.db.problemUsage ∧ u.problemId ≠ orphanId q.code := by
    rw [DataPlane.deleteOrphanUsage, mem_deleteWhere, decide_eq_false_iff_not]
  unfold sweepProjection DataPlane.deleteOrphanProblem
  dsimp only
  split
  · split
    · exact hdeleted
    · rw [Option.getD_some, mem_deleteWhere, decide_eq_false_iff_not, hdeleted, and_assoc, and_self]
  · exact hdeleted

theorem hasUsage_sweep (R : ProblemUsageRow → Prop) :
    HasUsage (sweepProjection acc q).db p.item R ↔
      orphanId q.code ≠ p.externalId ∧ HasUsage acc.db p.item R := by
  constructor
  · rintro ⟨row, hrow, hcode, hid, u, hu, howner, hR⟩
    obtain ⟨hold, hne⟩ := mem_sweep_usage.mp hu
    refine ⟨?_, row, (sweep_sublist acc q).subset hrow, hcode, hid, u, hold, howner, hR⟩
    rw [howner, hid p.externalId rfl] at hne
    exact Ne.symm hne
  · rintro ⟨hne, row, hrow, hcode, hid, u, hu, howner, hR⟩
    have hrowid : row.externalId = p.externalId := hid p.externalId rfl
    refine ⟨row, mem_sweep_problems hrow (.inl ?_), hcode, hid, u, mem_sweep_usage.mpr ⟨hu, ?_⟩,
      howner, hR⟩
    · rw [hrowid]
      exact Ne.symm hne
    · rw [howner, hrowid]
      exact Ne.symm hne

/-- The removal of a projection takes the usage of the problem that has its id. -/
theorem upToDate_sweep {r : FolderReads} :
    UpToDate (sweepProjection acc q) p.item r ↔
      orphanId q.code ≠ p.externalId ∧ UpToDate acc p.item r := by
  by_cases hne : orphanId q.code ≠ p.externalId
  · have hsame : UpToDate (sweepProjection acc q) p.item r ↔ UpToDate acc p.item r := by
      refine upToDate_congr (by rw [sweep_cache]) fun R => ?_
      rw [hasUsage_sweep, and_iff_right hne]
    rw [hsame, and_iff_right hne]
  · have hnone : ∀ R, ¬ HasUsage (sweepProjection acc q).db p.item R :=
      fun R h => hne (hasUsage_sweep R |>.mp h).1
    refine iff_of_false ?_ fun h => hne h.1
    rintro (hmatches | ⟨scan, -, husage⟩)
    · unfold cachedUsageMatches at hmatches
      split at hmatches
      · cases hmatches
      · split at hmatches
        · cases hmatches
        · rw [Except.ok.injEq, Bool.and_eq_true] at hmatches
          exact hnone _ (usageIsCurrent_iff.mp hmatches.2)
    · exact hnone _ husage

theorem SameFolder.sweep (h : SameFolder b s code) (hproblems : s.db.problems = b.db.problems)
    (hkeys : s.db.idempotencyKeys = b.db.idempotencyKeys) :
    SameFolder (sweepProjection b q) (sweepProjection s q) code := by
  have hswept := (sweep_congr (q := q) hproblems hkeys).1
  refine ⟨h.cache, fun row _ => by rw [hswept], ?_, by rw [hswept]⟩
  intro row hrow hcode u hu
  rw [mem_sweep_usage, mem_sweep_usage,
    h.usage row ((sweep_sublist b q).subset hrow) hcode u hu]

theorem Listed.sweep (h : Listed acc.db.problems p) :
    Listed (sweepProjection acc q).db.problems p := by
  obtain ⟨row, hrow, hid, hcode, hlisted⟩ := h
  refine ⟨row, mem_sweep_problems hrow (.inr ?_), hid, hcode, hlisted⟩
  intro horphan
  rw [horphan] at hlisted
  cases hlisted

theorem Listed.hasOwner {problems : List ProblemRow} (h : Listed problems p) :
    HasOwner problems p.item := by
  intro id hid
  obtain ⟨row, hrow, hrowid, hcode, -⟩ := h
  cases hid
  exact ⟨row, hrow, hrowid, hcode⟩

end Sweep

/-! ## The known folders -/

section Known

variable {now : Timestamp} {reads : String → FolderReads} {plan : ReconcilePlan}
  {b s t : Accounts} {done : List CatalogProblem} {a : CatalogProblem}

structure KnownInv (plan : ReconcilePlan) (done : List CatalogProblem) (b s : Accounts) : Prop where
  problems : s.db.problems = b.db.problems
  keys : s.db.idempotencyKeys = b.db.idempotencyKeys
  unique : UniqueIds b.db.problems
  listed : ∀ p ∈ plan.knownPresent ++ plan.missingKnown, Listed b.db.problems p
  same : ∀ code, code ∉ done.map CatalogProblem.code → SameFolder b s code

/-- The folders behind the pass are up to date, but for problems whose usage it has removed
with a projection since. -/
def KnownUpTo (reads : String → FolderReads) (done behind : List CatalogProblem) (s : Accounts) :
    Prop :=
  ∀ front p back, done = front ++ p :: back → Scannable (reads p.code) →
    (UpToDate s p.item (reads p.code) ↔ ∀ q ∈ back ++ behind, orphanId q.code ≠ p.externalId)

theorem KnownInv.sweep (h : KnownInv plan done b s) :
    KnownInv plan done (sweepProjection b a) (sweepProjection s a) where
  problems := (sweep_congr h.problems h.keys).1
  keys := by rw [sweep_keys, sweep_keys, h.keys]
  unique := List.Nodup.sublist ((sweep_sublist b a).map _) h.unique
  listed p hp := (h.listed p hp).sweep
  same code hcode := (h.same code hcode).sweep h.problems h.keys

theorem KnownInv.visit (h : KnownInv plan done b s) (hvisit : OnlyFolder s t a.item) :
    KnownInv plan (done ++ [a]) b t where
  problems := (hvisit.known rfl).1.trans h.problems
  keys := (hvisit.known rfl).2.trans h.keys
  unique := h.unique
  listed := h.listed
  same code hcode := by
    rw [List.map_append, List.mem_append, not_or, List.map_singleton, List.mem_singleton] at hcode
    exact (h.same code hcode.1).trans (hvisit.others code hcode.2)

theorem KnownUpTo.sweep (h : KnownUpTo reads done [] s) :
    KnownUpTo reads done [a] (sweepProjection s a) := by
  intro front p back hdone hscannable
  rw [upToDate_sweep, h front p back hdone hscannable, List.append_nil, List.forall_mem_append,
    List.forall_mem_singleton, and_comm]

theorem KnownUpTo.visit (h : KnownUpTo reads done [a] s) (hvisit : OnlyFolder s t a.item)
    (hnew : a.code ∉ done.map CatalogProblem.code) : KnownUpTo reads done [a] t := by
  intro front p back hdone hscannable
  rw [← h front p back hdone hscannable]
  refine (hvisit.others p.code ?_).upToDate
  intro hcode
  refine hnew (List.mem_map.mpr ⟨p, ?_, hcode⟩)
  rw [hdone]
  exact List.mem_append_right _ List.mem_cons_self

theorem KnownUpTo.add (h : KnownUpTo reads done [a] t)
    (hlast : Scannable (reads a.code) → UpToDate t a.item (reads a.code)) :
    KnownUpTo reads (done ++ [a]) [] t := by
  intro front p back hdone hscannable
  rw [List.append_nil]
  rcases List.eq_nil_or_concat back with rfl | ⟨back, c, rfl⟩
  · obtain ⟨-, hp⟩ := List.append_inj' hdone rfl
    cases hp
    simpa using hlast hscannable
  · rw [List.concat_eq_append, ← List.cons_append, ← List.append_assoc] at hdone
    obtain ⟨hfront, hc⟩ := List.append_inj' hdone rfl
    cases hc
    rw [h front p back hfront hscannable, List.concat_eq_append]

theorem reconcileKnown_eq (acc : Accounts) (p : CatalogProblem) :
    reconcileKnown now reads acc p =
      if (DataPlane.deleteOrphanProblem p.code
          (DataPlane.deleteOrphanUsage p.code acc.db)).isNone then
        (sweepProjection acc p, .error .database)
      else
        visitItem now (reads p.code) (sweepProjection acc p) p.item := by
  unfold reconcileKnown sweepProjection
  dsimp only
  cases DataPlane.deleteOrphanProblem p.code (DataPlane.deleteOrphanUsage p.code acc.db) with
  | none => rfl
  | some db => rfl

theorem code_not_mem_done (hcodes : (plan.knownPresent.map CatalogProblem.code).Nodup)
    {rest : List CatalogProblem} (hall : plan.knownPresent = done ++ a :: rest) :
    a.code ∉ done.map CatalogProblem.code := by
  rw [hall, List.map_append, List.map_cons] at hcodes
  intro hmem
  exact (List.disjoint_of_nodup_append hcodes) hmem List.mem_cons_self

variable (now) in
/-- A known folder ends the pass where it is told to, and is up to date where it does not. -/
theorem known_step (hinv : KnownInv plan done b s) (hmem : a ∈ plan.knownPresent)
    (hnew : a.code ∉ done.map CatalogProblem.code) (hupTo : KnownUpTo reads done [] s) :
    KnownInv plan (done ++ [a]) (sweepProjection b a) (reconcileKnown now reads s a).1 ∧
      KnownUpTo reads done [a] (reconcileKnown now reads s a).1 ∧
      (knownStops reads b a = false →
        (∃ visit, (reconcileKnown now reads s a).2 = .ok visit) ∧
          (Scannable (reads a.code) →
            UpToDate (reconcileKnown now reads s a).1 a.item (reads a.code))) ∧
      (knownStops reads b a = true →
        (∃ e, (reconcileKnown now reads s a).2 = .error e) ∧
          (Scannable (reads a.code) →
            (UpToDate (reconcileKnown now reads s a).1 a.item (reads a.code) ↔
              UpToDate (sweepProjection b a) a.item (reads a.code)))) := by
  have hswept : KnownInv plan done (sweepProjection b a) (sweepProjection s a) := hinv.sweep
  have hsame := hswept.same a.code hnew
  have howner : HasOwner (sweepProjection b a).db.problems a.item :=
    (hswept.listed a (List.mem_append_left _ hmem)).hasOwner
  have howner' : HasOwner (sweepProjection s a).db.problems a.item := hswept.problems ▸ howner
  have hunique : UniqueIds (sweepProjection s a).db.problems := hswept.problems ▸ hswept.unique
  have hstops : visitStops (reads a.code) (sweepProjection s a) a.item =
      visitStops (reads a.code) (sweepProjection b a) a.item := SameFolder.visitStops hsame howner
  rw [reconcileKnown_eq, (sweep_congr hinv.problems hinv.keys).2]
  unfold knownStops
  by_cases hgone : (DataPlane.deleteOrphanProblem a.code
      (DataPlane.deleteOrphanUsage a.code b.db)).isNone = true
  · rw [if_pos hgone, hgone, Bool.true_or]
    refine ⟨hswept.visit (onlyFolder_refl hunique), hupTo.sweep, nofun, fun _ => ?_⟩
    exact ⟨⟨_, rfl⟩, fun _ => SameFolder.upToDate hsame⟩
  · have hvisit := visitItem_frame now (reads a.code) hunique howner'
    rw [if_neg hgone, Bool.eq_false_iff.mpr hgone, Bool.false_or]
    refine ⟨hswept.visit hvisit, hupTo.sweep.visit hvisit hnew, ?_, ?_⟩
    · intro hgo
      obtain ⟨visit, hok, hdate⟩ := visitItem_goes now howner' (hstops.trans hgo)
      exact ⟨⟨visit, hok⟩, hdate⟩
    · intro hstop
      obtain ⟨e, herror, hdate⟩ := visitItem_stops now howner' (hstops.trans hstop)
      refine ⟨⟨e, herror⟩, fun hscannable => ?_⟩
      rw [hdate hscannable]
      exact SameFolder.upToDate hsame

variable (now reads) in
theorem known_loop (hcodes : (plan.knownPresent.map CatalogProblem.code).Nodup)
    (hinit : KnownInv plan [] b b) :
    (∃ b' t, knownReach reads b plan = ⟨b', plan.knownPresent, []⟩ ∧
        tryEach (reconcileKnown now reads) b plan.knownPresent = (t, .ok ()) ∧
        KnownInv plan plan.knownPresent b' t ∧ KnownUpTo reads plan.knownPresent [] t) ∨
      ∃ front a back b' t e, plan.knownPresent = front ++ a :: back ∧
        knownReach reads b plan = ⟨b', front ++ [a], a :: back⟩ ∧
        tryEach (reconcileKnown now reads) b plan.knownPresent = (t, .error e) ∧
        KnownInv plan (front ++ [a]) b' t ∧ KnownUpTo reads front [a] t ∧
        (Scannable (reads a.code) →
          (UpToDate t a.item (reads a.code) ↔ UpToDate b' a.item (reads a.code))) := by
  refine tryEach_reach _ _ (I := fun done b s => KnownInv plan done b s ∧ KnownUpTo reads done [] s)
    (J := fun done a b t => KnownInv plan (done ++ [a]) b t ∧ KnownUpTo reads done [a] t ∧
      (Scannable (reads a.code) →
        (UpToDate t a.item (reads a.code) ↔ UpToDate b a.item (reads a.code)))) ?_ ?_ ⟨hinit, ?_⟩
  · rintro done a rest b s hall ⟨hinv, hupTo⟩ hgo
    have hmem : a ∈ plan.knownPresent := hall ▸ List.mem_append_right _ List.mem_cons_self
    obtain ⟨hafter, hbehind, hgoes, -⟩ :=
      known_step now hinv hmem (code_not_mem_done hcodes hall) hupTo
    obtain ⟨⟨visit, hok⟩, hdate⟩ := hgoes hgo
    exact ⟨_, visit, Prod.ext rfl hok, hafter, hbehind.add hdate⟩
  · rintro done a rest b s hall ⟨hinv, hupTo⟩ hstop
    have hmem : a ∈ plan.knownPresent := hall ▸ List.mem_append_right _ List.mem_cons_self
    obtain ⟨hafter, hbehind, -, hstops⟩ :=
      known_step now hinv hmem (code_not_mem_done hcodes hall) hupTo
    obtain ⟨⟨e, herror⟩, hdate⟩ := hstops hstop
    exact ⟨_, e, Prod.ext rfl herror, hafter, hbehind, hdate⟩
  · intro front p back hdone
    exact absurd hdone.symm (List.append_ne_nil_of_right_ne_nil front (List.cons_ne_nil p back))

end Known

/-! ## The missing problems -/

section Missing

variable {now : Timestamp} {s t : Accounts} {p q : CatalogProblem}

theorem mem_upsertMissingUsage_other {u : ProblemUsageRow} {id : String} {db : Database}
    (hne : u.problemId ≠ id) :
    u ∈ DataPlane.upsertMissingUsage now id db ↔ u ∈ db.problemUsage := by
  unfold DataPlane.upsertMissingUsage
  dsimp only
  rw [mem_upsertOn]
  constructor
  · rintro (⟨hold, -⟩ | ⟨u₀, -, hid, rfl⟩ | ⟨rfl, -⟩)
    · exact hold
    · exact absurd hid hne
    · exact absurd rfl hne
  · exact fun hold => .inl ⟨hold, hne⟩

structure MarksMissing (s t : Accounts) (p : CatalogProblem) : Prop where
  problems : t.db.problems = s.db.problems
  others : ∀ code, code ≠ p.code → SameFolder s t code
  marked : MarkedMissing t p
  kept : ∀ q, MarkedMissing s q → MarkedMissing t q

variable (now) in
theorem reconcileMissing_marks (hunique : UniqueIds s.db.problems) (h : Listed s.db.problems p) :
    ∃ t, reconcileMissing now s p = (t, .ok ()) ∧ MarksMissing s t p := by
  obtain ⟨row, hrow, hid, hcode, -⟩ := h
  have hany : (s.db.problems.any fun q => q.externalId = p.externalId) = true :=
    List.any_eq_true.mpr ⟨row, hrow, decide_eq_true hid⟩
  refine ⟨_, if_pos hany, rfl, ?_, ?_, ?_⟩
  · intro code hne
    refine ⟨rfl, fun _ _ => Iff.rfl, ?_, Iff.rfl⟩
    intro other hother hothercode u hu
    refine mem_upsertMissingUsage_other ?_
    intro hsame
    obtain rfl : other = row :=
      List.inj_on_of_nodup_map hunique hother hrow ((hu.symm.trans hsame).trans hid.symm)
    exact hne (hothercode.symm.trans hcode)
  · by_cases hfound : ∃ u ∈ s.db.problemUsage, u.problemId = p.externalId
    · obtain ⟨u, hu, huid⟩ := hfound
      exact ⟨_, mem_upsertOn.mpr (.inr (.inl ⟨u, hu, huid, rfl⟩)), huid, rfl⟩
    · refine ⟨_, mem_upsertOn.mpr (.inr (.inr ⟨rfl, ?_⟩)), rfl, rfl⟩
      exact fun u hu huid => hfound ⟨u, hu, huid⟩
  · rintro q ⟨u, hu, huid, hmissing⟩
    by_cases hsame : u.problemId = p.externalId
    · exact ⟨_, mem_upsertOn.mpr (.inr (.inl ⟨u, hu, hsame, rfl⟩)), huid, rfl⟩
    · exact ⟨u, (mem_upsertMissingUsage_other hsame).mpr hu, huid, hmissing⟩

variable (now) in
theorem missing_loop {missing : List CatalogProblem} (hunique : UniqueIds s.db.problems)
    (hlisted : ∀ p ∈ missing, Listed s.db.problems p) :
    ∃ t, tryEach (reconcileMissing now) s missing = (t, .ok ()) ∧ t.db.problems = s.db.problems ∧
      (∀ code, code ∉ missing.map CatalogProblem.code → SameFolder s t code) ∧
      ∀ p ∈ missing, MarkedMissing t p := by
  refine tryEach_total (I := fun done t => t.db.problems = s.db.problems ∧
    (∀ code, code ∉ done.map CatalogProblem.code → SameFolder s t code) ∧
    ∀ p ∈ done, MarkedMissing t p) ?_ ⟨rfl, fun code _ => sameFolder_refl s code, nofun⟩
  rintro done p rest t hall ⟨hproblems, hsame, hmarked⟩
  have hmem : p ∈ missing := hall ▸ List.mem_append_right _ List.mem_cons_self
  obtain ⟨t', hbody, hmarks⟩ := reconcileMissing_marks now (hproblems ▸ hunique)
    (hproblems ▸ hlisted p hmem)
  refine ⟨t', (), hbody, hmarks.problems.trans hproblems, ?_, ?_⟩
  · intro code hcode
    rw [List.map_append, List.mem_append, not_or, List.map_singleton, List.mem_singleton] at hcode
    exact (hsame code hcode.1).trans (hmarks.others code hcode.2)
  · intro q hq
    rcases List.mem_append.mp hq with hold | hnew
    · exact hmarks.kept q (hmarked q hold)
    · rw [List.mem_singleton.mp hnew]
      exact hmarks.marked

end Missing

/-! ## The orphans -/

section Orphans

variable {now : Timestamp} {reads : String → FolderReads} {b s t : Accounts}

theorem orphan_hasOwner (problems : List ProblemRow) (code : String) :
    HasOwner problems ⟨code, none⟩ := nofun

structure OrphansInv (reads : String → FolderReads) (s : Accounts) (behind done : List String)
    (t : Accounts) : Prop where
  unique : UniqueIds t.db.problems
  same : ∀ code, code ∉ behind → SameFolder s t code
  upToDate : ∀ code ∈ done, Scannable (reads code) → UpToDate t ⟨code, none⟩ (reads code)

variable (now) in
/-- An orphan ends the pass where it is told to, and is up to date where it does not. -/
theorem orphan_step {done : List String} {code : String} (hinv : OrphansInv reads s done done t)
    (hnew : code ∉ done) (hfolder : SameFolder b t code) :
    OrphansInv reads s (done ++ [code]) done (reconcileOrphan now reads t code).1 ∧
      (visitStops (reads code) b ⟨code, none⟩ = false →
        (∃ visit, (reconcileOrphan now reads t code).2 = .ok visit) ∧
          (Scannable (reads code) →
            UpToDate (reconcileOrphan now reads t code).1 ⟨code, none⟩ (reads code))) ∧
      (visitStops (reads code) b ⟨code, none⟩ = true →
        (∃ e, (reconcileOrphan now reads t code).2 = .error e) ∧
          (Scannable (reads code) →
            (UpToDate (reconcileOrphan now reads t code).1 ⟨code, none⟩ (reads code) ↔
              UpToDate b ⟨code, none⟩ (reads code)))) := by
  have hvisit : OnlyFolder t (reconcileOrphan now reads t code).1 ⟨code, none⟩ :=
    visitItem_frame now (reads code) hinv.unique (orphan_hasOwner _ code)
  have hstops : visitStops (reads code) t ⟨code, none⟩ = visitStops (reads code) b ⟨code, none⟩ :=
    SameFolder.visitStops hfolder (orphan_hasOwner _ code)
  refine ⟨⟨hvisit.unique, ?_, ?_⟩, ?_, ?_⟩
  · intro other hother
    rw [List.mem_append, not_or, List.mem_singleton] at hother
    exact (hinv.same other hother.1).trans (hvisit.others other hother.2)
  · intro other hother hscannable
    have hne : other ≠ code := by
      rintro rfl
      exact hnew hother
    exact (hvisit.others other hne).upToDate_orphan.mpr (hinv.upToDate other hother hscannable)
  · intro hgo
    obtain ⟨visit, hok, hdate⟩ := visitItem_goes now (orphan_hasOwner _ code) (hstops.trans hgo)
    exact ⟨⟨visit, hok⟩, hdate⟩
  · intro hstop
    obtain ⟨e, herror, hdate⟩ :=
      visitItem_stops now (orphan_hasOwner _ code) (hstops.trans hstop)
    exact ⟨⟨e, herror⟩, fun h => (hdate h).trans hfolder.upToDate_orphan⟩

variable (now) in
/-- The orphans that can be scanned are up to date behind their loop exactly when those that
it leaves were so before. -/
theorem orphan_loop {orphans : List String} (hnodup : orphans.Nodup)
    (hunique : UniqueIds s.db.problems) (hbase : ∀ code ∈ orphans, SameFolder b s code) :
    ∃ t out, tryEach (reconcileOrphan now reads) s orphans = (t, out) ∧
      (∀ code, code ∉ orphans → SameFolder s t code) ∧
      ((∀ code ∈ orphans, Scannable (reads code) → UpToDate t ⟨code, none⟩ (reads code)) ↔
        ∀ code ∈ (reach (fun acc code => visitStops (reads code) acc ⟨code, none⟩)
          (fun acc _ => acc) b orphans).left,
            Scannable (reads code) → UpToDate b ⟨code, none⟩ (reads code)) := by
  have hnew : ∀ done code rest t, orphans = done ++ code :: rest →
      OrphansInv reads s done done t → code ∉ done ∧ SameFolder b t code := by
    intro done code rest t hall hinv
    have hmem : code ∈ orphans := hall ▸ List.mem_append_right _ List.mem_cons_self
    rw [hall] at hnodup
    have hfree : code ∉ done :=
      fun hdone => (List.disjoint_of_nodup_append hnodup) hdone List.mem_cons_self
    exact ⟨hfree, (hbase code hmem).trans (hinv.same code hfree)⟩
  have hgo : ∀ done code rest b' t, orphans = done ++ code :: rest →
      (b' = b ∧ OrphansInv reads s done done t) →
      visitStops (reads code) b' ⟨code, none⟩ = false →
      ∃ t' visit, reconcileOrphan now reads t code = (t', .ok visit) ∧
        (b' = b ∧ OrphansInv reads s (done ++ [code]) (done ++ [code]) t') := by
    rintro done code rest b' t hall ⟨rfl, hinv⟩ hgo
    obtain ⟨hfree, hfolder⟩ := hnew done code rest t hall hinv
    obtain ⟨hafter, hgoes, -⟩ := orphan_step now hinv hfree hfolder
    obtain ⟨⟨visit, hok⟩, hdate⟩ := hgoes hgo
    refine ⟨_, visit, Prod.ext rfl hok, rfl, hafter.unique, hafter.same, ?_⟩
    intro other hother
    rcases List.mem_append.mp hother with hold | hlast
    · exact hafter.upToDate other hold
    · rw [List.mem_singleton.mp hlast]
      exact hdate
  have hstop : ∀ done code rest b' t, orphans = done ++ code :: rest →
      (b' = b ∧ OrphansInv reads s done done t) →
      visitStops (reads code) b' ⟨code, none⟩ = true →
      ∃ t' e, reconcileOrphan now reads t code = (t', .error e) ∧
        (OrphansInv reads s (done ++ [code]) done t' ∧ (Scannable (reads code) →
          (UpToDate t' ⟨code, none⟩ (reads code) ↔ UpToDate b ⟨code, none⟩ (reads code)))) := by
    rintro done code rest b' t hall ⟨rfl, hinv⟩ hstop
    obtain ⟨hfree, hfolder⟩ := hnew done code rest t hall hinv
    obtain ⟨hafter, -, hstops⟩ := orphan_step now hinv hfree hfolder
    obtain ⟨⟨e, herror⟩, hdate⟩ := hstops hstop
    exact ⟨_, e, Prod.ext rfl herror, hafter, hdate⟩
  have hinit : OrphansInv reads s [] [] s :=
    ⟨hunique, fun code _ => sameFolder_refl s code, nofun⟩
  rcases tryEach_reach _ (fun acc _ => acc) hgo hstop ⟨rfl, hinit⟩ with
    ⟨b', t, hreach, hrun, -, hinv⟩ | ⟨front, a, back, b', t, e, hall, hreach, hrun, hinv, hlast⟩
  · refine ⟨t, _, hrun, hinv.same, ?_⟩
    rw [hreach]
    exact iff_of_true hinv.upToDate nofun
  · refine ⟨t, _, hrun, ?_, ?_⟩
    · intro code hcode
      refine hinv.same code fun hmem => hcode ?_
      rw [hall, List.append_cons]
      exact List.mem_append_left _ hmem
    · rw [hreach, hall]
      have hback : ∀ code ∈ back, SameFolder b t code := by
        intro code hcode
        have hmem : code ∈ orphans := by
          rw [hall]
          exact List.mem_append_right _ (List.mem_cons_of_mem _ hcode)
        refine (hbase code hmem).trans (hinv.same code ?_)
        rw [hall, List.append_cons] at hnodup
        exact fun hreached => (List.disjoint_of_nodup_append hnodup) hreached hcode
      simp only [List.forall_mem_append, List.forall_mem_cons]
      constructor
      · rintro ⟨-, ha, hrest⟩
        refine ⟨fun h => (hlast h).mp (ha h), fun code hcode h => ?_⟩
        exact (hback code hcode).upToDate_orphan.mp (hrest code hcode h)
      · rintro ⟨ha, hrest⟩
        refine ⟨hinv.upToDate, fun h => (hlast h).mpr (ha h), fun code hcode h => ?_⟩
        exact (hback code hcode).upToDate_orphan.mpr (hrest code hcode h)

end Orphans

/-! ## Plans -/

structure PlanOf (problems : List ProblemRow) (plan : ReconcilePlan) : Prop where
  listed : ∀ p ∈ plan.knownPresent ++ plan.missingKnown, Listed problems p
  codes : (plan.knownPresent.map CatalogProblem.code).Nodup
  orphans : plan.orphans.Nodup
  missing : ∀ p ∈ plan.missingKnown, p.code ∉ plan.knownPresent.map CatalogProblem.code ∧
    p.code ∉ plan.orphans
  known : ∀ p ∈ plan.knownPresent, p.code ∉ plan.missingKnown.map CatalogProblem.code ∧
    p.code ∉ plan.orphans

theorem problemByCode_code {active : List CatalogProblem} {code : String} {p : CatalogProblem}
    (h : problemByCode active code = some p) : p.code = code := by
  simpa using List.find?_some h

theorem buildReconcilePlan_planOf {folders : List String} (hfolders : folders.Nodup)
    (db : Database) :
    PlanOf db.problems (buildReconcilePlan folders (listCatalogProblems db)) := by
  have hactive : ∀ p ∈ (listCatalogProblems db).filter fun p => p.catalogState.listed,
      Listed db.problems p := by
    intro p hp
    obtain ⟨hp, hlisted⟩ := List.mem_filter.mp hp
    obtain ⟨row, hrow, rfl⟩ := List.mem_map.mp hp
    exact ⟨row, (List.mem_filter.mp hrow).1, rfl, rfl, hlisted⟩
  have hknown : ∀ p, p ∈ (buildReconcilePlan folders (listCatalogProblems db)).knownPresent →
      p.code ∈ folders ∧ problemByCode ((listCatalogProblems db).filter fun p =>
        p.catalogState.listed) p.code = some p := by
    intro p hp
    obtain ⟨folder, hfolder, hfound⟩ := List.mem_filterMap.mp ((List.mem_insertionSort _).mp hp)
    rw [problemByCode_code hfound]
    exact ⟨hfolder, hfound⟩
  have hmissing : ∀ p, p ∈ (buildReconcilePlan folders (listCatalogProblems db)).missingKnown →
      p.code ∉ folders ∧ Listed db.problems p := by
    intro p hp
    obtain ⟨hp, habsent⟩ := List.mem_filter.mp ((List.mem_insertionSort _).mp hp)
    exact ⟨of_decide_eq_true habsent, hactive p hp⟩
  have horphans : ∀ code, code ∈ (buildReconcilePlan folders (listCatalogProblems db)).orphans →
      code ∈ folders ∧ problemByCode ((listCatalogProblems db).filter fun p =>
        p.catalogState.listed) code = none := by
    intro code hcode
    obtain ⟨hfolder, hnone⟩ := List.mem_filter.mp ((List.mem_insertionSort _).mp hcode)
    exact ⟨hfolder, Option.isNone_iff_eq_none.mp hnone⟩
  refine ⟨?_, ?_, ?_, ?_, ?_⟩
  · intro p hp
    rcases List.mem_append.mp hp with hp | hp
    · exact hactive p (problemByCode_mem (hknown p hp).2)
    · exact (hmissing p hp).2
  · unfold buildReconcilePlan
    dsimp only
    rw [((List.perm_insertionSort _ _).map CatalogProblem.code).nodup_iff, List.map_filterMap]
    refine List.Nodup.filterMap ?_ hfolders
    intro folder folder' code hcode hcode'
    obtain ⟨p, hp, rfl⟩ := Option.map_eq_some_iff.mp hcode
    obtain ⟨p', hp', hsame⟩ := Option.map_eq_some_iff.mp hcode'
    rw [← problemByCode_code hp, ← problemByCode_code hp', hsame]
  · exact (List.perm_insertionSort _ _).nodup_iff.mpr (hfolders.filter _)
  · intro p hp
    refine ⟨fun hmem => ?_, fun hmem => (hmissing p hp).1 (horphans _ hmem).1⟩
    obtain ⟨q, hq, hcode⟩ := List.mem_map.mp hmem
    exact (hmissing p hp).1 (hcode ▸ (hknown q hq).1)
  · intro p hp
    refine ⟨fun hmem => ?_, fun hmem => ?_⟩
    · obtain ⟨q, hq, hcode⟩ := List.mem_map.mp hmem
      exact (hmissing q hq).1 (hcode ▸ (hknown p hp).1)
    · cases (horphans _ hmem).2.symm.trans (hknown p hp).2

/-! ## Results -/

theorem pairwise_append_iff {α : Type*} {R : α → α → Prop} {as behind : List α}
    (hbehind : behind.Pairwise R) :
    (as ++ behind).Pairwise R ↔
      ∀ front a back, as = front ++ a :: back → ∀ c ∈ back ++ behind, R a c := by
  induction as with
  | nil =>
      refine iff_of_true hbehind ?_
      intro front a back hall
      exact absurd hall.symm (List.append_ne_nil_of_right_ne_nil front (List.cons_ne_nil a back))
  | cons c as ih =>
      rw [List.cons_append, List.pairwise_cons, ih]
      constructor
      · rintro ⟨hfirst, hrest⟩ front a back hall
        cases front with
        | nil =>
            cases hall
            exact hfirst
        | cons d front =>
            cases hall
            exact hrest front a back rfl
      · intro h
        refine ⟨h [] c as rfl, ?_⟩
        rintro front a back rfl
        exact h (c :: front) a back rfl

section Results

variable {now : Timestamp} {reads : String → FolderReads} {plan : ReconcilePlan}
  {acc b s t : Accounts} {done behind : List CatalogProblem}

theorem KnownUpTo.pairwise (h : KnownUpTo reads done behind s)
    (hbehind : behind.Pairwise fun p q =>
      Scannable (reads p.code) → orphanId q.code ≠ p.externalId) :
    (∀ p ∈ done, Scannable (reads p.code) → UpToDate s p.item (reads p.code)) ↔
      (done ++ behind).Pairwise fun p q =>
        Scannable (reads p.code) → orphanId q.code ≠ p.externalId := by
  rw [pairwise_append_iff hbehind]
  constructor
  · intro hdate front p back hdone q hq hscannable
    have hmem : p ∈ done := hdone ▸ List.mem_append_right _ List.mem_cons_self
    exact (h front p back hdone hscannable).mp (hdate p hmem hscannable) q hq
  · intro hpairs p hp hscannable
    obtain ⟨front, back, hdone⟩ := List.append_of_mem hp
    exact (h front p back hdone hscannable).mpr fun q hq => hpairs front p back hdone q hq hscannable

/-- Where the known folders do not end the pass, the orphans decide. -/
theorem isolates_of_known (hplan : PlanOf b.db.problems plan)
    (hinv : KnownInv plan plan.knownPresent b s)
    (hupTo : KnownUpTo reads plan.knownPresent [] s)
    (hreach : knownReach reads acc plan = ⟨b, plan.knownPresent, []⟩)
    (hrun : tryEach (reconcileKnown now reads) acc plan.knownPresent = (s, .ok ())) :
    Isolates reads plan (applyReconcilePlan now reads acc plan).1 ↔ Unhindered reads acc plan := by
  have hunique : UniqueIds s.db.problems := hinv.problems ▸ hinv.unique
  have hlisted : ∀ p ∈ plan.missingKnown, Listed s.db.problems p :=
    fun p hp => hinv.problems ▸ hinv.listed p (List.mem_append_right _ hp)
  obtain ⟨m, hmissing, hproblems, hsame, hmarked⟩ := missing_loop now hunique hlisted
  have hbase : ∀ code ∈ plan.orphans, SameFolder b m code := by
    intro code hcode
    refine (hinv.same code fun hmem => ?_).trans (hsame code fun hmem => ?_)
    · obtain ⟨p, hp, rfl⟩ := List.mem_map.mp hmem
      exact (hplan.known p hp).2 hcode
    · obtain ⟨p, hp, rfl⟩ := List.mem_map.mp hmem
      exact (hplan.missing p hp).2 hcode
  obtain ⟨t, out, horphans, hframe, hdates⟩ :=
    orphan_loop now hplan.orphans (hproblems ▸ hunique) hbase
  have hend : (applyReconcilePlan now reads acc plan).1 = t := by
    unfold applyReconcilePlan
    rw [hrun]
    dsimp only
    rw [hmissing]
    dsimp only
    rw [horphans]
    cases out <;> rfl
  have hknown : (∀ p ∈ plan.knownPresent, Scannable (reads p.code) →
      UpToDate t p.item (reads p.code)) ↔ plan.knownPresent.Pairwise fun p q =>
        Scannable (reads p.code) → orphanId q.code ≠ p.externalId := by
    rw [← List.append_nil plan.knownPresent, ← hupTo.pairwise List.Pairwise.nil, List.append_nil]
    refine forall₂_congr fun p hp => imp_congr_right fun _ => ?_
    refine SameFolder.upToDate ((hsame p.code (hplan.known p hp).1).trans ?_)
    exact hframe p.code (hplan.known p hp).2
  have hmarks : ∀ p ∈ plan.missingKnown, MarkedMissing t p := by
    intro p hp
    refine ((hframe p.code (hplan.missing p hp).2).markedMissing ?_).mpr (hmarked p hp)
    exact hproblems ▸ hlisted p hp
  rw [hend]
  constructor
  · rintro ⟨hpresent, -, hleft⟩
    refine ⟨?_, ?_, ?_, ?_⟩
    · rw [hreach]
      exact nofun
    · rw [hreach]
      exact fun hne => absurd rfl hne
    · rw [hreach, orphansLeft, if_pos rfl]
      exact hdates.mp hleft
    · rw [hreach]
      exact hknown.mp hpresent
  · rintro ⟨-, -, hleft, hremoved⟩
    rw [hreach] at hremoved hleft
    rw [orphansLeft, if_pos rfl] at hleft
    exact ⟨hknown.mpr hremoved, hmarks, hdates.mpr hleft⟩

theorem isolates_of_stop {front back : List CatalogProblem} {a : CatalogProblem} {e : PassError}
    (hplan : PlanOf b.db.problems plan) (hall : plan.knownPresent = front ++ a :: back)
    (hinv : KnownInv plan (front ++ [a]) b t) (hupTo : KnownUpTo reads front [a] t)
    (hlast : Scannable (reads a.code) →
      (UpToDate t a.item (reads a.code) ↔ UpToDate b a.item (reads a.code)))
    (hreach : knownReach reads acc plan = ⟨b, front ++ [a], a :: back⟩)
    (hrun : tryEach (reconcileKnown now reads) acc plan.knownPresent = (t, .error e)) :
    Isolates reads plan (applyReconcilePlan now reads acc plan).1 ↔ Unhindered reads acc plan := by
  have hend : (applyReconcilePlan now reads acc plan).1 = t := by
    unfold applyReconcilePlan
    rw [hrun]
  have hreached : ∀ code, code ∉ plan.knownPresent.map CatalogProblem.code → SameFolder b t code := by
    intro code hcode
    refine hinv.same code fun hmem => hcode ?_
    rw [hall, List.append_cons, List.map_append]
    exact List.mem_append_left _ hmem
  have hback : ∀ p ∈ back, SameFolder b t p.code := by
    intro p hp
    refine hinv.same p.code fun hmem => ?_
    have hcodes := hplan.codes
    rw [hall, List.append_cons, List.map_append] at hcodes
    exact (List.disjoint_of_nodup_append hcodes) hmem (List.mem_map_of_mem hp)
  have hpassed := hupTo.pairwise (List.pairwise_singleton _ a)
  have hleft : (∀ p ∈ a :: back, Scannable (reads p.code) → UpToDate t p.item (reads p.code)) ↔
      ∀ p ∈ a :: back, Scannable (reads p.code) → UpToDate b p.item (reads p.code) := by
    refine forall₂_congr fun p hp => forall_congr' fun hscannable => ?_
    rcases List.mem_cons.mp hp with rfl | hp
    · exact hlast hscannable
    · exact SameFolder.upToDate (hback p hp)
  have hmarks : (∀ p ∈ plan.missingKnown, MarkedMissing t p) ↔
      ∀ p ∈ plan.missingKnown, MarkedMissing b p := by
    refine forall₂_congr fun p hp => ?_
    exact (hreached p.code (hplan.missing p hp).1).markedMissing
      (hplan.listed p (List.mem_append_right _ hp))
  have hdates : (∀ code ∈ plan.orphans, Scannable (reads code) →
      UpToDate t ⟨code, none⟩ (reads code)) ↔
        ∀ code ∈ plan.orphans, Scannable (reads code) → UpToDate b ⟨code, none⟩ (reads code) := by
    refine forall₂_congr fun code hcode => imp_congr_right fun _ => ?_
    refine (hreached code fun hmem => ?_).upToDate_orphan
    obtain ⟨p, hp, rfl⟩ := List.mem_map.mp hmem
    exact (hplan.known p hp).2 hcode
  rw [hend]
  constructor
  · rintro ⟨hpresent, hmissing, horphans⟩
    rw [hall, List.forall_mem_append] at hpresent
    refine ⟨?_, ?_, ?_, ?_⟩
    · rw [hreach]
      exact hleft.mp hpresent.2
    · rw [hreach]
      exact fun _ => hmarks.mp hmissing
    · rw [hreach, orphansLeft, if_neg (List.cons_ne_nil a back)]
      exact hdates.mp horphans
    · rw [hreach]
      exact hpassed.mp hpresent.1
  · rintro ⟨hknown, hmissing, horphans, hremoved⟩
    rw [hreach] at hknown hmissing horphans hremoved
    rw [orphansLeft, if_neg (List.cons_ne_nil a back)] at horphans
    refine ⟨?_, hmarks.mpr (hmissing (List.cons_ne_nil a back)), hdates.mpr horphans⟩
    rw [hall, List.forall_mem_append]
    exact ⟨hpassed.mpr hremoved, hleft.mpr hknown⟩

theorem PlanOf.reach (hplan : PlanOf acc.db.problems plan)
    (hinv : KnownInv plan done b s) : PlanOf b.db.problems plan :=
  ⟨hinv.listed, hplan.codes, hplan.orphans, hplan.missing, hplan.known⟩

/-- One run does its work for every other folder exactly when whatever it does not come to
needs nothing. -/
theorem reconcile_isolates_iff (now : Timestamp) (reads : String → FolderReads) (acc : Accounts)
    (folders : List String) (hfolders : folders.Nodup)
    (hids : (acc.db.problems.map ProblemRow.externalId).Nodup) :
    let plan := buildReconcilePlan folders (listCatalogProblems acc.db)
    Isolates reads plan (applyReconcilePlan now reads acc plan).1 ↔ Unhindered reads acc plan := by
  intro plan
  have hplan : PlanOf acc.db.problems plan := buildReconcilePlan_planOf hfolders acc.db
  have hinit : KnownInv plan [] acc acc :=
    ⟨rfl, rfl, hids, hplan.listed, fun code _ => sameFolder_refl acc code⟩
  rcases known_loop now reads hplan.codes hinit with
    ⟨b, s, hreach, hrun, hinv, hupTo⟩ |
      ⟨front, a, back, b, t, e, hall, hreach, hrun, hinv, hupTo, hlast⟩
  · exact isolates_of_known (hplan.reach hinv) hinv hupTo hreach hrun
  · exact isolates_of_stop (hplan.reach hinv) hall hinv hupTo hlast hreach hrun

end Results

/-! ## A fifo in a problem folder -/

def treeReads (code : String) (tree : Model.Tree String) : FolderReads where
  checked := .ok (treeFingerprint accountSite.hash tree)
  before := .ok (treeFingerprint accountSite.hash tree)
  scan := tree.scan accountSite.contents accountSite.root code
  after := .ok (treeFingerprint accountSite.hash tree)
  initYml := none

def fifoTree : Model.Tree String :=
  { archiveTree "tests" 1 with
    below := [⟨⟨[.ofText "input"], .special, ⟨1, 3, 1, 0, 4516⟩⟩, 0, 1, 0, 1, 0⟩] }

/-- The folder `aplusb` has a fifo in it. -/
def fifoReads (code : String) : FolderReads :=
  treeReads code (if code = "aplusb" then fifoTree else archiveTree "tests" 1)

def presentProblem (externalId code : String) : ProblemRow :=
  ⟨externalId, code, none, true, none, none, .present, 0, false, false, none, 0, none, 1⟩

def threeFolders : List String := ["aplusb", "sums", "trees"]

/-- `aplusb` and `sums` have folders, `graphs` has none, and `trees` is an orphan. -/
def knownFifo : Accounts where
  db := { problems :=
    [presentProblem "101" "aplusb", presentProblem "102" "sums", presentProblem "103" "graphs"] }
  cache := []

def afterFifo : Accounts × Except PassError ReconcileResult :=
  applyReconcilePlan 10 fifoReads knownFifo
    (buildReconcilePlan threeFolders (listCatalogProblems knownFifo.db))

theorem fifo_hides_the_rest :
    (afterFifo.2 = .error (.folder (.specialFile "/problems/aplusb/input")) ∧
      Scannable (fifoReads "sums") ∧ Scannable (fifoReads "trees")) ∧
      ¬ UpToDate afterFifo.1 ⟨"sums", some "102"⟩ (fifoReads "sums") ∧
      ¬ MarkedMissing afterFifo.1 ⟨"103", "graphs", .present⟩ ∧
      ¬ UpToDate afterFifo.1 ⟨"trees", none⟩ (fifoReads "trees") ∧
      ¬ Isolates fifoReads
        (buildReconcilePlan threeFolders (listCatalogProblems knownFifo.db)) afterFifo.1 := by
  have hnone : afterFifo.1.db.problemUsage = [] := by decide +kernel
  have husage : ∀ item R, ¬ HasUsage afterFifo.1.db item R := by
    rintro item R ⟨p, -, -, -, u, hu, -⟩
    rw [hnone] at hu
    cases hu
  have hsums : ¬ UpToDate afterFifo.1 ⟨"sums", some "102"⟩ (fifoReads "sums") := by
    rintro (hmatches | ⟨scan, -, hfound⟩)
    · exact absurd hmatches (by decide +kernel)
    · exact husage _ _ hfound
  have hmarked : ¬ MarkedMissing afterFifo.1 ⟨"103", "graphs", .present⟩ := by
    rintro ⟨u, hu, -⟩
    rw [hnone] at hu
    cases hu
  refine ⟨⟨by decide +kernel, by decide +kernel, by decide +kernel⟩, hsums, hmarked, ?_, ?_⟩
  · rintro (hmatches | ⟨scan, -, hfound⟩)
    · exact absurd hmatches (by decide +kernel)
    · exact husage _ _ hfound
  · exact fun h => hmarked (h.missing _ (by decide +kernel))

/-- The catalog knows nothing of `aplusb`. -/
def orphanFifo : Accounts where
  db := { problems := [presentProblem "102" "sums", presentProblem "103" "graphs"] }
  cache := []

theorem reconcile_isolates_iff_orphan :
    (fifoReads "aplusb").scan = .error (.specialFile "/problems/aplusb/input") ∧
      Isolates fifoReads (buildReconcilePlan threeFolders (listCatalogProblems orphanFifo.db))
        (applyReconcilePlan 10 fifoReads orphanFifo
          (buildReconcilePlan threeFolders (listCatalogProblems orphanFifo.db))).1 := by
  refine ⟨by decide +kernel, ?_⟩
  refine (reconcile_isolates_iff 10 fifoReads orphanFifo threeFolders (by decide)
    (by decide)).mpr ?_
  have hleft : (knownReach fifoReads orphanFifo
      (buildReconcilePlan threeFolders (listCatalogProblems orphanFifo.db))).left = [] := by
    decide +kernel
  have hreached : (knownReach fifoReads orphanFifo
      (buildReconcilePlan threeFolders (listCatalogProblems orphanFifo.db))).reached =
        [⟨"102", "sums", .present⟩] := by
    decide +kernel
  have horphans : orphansLeft fifoReads (knownReach fifoReads orphanFifo
      (buildReconcilePlan threeFolders (listCatalogProblems orphanFifo.db)))
        (buildReconcilePlan threeFolders (listCatalogProblems orphanFifo.db)) = [] := by
    decide +kernel
  refine ⟨?_, fun hne => absurd hleft hne, ?_, ?_⟩
  · rw [hleft]
    exact nofun
  · rw [horphans]
    exact nofun
  · rw [hreached]
    exact List.pairwise_singleton _ _

end ExternalStorage.Catalog
