import ExternalStorage.Library.Runs
import ExternalStorage.Catalog.Claims
import ExternalStorage.Model.Sync
import ExternalStorage.Sync.Statements

/-!
# Writes that a sync consumer must see

A consumer has passed its cursor: a write reaches it only where the row it changes comes to
lie beyond the cursor again.  Each write has its own condition for that, on what it is
given and on the rows it finds; the statements that leave `observed_at` alone need a row
that the consumer has not reached yet.
-/

namespace ExternalStorage.Sync

open ExternalStorage.Model Library.Runs Library.Table

/-! ## When a write reaches the consumer -/

section Timely

variable {κ : Type*} [LinearOrder κ] (collate : String → κ) (cursor : Option SyncCursor)

/-- A row of this problem with this `updated_at` is beyond the cursor. -/
def beyond (t : Timestamp) (externalId : String) : Bool :=
  match cursor with
  | none => true
  | some c => c.key collate < toLex (t, collate externalId)

def usageOf (db : Database) (externalId : String) : Option ProblemUsageRow :=
  db.problemUsage.find? fun u => u.problemId = externalId

/-- Usage observed at `t` brings the problem beyond the cursor. -/
def UsageBeyond (db : Database) (externalId : String) (t : Timestamp) : Prop :=
  ∀ p ∈ db.problems, p.externalId = externalId →
    beyond collate cursor (max p.observedAt t) externalId = true

/-- A problem observed at `t` is beyond the cursor with its usage. -/
def ProblemBeyond (db : Database) (externalId : String) (t : Timestamp) : Prop :=
  beyond collate cursor
    (match usageOf db externalId with | none => t | some u => max t u.observedAt)
    externalId = true

def Pending (db : Database) (P : SyncRow → Prop) : Prop :=
  ∀ r ∈ syncRows db, P r → afterCursor collate cursor r = true

def mirrors (externalId : String) (p : ProblemRow) : Prop :=
  p.mirrorOf = some externalId ∨ p.mirrorRoot = some externalId

def orphanClaimed (code : String) (db : Database) : Prop :=
  ∃ p ∈ db.problems, Catalog.isOrphanOf code p = true

def ClaimTimely (e : CatalogEntry) (db : Database) : Prop :=
  orphanClaimed e.code db →
    Pending collate cursor db fun r => mirrors (orphanId e.code) r.p

def claimedUsage (e : CatalogEntry) (db : Database) : Option ProblemUsageRow :=
  db.problemUsage.find? fun u =>
    renamed (orphanId e.code) e.externalId u.problemId = e.externalId

def Replayed (idempotencyKey : String) (db : Database) : Prop :=
  ∃ k ∈ db.idempotencyKeys, k.idempotencyKey = idempotencyKey ∧ k.scope = "problem.dirty"

def Timely (now : Timestamp) (db : Database) : Write → Prop
  | .upsertProblem e =>
      beyond collate cursor now e.externalId = true ∧ ClaimTimely collate cursor e db
  | .markMissingOutsideCatalog externalIds =>
      externalIds ≠ [] → ∀ p ∈ db.problems,
        p.catalogState.live = true → p.externalId ∉ externalIds →
          ProblemBeyond collate cursor db p.externalId now
  | .clearDirtyForMissingLocal =>
      ∀ p ∈ db.problems, dirtyWithoutCopy db p = true →
        ProblemBeyond collate cursor db p.externalId now
  | .markProblemDirty externalId => ProblemBeyond collate cursor db externalId now
  | .markDirtyIfNoReady externalId =>
      ∀ p ∈ db.problems, cleanWithoutReady db externalId p = true →
        ProblemBeyond collate cursor db externalId now
  | .markProblemDirtyIdempotent idempotencyKey _ _ e _ =>
      ClaimTimely collate cursor e db ∧
        (¬ Replayed idempotencyKey db → beyond collate cursor now e.externalId = true) ∧
        -- A replay may still claim the orphan, and does not touch it.
        (Replayed idempotencyKey db → ∀ o ∈ db.problems, Catalog.isOrphanOf e.code o = true →
          beyond collate cursor (SyncRow.updatedAt ⟨o, claimedUsage e db⟩) e.externalId = true)
  | .clearDirtyAfterSnapshotForJob externalId generation dirtyVersion =>
      ∀ p ∈ db.problems, p.externalId = externalId →
        shouldClearDirtyAfterSnapshot p.dirty p.dirtyGeneration p.dirtyVersion generation
          dirtyVersion = true → ProblemBeyond collate cursor db externalId now
  | .upsertProblemUsage externalId usage =>
      UsageBeyond collate cursor db externalId (usage.observedAt.getD now)
  | .markLocalPresentForJob problemId _ | .scannedUsage problemId _ _ |
    .upsertMissingUsage problemId | .markLocalVerified problemId _ =>
      UsageBeyond collate cursor db problemId now
  | .createRestoreJobIfMissing problemId missingObservedAt =>
      presentSince problemId missingObservedAt db.problemUsage = false →
        ∀ r ∈ syncRows db, r.p.externalId = problemId →
          beyond collate cursor (max r.updatedAt missingObservedAt) problemId = true
  | .touchProblemAccess problemId =>
      Pending collate cursor db fun r => r.p.externalId = problemId ∧ r.pu ≠ none
  | .trackSnapshotJob problemId =>
      usageOf db problemId = none → UsageBeyond collate cursor db problemId now
  | .finalizeSnapshotCas a =>
      ∀ p ∈ db.problems, p.externalId = a.problemId →
        beyond collate cursor
          (if shouldClearDirtyAfterSnapshot p.dirty p.dirtyGeneration p.dirtyVersion a.generation
              a.expectedDirtyVersion then now else max p.observedAt now) a.problemId = true
  | .acquireDirtySnapshotJobByCode code _ _ _ _ =>
      ∀ p ∈ db.problems, p.code = code → p.catalogState.listed = true →
        ProblemBeyond collate cursor db p.externalId now
  | .scannedProblem e state =>
      state = .orphan ∧ (∃ p ∈ db.problems, p.externalId = e.externalId ∨ p.code = e.code) ∨
        ProblemBeyond collate cursor db e.externalId now
  | .deleteOrphanUsage code =>
      ∀ r ∈ syncRows db, r.p.externalId = orphanId code → r.pu ≠ none →
        beyond collate cursor r.p.observedAt (orphanId code) = true
  | .deleteOrphanProblem _ | .elsewhere _ => True
  | .upsertDiscoveredUsage code _ =>
      (∀ p ∈ db.problems, p.code = code → UsageBeyond collate cursor db p.externalId now) ∧
        ((∀ p ∈ db.problems, p.externalId ≠ orphanId code ∧ p.code ≠ code) →
          beyond collate cursor now (orphanId code) = true)
  | .markStale code =>
      Pending collate cursor db fun r => r.p.code = code ∧ ∃ u ∈ r.pu, u.stale = false
  | .markLocalMissingByCode code =>
      ∀ p ∈ db.problems, p.code = code → p.catalogState.listed = true →
        UsageBeyond collate cursor db p.externalId now
  | .healUsageReadyProjection =>
      ∀ u ∈ db.problemUsage, ∀ s ∈ latestReady u.problemId db.snapshots,
        DataPlane.projectionBehind u s = true → UsageBeyond collate cursor db u.problemId now
  | .evictLocal q _ => UsageBeyond collate cursor db q.problemId now
  | .restoreSnapshot q _ => UsageBeyond collate cursor db q.problemId now

instance (db : Database) (externalId : String) (t : Timestamp) :
    Decidable (UsageBeyond collate cursor db externalId t) :=
  inferInstanceAs (Decidable (∀ p ∈ db.problems, p.externalId = externalId → _))

instance (db : Database) (externalId : String) (t : Timestamp) :
    Decidable (ProblemBeyond collate cursor db externalId t) :=
  inferInstanceAs (Decidable (_ = true))

instance (db : Database) (P : SyncRow → Prop) [DecidablePred P] :
    Decidable (Pending collate cursor db P) :=
  inferInstanceAs (Decidable (∀ r ∈ syncRows db, P r → _))

instance (externalId : String) : DecidablePred (mirrors externalId) :=
  fun p => inferInstanceAs (Decidable (p.mirrorOf = _ ∨ p.mirrorRoot = _))

instance (e : CatalogEntry) (db : Database) : Decidable (ClaimTimely collate cursor e db) :=
  have : Decidable (orphanClaimed e.code db) := inferInstanceAs (Decidable (∃ p ∈ db.problems, _))
  inferInstanceAs (Decidable (orphanClaimed e.code db → _))

instance (idempotencyKey : String) (db : Database) : Decidable (Replayed idempotencyKey db) :=
  inferInstanceAs (Decidable (∃ k ∈ db.idempotencyKeys, _))

instance (now : Timestamp) (db : Database) :
    (w : Write) → Decidable (Timely collate cursor now db w)
  | .upsertProblem _ | .markProblemDirtyIdempotent .. | .upsertDiscoveredUsage .. =>
      inferInstanceAs (Decidable (_ ∧ _))
  | .markMissingOutsideCatalog _ => inferInstanceAs (Decidable (_ ≠ [] → ∀ p ∈ db.problems, _))
  | .clearDirtyForMissingLocal | .markDirtyIfNoReady _ | .clearDirtyAfterSnapshotForJob .. |
    .finalizeSnapshotCas _ | .acquireDirtySnapshotJobByCode .. | .markLocalMissingByCode _ =>
      inferInstanceAs (Decidable (∀ p ∈ db.problems, _))
  | .markProblemDirty _ => inferInstanceAs (Decidable (ProblemBeyond ..))
  | .upsertProblemUsage .. | .markLocalPresentForJob .. | .scannedUsage .. |
    .upsertMissingUsage _ | .markLocalVerified .. | .evictLocal .. | .restoreSnapshot .. =>
      inferInstanceAs (Decidable (UsageBeyond ..))
  | .createRestoreJobIfMissing .. =>
      inferInstanceAs (Decidable (_ = false → ∀ r ∈ syncRows db, _))
  | .touchProblemAccess _ | .markStale _ => inferInstanceAs (Decidable (Pending ..))
  | .trackSnapshotJob _ => inferInstanceAs (Decidable (_ = none → UsageBeyond ..))
  | .scannedProblem .. => inferInstanceAs (Decidable (_ ∨ _))
  | .deleteOrphanUsage _ => inferInstanceAs (Decidable (∀ r ∈ syncRows db, _))
  | .healUsageReadyProjection => inferInstanceAs (Decidable (∀ u ∈ db.problemUsage, _))
  | .deleteOrphanProblem _ | .elsewhere _ => isTrue trivial

end Timely

/-! ## Rows after a write -/

section Leaves

variable {κ : Type*} [LinearOrder κ] {collate : String → κ} {cursor : Option SyncCursor}
  {db db' : Database}

theorem afterCursor_eq_beyond (r : SyncRow) :
    afterCursor collate cursor r = beyond collate cursor r.updatedAt r.p.externalId := by
  cases cursor <;> rfl

theorem beyond_mono {t t' : Timestamp} {externalId : String}
    (h : beyond collate cursor t externalId = true) (hle : t ≤ t') :
    beyond collate cursor t' externalId = true := by
  cases cursor with
  | none => rfl
  | some c =>
      simp only [beyond, decide_eq_true_eq] at h ⊢
      refine lt_of_lt_of_le h ?_
      rw [Prod.Lex.le_iff]
      rcases lt_or_eq_of_le hle with hlt | heq
      · exact .inl hlt
      · exact .inr ⟨heq, le_refl _⟩

theorem mem_syncRows {r : SyncRow} :
    r ∈ syncRows db ↔ ∃ p ∈ db.problems, r = ⟨p, usageOf db p.externalId⟩ := by
  simp only [syncRows, usageOf, List.mem_map, eq_comm]

def Leaves (collate : String → κ) (cursor : Option SyncCursor) (db db' : Database) : Prop :=
  ∀ r ∈ syncRows db', r ∈ syncRows db ∨ afterCursor collate cursor r = true

theorem leaves_of_problems
    (h : ∀ p ∈ db'.problems,
      p ∈ db.problems ∧ usageOf db' p.externalId = usageOf db p.externalId ∨
        afterCursor collate cursor ⟨p, usageOf db' p.externalId⟩ = true) :
    Leaves collate cursor db db' := by
  intro r hr
  obtain ⟨p, hp, rfl⟩ := mem_syncRows.mp hr
  rcases h p hp with ⟨hold, husage⟩ | hbeyond
  · left
    rw [husage]
    exact mem_syncRows.mpr ⟨p, hold, rfl⟩
  · exact .inr hbeyond

theorem leaves_refl (hproblems : db'.problems = db.problems)
    (husage : db'.problemUsage = db.problemUsage) : Leaves collate cursor db db' := by
  apply leaves_of_problems
  intro p hp
  rw [hproblems] at hp
  exact .inl ⟨hp, by rw [usageOf, husage]; rfl⟩

theorem afterCursor_usage {p : ProblemRow} {u : ProblemUsageRow} {t : Timestamp}
    (h : UsageBeyond collate cursor db p.externalId t) (hp : p ∈ db.problems)
    (hobserved : u.observedAt = t) : afterCursor collate cursor ⟨p, some u⟩ = true := by
  rw [afterCursor_eq_beyond]
  show beyond collate cursor (max p.observedAt u.observedAt) p.externalId = true
  rw [hobserved]
  exact h p hp rfl

theorem afterCursor_problem {p : ProblemRow} {t : Timestamp}
    (h : ProblemBeyond collate cursor db p.externalId t) (hobserved : p.observedAt = t) :
    afterCursor collate cursor ⟨p, usageOf db p.externalId⟩ = true := by
  rw [afterCursor_eq_beyond]
  unfold ProblemBeyond at h
  unfold SyncRow.updatedAt
  dsimp only
  rw [hobserved]
  cases hfound : usageOf db p.externalId with
  | none =>
      rw [hfound] at h
      exact h
  | some u =>
      rw [hfound] at h
      exact h

theorem leaves_upsertUsage {new : ProblemUsageRow} {merge : ProblemUsageRow → ProblemUsageRow}
    {t : Timestamp} (hid : ∀ u, (merge u).problemId = u.problemId)
    (hmerge : ∀ u, (merge u).observedAt = t) (hnew : new.observedAt = t)
    (h : UsageBeyond collate cursor db new.problemId t) :
    Leaves collate cursor db { db with
      problemUsage := upsertOn ProblemUsageRow.problemId new merge db.problemUsage } := by
  apply leaves_of_problems
  intro p hp
  have hlookup : (upsertOn ProblemUsageRow.problemId new merge db.problemUsage).find?
      (fun u => u.problemId = p.externalId) = _ := find?_upsertOn hid p.externalId
  by_cases htarget : p.externalId = new.problemId
  · right
    rw [if_pos htarget] at hlookup
    show afterCursor collate cursor ⟨p, List.find? _ _⟩ = true
    rw [hlookup]
    rw [← htarget] at h
    apply afterCursor_usage h hp
    cases db.problemUsage.find? fun u => u.problemId = p.externalId with
    | none => exact hnew
    | some u => exact hmerge u
  · rw [if_neg htarget] at hlookup
    exact .inl ⟨hp, hlookup⟩

/-- A statement on usage rows that changes them only where their problem comes beyond the
cursor. -/
theorem leaves_mapUsage {g : ProblemUsageRow → ProblemUsageRow}
    (hid : ∀ u, (g u).problemId = u.problemId)
    (h : ∀ p ∈ db.problems, ∀ u ∈ usageOf db p.externalId,
      g u = u ∨ afterCursor collate cursor ⟨p, some (g u)⟩ = true) :
    Leaves collate cursor db { db with problemUsage := db.problemUsage.map g } := by
  apply leaves_of_problems
  intro p hp
  have hlookup : usageOf { db with problemUsage := db.problemUsage.map g } p.externalId =
      (usageOf db p.externalId).map g := by
    simp only [usageOf, List.find?_map, Function.comp_def, hid]
  rw [hlookup]
  cases hfound : usageOf db p.externalId with
  | none => exact .inl ⟨hp, rfl⟩
  | some u =>
      rw [Option.map_some]
      rcases h p hp u hfound with hsame | hbeyond
      · rw [hsame]
        exact .inl ⟨hp, rfl⟩
      · exact .inr hbeyond

theorem leaves_updateUsage {q : ProblemUsageRow → Bool} {f : ProblemUsageRow → ProblemUsageRow}
    {t : Timestamp} (hid : ∀ u, (f u).problemId = u.problemId)
    (hobserved : ∀ u, (f u).observedAt = t)
    (h : ∀ p ∈ db.problems, ∀ u ∈ usageOf db p.externalId, q u = true →
      UsageBeyond collate cursor db p.externalId t) :
    Leaves collate cursor db { db with problemUsage := updateWhere q f db.problemUsage } := by
  apply leaves_mapUsage
  · intro u
    split
    · exact hid u
    · rfl
  · intro p hp u hu
    split
    · rename_i hq
      exact .inr (afterCursor_usage (h p hp u hu hq) hp (hobserved u))
    · exact .inl rfl

theorem leaves_updateUsage_silently {q : ProblemUsageRow → Bool}
    {f : ProblemUsageRow → ProblemUsageRow} (hid : ∀ u, (f u).problemId = u.problemId)
    (hobserved : ∀ u, (f u).observedAt = u.observedAt)
    (h : ∀ p ∈ db.problems, ∀ u ∈ usageOf db p.externalId, q u = true →
      f u = u ∨ afterCursor collate cursor ⟨p, some u⟩ = true) :
    Leaves collate cursor db { db with problemUsage := updateWhere q f db.problemUsage } := by
  apply leaves_mapUsage
  · intro u
    split
    · exact hid u
    · rfl
  · intro p hp u hu
    split
    · rename_i hq
      rcases h p hp u hu hq with hsame | hpending
      · exact .inl hsame
      · right
        rw [afterCursor_eq_beyond] at hpending ⊢
        have hupdated : (⟨p, some (f u)⟩ : SyncRow).updatedAt =
            (⟨p, some u⟩ : SyncRow).updatedAt :=
          congrArg (max p.observedAt) (hobserved u)
        rw [hupdated]
        exact hpending
    · exact .inl rfl

theorem problemId_of_usageOf {externalId : String} {u : ProblemUsageRow}
    (h : u ∈ usageOf db externalId) : u ∈ db.problemUsage ∧ u.problemId = externalId :=
  ⟨List.mem_of_find?_eq_some h, by simpa using List.find?_some h⟩

theorem row_of_usageOf {p : ProblemRow} {u : ProblemUsageRow} (hp : p ∈ db.problems)
    (h : u ∈ usageOf db p.externalId) : (⟨p, some u⟩ : SyncRow) ∈ syncRows db := by
  have h : usageOf db p.externalId = some u := h
  rw [← h]
  exact mem_syncRows.mpr ⟨p, hp, rfl⟩

theorem leaves_updateProblems {q : ProblemRow → Bool} {f : ProblemRow → ProblemRow}
    {t : Timestamp} (hid : ∀ p, (f p).externalId = p.externalId)
    (hobserved : ∀ p, (f p).observedAt = t)
    (h : ∀ p ∈ db.problems, q p = true → ProblemBeyond collate cursor db p.externalId t)
    (hproblems : db'.problems = updateWhere q f db.problems)
    (husage : db'.problemUsage = db.problemUsage) : Leaves collate cursor db db' := by
  apply leaves_of_problems
  intro p hp
  rw [hproblems] at hp
  have hsame : usageOf db' p.externalId = usageOf db p.externalId := by
    rw [usageOf, husage]
    rfl
  rw [hsame]
  obtain ⟨p₀, hp₀, rfl⟩ := mem_updateWhere.mp hp
  by_cases hq : q p₀ = true
  · right
    rw [if_pos hq]
    apply afterCursor_problem _ (hobserved p₀)
    rw [hid]
    exact h p₀ hp₀ hq
  · left
    rw [if_neg hq]
    exact ⟨hp₀, rfl⟩

theorem leaves_upsertProblems {new : ProblemRow} {merge : ProblemRow → ProblemRow} {t : Timestamp}
    (hid : ∀ p, (merge p).externalId = p.externalId) (hmerge : ∀ p, (merge p).observedAt = t)
    (hnew : new.observedAt = t) (h : ProblemBeyond collate cursor db new.externalId t)
    (hproblems : db'.problems = upsertOn ProblemRow.externalId new merge db.problems)
    (husage : db'.problemUsage = db.problemUsage) : Leaves collate cursor db db' := by
  apply leaves_of_problems
  intro p hp
  have hsame : usageOf db' p.externalId = usageOf db p.externalId := by
    rw [usageOf, husage]
    rfl
  rw [hsame]
  rw [hproblems] at hp
  rcases mem_upsertOn.mp hp with ⟨hold, -⟩ | ⟨p₀, -, hkey, rfl⟩ | ⟨rfl, -⟩
  · exact .inl ⟨hold, rfl⟩
  · right
    apply afterCursor_problem _ (hmerge p₀)
    rw [hid, hkey]
    exact h
  · exact .inr (afterCursor_problem h hnew)

/-! ## The writes one by one -/

variable {now : Timestamp}

theorem leaves_markMissingOutsideCatalog {externalIds : List String}
    (h : Timely collate cursor now db (.markMissingOutsideCatalog externalIds)) :
    Leaves collate cursor db (markMissingOutsideCatalog now externalIds db) := by
  unfold markMissingOutsideCatalog
  split
  · exact leaves_refl rfl rfl
  · rename_i hsome
    refine leaves_updateProblems (t := now) (by intro p; rfl) (by intro p; rfl) ?_ rfl rfl
    intro p hp hq
    simp only [Bool.and_eq_true, Bool.not_eq_true', List.contains_eq_mem,
      decide_eq_false_iff_not] at hq
    refine h ?_ p hp hq.1 hq.2
    rintro rfl
    exact hsome rfl

theorem leaves_markDirtyIfNoReady {externalId : String}
    (hids : (db.problems.map ProblemRow.externalId).Nodup)
    (h : Timely collate cursor now db (.markDirtyIfNoReady externalId)) :
    Leaves collate cursor db (markDirtyIfNoReady now externalId db).1 := by
  unfold markDirtyIfNoReady
  split
  · rename_i hany
    obtain ⟨p₁, hp₁, hclean⟩ := List.any_eq_true.mp hany
    have hbeyond := h p₁ hp₁ hclean
    have hid₁ : p₁.externalId = externalId := by
      simp only [cleanWithoutReady, Bool.and_eq_true, decide_eq_true_eq] at hclean
      exact hclean.1.1.1
    -- The second update is for the row of the first: it has the id, and it is dirty.
    refine leaves_updateProblems (q := cleanWithoutReady db externalId)
      (f := fun p => { p with
        dirty := true, stale := true, observedAt := now
        dirtyGeneration := some (allocateGeneration externalId db.problemGenerationCounters).2 })
      (t := now) (by intro p; rfl) (by intro p; rfl) ?_ ?_ rfl
    · intro p hp hq
      have hid : p.externalId = externalId := by
        simp only [cleanWithoutReady, Bool.and_eq_true, decide_eq_true_eq] at hq
        exact hq.1.1.1
      rw [hid]
      exact hbeyond
    · show updateWhere _ _ (updateWhere _ _ db.problems) = _
      rw [updateWhere_updateWhere]
      apply List.map_congr_left
      intro p hp
      by_cases hq : cleanWithoutReady db externalId p = true
      · have hid : p.externalId = externalId := by
          simp only [cleanWithoutReady, Bool.and_eq_true, decide_eq_true_eq] at hq
          exact hq.1.1.1
        simp [hq, hid]
      · have hother : p.externalId ≠ externalId := by
          intro hid
          rw [List.inj_on_of_nodup_map hids hp hp₁ (hid.trans hid₁.symm)] at hq
          exact hq hclean
        simp [hq, hother]
  · exact leaves_refl rfl rfl

theorem leaves_createRestoreJobIfMissing {problemId : String} {missingObservedAt : Timestamp}
    (h : Timely collate cursor now db (.createRestoreJobIfMissing problemId missingObservedAt)) :
    Leaves collate cursor db { db with
      problemUsage :=
        if presentSince problemId missingObservedAt db.problemUsage then db.problemUsage
        else markMissingForRestore problemId missingObservedAt db.problemUsage } := by
  split
  · exact leaves_refl rfl rfl
  · rename_i hmissing
    rw [Bool.not_eq_true] at hmissing
    apply leaves_of_problems
    intro p hp
    unfold usageOf
    dsimp only
    rw [markMissingForRestore, find?_upsertOn (by intro u; rfl)]
    split
    · rename_i hid
      right
      have hbeyond := h hmissing _ (mem_syncRows.mpr ⟨p, hp, rfl⟩) hid
      rw [afterCursor_eq_beyond]
      have hid : p.externalId = problemId := hid
      dsimp only
      rw [hid] at hbeyond ⊢
      apply beyond_mono hbeyond
      unfold SyncRow.updatedAt usageOf
      dsimp only
      rw [← hid]
      cases db.problemUsage.find? fun u => u.problemId = p.externalId with
      | none =>
          show max p.observedAt missingObservedAt ≤ max p.observedAt missingObservedAt
          exact le_refl _
      | some u =>
          show max (max p.observedAt u.observedAt) missingObservedAt ≤
            max p.observedAt (max u.observedAt missingObservedAt)
          rw [max_assoc]
    · exact .inl ⟨hp, rfl⟩

theorem leaves_touchProblemAccess {problemId : String}
    (h : Timely collate cursor now db (.touchProblemAccess problemId)) :
    Leaves collate cursor db (touchProblemAccess now problemId db) := by
  show Leaves collate cursor db { db with problemUsage := updateWhere _ _ db.problemUsage }
  refine leaves_updateUsage_silently (by intro u; rfl) (by intro u; rfl) ?_
  intro p hp u hu hq
  right
  obtain ⟨-, hid⟩ := problemId_of_usageOf hu
  refine h _ (row_of_usageOf hp hu) ⟨?_, by simp⟩
  rw [← hid]
  exact of_decide_eq_true hq

theorem leaves_trackedUsage {problemId : String}
    (h : Timely collate cursor now db (.trackSnapshotJob problemId)) :
    Leaves collate cursor db { db with
      problemUsage := trackedUsage now problemId db.problemUsage } := by
  apply leaves_of_problems
  intro p hp
  unfold usageOf
  dsimp only
  rw [trackedUsage, find?_upsertOn (by intro u; rfl)]
  split
  · rename_i hid
    have hid : p.externalId = problemId := hid
    cases hfound : db.problemUsage.find? fun u => u.problemId = p.externalId with
    | none =>
        right
        have hbeyond := h (by rw [← hid]; exact hfound)
        rw [← hid] at hbeyond
        exact afterCursor_usage hbeyond hp rfl
    | some u => exact .inl ⟨hp, rfl⟩
  · exact .inl ⟨hp, rfl⟩

theorem leaves_markStale {code : String}
    (h : Timely collate cursor now db (.markStale code))
    (hids : (db.problems.map ProblemRow.externalId).Nodup) :
    Leaves collate cursor db (DataPlane.markStale code db) := by
  show Leaves collate cursor db { db with problemUsage := updateWhere _ _ db.problemUsage }
  refine leaves_updateUsage_silently (by intro u; rfl) (by intro u; rfl) ?_
  intro p hp u hu hq
  obtain ⟨-, hid⟩ := problemId_of_usageOf hu
  obtain ⟨p', hp', hmatch⟩ := List.any_eq_true.mp hq
  simp only [Bool.and_eq_true, decide_eq_true_eq] at hmatch
  have hsame : p' = p := List.inj_on_of_nodup_map hids hp' hp (hmatch.1.trans hid)
  subst hsame
  cases hstale : u.stale with
  | true =>
      left
      cases u
      simp_all
  | false =>
      right
      exact h _ (row_of_usageOf hp hu) ⟨hmatch.2, u, rfl, hstale⟩

theorem leaves_markLocalMissingByCode {code : String}
    (h : Timely collate cursor now db (.markLocalMissingByCode code))
    (hids : (db.problems.map ProblemRow.externalId).Nodup) :
    Leaves collate cursor db (DataPlane.markLocalMissingByCode now code db) := by
  show Leaves collate cursor db { db with problemUsage := updateWhere _ _ db.problemUsage }
  refine leaves_updateUsage (t := now) (by intro u; rfl) (by intro u; rfl) ?_
  intro p hp u hu hq
  obtain ⟨-, hid⟩ := problemId_of_usageOf hu
  obtain ⟨p', hp', hmatch⟩ := List.any_eq_true.mp hq
  simp only [Bool.and_eq_true, Bool.or_eq_true, decide_eq_true_eq] at hmatch
  obtain ⟨⟨hpid, hcode⟩, hstate⟩ := hmatch
  have hsame : p' = p := List.inj_on_of_nodup_map hids hp' hp (hpid.trans hid)
  subst hsame
  apply h p' hp hcode
  rcases hstate with hstate | hstate <;> rw [hstate] <;> rfl

theorem leaves_healUsageReadyProjection
    (h : Timely collate cursor now db .healUsageReadyProjection) :
    Leaves collate cursor db (DataPlane.healUsageReadyProjection now db) := by
  show Leaves collate cursor db { db with problemUsage := db.problemUsage.map _ }
  apply leaves_mapUsage
  · intro u
    split
    · rfl
    · split <;> rfl
  · intro p hp u hu
    obtain ⟨hmem, hid⟩ := problemId_of_usageOf hu
    split
    · exact .inl rfl
    · rename_i s hs
      split
      · rename_i hbehind
        right
        have hbeyond := h u hmem s hs hbehind
        rw [hid] at hbeyond
        exact afterCursor_usage hbeyond hp rfl
      · exact .inl rfl

theorem leaves_finalized {a : FinalizeArgs}
    (h : Timely collate cursor now db (.finalizeSnapshotCas a)) :
    Leaves collate cursor db (finalized now a db) := by
  have hlookup : ∀ externalId, usageOf (finalized now a db) externalId =
      (usageOf db externalId).map fun u =>
        if usageBehind a.problemId a.generation u then
          { u with
            r2Status := .ready, snapshotGeneration := some a.generation, observedAt := now
            stale := false }
        else u :=
    fun externalId => find?_key_updateWhere (by intro u; rfl) db.problemUsage
  have hproblems : ∀ p ∈ (finalized now a db).problems,
      p.externalId = a.problemId ∧ p.observedAt = now ∧
          beyond collate cursor now p.externalId = true ∨
        p ∈ db.problems ∧ (p.externalId = a.problemId →
          beyond collate cursor (max p.observedAt now) p.externalId = true) := by
    intro p hp
    have hcases : ∃ p₀ ∈ db.problems, p = p₀ ∧ ¬ (p₀.externalId = a.problemId ∧
          shouldClearDirtyAfterSnapshot p₀.dirty p₀.dirtyGeneration p₀.dirtyVersion a.generation
            a.expectedDirtyVersion = true) ∨
        p₀.externalId = a.problemId ∧ p.externalId = p₀.externalId ∧ p.observedAt = now ∧
          shouldClearDirtyAfterSnapshot p₀.dirty p₀.dirtyGeneration p₀.dirtyVersion a.generation
            a.expectedDirtyVersion = true := by
      dsimp only [finalized] at hp
      split at hp
      · rename_i hnone
        refine ⟨p, hp, .inl ⟨rfl, ?_⟩⟩
        rintro ⟨-, hclear⟩
        simp [shouldClearDirtyAfterSnapshot, hnone] at hclear
      · obtain ⟨p₀, hp₀, rfl⟩ := mem_updateWhere.mp hp
        refine ⟨p₀, hp₀, ?_⟩
        split
        · rename_i hq
          simp only [Bool.and_eq_true, decide_eq_true_eq] at hq
          exact .inr ⟨hq.1, rfl, rfl, hq.2⟩
        · rename_i hq
          simp only [Bool.and_eq_true, decide_eq_true_eq] at hq
          exact .inl ⟨rfl, hq⟩
    obtain ⟨p₀, hp₀, ⟨rfl, hkept⟩ | ⟨hid, hsame, hobserved, hclear⟩⟩ := hcases
    · right
      refine ⟨hp₀, ?_⟩
      intro hid
      have hbeyond := h p hp₀ hid
      rw [if_neg fun hclear => hkept ⟨hid, hclear⟩, ← hid] at hbeyond
      exact hbeyond
    · left
      have hbeyond := h p₀ hp₀ hid
      rw [if_pos hclear] at hbeyond
      rw [hsame, hid]
      exact ⟨rfl, hobserved, hbeyond⟩
  apply leaves_of_problems
  intro p hp
  rw [hlookup]
  rcases hproblems p hp with ⟨hid, hobserved, hbeyond⟩ | ⟨hold, hbeyond⟩
  · right
    rw [afterCursor_eq_beyond]
    apply beyond_mono hbeyond
    unfold SyncRow.updatedAt
    split
    · exact hobserved.ge
    · exact hobserved.ge.trans (le_max_left _ _)
  · cases hfound : usageOf db p.externalId with
    | none => exact .inl ⟨hold, rfl⟩
    | some u =>
        rw [Option.map_some]
        by_cases hq : usageBehind a.problemId a.generation u = true
        · right
          rw [if_pos hq]
          have hq' := hq
          simp only [usageBehind, Bool.and_eq_true, decide_eq_true_eq] at hq'
          have hid : p.externalId = a.problemId :=
            (problemId_of_usageOf hfound).2.symm.trans hq'.1
          rw [afterCursor_eq_beyond]
          exact hbeyond hid
        · left
          rw [if_neg hq]
          exact ⟨hold, rfl⟩

theorem leaves_acquireDirtySnapshotJobByCode {code owner : String} {leaseSeconds : Int}
    {id : Uuid} {millis : Int} {tokens : Option WatcherTokens} {job : Option DirtySnapshotJob}
    (h : Timely collate cursor now db
      (.acquireDirtySnapshotJobByCode code owner leaseSeconds id millis))
    (hrun : acquireDirtySnapshotJobByCode now code owner leaseSeconds id millis db =
      .ok (db', tokens, job)) : Leaves collate cursor db db' := by
  rcases acquireDirtySnapshotJob_cases hrun with ⟨rfl, -⟩ | ⟨target, marked, htarget, -, hdb⟩
  · exact leaves_refl rfl rfl
  · unfold acquireDirtySnapshotTarget at htarget
    obtain ⟨p, hp, htarget⟩ := Option.bind_eq_some_iff.mp htarget
    obtain ⟨-, rfl⟩ := Prod.mk.inj (Option.some.inj htarget)
    have hfound := List.find?_some hp
    simp only [Bool.and_eq_true, Bool.or_eq_true, decide_eq_true_eq] at hfound
    have hlisted : p.catalogState.listed = true := by
      rcases hfound.2 with hstate | hstate <;> rw [hstate] <;> rfl
    have hbeyond := h p (List.mem_of_find?_eq_some hp) hfound.1 hlisted
    refine leaves_updateProblems (q := fun q => q.externalId = p.externalId) (t := now)
      (f := ProblemRow.watched now (nextGeneration (allocGeneration p.externalId
        (maxGeneration db p.externalId) db.problemGenerationCounters) p.externalId - 1))
      (by intro q; rfl) (by intro q; rfl) ?_ ?_ ?_
    · intro q _ hq
      rw [of_decide_eq_true hq]
      exact hbeyond
    · rcases hdb with rfl | rfl <;> rfl
    · rcases hdb with rfl | rfl <;> rfl

theorem leaves_scannedProblem {e : CatalogEntry} {state : CatalogState}
    (h : Timely collate cursor now db (.scannedProblem e state))
    (hrun : DataPlane.upsertProblem now e state db = .ok db') :
    Leaves collate cursor db db' := by
  unfold DataPlane.upsertProblem at hrun
  dsimp only at hrun
  split at hrun
  · split at hrun
    · cases hrun
      exact leaves_refl rfl rfl
    · rename_i hfree
      cases hrun
      simp only [List.any_eq_true, Bool.or_eq_true, decide_eq_true_eq] at hfree
      have hbeyond := h.resolve_left fun hconflict => hfree hconflict.2
      apply leaves_of_problems
      intro p hp
      rcases List.mem_append.mp hp with hold | hnew
      · exact .inl ⟨hold, rfl⟩
      · obtain rfl := List.mem_singleton.mp hnew
        exact .inr (afterCursor_problem hbeyond rfl)
  · rename_i hstate
    split at hrun
    · cases hrun
    · cases hrun
      have hbeyond := h.resolve_left fun hconflict => hstate hconflict.1
      exact leaves_upsertProblems (by intro p; rfl) (by intro p; rfl) rfl hbeyond rfl rfl

theorem leaves_deleteOrphanUsage {code : String}
    (h : Timely collate cursor now db (.deleteOrphanUsage code)) :
    Leaves collate cursor db (DataPlane.deleteOrphanUsage code db) := by
  apply leaves_of_problems
  intro p hp
  have hp : p ∈ db.problems := hp
  by_cases hid : p.externalId = orphanId code
  · cases hfound : usageOf db p.externalId with
    | none =>
        left
        refine ⟨hp, List.find?_eq_none.mpr ?_⟩
        intro u hu
        exact List.find?_eq_none.mp hfound u (mem_deleteWhere.mp hu).1
    | some u =>
        right
        have hbeyond := h _ (row_of_usageOf hp hfound) hid (by simp)
        rw [afterCursor_eq_beyond]
        dsimp only at hbeyond ⊢
        rw [hid]
        apply beyond_mono hbeyond
        unfold SyncRow.updatedAt
        split
        · exact le_refl _
        · exact le_max_left _ _
  · exact .inl ⟨hp, find?_deleteWhere hid db.problemUsage⟩

theorem leaves_deleteOrphanProblem {code : String}
    (hids : (db.problems.map ProblemRow.externalId).Nodup)
    (hrun : DataPlane.deleteOrphanProblem code db = some db') :
    Leaves collate cursor db db' := by
  unfold DataPlane.deleteOrphanProblem at hrun
  dsimp only at hrun
  split at hrun
  · rename_i horphan
    obtain ⟨o, ho, horphan⟩ := List.any_eq_true.mp horphan
    simp only [Bool.and_eq_true, decide_eq_true_eq] at horphan
    split at hrun
    · cases hrun
    · cases hrun
      apply leaves_of_problems
      intro p hp
      obtain ⟨hold, hkept⟩ := mem_deleteWhere.mp hp
      have hid : p.externalId ≠ orphanId code := by
        intro hid
        have hsame : p = o := List.inj_on_of_nodup_map hids hold ho (hid.trans horphan.1.symm)
        rw [hsame] at hkept
        simp [horphan] at hkept
      exact .inl ⟨hold, find?_deleteWhere hid db.problemUsage⟩
  · cases hrun
    exact leaves_refl rfl rfl

theorem find?_scannedUsage (problemId : String) (scan : ScanResult) (localStatus : LocalStatus)
    (rows : List ProblemUsageRow) (k : String) :
    ((DataPlane.upsertProblemUsage now problemId scan localStatus rows).find? fun u =>
        u.problemId = k) =
      if k = problemId then
        some (DataPlane.scannedUsage now scan localStatus
          ((rows.find? fun u => u.problemId = k).getD (defaultUsage now problemId)))
      else rows.find? fun u => u.problemId = k := by
  rw [DataPlane.upsertProblemUsage, find?_upsertOn (by intro u; simp),
    DataPlane.scannedUsage_problemId]
  split
  · rename_i hk
    have hk : k = problemId := hk
    rw [if_pos hk]
    cases rows.find? fun u => u.problemId = k <;> rfl
  · rename_i hk
    have hk : k ≠ problemId := hk
    rw [if_neg hk]

theorem leaves_upsertDiscoveredUsage {code : String} {scan : ScanResult}
    (h : Timely collate cursor now db (.upsertDiscoveredUsage code scan)) :
    Leaves collate cursor db (DataPlane.upsertDiscoveredUsage now code scan db) := by
  obtain ⟨howner, horphan⟩ := h
  unfold DataPlane.upsertDiscoveredUsage
  dsimp only
  split
  · exact leaves_refl rfl rfl
  · rename_i owner hfound
    have hcode : owner.code = code := by simpa using List.find?_some hfound
    have hmem := List.mem_of_find?_eq_some hfound
    apply leaves_of_problems
    intro p hp
    show p ∈ db.problems ∧ List.find? _ _ = _ ∨
      afterCursor collate cursor ⟨p, List.find? _ _⟩ = true
    rw [find?_scannedUsage]
    dsimp only at hp
    by_cases hknown : (db.problems.any fun p => p.externalId = orphanId code || p.code = code) = true
    · rw [if_pos hknown] at hp hmem
      by_cases hid : p.externalId = owner.externalId
      · right
        rw [if_pos hid]
        have hbeyond := howner owner hmem hcode
        rw [← hid] at hbeyond
        exact afterCursor_usage hbeyond hp (DataPlane.scannedUsage_observedAt _ _ _ _)
      · left
        rw [if_neg hid]
        exact ⟨hp, rfl⟩
    · rw [if_neg hknown] at hp hmem
      have hfree : ∀ p ∈ db.problems, p.externalId ≠ orphanId code ∧ p.code ≠ code := by
        simpa using hknown
      have hnew : owner.externalId = orphanId code := by
        rcases List.mem_append.mp hmem with hold | hnew
        · exact absurd hcode (hfree owner hold).2
        · rw [List.mem_singleton.mp hnew]
          rfl
      rcases List.mem_append.mp hp with hold | horphanRow
      · left
        rw [if_neg (by rw [hnew]; exact (hfree p hold).1)]
        exact ⟨hold, rfl⟩
      · right
        have hp := List.mem_singleton.mp horphanRow
        have hid : p.externalId = orphanId code := by rw [hp]; rfl
        have hobserved : p.observedAt = now := by rw [hp]; rfl
        rw [if_pos (hid.trans hnew.symm), afterCursor_eq_beyond]
        show beyond collate cursor (max p.observedAt _) p.externalId = true
        rw [hid, hobserved]
        exact beyond_mono (horphan hfree) (le_max_left _ _)

/-! ## The catalog writes -/

/-- A problem that a rekey does not rename, and that mirrors nothing that it renames, keeps
its row. -/
theorem rekeyed_eq_self {old new : String} {p : ProblemRow} (hid : p.externalId ≠ old)
    (hmirrors : ¬ mirrors old p) :
    { p with
      externalId := renamed old new p.externalId
      mirrorOf := p.mirrorOf.map (renamed old new)
      mirrorRoot := p.mirrorRoot.map (renamed old new) } = p := by
  have hkept : ∀ reference : Option String, reference ≠ some old →
      reference.map (renamed old new) = reference := by
    intro reference hne
    cases reference with
    | none => rfl
    | some id => exact congrArg some (Catalog.renamed_of_ne fun h => hne (congrArg some h))
  rw [hkept p.mirrorOf fun h => hmirrors (.inl h), hkept p.mirrorRoot fun h => hmirrors (.inr h),
    Catalog.renamed_of_ne hid]

theorem usageOf_rekeyProblem {old new externalId : String} (hold : externalId ≠ old)
    (hnew : externalId ≠ new) :
    usageOf (rekeyProblem old new db) externalId = usageOf db externalId := by
  have hsame : (fun u : ProblemUsageRow => decide (renamed old new u.problemId = externalId)) =
      fun u => decide (u.problemId = externalId) := by
    funext u
    rw [decide_eq_decide]
    unfold renamed
    split
    · rename_i hu
      rw [hu]
      exact ⟨fun h => absurd h.symm hnew, fun h => absurd h.symm hold⟩
    · exact Iff.rfl
  unfold usageOf rekeyProblem
  dsimp only
  rw [List.find?_map]
  show Option.map _ (db.problemUsage.find? fun u => renamed old new u.problemId = externalId) = _
  rw [hsame]
  cases hfound : db.problemUsage.find? fun u => u.problemId = externalId with
  | none => rfl
  | some u =>
      have hu : u.problemId = externalId := by simpa using List.find?_some hfound
      rw [Option.map_some, Catalog.renamed_of_ne (by rw [hu]; exact hold)]

/-- A claim leaves the problems other than that of the entry as they were, or beyond the
cursor. -/
def ClaimLeaves (collate : String → κ) (cursor : Option SyncCursor) (e : CatalogEntry)
    (db claimed : Database) : Prop :=
  ∀ p ∈ claimed.problems, p.externalId ≠ e.externalId →
    p ∈ db.problems ∧ usageOf claimed p.externalId = usageOf db p.externalId ∨
      afterCursor collate cursor ⟨p, usageOf claimed p.externalId⟩ = true

theorem claimLeaves_refl (e : CatalogEntry) : ClaimLeaves collate cursor e db db :=
  fun _ hp _ => .inl ⟨hp, rfl⟩

theorem usageOf_mergeUsage {orphan problemId externalId : String} (hother : externalId ≠ problemId)
    (usage : List ProblemUsageRow) :
    ((mergeUsage orphan problemId usage).find? fun u => u.problemId = externalId) =
      usage.find? fun u => u.problemId = externalId := by
  unfold mergeUsage
  split
  · rfl
  · rw [find?_upsertOn (by intro u; rfl), if_neg hother]

theorem claimLeaves_merged {e : CatalogEntry} {orphan : ProblemRow}
    (hunique : Catalog.UniqueProblems db.problems) (hmem : orphan ∈ db.problems)
    (horphan : Catalog.isOrphanOf e.code orphan = true) :
    ClaimLeaves collate cursor e db (Catalog.merged e db) := by
  obtain ⟨-, hid, hstate⟩ := Catalog.isOrphanOf_eq_true.mp horphan
  intro p hp hother
  left
  obtain ⟨hold, hkept⟩ := mem_deleteWhere.mp hp
  have hne : p.externalId ≠ orphanId e.code := by
    intro h
    rw [hunique.eq_of_id hold hmem (h.trans hid.symm)] at hkept
    simp [hid, hstate] at hkept
  refine ⟨hold, ?_⟩
  show (deleteWhere _ (mergeUsage _ _ _)).find? _ = _
  rw [find?_deleteWhere hne, usageOf_mergeUsage hother]
  rfl

theorem claimLeaves_rekeyed {e : CatalogEntry} {orphan : ProblemRow}
    (h : ClaimTimely collate cursor e db) (hmem : orphan ∈ db.problems)
    (horphan : Catalog.isOrphanOf e.code orphan = true) :
    ClaimLeaves collate cursor e db (rekeyProblem (orphanId e.code) e.externalId db) := by
  intro p hp hother
  obtain ⟨p₀, hp₀, rfl⟩ := List.mem_map.mp hp
  have hne : p₀.externalId ≠ orphanId e.code := by
    intro hid
    apply hother
    dsimp only
    rw [hid, Catalog.renamed_self]
  dsimp only at hother ⊢
  rw [Catalog.renamed_of_ne hne] at hother
  by_cases hmirrors : mirrors (orphanId e.code) p₀
  · right
    have hpending := h ⟨orphan, hmem, horphan⟩ _ (mem_syncRows.mpr ⟨p₀, hp₀, rfl⟩) hmirrors
    rw [afterCursor_eq_beyond] at hpending ⊢
    dsimp only at hpending ⊢
    rw [Catalog.renamed_of_ne hne, usageOf_rekeyProblem hne hother]
    exact hpending
  · left
    rw [rekeyed_eq_self hne hmirrors]
    refine ⟨hp₀, ?_⟩
    rw [Catalog.renamed_of_ne hne]
    exact usageOf_rekeyProblem hne hother

theorem leaves_claimed {e : CatalogEntry} {claimed : Database}
    (hclaim : ClaimLeaves collate cursor e db claimed)
    (hbeyond : beyond collate cursor now e.externalId = true)
    (hproblems : ∀ p ∈ db'.problems, p.externalId = e.externalId ∧ p.observedAt = now ∨
      p ∈ claimed.problems ∧ p.externalId ≠ e.externalId)
    (husage : db'.problemUsage = claimed.problemUsage) : Leaves collate cursor db db' := by
  apply leaves_of_problems
  intro p hp
  have hsame : usageOf db' p.externalId = usageOf claimed p.externalId := by
    rw [usageOf, husage]
    rfl
  rcases hproblems p hp with ⟨hid, hobserved⟩ | ⟨hold, hother⟩
  · right
    rw [afterCursor_eq_beyond]
    dsimp only
    rw [hid]
    apply beyond_mono hbeyond
    unfold SyncRow.updatedAt
    split
    · exact hobserved.ge
    · exact hobserved.ge.trans (le_max_left _ _)
  · rw [hsame]
    exact hclaim p hold hother

theorem mem_upsertOn_observed {e : CatalogEntry} {problems : List ProblemRow} {new p : ProblemRow}
    {merge : ProblemRow → ProblemRow} (hnew : new.externalId = e.externalId ∧ new.observedAt = now)
    (hmerge : ∀ p, (merge p).externalId = p.externalId ∧ (merge p).observedAt = now)
    (hp : p ∈ upsertOn ProblemRow.externalId new merge problems) :
    p.externalId = e.externalId ∧ p.observedAt = now ∨
      p ∈ problems ∧ p.externalId ≠ e.externalId := by
  rcases mem_upsertOn.mp hp with ⟨hold, hother⟩ | ⟨p₀, -, hkey, rfl⟩ | ⟨rfl, -⟩
  · rw [hnew.1] at hother
    exact .inr ⟨hold, hother⟩
  · exact .inl ⟨(hmerge p₀).1.trans (hkey.trans hnew.1), (hmerge p₀).2⟩
  · exact .inl hnew

theorem leaves_upsertProblem {e : CatalogEntry} (hunique : Catalog.UniqueProblems db.problems)
    (h : Timely collate cursor now db (.upsertProblem e))
    (hrun : upsertProblem now e db = .ok db') : Leaves collate cursor db db' := by
  obtain ⟨hbeyond, htimely⟩ := h
  obtain ⟨resolved, hresolved, -, rfl⟩ := Catalog.upsertProblem_eq_ok.mp hrun
  have hclaim : ClaimLeaves collate cursor e db resolved := by
    cases Catalog.finds e db.problems with
    | free hown =>
        rw [Catalog.resolveCode_free hown] at hresolved
        cases hresolved
        exact claimLeaves_refl e
    | merge orphan hmem horphan hother hstored =>
        obtain ⟨-, rfl⟩ :=
          (Catalog.resolveCode_merge_eq_ok hunique hmem horphan hother hstored).mp hresolved
        exact claimLeaves_merged hunique hmem horphan
    | rekey orphan hmem horphan hfresh =>
        rw [Catalog.resolveCode_rekey hunique hmem horphan hfresh] at hresolved
        cases hresolved
        exact claimLeaves_rekeyed htimely hmem horphan
    | foreign owner hmem hcode hother hforeign =>
        rw [Catalog.resolveCode_foreign hunique hmem hcode hother hforeign] at hresolved
        cases hresolved
  refine leaves_claimed hclaim hbeyond ?_ rfl
  intro p hp
  exact mem_upsertOn_observed ⟨rfl, rfl⟩ (by intro p; exact ⟨rfl, rfl⟩) hp

theorem replayed_iff {key : String} {db : Database} :
    Replayed key db ↔ ¬ Catalog.FreshKey key db := by
  simp only [Replayed, Catalog.FreshKey, not_forall, not_not, exists_prop]

theorem leaves_notifyProblem {e : CatalogEntry} {deleted : Bool} {claimed : Database}
    (hclaim : ClaimLeaves collate cursor e db claimed)
    (hbeyond : beyond collate cursor now e.externalId = true)
    (hproblems : db'.problems = (notifyProblem now e deleted claimed).problems)
    (husage : db'.problemUsage = (notifyProblem now e deleted claimed).problemUsage) :
    Leaves collate cursor db db' := by
  cases deleted with
  | true =>
      refine leaves_claimed hclaim hbeyond ?_ husage
      intro p hp
      rw [hproblems] at hp
      exact mem_upsertOn_observed ⟨rfl, rfl⟩ (by intro p; exact ⟨rfl, rfl⟩) hp
  | false =>
      refine leaves_claimed hclaim hbeyond ?_ husage
      intro p hp
      rw [hproblems] at hp
      obtain ⟨p₁, hp₁, rfl⟩ := mem_updateWhere.mp hp
      have hobserved : p₁.externalId = e.externalId ∧ p₁.observedAt = now ∨
          p₁ ∈ claimed.problems ∧ p₁.externalId ≠ e.externalId :=
        mem_upsertOn_observed ⟨rfl, rfl⟩ (by intro p; exact ⟨rfl, rfl⟩) hp₁
      split
      · rename_i hq
        simp only [Bool.and_eq_true, decide_eq_true_eq] at hq
        rcases hobserved with ⟨-, hnow⟩ | ⟨-, hother⟩
        · exact .inl ⟨hq.1, hnow⟩
        · exact absurd hq.1 hother
      · exact hobserved

theorem leaves_replayed {e : CatalogEntry} {orphan : ProblemRow}
    (hunique : Catalog.UniqueProblems db.problems)
    (hclaim : ClaimLeaves collate cursor e db (rekeyProblem (orphanId e.code) e.externalId db))
    (hmem : orphan ∈ db.problems) (horphan : Catalog.isOrphanOf e.code orphan = true)
    (hfresh : ¬ Catalog.Stored e.externalId db.problems)
    (hbeyond : beyond collate cursor (SyncRow.updatedAt ⟨orphan, claimedUsage e db⟩)
      e.externalId = true) :
    Leaves collate cursor db (rekeyProblem (orphanId e.code) e.externalId db) := by
  obtain ⟨-, hid, -⟩ := Catalog.isOrphanOf_eq_true.mp horphan
  apply leaves_of_problems
  intro p hp
  by_cases hown : p.externalId = e.externalId
  · right
    obtain ⟨p₀, hp₀, rfl⟩ := List.mem_map.mp hp
    have hown : renamed (orphanId e.code) e.externalId p₀.externalId = e.externalId := hown
    have hp₀id : p₀.externalId = orphanId e.code := by
      by_contra hne
      rw [Catalog.renamed_of_ne hne] at hown
      exact hfresh ⟨p₀, hp₀, hown⟩
    have hsame : p₀ = orphan := hunique.eq_of_id hp₀ hmem (hp₀id.trans hid.symm)
    have husage : usageOf (rekeyProblem (orphanId e.code) e.externalId db) e.externalId =
        (claimedUsage e db).map fun u =>
          { u with problemId := renamed (orphanId e.code) e.externalId u.problemId } := by
      unfold usageOf rekeyProblem
      dsimp only
      rw [List.find?_map]
      rfl
    rw [afterCursor_eq_beyond]
    dsimp only
    rw [hown, husage, hsame]
    unfold SyncRow.updatedAt at hbeyond ⊢
    dsimp only at hbeyond ⊢
    cases hfound : claimedUsage e db with
    | none =>
        rw [hfound] at hbeyond
        exact hbeyond
    | some u =>
        rw [hfound] at hbeyond
        exact hbeyond
  · exact hclaim p hp hown

theorem leaves_markProblemDirtyIdempotent {key actor fingerprint : String} {e : CatalogEntry}
    {deleted mutated : Bool} (hunique : Catalog.UniqueProblems db.problems)
    (h : Timely collate cursor now db
      (.markProblemDirtyIdempotent key actor fingerprint e deleted))
    (hrun : markProblemDirtyIdempotent now key actor fingerprint e deleted db = .ok (db', mutated)) :
    Leaves collate cursor db db' := by
  obtain ⟨htimely, hfreshBeyond, hreplayBeyond⟩ := h
  rw [replayed_iff, not_not] at hfreshBeyond
  rw [replayed_iff] at hreplayBeyond
  obtain ⟨claimed, hclaimed, hcases⟩ := Catalog.markProblemDirtyIdempotent_cases hrun
  cases Catalog.finds e db.problems with
  | free hown =>
      rw [Catalog.claimCode_free hown] at hclaimed
      cases hclaimed
      rcases hcases with ⟨-, rfl⟩ | ⟨hfresh, rfl⟩
      · exact leaves_refl rfl rfl
      · exact leaves_notifyProblem (claimLeaves_refl e) (hfreshBeyond hfresh) rfl rfl
  | merge orphan hmem horphan hother hstored =>
      rw [Catalog.claimCode_merge hunique hmem horphan hother hstored] at hclaimed
      cases hclaimed
  | rekey orphan hmem horphan hnew =>
      rw [Catalog.claimCode_rekey hunique hmem horphan hnew] at hclaimed
      cases hclaimed
      have hclaim := claimLeaves_rekeyed htimely hmem horphan
      rw [Catalog.freshKey_rekeyProblem] at hcases
      rcases hcases with ⟨hreplayed, rfl⟩ | ⟨hfresh, rfl⟩
      · exact leaves_replayed hunique hclaim hmem horphan hnew
          (hreplayBeyond hreplayed orphan hmem horphan)
      · exact leaves_notifyProblem hclaim (hfreshBeyond hfresh) rfl rfl
  | foreign owner hmem hcode hother hforeign =>
      rw [Catalog.claimCode_foreign hunique hmem hcode hother hforeign] at hclaimed
      cases hclaimed

/-! ## All of them -/

theorem leaves_of_timely {w : Write} (hunique : Catalog.UniqueProblems db.problems)
    (h : Timely collate cursor now db w) (hrun : w.run now db = some db') :
    Leaves collate cursor db db' := by
  cases w with
  | upsertProblem e => exact leaves_upsertProblem hunique h (toOption_eq_some.mp hrun)
  | markMissingOutsideCatalog externalIds =>
      obtain rfl := Option.some.inj hrun
      exact leaves_markMissingOutsideCatalog h
  | clearDirtyForMissingLocal =>
      obtain rfl := Option.some.inj hrun
      exact leaves_updateProblems (t := now) (by intro p; rfl) (by intro p; rfl) h rfl rfl
  | markProblemDirty externalId =>
      obtain rfl := Option.some.inj hrun
      refine leaves_updateProblems (t := now) (by intro p; rfl) (by intro p; rfl) ?_ rfl rfl
      intro p _ hq
      rw [of_decide_eq_true hq]
      exact h
  | markDirtyIfNoReady externalId =>
      obtain rfl := Option.some.inj hrun
      exact leaves_markDirtyIfNoReady hunique.ids h
  | markProblemDirtyIdempotent key actor fingerprint e deleted =>
      obtain ⟨⟨marked, mutated⟩, hok, rfl⟩ := Option.map_eq_some_iff.mp hrun
      exact leaves_markProblemDirtyIdempotent hunique h (toOption_eq_some.mp hok)
  | clearDirtyAfterSnapshotForJob externalId generation dirtyVersion =>
      cases dirtyVersion with
      | none =>
          obtain rfl := Option.some.inj hrun
          exact leaves_refl rfl rfl
      | some version =>
          obtain rfl := Option.some.inj hrun
          refine leaves_updateProblems (t := now) (by intro p; rfl) (by intro p; rfl) ?_ rfl rfl
          intro p hp hq
          simp only [Bool.and_eq_true, decide_eq_true_eq] at hq
          rw [hq.1]
          exact h p hp hq.1 hq.2
  | upsertProblemUsage externalId usage =>
      obtain rfl := Option.some.inj hrun
      exact leaves_upsertUsage (by intro u; rfl) (by intro u; rfl) rfl h
  | markLocalPresentForJob externalId generation =>
      obtain rfl := Option.some.inj hrun
      exact leaves_upsertUsage (by intro u; rfl) (by intro u; rfl) rfl h
  | createRestoreJobIfMissing problemId missingObservedAt =>
      obtain rfl := Option.some.inj hrun
      exact leaves_createRestoreJobIfMissing h
  | touchProblemAccess problemId =>
      obtain rfl := Option.some.inj hrun
      exact leaves_touchProblemAccess h
  | trackSnapshotJob problemId =>
      obtain rfl := Option.some.inj hrun
      exact leaves_trackedUsage h
  | finalizeSnapshotCas a =>
      obtain ⟨-, rfl⟩ := finalizeSnapshotCas_eq_ok (toOption_eq_some.mp hrun)
      exact leaves_finalized h
  | acquireDirtySnapshotJobByCode code owner leaseSeconds id millis =>
      obtain ⟨⟨acquired, tokens, job⟩, hok, rfl⟩ := Option.map_eq_some_iff.mp hrun
      exact leaves_acquireDirtySnapshotJobByCode h (toOption_eq_some.mp hok)
  | scannedProblem e state => exact leaves_scannedProblem h (toOption_eq_some.mp hrun)
  | deleteOrphanUsage code =>
      obtain rfl := Option.some.inj hrun
      exact leaves_deleteOrphanUsage h
  | deleteOrphanProblem code => exact leaves_deleteOrphanProblem hunique.ids hrun
  | upsertDiscoveredUsage code scan =>
      obtain rfl := Option.some.inj hrun
      exact leaves_upsertDiscoveredUsage h
  | scannedUsage problemId scan localStatus =>
      obtain rfl := Option.some.inj hrun
      dsimp only [DataPlane.upsertProblemUsage]
      apply leaves_upsertUsage (t := now)
      · intro u
        simp
      · intro u
        simp
      · simp
      · rw [DataPlane.scannedUsage_problemId]
        exact h
  | upsertMissingUsage problemId =>
      obtain rfl := Option.some.inj hrun
      dsimp only [DataPlane.upsertMissingUsage]
      apply leaves_upsertUsage (t := now)
      · intro u
        rfl
      · intro u
        rfl
      · rfl
      · exact h
  | markStale code =>
      obtain rfl := Option.some.inj hrun
      exact leaves_markStale h hunique.ids
  | markLocalMissingByCode code =>
      obtain rfl := Option.some.inj hrun
      exact leaves_markLocalMissingByCode h hunique.ids
  | healUsageReadyProjection =>
      obtain rfl := Option.some.inj hrun
      exact leaves_healUsageReadyProjection h
  | markLocalVerified problemId generation =>
      obtain rfl := Option.some.inj hrun
      refine leaves_updateUsage (t := now) (by intro u; rfl) (by intro u; rfl) ?_
      intro p _ u hu hq
      rw [← (problemId_of_usageOf hu).2, of_decide_eq_true hq]
      exact h
  | evictLocal q scan =>
      obtain ⟨generation, -, rfl⟩ := Option.map_eq_some_iff.mp hrun
      refine leaves_updateUsage (t := now) (by intro u; rfl) (by intro u; rfl) ?_
      intro p _ u hu hq
      simp only [Bool.and_eq_true, decide_eq_true_eq] at hq
      rw [← (problemId_of_usageOf hu).2, hq.1.1]
      exact h
  | restoreSnapshot q folder =>
      obtain ⟨-, -, rfl⟩ := Option.map_eq_some_iff.mp hrun
      refine leaves_updateUsage (t := now) (by intro u; rfl) (by intro u; rfl) ?_
      intro p _ u hu hq
      rw [← (problemId_of_usageOf hu).2, of_decide_eq_true hq]
      exact h
  | elsewhere other =>
      obtain rfl := Option.some.inj hrun
      exact leaves_refl rfl rfl

end Leaves

end ExternalStorage.Sync
