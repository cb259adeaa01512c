import ExternalStorage.Model.Usage
import ExternalStorage.Snapshot.Lifecycle

/-!
# The projection of the READY snapshots

`problem_usage` says again which generation of a problem is READY.  Finalization writes it
and the scans of the data plane keep it, while `upsertProblemUsage` puts the defaults of
its arguments into the two columns, and `markLocalPresentForJob` the generation of a job.
-/

namespace ExternalStorage.Snapshot

open ExternalStorage.Model Library.Runs Library.Table

/-! ## The machine of the writers -/

def readyKeys (rows : List SnapshotRow) : List (String × Int) :=
  (readyRows rows).map fun s => (s.problemId, s.generation)

/-- `r2_status` and `snapshot_generation`. -/
def r2View (u : ProblemUsageRow) : R2Status × Option Int := (u.r2Status, u.snapshotGeneration)

def projection (usage : List ProblemUsageRow) (problemId : String) :
    Option (R2Status × Option Int) :=
  (usage.find? fun u => u.problemId = problemId).map r2View

/-- Where a snapshot is READY, the projection says so. -/
def Projected (db : Database) : Prop :=
  ∀ k ∈ readyKeys db.snapshots, projection db.problemUsage k.1 = some (.ready, some k.2)

instance (db : Database) : Decidable (Projected db) :=
  inferInstanceAs (Decidable (∀ k ∈ readyKeys db.snapshots, _))

def SameProjection (db db' : Database) : Prop :=
  readyKeys db'.snapshots = readyKeys db.snapshots ∧
    db'.problemUsage.map (fun u => (u.problemId, r2View u)) =
      db.problemUsage.map fun u => (u.problemId, r2View u)

instance (db db' : Database) : Decidable (SameProjection db db') :=
  inferInstanceAs (Decidable (_ ∧ _))

structure UsageState where
  now : Timestamp
  db : Database
  matched : List (String × Int) := []
  restoredFor : List (String × Option Int) := []
  deriving DecidableEq, Repr

inductive UsageAction where
  | finalize (a : FinalizeArgs)
  /-- `JobWorker.scan`. -/
  | scanJob (externalId : String) (scan : ScanResult) (observedAt : Timestamp)
  /-- A page entry of `JobWorker.backfill`. -/
  | accounting (externalId : String) (scan : ScanResult) (observedAt : Timestamp)
  | upsertProblemUsage (problemId : String) (scan : ScanResult) (localStatus : LocalStatus)
  | upsertMissingUsage (problemId : String)
  /-- The watcher compares a folder, and marks the problem later. -/
  | compare (code : String) (scan : ScanResult)
  | markLocalVerified (problemId : String) (generation : Int)
  /-- A restore job calls the data plane, and marks the problem later. -/
  | restore (problemId : String) (target : Option Int) (token : Int) (dest : String)
      (folder : Option ScanResult)
  | markLocalPresent (problemId : String) (target : Option Int)
  | evict (q : EvictRequest) (scan : ScanResult)
  /-- Any other statement, which leaves the two columns and the READY rows alone. -/
  | other (db : Database)
  | tick (elapsed : Nat)
  deriving DecidableEq, Repr

def usageStep (s : UsageState) : UsageAction → Option UsageState
  | .finalize a =>
      (finalizeSnapshotCas s.now a s.db).toOption.map fun db => { s with db := db }
  | .scanJob externalId scan observedAt =>
      some { s with db := { s.db with
        problemUsage := upsertProblemUsage s.now externalId (scan.scanUpdate observedAt)
          s.db.problemUsage } }
  | .accounting externalId scan observedAt =>
      some { s with db := { s.db with
        problemUsage := upsertProblemUsage s.now externalId (scan.accountingUpdate observedAt)
          s.db.problemUsage } }
  | .upsertProblemUsage problemId scan localStatus =>
      some { s with db := { s.db with
        problemUsage := DataPlane.upsertProblemUsage s.now problemId scan localStatus
          s.db.problemUsage } }
  | .upsertMissingUsage problemId =>
      some { s with db := { s.db with
        problemUsage := DataPlane.upsertMissingUsage s.now problemId s.db } }
  | .compare code scan =>
      (DataPlane.readySnapshotMatchesScanByCode s.db code scan).map fun found =>
        { s with matched := found :: s.matched }
  | .markLocalVerified problemId generation =>
      if (problemId, generation) ∈ s.matched then
        some { s with db := { s.db with
          problemUsage := DataPlane.markLocalVerified s.now problemId generation
            s.db.problemUsage } }
      else
        none
  | .restore problemId target token dest folder =>
      let q : RestoreRequest := ⟨problemId, target.getD 0, token, dest⟩
      (restoreAdmitted s.db q folder).toOption.map fun _ =>
        { s with
          db := restored s.now q s.db, restoredFor := (problemId, target) :: s.restoredFor }
  | .markLocalPresent problemId target =>
      if (problemId, target) ∈ s.restoredFor then
        some { s with db := { s.db with
          problemUsage := markLocalPresent s.now problemId target s.db.problemUsage } }
      else
        none
  | .evict q scan =>
      (evictAdmitted s.db q scan).toOption.map fun generation =>
        { s with db := evicted s.now q generation s.db }
  | .other db => if SameProjection s.db db then some { s with db := db } else none
  | .tick elapsed => some { s with now := s.now + elapsed }

/-- A scan job or an accounting backfill is for a problem without a READY snapshot, and a
restored generation that is marked is the READY one. -/
def SparesProjection (s : UsageState) : UsageAction → Prop
  | .scanJob externalId _ _ | .accounting externalId _ _ =>
      ∀ k ∈ readyKeys s.db.snapshots, k.1 ≠ externalId
  | .markLocalPresent problemId target =>
      ∀ generation ∈ target, ∀ k ∈ readyKeys s.db.snapshots, k.1 = problemId → k.2 = generation
  | _ => True

instance (s : UsageState) : (a : UsageAction) → Decidable (SparesProjection s a)
  | .scanJob externalId _ _ | .accounting externalId _ _ =>
      inferInstanceAs (Decidable (∀ k ∈ readyKeys s.db.snapshots, k.1 ≠ externalId))
  | .markLocalPresent problemId target =>
      inferInstanceAs (Decidable (∀ generation ∈ target, ∀ k ∈ readyKeys s.db.snapshots,
        k.1 = problemId → k.2 = generation))
  | .finalize _ | .upsertProblemUsage .. | .upsertMissingUsage _ | .compare .. |
    .markLocalVerified .. | .restore .. | .evict .. | .other _ | .tick _ => isTrue trivial

/-! ## What a writer leaves of the projection -/

section Writers

variable {usage : List ProblemUsageRow} {problemId : String}

theorem projection_eq_find? (usage : List ProblemUsageRow) (problemId : String) :
    projection usage problemId =
      ((usage.map fun u => (u.problemId, r2View u)).find? fun v => v.1 = problemId).map
        Prod.snd := by
  rw [projection, List.find?_map, Option.map_map]
  rfl

theorem projection_congr {usage' : List ProblemUsageRow}
    (h : usage'.map (fun u => (u.problemId, r2View u)) =
      usage.map fun u => (u.problemId, r2View u)) :
    projection usage' problemId = projection usage problemId := by
  rw [projection_eq_find?, projection_eq_find?, h]

theorem projection_updateWhere {p : ProblemUsageRow → Bool}
    {f : ProblemUsageRow → ProblemUsageRow}
    (hf : ∀ u, (f u).problemId = u.problemId ∧ r2View (f u) = r2View u) :
    projection (updateWhere p f usage) problemId = projection usage problemId := by
  apply projection_congr
  apply map_updateWhere
  intro u
  rw [(hf u).1, (hf u).2]

theorem projection_upsertOn {new : ProblemUsageRow} {merge : ProblemUsageRow → ProblemUsageRow}
    {g : R2Status × Option Int → R2Status × Option Int}
    (hmerge : ∀ u, (merge u).problemId = u.problemId) (hview : ∀ u, r2View (merge u) = g (r2View u)) :
    projection (upsertOn ProblemUsageRow.problemId new merge usage) problemId =
      if problemId = new.problemId then some (((projection usage problemId).map g).getD (r2View new))
      else projection usage problemId := by
  rw [projection, find?_upsertOn hmerge, apply_ite (Option.map r2View)]
  split
  · rw [Option.map_some, projection, Option.map_map]
    cases usage.find? fun u => u.problemId = problemId with
    | none => rfl
    | some u => exact congrArg some (hview u)
  · rfl

theorem projection_upsertProblemUsage (now : Timestamp) (externalId : String)
    (update : UsageUpdate) :
    projection (upsertProblemUsage now externalId update usage) problemId =
      if problemId = externalId then
        some (update.r2Status.getD .none, update.snapshotGeneration)
      else
        projection usage problemId := by
  rw [upsertProblemUsage, projection_upsertOn (g := fun _ => r2View (update.row now externalId))
    (by intro u; rfl) (by intro u; rfl)]
  cases projection usage problemId <;> rfl

theorem projection_markLocalPresent (now : Timestamp) (externalId : String)
    (generation : Option Int) :
    projection (markLocalPresent now externalId generation usage) problemId =
      if problemId = externalId then
        some (((projection usage problemId).map fun v => (v.1, generation.or v.2)).getD
          (.none, generation))
      else
        projection usage problemId := by
  rw [markLocalPresent, projection_upsertOn (g := fun v => (v.1, generation.or v.2))
    (by intro u; rfl) (by intro u; rfl)]
  rfl

theorem projection_upsertOn_same {new : ProblemUsageRow}
    {merge : ProblemUsageRow → ProblemUsageRow} (hmerge : ∀ u, (merge u).problemId = u.problemId)
    (hview : ∀ u, r2View (merge u) = r2View u) {v : R2Status × Option Int}
    (h : projection usage problemId = some v) :
    projection (upsertOn ProblemUsageRow.problemId new merge usage) problemId = some v := by
  rw [projection_upsertOn hmerge (g := id) hview, h]
  split <;> rfl

theorem projection_markLocalVerified (now : Timestamp) (verified : String) (generation : Int) :
    projection (DataPlane.markLocalVerified now verified generation usage) problemId =
      if problemId = verified then
        (projection usage problemId).map fun v => (v.1, some (max (v.2.getD 0) generation))
      else
        projection usage problemId := by
  rw [projection, DataPlane.markLocalVerified, find?_updateWhere (by intro u; rfl), projection,
    Option.map_map, Option.map_map]
  cases hfound : usage.find? fun u => u.problemId = problemId with
  | none =>
      split <;> rfl
  | some u =>
      have hu : u.problemId = problemId := by simpa using List.find?_some hfound
      by_cases hp : problemId = verified
      · simp [hu, hp, r2View]
      · simp [hu, hp]

end Writers

/-! ## The final CAS -/

section Finalize

variable {now : Timestamp} {a : FinalizeArgs} {db : Database}

theorem projection_finalized (hadm : FinalizeAdmitted now a db) (problemId : String) :
    projection (finalized now a db).problemUsage problemId =
      if problemId = a.problemId then some (.ready, some a.generation)
      else projection db.problemUsage problemId := by
  have hpositive : 0 < db.problemUsage.countP (usageBehind a.problemId a.generation) := by
    rw [hadm.behind]
    decide
  obtain ⟨u₀, hu₀, hbehind₀⟩ := List.countP_pos_iff.mp hpositive
  simp only [usageBehind, Bool.and_eq_true, decide_eq_true_eq] at hbehind₀
  show Option.map r2View ((updateWhere _ _ _).find? _) = _
  rw [find?_key_updateWhere (by intro u; rfl), Option.map_map]
  cases hfound : db.problemUsage.find? fun u => u.problemId = problemId with
  | none =>
      have hne : problemId ≠ a.problemId := by
        intro heq
        have hnone := List.find?_eq_none.mp hfound u₀ hu₀
        rw [heq, decide_eq_true_eq] at hnone
        exact hnone hbehind₀.1
      rw [if_neg hne, projection, hfound]
      rfl
  | some u =>
      have hu : u.problemId = problemId := by simpa using List.find?_some hfound
      split
      · rename_i hp
        have hbehind : usageBehind a.problemId a.generation u = true := by
          have hnewer := hadm.newer
          rw [usageGeneration, ← hp, hfound] at hnewer
          simp only [usageBehind, hu, hp, decide_true, Bool.true_and]
          cases hcurrent : u.snapshotGeneration with
          | none => rfl
          | some current => exact decide_eq_true (hnewer current hcurrent)
        simp [hbehind, r2View]
      · rename_i hp
        have hbehind : ¬ usageBehind a.problemId a.generation u = true := by
          simp [usageBehind, hu, hp]
        rw [projection, hfound]
        simp [hbehind]

theorem readyKeys_finalized (hadm : FinalizeAdmitted now a db) {k : String × Int}
    (hk : k ∈ readyKeys (finalized now a db).snapshots) :
    k = (a.problemId, a.generation) ∨ k.1 ≠ a.problemId ∧ k ∈ readyKeys db.snapshots := by
  obtain ⟨s, hs, rfl⟩ := List.mem_map.mp hk
  obtain ⟨hmem, hready⟩ := mem_readyRows.mp hs
  rw [finalized_snapshots] at hmem
  obtain ⟨s₀, hs₀, rfl⟩ := mem_updateWhere.mp hmem
  split
  · rename_i hfinal
    obtain ⟨-, hproblem, hgeneration, -⟩ := finalizable_iff.mp hfinal
    left
    simp [SnapshotRow.published, hproblem, hgeneration]
  · rename_i hfinal
    rw [if_neg hfinal] at hready
    right
    have hother : s₀.problemId ≠ a.problemId := fun hp => hadm.noReady s₀ hs₀ hp hready
    refine ⟨hother, ?_⟩
    obtain ⟨s₁, hs₁, rfl⟩ := mem_updateWhere.mp hs₀
    split at hready
    · cases hready
    · rename_i hkept
      rw [if_neg hkept]
      exact List.mem_map.mpr ⟨s₁, mem_readyRows.mpr ⟨hs₁, hready⟩, rfl⟩

theorem projected_finalized (hadm : FinalizeAdmitted now a db) (h : Projected db) :
    Projected (finalized now a db) := by
  intro k hk
  rw [projection_finalized hadm]
  rcases readyKeys_finalized hadm hk with rfl | ⟨hother, hold⟩
  · rw [if_pos rfl]
  · rw [if_neg hother]
    exact h k hold

theorem readyKeys_persist_finalized (hadm : FinalizeAdmitted now a db) {k : String × Int}
    (hk : k ∈ readyKeys db.snapshots) :
    ∃ k' ∈ readyKeys (finalized now a db).snapshots, k'.1 = k.1 ∧ k.2 ≤ k'.2 := by
  obtain ⟨s, hs, rfl⟩ := List.mem_map.mp hk
  rcases supersededOnly_finalized hadm s hs with hkept | ⟨-, t, ht, -, hproblem, hlt⟩
  · exact ⟨_, List.mem_map.mpr ⟨s, hkept, rfl⟩, rfl, le_refl _⟩
  · exact ⟨_, List.mem_map.mpr ⟨t, ht, rfl⟩, hproblem, hlt.le⟩

end Finalize

/-! ## Steps and runs -/

section Steps

variable {s t : UsageState}

/-- What the watcher has found to match was a READY generation, and no smaller one has
become READY since. -/
structure Tracked (s : UsageState) : Prop where
  projected : Projected s.db
  matched : ∀ m ∈ s.matched, ∃ k ∈ readyKeys s.db.snapshots, k.1 = m.1 ∧ m.2 ≤ k.2

theorem Projected.keep {db db' : Database} (h : Projected db)
    (hkeys : readyKeys db'.snapshots = readyKeys db.snapshots)
    (hkeep : ∀ k ∈ readyKeys db.snapshots, ∀ v, projection db.problemUsage k.1 = some v →
      projection db'.problemUsage k.1 = some v) : Projected db' := by
  intro k hk
  rw [hkeys] at hk
  exact hkeep k hk _ (h k hk)

/-- `upsertProblemUsage` with the default for `r2_status` spares the problems without a
READY snapshot. -/
theorem projected_upsertProblemUsage {db : Database} (h : Projected db) (now : Timestamp)
    (externalId : String) (update : UsageUpdate) (hdefault : update.r2Status = none) :
    Projected { db with
      problemUsage := upsertProblemUsage now externalId update db.problemUsage } ↔
      ∀ k ∈ readyKeys db.snapshots, k.1 ≠ externalId := by
  constructor
  · intro hafter k hk hid
    have hk' := hafter k hk
    dsimp only at hk'
    rw [projection_upsertProblemUsage, if_pos hid, hdefault] at hk'
    cases hk'
  · intro hother k hk
    dsimp only
    rw [projection_upsertProblemUsage, if_neg (hother k hk)]
    exact h k hk

theorem projected_markLocalPresent {db : Database} (h : Projected db) (now : Timestamp)
    (problemId : String) (target : Option Int) :
    Projected { db with
      problemUsage := markLocalPresent now problemId target db.problemUsage } ↔
      ∀ generation ∈ target, ∀ k ∈ readyKeys db.snapshots, k.1 = problemId →
        k.2 = generation := by
  have hmarked : ∀ k ∈ readyKeys db.snapshots, k.1 = problemId →
      projection (markLocalPresent now problemId target db.problemUsage) k.1 =
        some (.ready, target.or (some k.2)) := by
    intro k hk hid
    rw [projection_markLocalPresent, if_pos hid, h k hk]
    rfl
  constructor
  · rintro hafter generation rfl k hk hid
    have hk' := hmarked k hk hid
    rw [hafter k hk] at hk'
    simpa using hk'
  · intro hready k hk
    dsimp only
    by_cases hid : k.1 = problemId
    · rw [hmarked k hk hid]
      cases target with
      | none => rfl
      | some generation => rw [hready generation rfl k hk hid, Option.some_or]
    · rw [projection_markLocalPresent, if_neg hid]
      exact h k hk

/-- A generation that the READY one has reached does not advance the projection. -/
theorem projected_markLocalVerified {db : Database} (h : Projected db)
    (hone : ∀ k ∈ readyKeys db.snapshots, ∀ k' ∈ readyKeys db.snapshots, k.1 = k'.1 → k.2 = k'.2)
    (now : Timestamp) {problemId : String} {generation : Int}
    (hreached : ∃ k ∈ readyKeys db.snapshots, k.1 = problemId ∧ generation ≤ k.2) :
    Projected { db with
      problemUsage := DataPlane.markLocalVerified now problemId generation db.problemUsage } := by
  intro k hk
  dsimp only
  rw [projection_markLocalVerified, h k hk]
  split
  · rename_i hid
    obtain ⟨k', hk', hid', hle⟩ := hreached
    have hgeneration : k.2 = k'.2 := hone k hk k' hk' (hid.trans hid'.symm)
    rw [Option.map_some, Option.getD_some, max_eq_left (by omega)]
  · rfl

theorem Projected.one {db : Database} (h : Projected db) :
    ∀ k ∈ readyKeys db.snapshots, ∀ k' ∈ readyKeys db.snapshots, k.1 = k'.1 → k.2 = k'.2 := by
  intro k hk k' hk' hid
  have hsame := h k hk
  rw [hid, h k' hk'] at hsame
  simpa using hsame.symm

theorem readySnapshotMatchesScan_mem {db : Database} {problemId : String} {scan : ScanResult}
    {generation : Int} (h : readySnapshotMatchesScan db problemId scan = some generation) :
    (problemId, generation) ∈ readyKeys db.snapshots := by
  obtain ⟨-, r, hr, rfl, -⟩ := readySnapshotMatchesScan_eq_some.mp h
  have hmem := List.mem_filter.mp (mem_of_firstBy hr)
  simp only [Bool.and_eq_true, decide_eq_true_eq] at hmem
  obtain ⟨hrow, hproblem, hready⟩ := hmem
  rw [← hproblem]
  exact List.mem_map.mpr ⟨r, mem_readyRows.mpr ⟨hrow, hready⟩, rfl⟩

theorem readySnapshotMatchesScanByCode_mem {db : Database} {code : String} {scan : ScanResult}
    {found : String × Int}
    (h : DataPlane.readySnapshotMatchesScanByCode db code scan = some found) :
    found ∈ readyKeys db.snapshots := by
  unfold DataPlane.readySnapshotMatchesScanByCode at h
  obtain ⟨p, -, h⟩ := Option.bind_eq_some_iff.mp h
  obtain ⟨generation, hmatches, h⟩ := Option.bind_eq_some_iff.mp h
  obtain rfl := Option.some.inj h
  exact readySnapshotMatchesScan_mem hmatches

theorem projected_step_iff {a : UsageAction} (hinv : Tracked s) (h : usageStep s a = some t) :
    Projected t.db ↔ SparesProjection s a := by
  have hprojected := hinv.projected
  cases a with
  | finalize a =>
      obtain ⟨db, hdb, rfl⟩ := Option.map_eq_some_iff.mp h
      obtain ⟨hadm, rfl⟩ := finalizeSnapshotCas_eq_ok (toOption_eq_some.mp hdb)
      exact iff_of_true (projected_finalized hadm hprojected) trivial
  | scanJob externalId scan observedAt =>
      obtain rfl := Option.some.inj h
      exact projected_upsertProblemUsage hprojected _ _ _ rfl
  | accounting externalId scan observedAt =>
      obtain rfl := Option.some.inj h
      exact projected_upsertProblemUsage hprojected _ _ _ rfl
  | upsertProblemUsage problemId scan localStatus =>
      obtain rfl := Option.some.inj h
      refine iff_of_true (hprojected.keep rfl ?_) trivial
      intro k _ v hv
      dsimp only [DataPlane.upsertProblemUsage]
      apply projection_upsertOn_same ?_ ?_ hv
      · intro u
        simp
      · intro u
        simp [r2View]
  | upsertMissingUsage problemId =>
      obtain rfl := Option.some.inj h
      refine iff_of_true (hprojected.keep rfl ?_) trivial
      intro k _ v hv
      dsimp only [DataPlane.upsertMissingUsage]
      apply projection_upsertOn_same ?_ ?_ hv
      · intro u
        rfl
      · intro u
        rfl
  | compare code scan =>
      obtain ⟨found, -, rfl⟩ := Option.map_eq_some_iff.mp h
      exact iff_of_true hprojected trivial
  | markLocalVerified problemId generation =>
      obtain ⟨hmatched, h⟩ := Option.ite_none_right_eq_some.mp h
      obtain rfl := Option.some.inj h
      exact iff_of_true (projected_markLocalVerified hprojected hprojected.one _
        (hinv.matched _ hmatched)) trivial
  | restore problemId target token dest folder =>
      obtain ⟨-, -, rfl⟩ := Option.map_eq_some_iff.mp h
      refine iff_of_true (hprojected.keep rfl ?_) trivial
      intro k _ v hv
      exact (projection_updateWhere (by intro u; exact ⟨rfl, rfl⟩)).trans hv
  | markLocalPresent problemId target =>
      obtain ⟨-, h⟩ := Option.ite_none_right_eq_some.mp h
      obtain rfl := Option.some.inj h
      exact projected_markLocalPresent hprojected _ _ _
  | evict q scan =>
      obtain ⟨generation, -, rfl⟩ := Option.map_eq_some_iff.mp h
      refine iff_of_true (hprojected.keep rfl ?_) trivial
      intro k _ v hv
      exact (projection_updateWhere (by intro u; exact ⟨rfl, rfl⟩)).trans hv
  | other db =>
      obtain ⟨⟨hkeys, hviews⟩, h⟩ := Option.ite_none_right_eq_some.mp h
      obtain rfl := Option.some.inj h
      refine iff_of_true (hprojected.keep hkeys ?_) trivial
      intro k _ v hv
      exact (projection_congr hviews).trans hv
  | tick elapsed =>
      obtain rfl := Option.some.inj h
      exact iff_of_true hprojected trivial

theorem readyKeys_persist {a : UsageAction} (h : usageStep s a = some t) {k : String × Int}
    (hk : k ∈ readyKeys s.db.snapshots) :
    ∃ k' ∈ readyKeys t.db.snapshots, k'.1 = k.1 ∧ k.2 ≤ k'.2 := by
  have hsame : readyKeys t.db.snapshots = readyKeys s.db.snapshots →
      ∃ k' ∈ readyKeys t.db.snapshots, k'.1 = k.1 ∧ k.2 ≤ k'.2 := by
    intro hkeys
    rw [hkeys]
    exact ⟨k, hk, rfl, le_refl _⟩
  cases a with
  | finalize a =>
      obtain ⟨db, hdb, rfl⟩ := Option.map_eq_some_iff.mp h
      obtain ⟨hadm, rfl⟩ := finalizeSnapshotCas_eq_ok (toOption_eq_some.mp hdb)
      exact readyKeys_persist_finalized hadm hk
  | other db =>
      obtain ⟨⟨hkeys, -⟩, h⟩ := Option.ite_none_right_eq_some.mp h
      obtain rfl := Option.some.inj h
      exact hsame hkeys
  | compare | restore | evict =>
      obtain ⟨_, _, rfl⟩ := Option.map_eq_some_iff.mp h
      exact hsame rfl
  | markLocalVerified | markLocalPresent =>
      obtain ⟨-, h⟩ := Option.ite_none_right_eq_some.mp h
      obtain rfl := Option.some.inj h
      exact hsame rfl
  | scanJob | accounting | upsertProblemUsage | upsertMissingUsage | tick =>
      obtain rfl := Option.some.inj h
      exact hsame rfl

theorem matched_step {a : UsageAction} (h : usageStep s a = some t) {m : String × Int}
    (hm : m ∈ t.matched) : m ∈ s.matched ∨ m ∈ readyKeys s.db.snapshots := by
  cases a with
  | compare code scan =>
      obtain ⟨found, hfound, rfl⟩ := Option.map_eq_some_iff.mp h
      rcases List.mem_cons.mp hm with rfl | hm
      · exact .inr (readySnapshotMatchesScanByCode_mem hfound)
      · exact .inl hm
  | finalize | restore | evict =>
      obtain ⟨_, _, rfl⟩ := Option.map_eq_some_iff.mp h
      exact .inl hm
  | markLocalVerified | markLocalPresent | other =>
      obtain ⟨-, h⟩ := Option.ite_none_right_eq_some.mp h
      obtain rfl := Option.some.inj h
      exact .inl hm
  | scanJob | accounting | upsertProblemUsage | upsertMissingUsage | tick =>
      obtain rfl := Option.some.inj h
      exact .inl hm

theorem tracked_step {a : UsageAction} (hinv : Tracked s) (h : usageStep s a = some t)
    (hprojected : Projected t.db) : Tracked t := by
  refine ⟨hprojected, ?_⟩
  intro m hm
  have hready : ∃ k ∈ readyKeys s.db.snapshots, k.1 = m.1 ∧ m.2 ≤ k.2 := by
    rcases matched_step h hm with hold | hkey
    · exact hinv.matched m hold
    · exact ⟨m, hkey, rfl, le_refl _⟩
  obtain ⟨k, hk, hid, hle⟩ := hready
  obtain ⟨k', hk', hid', hle'⟩ := readyKeys_persist h hk
  exact ⟨k', hk', hid'.trans hid, hle.trans hle'⟩

/-- In a run from a database whose projection is right, it stays right exactly when every
step spares it. -/
theorem projection_follows_snapshots (actions : List UsageAction) (hinit : Projected s.db)
    (hmatched : s.matched = []) :
    EveryStep usageStep (fun _ _ t => Projected t.db) s actions ↔
      EveryStep usageStep (fun s a _ => SparesProjection s a) s actions := by
  have htracked : Tracked s := by
    refine ⟨hinit, ?_⟩
    intro m hm
    rw [hmatched] at hm
    cases hm
  constructor
  · exact everyStep_of_invariant (I := Tracked) (C := fun _ _ t => Projected t.db)
      (fun s a t hinv hafter h => tracked_step hinv h hafter)
      (fun s a t hinv hafter h => (projected_step_iff hinv h).mp hafter) htracked
  · exact everyStep_of_invariant (I := Tracked) (C := fun s a _ => SparesProjection s a)
      (fun s a t hinv hspares h => tracked_step hinv h ((projected_step_iff hinv h).mpr hspares))
      (fun s a t hinv hspares h => (projected_step_iff hinv h).mpr hspares) htracked

end Steps

section Sample

/-- A snapshot of the two files that waits for its final CAS. -/
def verifyingSnapshot : SnapshotRow :=
  { freshSnapshot 7 "101" 1 sampleTime with
    state := .verifying, manifestKey := some (manifestKey "101" 1) }

def projectionStart : UsageState where
  now := sampleTime
  db := { problems := [sampleProblem], problemUsage := [sampleUsage]
          snapshots := [verifyingSnapshot], jobs := sampleJobs }

def sampleFinalize : FinalizeArgs where
  snapshotId := 7
  problemId := "101"
  generation := 1
  fencingToken := 1
  expectedDirtyVersion := some 1
  manifestFiles := sampleScan.files.map FileEntry.toManifestFile
  totalBytes := 40
  manifestKey := manifestKey "101" 1

def publishedAndRestored : List UsageAction :=
  [.finalize sampleFinalize, .upsertProblemUsage "101" sampleScan .present,
    .compare "aplusb" sampleScan, .markLocalVerified "101" 1,
    .evict ⟨"101", "aplusb", false, true, 1, none⟩ sampleScan, .upsertMissingUsage "101",
    .restore "101" (some 1) 1 "/problems/aplusb" none, .markLocalPresent "101" (some 1)]

theorem projection_follows_restored_snapshot :
    (exec usageStep projectionStart publishedAndRestored).isSome = true ∧
      EveryStep usageStep (fun _ _ t => Projected t.db) projectionStart publishedAndRestored :=
  ⟨by decide +kernel,
    (projection_follows_snapshots publishedAndRestored (by decide +kernel) rfl).mpr
      (by decide +kernel)⟩

/-- A scan job of the control plane takes the READY snapshot out of the projection. -/
theorem scan_job_resets_projection :
    Projected projectionStart.db ∧
      ∃ t ∈ exec usageStep projectionStart
          [.finalize sampleFinalize, .scanJob "101" sampleScan sampleTime],
        ("101", 1) ∈ readyKeys t.db.snapshots ∧
          projection t.db.problemUsage "101" = some (.none, none) := by
  decide +kernel

end Sample

end ExternalStorage.Snapshot
