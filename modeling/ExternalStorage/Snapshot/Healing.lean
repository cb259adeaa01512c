import ExternalStorage.Snapshot.Projection

/-!
# The repair of the projection

`heal_usage_ready_projection` moves a row that is not `ready` to a READY generation newer
than its own.  The two columns are written by different statements: a row that is not
`ready` and carries the READY generation is past the repair, and so is a row that is `ready`
and carries an older one.
-/

namespace ExternalStorage.Snapshot

open ExternalStorage.Model Library.Runs Library.Table

/-! ## The machine with the repair -/

inductive HealAction where
  | write (a : UsageAction)
  /-- `heal_usage_ready_projection`. -/
  | heal
  deriving DecidableEq, Repr

def healStep (s : UsageState) : HealAction → Option UsageState
  | .write a => usageStep s a
  | .heal => some { s with db := DataPlane.healUsageReadyProjection s.now s.db }

/-- `k` is the largest READY generation of its problem. -/
def LatestReady (rows : List SnapshotRow) (k : String × Int) : Prop :=
  k ∈ readyKeys rows ∧ ∀ k' ∈ readyKeys rows, k'.1 = k.1 → k'.2 ≤ k.2

instance (rows : List SnapshotRow) : DecidablePred (LatestReady rows) := fun _ =>
  inferInstanceAs (Decidable (_ ∧ _))

/-- The stored generation has reached `generation`. -/
def reaches (generation : Int) : Option Int → Bool
  | none => false
  | some stored => generation ≤ stored

def Repaired (rows : List SnapshotRow) (u u' : ProblemUsageRow) : Prop :=
  u'.problemId = u.problemId ∧ ((∀ k ∈ readyKeys rows, k.1 ≠ u.problemId) → u' = u) ∧
    ∀ stored ∈ u.snapshotGeneration, reaches stored u'.snapshotGeneration = true

instance (rows : List SnapshotRow) (u u' : ProblemUsageRow) : Decidable (Repaired rows u u') :=
  inferInstanceAs (Decidable (_ ∧ _))

/-- After the repair every problem with a READY snapshot is `ready` at its generation or a
later one; the other rows are as they were and no generation has decreased. -/
def HealingComplete (s : UsageState) : Prop :=
  let healed := (DataPlane.healUsageReadyProjection s.now s.db).problemUsage
  (∀ k ∈ readyKeys s.db.snapshots, ∀ v ∈ projection healed k.1,
      v.1 = .ready ∧ reaches k.2 v.2 = true) ∧
    List.Forall₂ (Repaired s.db.snapshots) s.db.problemUsage healed

instance (s : UsageState) : Decidable (HealingComplete s) :=
  inferInstanceAs (Decidable (_ ∧ _))

/-- `mark_local_verified` leaves a row that is not `ready` behind the READY generation, and
`markLocalPresentForJob` writes a generation that has reached it exactly where the row is
`ready`. -/
def SparesHealing (s : UsageState) : UsageAction → Prop
  | .markLocalVerified problemId generation =>
      ∀ k ∈ readyKeys s.db.snapshots, LatestReady s.db.snapshots k → k.1 = problemId →
        ∀ v ∈ projection s.db.problemUsage problemId, v.1 ≠ .ready →
          max (v.2.getD 0) generation < k.2
  | .markLocalPresent problemId target =>
      ∀ generation ∈ target, ∀ k ∈ readyKeys s.db.snapshots, LatestReady s.db.snapshots k →
        k.1 = problemId →
          ((projection s.db.problemUsage problemId).map Prod.fst = some .ready ↔
            k.2 ≤ generation)
  | _ => True

instance (s : UsageState) : (a : UsageAction) → Decidable (SparesHealing s a)
  | .markLocalVerified problemId generation =>
      inferInstanceAs (Decidable (∀ k ∈ readyKeys s.db.snapshots, LatestReady s.db.snapshots k →
        k.1 = problemId → ∀ v ∈ projection s.db.problemUsage problemId, v.1 ≠ .ready →
          max (v.2.getD 0) generation < k.2))
  | .markLocalPresent problemId target =>
      inferInstanceAs (Decidable (∀ generation ∈ target, ∀ k ∈ readyKeys s.db.snapshots,
        LatestReady s.db.snapshots k → k.1 = problemId →
          ((projection s.db.problemUsage problemId).map Prod.fst = some .ready ↔
            k.2 ≤ generation)))
  | .finalize _ | .scanJob .. | .accounting .. | .upsertProblemUsage .. | .upsertMissingUsage _ |
    .compare .. | .restore .. | .evict .. | .other _ | .tick _ => isTrue trivial

def AdmitsHealing (s : UsageState) : HealAction → Prop
  | .write a => SparesHealing s a
  | .heal => True

instance (s : UsageState) : (a : HealAction) → Decidable (AdmitsHealing s a)
  | .write a => inferInstanceAs (Decidable (SparesHealing s a))
  | .heal => isTrue trivial

/-! ## What the repair does to a row -/

section Repair

variable {rows : List SnapshotRow} {problemId : String}

theorem latestReady_eq_none :
    latestReady problemId rows = none ↔ ∀ k ∈ readyKeys rows, k.1 ≠ problemId := by
  rw [latestReady, firstBy_eq_none, List.filter_eq_nil_iff]
  constructor
  · intro h k hk hid
    obtain ⟨s, hs, rfl⟩ := List.mem_map.mp hk
    obtain ⟨hmem, hready⟩ := mem_readyRows.mp hs
    apply h s hmem
    rw [Bool.and_eq_true, decide_eq_true_eq, decide_eq_true_eq]
    exact ⟨hid, hready⟩
  · intro h s hs hsel
    rw [Bool.and_eq_true, decide_eq_true_eq, decide_eq_true_eq] at hsel
    exact h _ (List.mem_map_of_mem (mem_readyRows.mpr ⟨hs, hsel.2⟩)) hsel.1

theorem latestReady_latest {s : SnapshotRow} (h : latestReady problemId rows = some s) :
    LatestReady rows (problemId, s.generation) := by
  have hmem := List.mem_filter.mp (mem_of_firstBy h)
  rw [Bool.and_eq_true, decide_eq_true_eq, decide_eq_true_eq] at hmem
  obtain ⟨hrow, hid, hready⟩ := hmem
  constructor
  · exact hid ▸ List.mem_map_of_mem (mem_readyRows.mpr ⟨hrow, hready⟩)
  · intro k hk hsame
    obtain ⟨r, hr, rfl⟩ := List.mem_map.mp hk
    obtain ⟨hmem', hready'⟩ := mem_readyRows.mp hr
    have hselected : r ∈ rows.filter fun s => s.problemId = problemId && s.state = .ready := by
      rw [List.mem_filter, Bool.and_eq_true, decide_eq_true_eq, decide_eq_true_eq]
      exact ⟨hmem', hsame, hready'⟩
    have hafter := not_before_firstBy ?_ ?_ ?_ h r hselected
    · exact Int.not_lt.mp (of_decide_eq_false hafter)
    · intro r
      simp
    · intro r s
      simp only [decide_eq_true_eq, decide_eq_false_iff_not]
      omega
    · intro r s t
      simp only [decide_eq_false_iff_not]
      omega

theorem LatestReady.generation_eq {s : SnapshotRow} {k : String × Int} (hk : LatestReady rows k)
    (h : latestReady k.1 rows = some s) : s.generation = k.2 :=
  le_antisymm (hk.2 _ (latestReady_latest h).1 rfl) ((latestReady_latest h).2 k hk.1 rfl)

theorem projectionBehind_eq (u : ProblemUsageRow) (s : SnapshotRow) :
    DataPlane.projectionBehind u s =
      (!reaches s.generation u.snapshotGeneration && u.r2Status ≠ .ready) := by
  unfold DataPlane.projectionBehind reaches
  cases u.snapshotGeneration with
  | none => rfl
  | some stored =>
      dsimp only
      rw [← decide_not]
      simp only [Int.not_le]

theorem reaches_mono {g g' : Int} (hle : g ≤ g') {stored : Option Int}
    (h : reaches g' stored = true) : reaches g stored = true := by
  cases stored with
  | none => cases h
  | some x =>
      have hx : g' ≤ x := of_decide_eq_true h
      exact decide_eq_true (by omega)

def healedView (latest : Option SnapshotRow) (v : R2Status × Option Int) :
    R2Status × Option Int :=
  match latest with
  | none => v
  | some s => if !reaches s.generation v.2 && v.1 ≠ .ready then (.ready, some s.generation) else v

def healedRow (now : Timestamp) (rows : List SnapshotRow) (u : ProblemUsageRow) :
    ProblemUsageRow :=
  match latestReady u.problemId rows with
  | none => u
  | some s =>
      if DataPlane.projectionBehind u s then
        { u with
          r2Status := .ready, snapshotGeneration := some s.generation, observedAt := now
          stale := false }
      else u

theorem healed_eq_map (now : Timestamp) (db : Database) :
    (DataPlane.healUsageReadyProjection now db).problemUsage =
      db.problemUsage.map (healedRow now db.snapshots) := rfl

theorem healedRow_problemId (now : Timestamp) (u : ProblemUsageRow) :
    (healedRow now rows u).problemId = u.problemId := by
  unfold healedRow
  split
  · rfl
  · split <;> rfl

theorem r2View_healedRow (now : Timestamp) (u : ProblemUsageRow) :
    r2View (healedRow now rows u) = healedView (latestReady u.problemId rows) (r2View u) := by
  unfold healedRow healedView
  cases latestReady u.problemId rows with
  | none => rfl
  | some s =>
      dsimp only
      rw [projectionBehind_eq, apply_ite r2View]
      rfl

theorem projection_healed (now : Timestamp) (db : Database) (problemId : String) :
    projection (DataPlane.healUsageReadyProjection now db).problemUsage problemId =
      (projection db.problemUsage problemId).map
        (healedView (latestReady problemId db.snapshots)) := by
  have hsame : (fun u : ProblemUsageRow => decide (u.problemId = problemId)) ∘
      healedRow now db.snapshots = fun u => decide (u.problemId = problemId) := by
    funext u
    rw [Function.comp_apply, healedRow_problemId]
  rw [projection, healed_eq_map, List.find?_map, hsame, projection, Option.map_map, Option.map_map]
  cases hfound : db.problemUsage.find? fun u => u.problemId = problemId with
  | none => rfl
  | some u =>
      have hid : u.problemId = problemId := by simpa using List.find?_some hfound
      rw [Option.map_some, Option.map_some, Function.comp_apply, r2View_healedRow, hid]
      rfl

theorem repaired_healedRow (now : Timestamp) (u : ProblemUsageRow) :
    Repaired rows u (healedRow now rows u) := by
  refine ⟨healedRow_problemId now u, ?_, ?_⟩
  · intro hother
    rw [healedRow, latestReady_eq_none.mpr hother]
  · intro stored hstored
    unfold healedRow
    split
    · rw [hstored]
      exact decide_eq_true (le_refl _)
    · rename_i s hs
      split
      · rename_i hbehind
        rw [projectionBehind_eq, hstored, Bool.and_eq_true, Bool.not_eq_true'] at hbehind
        have hlt : ¬ s.generation ≤ stored := of_decide_eq_false hbehind.1
        exact decide_eq_true (by omega)
      · rw [hstored]
        exact decide_eq_true (le_refl _)

end Repair

/-! ## The states the repair completes -/

/-- A row of a problem with a READY snapshot is `ready` exactly if it has reached it. -/
def Healable (db : Database) : Prop :=
  ∀ k, LatestReady db.snapshots k → ∀ v ∈ projection db.problemUsage k.1,
    v.1 = .ready ↔ reaches k.2 v.2 = true

section Steps

variable {s t : UsageState}

theorem healedView_complete {k : String × Int} {latest : SnapshotRow} {v : R2Status × Option Int}
    (hle : k.2 ≤ latest.generation)
    (h : v.1 = .ready ↔ reaches latest.generation v.2 = true) :
    (healedView (some latest) v).1 = .ready ∧
      reaches k.2 (healedView (some latest) v).2 = true := by
  unfold healedView
  dsimp only
  split
  · exact ⟨rfl, decide_eq_true hle⟩
  · rename_i hkept
    rw [Bool.and_eq_true, Bool.not_eq_true', decide_eq_true_eq, not_and_or] at hkept
    have hready : v.1 = .ready := by
      rcases hkept with hreached | hready
      · exact h.mpr (Bool.eq_true_of_not_eq_false hreached)
      · exact not_not.mp hready
    exact ⟨hready, reaches_mono hle (h.mp hready)⟩

theorem healingComplete_iff : HealingComplete s ↔ Healable s.db := by
  constructor
  · rintro ⟨hcomplete, -⟩ k hk v hv
    obtain ⟨latest, hlatest⟩ : ∃ latest, latestReady k.1 s.db.snapshots = some latest := by
      rw [← Option.ne_none_iff_exists']
      intro hnone
      exact latestReady_eq_none.mp hnone k hk.1 rfl
    have hgeneration := hk.generation_eq hlatest
    have hafter := hcomplete k hk.1 (healedView (some latest) v) (by
      rw [projection_healed, hlatest, hv]
      rfl)
    unfold healedView at hafter
    dsimp only at hafter
    rw [hgeneration] at hafter
    split at hafter
    · rename_i hbehind
      rw [Bool.and_eq_true, Bool.not_eq_true', decide_eq_true_eq] at hbehind
      rw [hbehind.1]
      exact iff_of_false hbehind.2 Bool.false_ne_true
    · exact iff_of_true hafter.1 hafter.2
  · intro h
    refine ⟨?_, ?_⟩
    · intro k hk v hv
      rw [projection_healed] at hv
      obtain ⟨v₀, hv₀, rfl⟩ := Option.map_eq_some_iff.mp hv
      cases hlatest : latestReady k.1 s.db.snapshots with
      | none => exact absurd rfl (latestReady_eq_none.mp hlatest k hk)
      | some latest =>
          have hk' := latestReady_latest hlatest
          exact healedView_complete (hk'.2 k hk rfl) (h _ hk' v₀ hv₀)
    · rw [healed_eq_map, List.forall₂_map_right_iff, List.forall₂_same]
      intro u _
      exact repaired_healedRow s.now u

/-- A statement that leaves the two columns of a row, or takes both back to their defaults. -/
theorem Healable.keep {db db' : Database} (h : Healable db)
    (hkeys : readyKeys db'.snapshots = readyKeys db.snapshots)
    (hkeep : ∀ p, ∀ v ∈ projection db'.problemUsage p,
      v ∈ projection db.problemUsage p ∨ v = (.none, none)) : Healable db' := by
  intro k hk v hv
  rw [LatestReady, hkeys] at hk
  rcases hkeep k.1 v hv with hold | rfl
  · exact h k hk v hold
  · exact iff_of_false R2Status.noConfusion Bool.false_ne_true

/-- An upsert that keeps the two columns of a row, and inserts their defaults. -/
theorem projection_of_upsertOn_same {usage : List ProblemUsageRow} {new : ProblemUsageRow}
    {merge : ProblemUsageRow → ProblemUsageRow} {p : String} {v : R2Status × Option Int}
    (hmerge : ∀ u, (merge u).problemId = u.problemId) (hview : ∀ u, r2View (merge u) = r2View u)
    (hnew : r2View new = (.none, none))
    (h : projection (upsertOn ProblemUsageRow.problemId new merge usage) p = some v) :
    v ∈ projection usage p ∨ v = (.none, none) := by
  rw [projection_upsertOn hmerge (g := id) hview, hnew] at h
  split at h
  · obtain rfl := Option.some.inj h
    cases projection usage p with
    | none => exact .inr rfl
    | some v => exact .inl rfl
  · exact .inl h

theorem healable_finalized {now : Timestamp} {a : FinalizeArgs} {db : Database}
    (hadm : FinalizeAdmitted now a db) (h : Healable db) : Healable (finalized now a db) := by
  intro k hk v hv
  rw [projection_finalized hadm] at hv
  rcases readyKeys_finalized hadm hk.1 with rfl | ⟨hother, hold⟩
  · rw [if_pos rfl] at hv
    obtain rfl := Option.some.inj hv
    exact iff_of_true rfl (decide_eq_true (le_refl _))
  · rw [if_neg hother] at hv
    refine h k ⟨hold, ?_⟩ v hv
    intro k' hk' hid
    obtain ⟨k'', hk'', hid'', hle⟩ := readyKeys_persist_finalized hadm hk'
    exact hle.trans (hk.2 k'' hk'' (hid''.trans hid))

theorem healable_markLocalVerified {db : Database} (h : Healable db) (now : Timestamp)
    (problemId : String) (generation : Int) :
    Healable { db with
      problemUsage := DataPlane.markLocalVerified now problemId generation db.problemUsage } ↔
      ∀ k ∈ readyKeys db.snapshots, LatestReady db.snapshots k → k.1 = problemId →
        ∀ v ∈ projection db.problemUsage problemId, v.1 ≠ .ready →
          max (v.2.getD 0) generation < k.2 := by
  constructor
  · rintro hafter k - hk rfl v hv hready
    have hmarked := hafter k hk (v.1, some (max (v.2.getD 0) generation)) (by
      dsimp only
      rw [projection_markLocalVerified, if_pos rfl, hv]
      rfl)
    have hbehind : ¬ k.2 ≤ max (v.2.getD 0) generation := by
      intro hle
      exact hready (hmarked.mpr (decide_eq_true hle))
    omega
  · intro hbehind k hk v' hv'
    dsimp only at hv' hk
    rw [projection_markLocalVerified] at hv'
    split at hv'
    · rename_i hid
      obtain ⟨v, hv, rfl⟩ := Option.map_eq_some_iff.mp hv'
      have hview := h k hk v hv
      dsimp only
      by_cases hready : v.1 = .ready
      · refine iff_of_true hready ?_
        have hreached := hview.mp hready
        cases hstored : v.2 with
        | none =>
            rw [hstored] at hreached
            cases hreached
        | some x =>
            rw [hstored] at hreached
            have hle : k.2 ≤ x := of_decide_eq_true hreached
            exact decide_eq_true (hle.trans (le_max_left _ _))
      · refine iff_of_false hready ?_
        have hlt := hbehind k hk.1 hk hid v (hid ▸ hv) hready
        intro hreached
        exact absurd hlt (not_lt.mpr (of_decide_eq_true hreached))
    · exact h k hk v' hv'

theorem healable_markLocalPresent {db : Database} (h : Healable db) (now : Timestamp)
    (problemId : String) (target : Option Int) :
    Healable { db with
      problemUsage := markLocalPresent now problemId target db.problemUsage } ↔
      ∀ generation ∈ target, ∀ k ∈ readyKeys db.snapshots, LatestReady db.snapshots k →
        k.1 = problemId →
          ((projection db.problemUsage problemId).map Prod.fst = some .ready ↔
            k.2 ≤ generation) := by
  have hmarked : ∀ k : String × Int, k.1 = problemId → ∀ generation ∈ target,
      projection (markLocalPresent now problemId target db.problemUsage) k.1 =
        some (((projection db.problemUsage problemId).map Prod.fst).getD .none,
          some generation) := by
    rintro k rfl generation htarget
    rw [projection_markLocalPresent, if_pos rfl, htarget]
    cases projection db.problemUsage k.1 <;> rfl
  have hstatus : ((projection db.problemUsage problemId).map Prod.fst).getD .none = .ready ↔
      (projection db.problemUsage problemId).map Prod.fst = some .ready := by
    cases projection db.problemUsage problemId with
    | none => exact iff_of_false R2Status.noConfusion (Option.some_ne_none _).symm
    | some v => exact (Option.some.injEq _ _).symm ▸ Iff.rfl
  constructor
  · intro hafter generation htarget k _ hk hid
    have hview := hafter k hk _ (hmarked k hid generation htarget)
    rw [← hstatus]
    exact hview.trans decide_eq_true_iff
  · intro hspares k hk v hv
    dsimp only at hv hk
    by_cases hid : k.1 = problemId
    · cases htarget : target with
      | none =>
          rw [htarget, projection_markLocalPresent, if_pos hid] at hv
          obtain rfl := Option.some.inj hv
          cases hold : projection db.problemUsage k.1 with
          | none => exact iff_of_false R2Status.noConfusion Bool.false_ne_true
          | some v₀ => exact h k hk v₀ hold
      | some generation =>
          rw [hmarked k hid generation htarget] at hv
          obtain rfl := Option.some.inj hv
          dsimp only
          rw [hstatus, hspares generation htarget k hk.1 hk hid]
          exact decide_eq_true_iff.symm
    · rw [projection_markLocalPresent, if_neg hid] at hv
      exact h k hk v hv

/-- A writer leaves the projection to the repair exactly when it spares it. -/
theorem healable_write_iff {a : UsageAction} (hinv : Healable s.db) (h : usageStep s a = some t) :
    Healable t.db ↔ SparesHealing s a := by
  cases a with
  | finalize a =>
      obtain ⟨db, hdb, rfl⟩ := Option.map_eq_some_iff.mp h
      obtain ⟨hadm, rfl⟩ := finalizeSnapshotCas_eq_ok (toOption_eq_some.mp hdb)
      exact iff_of_true (healable_finalized hadm hinv) trivial
  | scanJob externalId scan observedAt | accounting externalId scan observedAt =>
      obtain rfl := Option.some.inj h
      refine iff_of_true (hinv.keep rfl ?_) trivial
      intro p v hv
      dsimp only at hv
      rw [projection_upsertProblemUsage] at hv
      split at hv
      · exact .inr (Option.some.inj hv).symm
      · exact .inl hv
  | upsertProblemUsage problemId scan localStatus =>
      obtain rfl := Option.some.inj h
      refine iff_of_true (hinv.keep rfl ?_) trivial
      intro p v hv
      apply projection_of_upsertOn_same ?_ ?_ ?_ hv
      · intro u
        simp
      · intro u
        simp [r2View]
      · simp [r2View, defaultUsage]
  | upsertMissingUsage problemId =>
      obtain rfl := Option.some.inj h
      refine iff_of_true (hinv.keep rfl ?_) trivial
      intro p v hv
      exact projection_of_upsertOn_same (by intro u; rfl) (by intro u; rfl) rfl hv
  | compare code scan =>
      obtain ⟨found, -, rfl⟩ := Option.map_eq_some_iff.mp h
      exact iff_of_true hinv trivial
  | markLocalVerified problemId generation =>
      obtain ⟨-, h⟩ := Option.ite_none_right_eq_some.mp h
      obtain rfl := Option.some.inj h
      exact healable_markLocalVerified hinv s.now problemId generation
  | restore problemId target token dest folder =>
      obtain ⟨-, -, rfl⟩ := Option.map_eq_some_iff.mp h
      refine iff_of_true (hinv.keep rfl ?_) trivial
      intro p v hv
      exact .inl ((projection_updateWhere (by intro u; exact ⟨rfl, rfl⟩)).symm.trans hv)
  | markLocalPresent problemId target =>
      obtain ⟨-, h⟩ := Option.ite_none_right_eq_some.mp h
      obtain rfl := Option.some.inj h
      exact healable_markLocalPresent hinv s.now problemId target
  | evict q scan =>
      obtain ⟨generation, -, rfl⟩ := Option.map_eq_some_iff.mp h
      refine iff_of_true (hinv.keep rfl ?_) trivial
      intro p v hv
      exact .inl ((projection_updateWhere (by intro u; exact ⟨rfl, rfl⟩)).symm.trans hv)
  | other db =>
      obtain ⟨⟨hkeys, hviews⟩, h⟩ := Option.ite_none_right_eq_some.mp h
      obtain rfl := Option.some.inj h
      refine iff_of_true (hinv.keep hkeys ?_) trivial
      intro p v hv
      exact .inl ((projection_congr hviews).symm.trans hv)
  | tick elapsed =>
      obtain rfl := Option.some.inj h
      exact iff_of_true hinv trivial

theorem healable_healed (hinv : Healable s.db) :
    Healable (DataPlane.healUsageReadyProjection s.now s.db) := by
  intro k hk v' hv'
  rw [projection_healed] at hv'
  obtain ⟨v, hv, rfl⟩ := Option.map_eq_some_iff.mp hv'
  have hview := hinv k hk v hv
  obtain ⟨latest, hlatest⟩ : ∃ latest, latestReady k.1 s.db.snapshots = some latest := by
    rw [← Option.ne_none_iff_exists']
    intro hnone
    exact latestReady_eq_none.mp hnone k hk.1 rfl
  have hgeneration := hk.generation_eq hlatest
  rw [hlatest]
  have hdone := healedView_complete hgeneration.ge (hgeneration ▸ hview)
  exact iff_of_true hdone.1 hdone.2

theorem healable_step_iff {a : HealAction} (hinv : Healable s.db) (h : healStep s a = some t) :
    Healable t.db ↔ AdmitsHealing s a := by
  cases a with
  | write a => exact healable_write_iff hinv h
  | heal =>
      obtain rfl := Option.some.inj h
      exact iff_of_true (healable_healed hinv) trivial

/-- In a run from a database that the repair completes, it is complete in every state exactly
when no mark takes a generation to the READY one on a row that is not `ready`, or below it
on a row that is. -/
theorem healing_completes (actions : List HealAction) (hinit : HealingComplete s) :
    EveryStep healStep (fun _ _ t => HealingComplete t) s actions ↔
      EveryStep healStep (fun s a _ => AdmitsHealing s a) s actions := by
  have hinv := healingComplete_iff.mp hinit
  constructor
  · exact everyStep_of_invariant (I := fun s : UsageState => Healable s.db)
      (C := fun _ _ t => HealingComplete t)
      (fun s a t _ hafter _ => healingComplete_iff.mp hafter)
      (fun s a t hinv hafter h => (healable_step_iff hinv h).mp (healingComplete_iff.mp hafter)) hinv
  · exact everyStep_of_invariant (I := fun s : UsageState => Healable s.db)
      (C := fun s a _ => AdmitsHealing s a)
      (fun s a t hinv hspares h => (healable_step_iff hinv h).mpr hspares)
      (fun s a t hinv hspares h =>
        healingComplete_iff.mpr ((healable_step_iff hinv h).mpr hspares)) hinv

end Steps

section Sample

/-- A scan job takes the projection back, and the repair restores it. -/
def scannedAndHealed : List HealAction :=
  [.write (.finalize sampleFinalize), .write (.scanJob "101" sampleScan sampleTime), .heal,
    .write (.compare "aplusb" sampleScan), .write (.markLocalVerified "101" 1)]

theorem healing_completes_scanned :
    (exec healStep projectionStart scannedAndHealed).isSome = true ∧
      EveryStep healStep (fun _ _ t => HealingComplete t) projectionStart scannedAndHealed :=
  ⟨by decide +kernel,
    (healing_completes scannedAndHealed (by decide +kernel)).mpr (by decide +kernel)⟩

/-- The folder is found to match before the repair runs. -/
theorem verified_row_not_healed :
    HealingComplete projectionStart ∧
      ∃ t ∈ exec healStep projectionStart
          [.write (.finalize sampleFinalize), .write (.scanJob "101" sampleScan sampleTime),
            .write (.compare "aplusb" sampleScan), .write (.markLocalVerified "101" 1)],
        ("101", 1) ∈ readyKeys t.db.snapshots ∧
          projection (DataPlane.healUsageReadyProjection t.now t.db).problemUsage "101" =
            some (.none, some 1) := by
  decide +kernel

end Sample

end ExternalStorage.Snapshot
