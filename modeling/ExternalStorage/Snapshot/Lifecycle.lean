import ExternalStorage.Snapshot.Steps

/-!
# The READY lifecycle

No statement but the final CAS changes which rows are READY, unless a run writes
`hashing` over a READY row: that update addresses the row by its id alone.  The
CAS supersedes the READY row of the problem in the transaction that publishes a
larger generation.
-/

namespace ExternalStorage.Snapshot

open ExternalStorage.Model Library.Runs Library.Table

variable {Bytes : Type}

def readyRows (rows : List SnapshotRow) : List SnapshotRow :=
  rows.filter fun s => s.state = .ready

theorem mem_readyRows {rows : List SnapshotRow} {s : SnapshotRow} :
    s ∈ readyRows rows ↔ s ∈ rows ∧ s.state = .ready := by
  simp [readyRows]

/-- The index `idx_snapshots_one_ready_problem`. -/
def OneReady (rows : List SnapshotRow) : Prop :=
  ∀ problemId, (readyRows rows).countP (fun s => s.problemId = problemId) ≤ 1

/-- Every READY row stays as it is, or becomes `superseded` while a larger generation
of its problem becomes READY. -/
def SupersededOnly (rows rows' : List SnapshotRow) : Prop :=
  ∀ s ∈ readyRows rows, s ∈ readyRows rows' ∨
    (∃ s' ∈ rows', s'.id = s.id ∧ s'.state = .superseded) ∧
      ∃ t ∈ readyRows rows', t ∉ readyRows rows ∧ t.problemId = s.problemId ∧
        s.generation < t.generation

/-- The READY generation of a problem neither disappears nor decreases. -/
def ReadyPersists (rows rows' : List SnapshotRow) : Prop :=
  ∀ s ∈ readyRows rows, ∃ t ∈ readyRows rows',
    t.problemId = s.problemId ∧ s.generation ≤ t.generation

/-! ## Statements that keep the READY rows -/

theorem readyRows_updateWhere {p : SnapshotRow → Bool} {f : SnapshotRow → SnapshotRow}
    {rows : List SnapshotRow}
    (h : ∀ s ∈ rows, p s = true → s.state ≠ .ready ∧ (f s).state ≠ .ready) :
    readyRows (updateWhere p f rows) = readyRows rows := by
  induction rows with
  | nil => rfl
  | cons s rows ih =>
      have ih' := ih fun t ht => h t (List.mem_cons_of_mem _ ht)
      simp only [readyRows, updateWhere, List.map_cons, List.filter_cons] at ih' ⊢
      by_cases hp : p s = true
      · have hs := h s List.mem_cons_self hp
        simp only [hp, if_true, hs.1, hs.2, decide_false, Bool.false_eq_true, if_false]
        exact ih'
      · simp only [hp, if_false, Bool.false_eq_true]
        rw [ih']

theorem readyRows_deleteWhere {p : SnapshotRow → Bool} {rows : List SnapshotRow}
    (h : ∀ s ∈ rows, p s = true → s.state ≠ .ready) :
    readyRows (deleteWhere p rows) = readyRows rows := by
  simp only [readyRows, deleteWhere, List.filter_filter]
  apply List.filter_congr
  intro s hs
  by_cases hp : p s = true
  · simp [hp, h s hs hp]
  · simp [hp]

theorem takeoverAllowed_ne_ready {now : Timestamp} {s : SnapshotRow}
    (h : takeoverAllowed now s = true) : s.state ≠ .ready := by
  intro hready
  simp [takeoverAllowed, hready, SnapshotState.active] at h

theorem readyRows_claimSnapshot {now : Timestamp} {rows rows' : List SnapshotRow}
    {requestedId id : Uuid} {problemId : String} {generation : Int} {createdAt : Timestamp}
    (h : claimSnapshot now rows requestedId problemId generation createdAt = (rows', some id)) :
    readyRows rows' = readyRows rows := by
  rcases claimSnapshot_cases h with ⟨-, -, rfl⟩ | ⟨-, -, -, -, -, rfl⟩
  · simp [readyRows, List.filter_append, freshSnapshot]
  · apply readyRows_updateWhere
    intro s _ hs
    simp only [Bool.and_eq_true] at hs
    exact ⟨takeoverAllowed_ne_ready hs.2, by simp [SnapshotRow.reclaimed]⟩

theorem readyRows_prepare {db db' : Database} {id : Uuid} {files : List FileEntry}
    {mkey : String} (h : prepareSnapshotUpload db id files mkey = .ok db') :
    readyRows db'.snapshots = readyRows db.snapshots := by
  unfold prepareSnapshotUpload at h
  split at h
  · cases h
    apply readyRows_updateWhere
    intro s _ hs
    simp only [Bool.and_eq_true, decide_eq_true_eq] at hs
    simp [hs.2]
  · cases h

theorem readyRows_setVerifying (id : Uuid) (rows : List SnapshotRow) :
    readyRows (setVerifying id rows) = readyRows rows := by
  apply readyRows_updateWhere
  intro s _ hs
  simp only [Bool.and_eq_true, decide_eq_true_eq] at hs
  simp [hs.2]

theorem readyRows_markSnapshotError (now : Timestamp) (id : Uuid) (err : AppError)
    (rows : List SnapshotRow) :
    readyRows (markSnapshotError now id err rows) = readyRows rows := by
  apply readyRows_updateWhere
  intro s _ hs
  simp only [Bool.and_eq_true, decide_eq_true_eq] at hs
  exact ⟨hs.2, by simp⟩

theorem readyRows_failStalledSnapshots (now : Timestamp) (rows : List SnapshotRow) :
    readyRows (failStalledSnapshots now rows) = readyRows rows := by
  apply readyRows_updateWhere
  intro s _ hs
  refine ⟨?_, by simp⟩
  intro hready
  simp [hready, SnapshotState.active] at hs

theorem readyRows_applyRetention (now : Timestamp) (ids : String → Uuid) (db : Database) :
    readyRows (applyRetention now ids db).snapshots = readyRows db.snapshots := by
  apply readyRows_deleteWhere
  intro s _ hs hready
  simp [prunable, retentionExpired, hready] at hs

/-! ## The final CAS -/

theorem not_finalizable {id : Uuid} {problemId : String} {generation : Int} {s : SnapshotRow}
    (h : s.state ≠ .verifying) : ¬ finalizable id problemId generation s = true := by
  rw [finalizable_iff]
  exact fun hfinal => h hfinal.2.2.2

theorem supersededOnly_finalized {now : Timestamp} {a : FinalizeArgs} {db : Database}
    (hadm : FinalizeAdmitted now a db) :
    SupersededOnly db.snapshots (finalized now a db).snapshots := by
  intro s hs
  obtain ⟨hmem, hready⟩ := mem_readyRows.mp hs
  by_cases hstale : s.problemId = a.problemId ∧ s.generation < a.generation
  · right
    have hsuperseded : { s with state := .superseded, supersededAt := some now } ∈
        supersedeReady now a.problemId a.generation db.snapshots :=
      mem_updateWhere.mpr ⟨s, hmem, by simp [hstale, hready]⟩
    obtain ⟨t, ht, hfinal⟩ := List.countP_pos_iff.mp (by rw [hadm.verifying]; decide)
    have hpublished : t.published now a.manifestFiles.length a.totalBytes a.manifestKey ∈
        (finalized now a db).snapshots :=
      mem_updateWhere.mpr ⟨t, ht, by rw [if_pos hfinal]⟩
    obtain ⟨-, hproblem, hgeneration, -⟩ := finalizable_iff.mp hfinal
    refine ⟨⟨_, mem_updateWhere.mpr ⟨_, hsuperseded, (if_neg ?_).symm⟩, rfl, rfl⟩,
      _, mem_readyRows.mpr ⟨hpublished, rfl⟩, ?_, ?_, ?_⟩
    · exact not_finalizable (by simp)
    · intro hold
      obtain ⟨hmem', -⟩ := mem_readyRows.mp hold
      -- A READY row of this generation would have survived the supersession.
      refine hadm.noReady _ (mem_updateWhere.mpr ⟨_, hmem', (if_neg ?_).symm⟩) hproblem rfl
      simp [SnapshotRow.published, hgeneration]
    · rw [hstale.1]
      exact hproblem
    · change s.generation < t.generation
      rw [hgeneration]
      exact hstale.2
  · left
    have hkept : s ∈ supersedeReady now a.problemId a.generation db.snapshots := by
      refine mem_updateWhere.mpr ⟨s, hmem, (if_neg ?_).symm⟩
      simp only [Bool.and_eq_true, decide_eq_true_eq]
      rintro ⟨⟨hp, -⟩, hg⟩
      exact hstale ⟨hp, hg⟩
    refine mem_readyRows.mpr ⟨mem_updateWhere.mpr ⟨s, hkept, (if_neg ?_).symm⟩, hready⟩
    exact not_finalizable (by simp [hready])

theorem countP_readyRows (rows : List SnapshotRow) (problemId : String) :
    (readyRows rows).countP (fun s => s.problemId = problemId) =
      rows.countP fun s => s.problemId = problemId && s.state = .ready := by
  rw [readyRows, List.countP_filter]

theorem oneReady_finalized {now : Timestamp} {a : FinalizeArgs} {db : Database}
    (hadm : FinalizeAdmitted now a db) (hone : OneReady db.snapshots) :
    OneReady (finalized now a db).snapshots := by
  intro problemId
  rw [countP_readyRows, finalized_snapshots]
  by_cases hproblem : problemId = a.problemId
  · subst hproblem
    calc
      _ = (supersedeReady now a.problemId a.generation db.snapshots).countP
          (finalizable a.snapshotId a.problemId a.generation) := by
        rw [updateWhere, List.countP_map]
        apply List.countP_congr
        intro s hs
        rw [Function.comp_apply]
        split
        · rename_i hfinal
          simp [hfinal, SnapshotRow.published, (finalizable_iff.mp hfinal).2.1]
        · rename_i hfinal
          simp only [Bool.and_eq_true, decide_eq_true_eq]
          exact ⟨fun h => absurd h.2 (hadm.noReady s hs h.1), fun h => absurd h hfinal⟩
      _ ≤ 1 := hadm.verifying.le
  · calc
      _ = db.snapshots.countP fun s => s.problemId = problemId && s.state = .ready := by
        rw [supersedeReady, countP_updateWhere, countP_updateWhere]
        · intro s _ hs
          simp only [Bool.and_eq_true, decide_eq_true_eq] at hs
          simp [hs.1.1, Ne.symm hproblem]
        · intro s _ hs
          simp [SnapshotRow.published, (finalizable_iff.mp hs).2.1, Ne.symm hproblem]
      _ ≤ 1 := by
        rw [← countP_readyRows]
        exact hone problemId

/-! ## Steps and runs -/

/-- The step does not write `hashing` over a READY row. -/
def SparesReady (w : World Bytes) (a : Action Bytes) (_ : World Bytes) : Prop :=
  match a with
  | .run r .setHashing => ∀ run ∈ w.runs[r]?, ∀ s ∈ w.db.snapshots,
      s.id = run.snapshotId → s.state ≠ .ready
  | _ => True

instance (w : World Bytes) (a : Action Bytes) (w' : World Bytes) :
    Decidable (SparesReady w a w') := by
  unfold SparesReady
  obtain _ | ⟨r, op⟩ | _ := a
  case run => obtain _ | _ := op <;> infer_instance
  all_goals infer_instance

/-- What a step may do to the READY rows. -/
def LifecycleStep (w : World Bytes) (_ : Action Bytes) (w' : World Bytes) : Prop :=
  OneReady w'.db.snapshots ∧ SupersededOnly w.db.snapshots w'.db.snapshots

theorem runStep_readyRows {d : DataPlane Bytes} {now : Timestamp} {db : Database}
    {store : Store Bytes} {run : Run} {op : RunOp Bytes} {e : Effect Bytes}
    (h : RunStep d now db store run op e)
    (hspares : op = .setHashing → ∀ s ∈ db.snapshots, s.id = run.snapshotId → s.state ≠ .ready) :
    readyRows e.db.snapshots = readyRows db.snapshots ∨
      ∃ a, FinalizeAdmitted now a db ∧ e.db = finalized now a db := by
  cases h with
  | claimed phase claim => exact .inl (readyRows_claimSnapshot claim)
  | hashing phase =>
      refine .inl (readyRows_updateWhere fun s hs hid => ?_)
      exact ⟨hspares rfl s hs (of_decide_eq_true hid), by simp⟩
  | prepared phase prepare => exact .inl (readyRows_prepare prepare)
  | verifying phase => exact .inl (readyRows_setVerifying _ _)
  | committed phase finalize => exact .inr ⟨_, finalizeBody_eq_ok_iff.mp finalize⟩
  | marked phase => exact .inl (readyRows_markSnapshotError _ _ _ _)
  | _ => exact .inl rfl

theorem step_readyRows {d : DataPlane Bytes} {w w' : World Bytes} {a : Action Bytes}
    (h : step d w a = some w') (hspares : SparesReady w a w') :
    readyRows w'.db.snapshots = readyRows w.db.snapshots ∨
      ∃ args, FinalizeAdmitted w.now args w.db ∧ w'.db = finalized w.now args w.db := by
  cases a with
  | begin id problemId generation token version scan =>
      obtain ⟨-, -, rfl⟩ := step_begin h
      exact .inl rfl
  | run r op =>
      obtain ⟨run, e, hrun, -, hstep, rfl⟩ := step_run h
      refine runStep_readyRows hstep fun hop => ?_
      subst hop
      exact hspares run hrun
  | gcList id token =>
      obtain ⟨m, -, rfl⟩ := step_gcList h
      exact .inl rfl
  | gc g op =>
      obtain ⟨worker, e, -, -, hgc, rfl⟩ := step_gc h
      left
      rw [(gcStep_rows hgc).1]
  | retention ids =>
      cases h
      exact .inl (readyRows_applyRetention _ _ _)
  | failStalled =>
      cases h
      exact .inl (readyRows_failStalledSnapshots _ _)
  | tick elapsed =>
      cases h
      exact .inl rfl
  | external tables =>
      cases h
      exact .inl rfl

theorem lifecycleStep_of_readyRows_eq {w w' : World Bytes} {a : Action Bytes}
    (h : readyRows w'.db.snapshots = readyRows w.db.snapshots) (hone : OneReady w.db.snapshots) :
    LifecycleStep w a w' := by
  refine ⟨?_, ?_⟩
  · intro problemId
    rw [h]
    exact hone problemId
  · intro s hs
    left
    rw [h]
    exact hs

theorem lifecycleStep_of_sparesReady {d : DataPlane Bytes} {w w' : World Bytes}
    {a : Action Bytes} (hone : OneReady w.db.snapshots) (hspares : SparesReady w a w')
    (h : step d w a = some w') : LifecycleStep w a w' := by
  rcases step_readyRows h hspares with heq | ⟨args, hadm, hdb⟩
  · exact lifecycleStep_of_readyRows_eq heq hone
  · rw [LifecycleStep, hdb]
    exact ⟨oneReady_finalized hadm hone, supersededOnly_finalized hadm⟩

/-- Writing `hashing` over a READY row takes it out of the READY rows and puts no other
row in. -/
theorem sparesReady_of_lifecycleStep {d : DataPlane Bytes} {w w' : World Bytes}
    {a : Action Bytes} (hlife : LifecycleStep w a w') (h : step d w a = some w') :
    SparesReady w a w' := by
  unfold SparesReady
  split
  case h_2 => trivial
  rename_i r
  intro run hrun s hs hid hready
  obtain ⟨run', e, hrun', -, hstep, rfl⟩ := step_run h
  obtain rfl : run = run' := Option.some.inj (hrun.symm.trans hrun')
  cases hstep with
  | hashing phase =>
      have hsub : ∀ t ∈ readyRows (setHashing run.snapshotId w.db.snapshots),
          t ∈ readyRows w.db.snapshots ∧ t.id ≠ run.snapshotId := by
        intro t ht
        obtain ⟨hmem, htready⟩ := mem_readyRows.mp ht
        obtain ⟨t₀, ht₀, rfl⟩ := mem_updateWhere.mp hmem
        by_cases hid₀ : t₀.id = run.snapshotId
        · simp [hid₀] at htready
        · simp only [hid₀, decide_false, Bool.false_eq_true, if_false] at htready ⊢
          exact ⟨mem_readyRows.mpr ⟨ht₀, htready⟩, hid₀⟩
      rcases hlife.2 s (mem_readyRows.mpr ⟨hs, hready⟩) with hkept | ⟨-, t, ht, hnew, -⟩
      · exact (hsub s hkept).2 hid
      · exact hnew (hsub t ht).1
  | failed fallible live => cases fallible
  | stopped stopping live => cases stopping

theorem readyPersists_of_supersededOnly {rows rows' : List SnapshotRow}
    (h : SupersededOnly rows rows') : ReadyPersists rows rows' := by
  intro s hs
  rcases h s hs with hkept | ⟨-, t, ht, -, hproblem, hlt⟩
  · exact ⟨s, hkept, rfl, le_rfl⟩
  · exact ⟨t, ht, hproblem, hlt.le⟩

theorem readyPersists_refl (rows : List SnapshotRow) : ReadyPersists rows rows :=
  fun s hs => ⟨s, hs, rfl, le_rfl⟩

theorem readyPersists_trans {rows rows' rows'' : List SnapshotRow}
    (h : ReadyPersists rows rows') (h' : ReadyPersists rows' rows'') :
    ReadyPersists rows rows'' := by
  intro s hs
  obtain ⟨t, ht, hproblem, hle⟩ := h s hs
  obtain ⟨u, hu, hproblem', hle'⟩ := h' t ht
  exact ⟨u, hu, hproblem'.trans hproblem, hle.trans hle'⟩

/-- READY lifecycle: every step of a run keeps one READY row per problem and lets a
READY row go only to a larger generation, exactly when no step of the run writes
`hashing` over a READY row; and then the READY generation persists. -/
theorem ready_lifecycle (d : DataPlane Bytes) (w : World Bytes) (as : List (Action Bytes))
    (hone : OneReady w.db.snapshots) :
    (EveryStep (step d) LifecycleStep w as ↔ EveryStep (step d) SparesReady w as) ∧
      ∀ u, exec (step d) w as = some u → EveryStep (step d) SparesReady w as →
        OneReady u.db.snapshots ∧ ReadyPersists w.db.snapshots u.db.snapshots := by
  have hpreserved : ∀ (w : World Bytes) a w', OneReady w.db.snapshots → SparesReady w a w' →
      step d w a = some w' → OneReady w'.db.snapshots :=
    fun _ _ _ hone hspares h => (lifecycleStep_of_sparesReady hone hspares h).1
  refine ⟨⟨?_, ?_⟩, ?_⟩
  · intro hlife
    exact hlife.mono fun _ _ _ h hstep => sparesReady_of_lifecycleStep hstep h
  · intro hspares
    exact everyStep_of_invariant hpreserved
      (fun _ _ _ hone hstep h => lifecycleStep_of_sparesReady hone hstep h) hone hspares
  · intro u hrun hspares
    refine ⟨exec_invariant hpreserved hone hspares hrun, ?_⟩
    have hlife : EveryStep (step d) LifecycleStep w as :=
      everyStep_of_invariant hpreserved
        (fun _ _ _ hone hstep h => lifecycleStep_of_sparesReady hone hstep h) hone hspares
    have hsteps := hlife.mono fun _ _ _ _ hstep => readyPersists_of_supersededOnly hstep.2
    exact exec_rel (R := fun w w' => ReadyPersists w.db.snapshots w'.db.snapshots)
      (fun w => readyPersists_refl w.db.snapshots)
      (fun _ _ _ => readyPersists_trans) hsteps hrun

/-- A run stops before its `hashing` update for more than two hours, and another one
takes the row over and publishes it. -/
def delayedHashingRun : List (Action Content) :=
  claimingRun 0 1 1 ++ [.tick 7201000000] ++ claimingRun 1 2 2 ++ uploadingRun 1 ++
    publishingRun 1

theorem ready_lifecycle_takeover :
    EveryStep (step samplePlane) LifecycleStep sampleWorld delayedHashingRun := by
  refine (ready_lifecycle samplePlane sampleWorld delayedHashingRun ?_).1.mpr ?_
  · intro problemId
    exact Nat.zero_le 1
  · decide +kernel

/-- The delayed update then takes the published generation out of READY. -/
theorem ready_generation_lost :
    ∃ w u : World Content,
      exec (step samplePlane) sampleWorld delayedHashingRun = some w ∧
        step samplePlane w (.run 0 .setHashing) = some u ∧
        (readyRows w.db.snapshots).map SnapshotRow.generation = [1] ∧
        readyRows u.db.snapshots = [] := by
  have hrun : ((exec (step samplePlane) sampleWorld delayedHashingRun).any fun w =>
      (step samplePlane w (.run 0 .setHashing)).any fun u =>
        (readyRows w.db.snapshots).map SnapshotRow.generation = [1] ∧
          readyRows u.db.snapshots = []) = true := by
    decide +kernel
  obtain ⟨w, hw, h⟩ := (Option.any_eq_true _ _).mp hrun
  obtain ⟨u, hu, h⟩ := (Option.any_eq_true _ _).mp h
  exact ⟨w, u, hw, hu, of_decide_eq_true h⟩

end ExternalStorage.Snapshot
