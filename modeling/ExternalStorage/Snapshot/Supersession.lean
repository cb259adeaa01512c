import ExternalStorage.Snapshot.Steps

/-!
# Superseded runs

A run is superseded when another run has claimed its row since.  Its later
statements address the row by id, most of them without asking who owns it, so each
is harmless exactly when its own `WHERE` clause turns the row down or the values it
writes are there already.
-/

namespace ExternalStorage.Snapshot

open ExternalStorage.Model Library.Runs Library.Table

variable {Bytes : Type}

def World.superseded (w : World Bytes) (r : Nat) (run : Run) : Prop :=
  run.phase.executing = true ∧ ∃ o ∈ w.owner run.snapshotId, o ≠ r

/-- The owner of the row has deleted the objects of earlier runs: the rows there are
those of its claim. -/
def World.ownerCleaned (w : World Bytes) (id : Uuid) : Prop :=
  ∃ o owner, w.owner id = some o ∧ w.runs[o]? = some owner ∧ owner.phase ≠ .claimed

def claimView (s : SnapshotRow) :
    SnapshotState × Option String × Option String × Option String :=
  (s.state, s.manifestKey, s.errorCode, s.errorMessage)

def rowView (id : Uuid) (rows : List SnapshotRow) :
    List (SnapshotState × Option String × Option String × Option String) :=
  (rows.filter fun s => s.id = id).map claimView

def objectsOf (id : Uuid) (objects : List SnapshotObjectRow) : List SnapshotObjectRow :=
  objects.filter fun o => o.snapshotId = id

/-- The step leaves the row, and the objects of its owner's claim, as they are. -/
def Undisturbed (w : World Bytes) (id : Uuid) (w' : World Bytes) : Prop :=
  rowView id w'.db.snapshots = rowView id w.db.snapshots ∧
    (w.ownerCleaned id →
      objectsOf id w'.db.snapshotObjects = objectsOf id w.db.snapshotObjects)

/-- The statement of a run finds a row that it turns down or that has its values. -/
def Harmless (w : World Bytes) (run : Run) (op : RunOp Bytes) : Prop :=
  match op, run.phase with
  | .cleanup, _ => w.ownerCleaned run.snapshotId →
      ∀ o ∈ w.db.snapshotObjects, o.snapshotId ≠ run.snapshotId
  | .setHashing, _ => ∀ s ∈ w.db.snapshots, s.id = run.snapshotId → s.state = .hashing
  | .prepare initYml, _ => canonicalDownloadPath initYml run.scan.files = none ∨
      w.db.snapshots.countP (fun s => s.id = run.snapshotId && s.state = .hashing) ≠ 1
  | .record i, .uploading _ _ inFlight _ => w.ownerCleaned run.snapshotId →
      ∀ t ∈ inFlight[i]?,
        w.db.snapshotObjects.countP (SnapshotObjectRow.isAt run.snapshotId t.file.path) ≠ 1 ∨
          ∀ o ∈ w.db.snapshotObjects, o.isAt run.snapshotId t.file.path = true →
            t.file.storedRow o = o
  | .setVerifying, _ => ∀ s ∈ w.db.snapshots, s.id = run.snapshotId → s.state ≠ .uploading
  | .commit, .checked m => ¬ FinalizeAdmitted w.now (run.finalizeArgs m) w.db
  | .markError, .failing e => ∀ s ∈ w.db.snapshots, s.id = run.snapshotId →
      s.state = .ready ∨ s.state = .error ∧ s.errorCode = some e.errorCode ∧
        s.errorMessage = some e.message
  | _, _ => True

/-- Every step that a superseded run takes is undisturbing. -/
def SupersededUndisturbing (w : World Bytes) (a : Action Bytes) (w' : World Bytes) : Prop :=
  ∀ r op run, a = .run r op → w.runs[r]? = some run → w.superseded r run →
    Undisturbed w run.snapshotId w'

/-- Every step that a superseded run takes is harmless. -/
def SupersededHarmless (w : World Bytes) (a : Action Bytes) (_ : World Bytes) : Prop :=
  ∀ r op run, a = .run r op → w.runs[r]? = some run → w.superseded r run →
    Harmless w run op

/-! ## What a statement does to the view of a row -/

theorem rowView_updateWhere {id : Uuid} {p : SnapshotRow → Bool} {f : SnapshotRow → SnapshotRow}
    (hid : ∀ s, (f s).id = s.id) (rows : List SnapshotRow) :
    rowView id (updateWhere p f rows) = rowView id rows ↔
      ∀ s ∈ rows, s.id = id → p s = true → claimView (f s) = claimView s := by
  rw [rowView, rowView, map_filter_updateWhere fun s => by rw [hid]]
  simp only [decide_eq_true_eq]

theorem objectsOf_updateWhere {id : Uuid} {p : SnapshotObjectRow → Bool}
    {f : SnapshotObjectRow → SnapshotObjectRow} (hid : ∀ o, (f o).snapshotId = o.snapshotId)
    (objects : List SnapshotObjectRow) :
    objectsOf id (updateWhere p f objects) = objectsOf id objects ↔
      ∀ o ∈ objects, o.snapshotId = id → p o = true → f o = o := by
  have hview : ∀ l : List SnapshotObjectRow, objectsOf id l =
      (l.filter fun o => o.snapshotId = id).map fun o => o := by
    intro l
    rw [List.map_id', objectsOf]
  rw [hview, hview, map_filter_updateWhere fun o => by rw [hid]]
  simp only [decide_eq_true_eq]

theorem rowView_setHashing (id : Uuid) (rows : List SnapshotRow) :
    rowView id (setHashing id rows) = rowView id rows ↔
      ∀ s ∈ rows, s.id = id → s.state = .hashing := by
  rw [setHashing, rowView_updateWhere]
  · simp only [decide_eq_true_eq, claimView, Prod.mk.injEq, and_true]
    exact ⟨fun h s hs hid => (h s hs hid hid).symm, fun h s hs hid _ => (h s hs hid).symm⟩
  · intro s
    rfl

theorem rowView_setVerifying (id : Uuid) (rows : List SnapshotRow) :
    rowView id (setVerifying id rows) = rowView id rows ↔
      ∀ s ∈ rows, s.id = id → s.state ≠ .uploading := by
  rw [setVerifying, rowView_updateWhere]
  · simp only [Bool.and_eq_true, decide_eq_true_eq, claimView, Prod.mk.injEq, and_true]
    constructor
    · intro h s hs hid huploading
      have hsame := h s hs hid ⟨hid, huploading⟩
      rw [huploading] at hsame
      cases hsame
    · intro h s hs hid huploading
      exact absurd huploading.2 (h s hs hid)
  · intro s
    rfl

theorem rowView_markSnapshotError (now : Timestamp) (id : Uuid) (e : AppError)
    (rows : List SnapshotRow) :
    rowView id (markSnapshotError now id e rows) = rowView id rows ↔
      ∀ s ∈ rows, s.id = id → s.state = .ready ∨
        s.state = .error ∧ s.errorCode = some e.errorCode ∧ s.errorMessage = some e.message := by
  rw [markSnapshotError, rowView_updateWhere]
  · simp only [Bool.and_eq_true, decide_eq_true_eq, claimView, Prod.mk.injEq, true_and]
    constructor
    · intro h s hs hid
      by_cases hready : s.state = .ready
      · exact .inl hready
      · obtain ⟨hstate, hcode, hmessage⟩ := h s hs hid ⟨hid, hready⟩
        exact .inr ⟨hstate.symm, hcode.symm, hmessage.symm⟩
    · rintro h s hs hid ⟨-, hready⟩
      rcases h s hs hid with hready' | ⟨hstate, hcode, hmessage⟩
      · exact absurd hready' hready
      · exact ⟨hstate.symm, hcode.symm, hmessage.symm⟩
  · intro s
    rfl

theorem rowView_prepare_ne {db db' : Database} {id : Uuid} {files : List FileEntry}
    {mkey : String} (h : prepareSnapshotUpload db id files mkey = .ok db') :
    rowView id db'.snapshots ≠ rowView id db.snapshots := by
  unfold prepareSnapshotUpload at h
  split at h
  · rename_i hcount
    cases h
    change rowView id (setUploading id mkey db.snapshots) ≠ _
    rw [Ne, setUploading, rowView_updateWhere (by intro s; rfl)]
    obtain ⟨s, hs, hp⟩ := List.countP_pos_iff.mp (by rw [hcount]; decide)
    have hp' := hp
    simp only [Bool.and_eq_true, decide_eq_true_eq] at hp'
    intro hsame
    have hstate := congrArg Prod.fst (hsame s hs hp'.1 hp)
    simp [claimView, hp'.2] at hstate
  · cases h

theorem rowView_finalized_ne {now : Timestamp} {a : FinalizeArgs} {db : Database}
    (hadm : FinalizeAdmitted now a db) :
    rowView a.snapshotId (finalized now a db).snapshots ≠ rowView a.snapshotId db.snapshots := by
  obtain ⟨t, ht, hfinal⟩ := List.countP_pos_iff.mp (by rw [hadm.verifying]; decide)
  obtain ⟨s, hs, rfl⟩ := mem_updateWhere.mp ht
  obtain ⟨hid, -, -, hverifying⟩ := finalizable_iff.mp hfinal
  rw [finalized_snapshots, supersedeReady, updateWhere_updateWhere, Ne, rowView_updateWhere]
  · intro hsame
    split at hverifying
    · cases hverifying
    · rename_i hkept
      rw [if_neg hkept] at hid hfinal
      have hstate := congrArg Prod.fst (hsame s hs hid rfl)
      rw [if_neg hkept, if_pos hfinal] at hstate
      rw [claimView, claimView, hverifying] at hstate
      cases hstate
  · intro s
    split
    all_goals split
    all_goals rfl

theorem objectsOf_deleteSnapshotObjects (id : Uuid) (objects : List SnapshotObjectRow) :
    objectsOf id (deleteSnapshotObjects id objects) = objectsOf id objects ↔
      ∀ o ∈ objects, o.snapshotId ≠ id := by
  have hnil : objectsOf id (deleteSnapshotObjects id objects) = [] := by
    simp [objectsOf, deleteSnapshotObjects, deleteWhere]
  rw [hnil, eq_comm, objectsOf, List.filter_eq_nil_iff]
  simp only [decide_eq_true_eq]

theorem objectsOf_recordUploaded {id : Uuid} {f : FileEntry}
    {objects objects' : List SnapshotObjectRow} (h : recordUploaded id f objects = .ok objects') :
    objectsOf id objects' = objectsOf id objects ↔
      objects.countP (SnapshotObjectRow.isAt id f.path) ≠ 1 ∨
        ∀ o ∈ objects, o.isAt id f.path = true → f.storedRow o = o := by
  unfold recordUploaded at h
  split at h
  · rename_i hcount
    cases h
    rw [objectsOf_updateWhere (by intro o; rfl)]
    simp only [hcount, ne_eq, not_true_eq_false, false_or]
    constructor
    · intro h o ho hat
      have hid : o.snapshotId = id := by
        simp only [SnapshotObjectRow.isAt, Bool.and_eq_true, decide_eq_true_eq] at hat
        exact hat.1
      exact h o ho hid hat
    · intro h o ho _ hat
      exact h o ho hat
  · cases h

theorem recordUploaded_eq_error {id : Uuid} {f : FileEntry} {objects : List SnapshotObjectRow}
    {err : AppError} (h : recordUploaded id f objects = .error err) :
    objects.countP (SnapshotObjectRow.isAt id f.path) ≠ 1 := by
  unfold recordUploaded at h
  split at h
  · cases h
  · assumption

theorem prepareSnapshotUpload_eq_error {db : Database} {id : Uuid} {files : List FileEntry}
    {mkey : String} {err : AppError} (h : prepareSnapshotUpload db id files mkey = .error err) :
    db.snapshots.countP (fun s => s.id = id && s.state = .hashing) ≠ 1 := by
  unfold prepareSnapshotUpload at h
  split at h
  · cases h
  · assumption

/-! ## Steps and runs -/

theorem undisturbed_of_rows_eq {w w' : World Bytes} {id : Uuid}
    (hrows : w'.db.snapshots = w.db.snapshots)
    (hobjects : w'.db.snapshotObjects = w.db.snapshotObjects) : Undisturbed w id w' := by
  rw [Undisturbed, hrows, hobjects]
  exact ⟨rfl, fun _ => rfl⟩

theorem undisturbed_iff_harmless {d : DataPlane Bytes} {w : World Bytes} {r : Nat} {run : Run}
    {op : RunOp Bytes} {e : Effect Bytes} (hsuperseded : w.superseded r run)
    (h : RunStep d w.now w.db w.store run op e) :
    Undisturbed w run.snapshotId (w.afterRun r run e) ↔ Harmless w run op := by
  cases h with
  | claimed phase claim =>
      rw [World.superseded, phase] at hsuperseded
      cases hsuperseded.1
  | cleaned phase =>
      change (rowView _ _ = rowView _ _ ∧ (_ → objectsOf _ (deleteSnapshotObjects _ _) = _)) ↔
        (_ → _)
      rw [objectsOf_deleteSnapshotObjects]
      exact and_iff_right rfl
  | hashing phase =>
      change (rowView _ (setHashing _ _) = _ ∧ (_ → objectsOf _ _ = objectsOf _ _)) ↔ _
      rw [rowView_setHashing]
      exact and_iff_left fun _ => rfl
  | prepared phase prepare archive =>
      refine iff_of_false (fun hsame => rowView_prepare_ne prepare hsame.1) ?_
      rintro (hnone | hcount)
      · cases archive.symm.trans hnone
      unfold prepareSnapshotUpload at prepare
      split at prepare
      · rename_i hone
        exact hcount hone
      · cases prepare
  | prepareFailed phase prepare =>
      exact iff_of_true (undisturbed_of_rows_eq rfl rfl)
        (.inr (prepareSnapshotUpload_eq_error prepare))
  | archiveless phase archive =>
      exact iff_of_true (undisturbed_of_rows_eq rfl rfl) (.inl archive)
  | @recorded canonical pending inFlight uploaded i t objects phase inFlightAt stored record =>
      change (rowView _ _ = rowView _ _ ∧ (_ → objectsOf _ objects = _)) ↔ _
      rw [objectsOf_recordUploaded record]
      simp only [Harmless, phase, inFlightAt, Option.mem_some_iff, forall_eq']
      exact and_iff_right rfl
  | @recordFailed canonical pending inFlight uploaded i t err phase inFlightAt record =>
      refine iff_of_true (undisturbed_of_rows_eq rfl rfl) ?_
      simp only [Harmless, phase, inFlightAt, Option.mem_some_iff, forall_eq']
      exact fun _ => .inl (recordUploaded_eq_error record)
  | verifying phase =>
      change (rowView _ (setVerifying _ _) = _ ∧ (_ → objectsOf _ _ = objectsOf _ _)) ↔ _
      rw [rowView_setVerifying]
      exact and_iff_left fun _ => rfl
  | @committed m db' phase finalize =>
      obtain ⟨hadm, rfl⟩ := finalizeBody_eq_ok_iff.mp finalize
      refine iff_of_false (fun hsame => rowView_finalized_ne hadm hsame.1) ?_
      simp only [Harmless, phase]
      exact fun hnot => hnot hadm
  | @commitFailed m err phase finalize =>
      refine iff_of_true (undisturbed_of_rows_eq rfl rfl) ?_
      simp only [Harmless, phase]
      intro hadm
      rw [finalizeBody_eq_ok_iff.mpr ⟨hadm, rfl⟩] at finalize
      cases finalize
  | @marked err phase =>
      change (rowView _ (markSnapshotError _ _ _ _) = _ ∧
        (_ → objectsOf _ _ = objectsOf _ _)) ↔ _
      rw [rowView_markSnapshotError]
      simp only [Harmless, phase]
      exact and_iff_left fun _ => rfl
  | failed fallible live =>
      refine iff_of_true (undisturbed_of_rows_eq rfl rfl) ?_
      cases op with
      | task | verifyManifest | checkFencing | fail => trivial
      | _ => cases fallible
  | stopped stopping live =>
      refine iff_of_true (undisturbed_of_rows_eq rfl rfl) ?_
      cases op with
      | claim | fail | crash => trivial
      | _ => cases stopping
  | _ => exact iff_of_true (undisturbed_of_rows_eq rfl rfl) trivial

/-- Along every run, the steps of superseded runs leave the row and the objects of its
owner alone exactly when each of their statements meets a row that it turns down or
that has its values. -/
theorem superseded_undisturbing_iff_harmless (d : DataPlane Bytes) (w : World Bytes)
    (as : List (Action Bytes)) :
    EveryStep (step d) SupersededUndisturbing w as ↔
      EveryStep (step d) SupersededHarmless w as := by
  have hstep : ∀ (w : World Bytes) a w', step d w a = some w' →
      (SupersededUndisturbing w a w' ↔ SupersededHarmless w a w') := by
    intro w a w' h
    have hrun : ∀ r op run, a = .run r op → w.runs[r]? = some run → w.superseded r run →
        (Undisturbed w run.snapshotId w' ↔ Harmless w run op) := by
      rintro r op run rfl hr hsuperseded
      obtain ⟨run', e, hr', -, hrunStep, rfl⟩ := step_run h
      obtain rfl : run = run' := Option.some.inj (hr.symm.trans hr')
      exact undisturbed_iff_harmless hsuperseded hrunStep
    constructor
    · intro hsame r op run ha hr hs
      exact (hrun r op run ha hr hs).mp (hsame r op run ha hr hs)
    · intro hharmless r op run ha hr hs
      exact (hrun r op run ha hr hs).mpr (hharmless r op run ha hr hs)
  constructor
  · exact fun h => h.mono fun w a w' hs => (hstep w a w' hs).mp
  · exact fun h => h.mono fun w a w' hs => (hstep w a w' hs).mpr

/-- A run is replaced after two hours, and then fails: the row of its successor, which
is hashing, becomes `error`. -/
theorem superseded_run_fails_successor :
    ∃ w u : World Content,
      exec (step samplePlane) sampleWorld
        (claimingRun 0 1 1 ++ [.tick 7201000000] ++ claimingRun 1 2 2 ++
          [.run 1 .setHashing, .run 0 (.fail (.fileChurn "init.yml"))]) = some w ∧
      step samplePlane w (.run 0 .markError) = some u ∧
      w.owner 1 = some 1 ∧ w.runs.map Run.fencingToken = [1, 2] ∧
      rowView 1 w.db.snapshots = [(.hashing, none, none, none)] ∧
      rowView 1 u.db.snapshots = [(.error, none, some "file_churn",
        some "file changed while scanning: init.yml")] := by
  have hrun : ((exec (step samplePlane) sampleWorld
        (claimingRun 0 1 1 ++ [.tick 7201000000] ++ claimingRun 1 2 2 ++
          [.run 1 .setHashing, .run 0 (.fail (.fileChurn "init.yml"))])).any fun w =>
      (step samplePlane w (.run 0 .markError)).any fun u =>
        w.owner 1 = some 1 ∧ w.runs.map Run.fencingToken = [1, 2] ∧
        rowView 1 w.db.snapshots = [(.hashing, none, none, none)] ∧
        rowView 1 u.db.snapshots = [(.error, none, some "file_churn",
          some "file changed while scanning: init.yml")]) = true := by
    decide +kernel
  obtain ⟨w, hw, h⟩ := (Option.any_eq_true _ _).mp hrun
  obtain ⟨u, hu, h⟩ := (Option.any_eq_true _ _).mp h
  exact ⟨w, u, hw, hu, of_decide_eq_true h⟩

end ExternalStorage.Snapshot
