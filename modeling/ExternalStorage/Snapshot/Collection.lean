import ExternalStorage.Snapshot.Immutability

/-!
# Collection spares live data

A collector deletes an object between its second look at the references and its
third.  The key lock keeps `prepare_snapshot_upload` out of that window, and from
then on the row of a run protects what it has claimed.  The invariant relates the
claims of each run, the rows they protect and what each collector has seen.
-/

namespace ExternalStorage.Snapshot

open ExternalStorage.Model Library.Runs Library.Table

variable {Bytes : Type}

/-! ## Statements -/

/-- The manifest of the row and each of its objects are in the store. -/
structure Stored (db : Database) (store : Store Bytes) (s : SnapshotRow) : Prop where
  manifestKey : s.manifestKey = some (manifestKey s.problemId s.generation)
  manifest : (store (Model.manifestKey s.problemId s.generation)).isSome = true
  objects : ∀ o ∈ db.snapshotObjects, o.snapshotId = s.id → (store o.objectKey).isSome = true

def ReadyStored (w : World Bytes) : Prop :=
  ∀ s ∈ w.db.snapshots, s.state = .ready → Stored w.db w.store s

/-- No claim takes a row from a run that is still executing. -/
def NoReclaim (w : World Bytes) (a : Action Bytes) (w' : World Bytes) : Prop :=
  match a with
  | .run r .claim => ∀ run ∈ w'.runs[r]?, run.phase = .claimed →
      ∀ run' ∈ w.runs, run'.phase.executing = true → run'.snapshotId ≠ run.snapshotId
  | _ => True

def Action.scanAgrees : Action Bytes → Prop
  | .begin _ _ _ _ _ scan => PathsAgree scan.files
  | _ => True

/-! ## What a row protects -/

/-- The states in which a row protects what a run has claimed for it. -/
def pinned (s : SnapshotRow) : Bool :=
  match s.state with
  | .uploading | .verifying | .ready => true
  | _ => false

def contentPinned (db : Database) (key : String) : Prop :=
  ∃ s ∈ db.snapshots, pinned s = true ∧
    ∃ o ∈ db.snapshotObjects, o.snapshotId = s.id ∧ o.objectKey = key

def manifestPinned (db : Database) (key : String) : Prop :=
  ∃ s ∈ db.snapshots, pinned s = true ∧ s.manifestKey = some key

theorem protected_of_pinned {db : Database} {now : Timestamp} {s : SnapshotRow}
    (h : pinned s = true) : snapshotIsGcProtected db now s = true := by
  unfold pinned at h
  unfold snapshotIsGcProtected
  cases hstate : s.state <;> simp [hstate] at h ⊢

theorem pinned_of_ready {s : SnapshotRow} (h : s.state = .ready) : pinned s = true := by
  simp [pinned, h]

theorem not_contentPinned_of_check {db : Database} {now : Timestamp} {key : String}
    (h : ensureNoContentRefs db now key = .ok ()) : ¬ contentPinned db key := by
  unfold ensureNoContentRefs at h
  split at h
  · cases h
  · rename_i hnone
    rintro ⟨s, hs, hpinned, o, ho, hid, hkey⟩
    apply hnone
    simp only [hasContentRef, List.any_eq_true, Bool.and_eq_true, decide_eq_true_eq]
    exact ⟨o, ho, hkey, s, hs, hid.symm, protected_of_pinned hpinned⟩

theorem not_manifestPinned_of_check {db : Database} {now : Timestamp} {key : String}
    (h : ensureNoManifestRefs db now key = .ok ()) : ¬ manifestPinned db key := by
  unfold ensureNoManifestRefs at h
  split at h
  · cases h
  · rename_i hnone
    rintro ⟨s, hs, hpinned, hkey⟩
    apply hnone
    simp only [hasManifestRef, List.any_eq_true, Bool.and_eq_true, decide_eq_true_eq]
    exact ⟨s, hs, hkey, protected_of_pinned hpinned⟩

theorem not_pinned_of_prunable {db : Database} {now : Timestamp} {s : SnapshotRow}
    (h : prunable db now s = true) : pinned s = false := by
  simp only [prunable, Bool.and_eq_true] at h
  have hexpired := h.1.1
  unfold retentionExpired at hexpired
  unfold pinned
  cases hstate : s.state <;> simp [hstate] at hexpired ⊢

/-! ## The invariant -/

def RunPhase.rowState : RunPhase → Option SnapshotState
  | .claimed | .cleaned => some .discovered
  | .hashing => some .hashing
  | .uploading .. => some .uploading
  | .verifying _ | .published _ | .finalizing _ | .checked _ => some .verifying
  | .fenced | .unowned _ | .rejected _ | .committed _ | .failing _ | .ended => none

def Run.storedKeys (run : Run) : List String :=
  match run.phase with
  | .uploading _ _ inFlight uploaded =>
      uploaded.map ManifestFile.objectKey ++
        (inFlight.filter fun t => t.phase = .stored).map Task.objectKey
  | .verifying m => m.files.map ManifestFile.objectKey
  | .published m | .finalizing m | .checked m =>
      run.manifestKey :: m.files.map ManifestFile.objectKey
  | _ => []

def World.pins (w : World Bytes) (id : Uuid) : Prop :=
  ∃ s ∈ w.db.snapshots, s.id = id ∧ pinned s = true

structure Kept (w : World Bytes) (run : Run) : Prop where
  manifestKey : ∀ s ∈ w.db.snapshots, s.id = run.snapshotId → pinned s = true →
    s.manifestKey = some run.manifestKey
  covers : ∀ f ∈ run.scan.files, ∃ o ∈ w.db.snapshotObjects,
    o.snapshotId = run.snapshotId ∧ o.relPath = f.path
  stored : ∀ key ∈ run.storedKeys, (w.store key).isSome = true

structure RunInv (w : World Bytes) (run : Run) : Prop where
  state : ∀ st ∈ run.phase.rowState, ∀ s ∈ w.db.snapshots, s.id = run.snapshotId →
    s.state = st ∨ s.state = .error
  bare : run.phase = .cleaned ∨ run.phase = .hashing →
    ∀ o ∈ w.db.snapshotObjects, o.snapshotId ≠ run.snapshotId
  covered : run.phase.prepared = true → ∀ o ∈ w.db.snapshotObjects,
    o.snapshotId = run.snapshotId →
      ∃ f ∈ run.scan.files, f.path = o.relPath ∧ objectKeyForSha256 f.sha256 = o.objectKey
  kept : run.phase.prepared = true → w.pins run.snapshotId → Kept w run

/-- The collector has looked at the objects for the second time and not yet deleted. -/
def GcPhase.contentChecked : GcPhase → Bool
  | .manifest .confirm | .passed .confirm => true
  | _ => false

def GcPhase.manifestChecked : GcPhase → Bool
  | .passed .confirm => true
  | _ => false

theorem GcPhase.contentChecked_of_manifestChecked {phase : GcPhase}
    (h : phase.manifestChecked = true) : phase.contentChecked = true := by
  unfold GcPhase.manifestChecked at h
  split at h
  · rfl
  · cases h

theorem GcPhase.locking_of_contentChecked {phase : GcPhase} (h : phase.contentChecked = true) :
    phase.locking = true := by
  unfold GcPhase.contentChecked at h
  split at h
  · rfl
  · rfl
  · cases h

structure WorkerInv (db : Database) (worker : GcWorker) : Prop where
  content : worker.phase.contentChecked = true → ¬ contentPinned db worker.objectKey
  manifest : worker.phase.manifestChecked = true → ¬ manifestPinned db worker.objectKey

structure CollectionInv (w : World Bytes) : Prop where
  consistent : Consistent w
  agree : ∀ (r : Nat) (run : Run), w.runs[r]? = some run → PathsAgree run.scan.files
  exclusive : ∀ (i j : Nat) (run run' : Run), w.runs[i]? = some run → w.runs[j]? = some run' →
    run.phase.executing = true → run'.phase.executing = true →
      run.snapshotId = run'.snapshotId → i = j
  runs : ∀ (r : Nat) (run : Run), w.runs[r]? = some run → RunInv w run
  workers : ∀ worker ∈ w.workers, WorkerInv w.db worker
  ready : ReadyStored w

/-! ## What a run has claimed -/

theorem Run.storedKeys_claimed {run : Run} (h : run.accounted) {key : String}
    (hkey : key ∈ run.storedKeys) : key ∈ claimedKeys run.scan.files run.manifestKey := by
  have hfiles : ∀ files : List ManifestFile,
      (∀ g ∈ files, g ∈ run.scan.files.map FileEntry.toManifestFile) →
        ∀ k ∈ files.map ManifestFile.objectKey, k ∈ claimedKeys run.scan.files run.manifestKey := by
    intro files hsub k hk
    obtain ⟨g, hg, rfl⟩ := List.mem_map.mp hk
    obtain ⟨f, hf, rfl⟩ := List.mem_map.mp (hsub g hg)
    exact List.mem_append_left _ (List.mem_map.mpr ⟨f, hf, rfl⟩)
  unfold Run.accounted at h
  unfold Run.storedKeys at hkey
  split at hkey
  · rename_i canonical pending inFlight uploaded hphase
    rw [hphase] at h
    simp only at h
    rcases List.mem_append.mp hkey with hkey | hkey
    · refine hfiles uploaded ?_ key hkey
      intro g hg
      rw [← h.mem_iff]
      simp [hg]
    · obtain ⟨t, ht, rfl⟩ := List.mem_map.mp hkey
      refine hfiles (inFlight.map fun t => t.file.toManifestFile) ?_ _ ?_
      · intro g hg
        rw [← h.mem_iff]
        simp only [List.mem_append]
        exact .inl (.inr hg)
      · simp only [List.map_map, List.mem_map, Function.comp_apply]
        exact ⟨t, (List.mem_filter.mp ht).1, rfl⟩
  · rename_i m hphase
    rw [hphase] at h
    exact hfiles m.files (fun g hg => h.mem_iff.mp hg) key hkey
  all_goals try
    rename_i m hphase
    rw [hphase] at h
    rcases List.mem_cons.mp hkey with rfl | hkey
    · exact List.mem_append_right _ (List.mem_singleton.mpr rfl)
    · exact hfiles m.files (fun g hg => h.mem_iff.mp hg) key hkey
  cases hkey

theorem RunInv.exists_object {w : World Bytes} {run : Run} (hinv : RunInv w run)
    (hagree : PathsAgree run.scan.files) (hprepared : run.phase.prepared = true)
    (hpins : w.pins run.snapshotId) {f : FileEntry} (hf : f ∈ run.scan.files) :
    ∃ o ∈ w.db.snapshotObjects, o.snapshotId = run.snapshotId ∧
      o.objectKey = objectKeyForSha256 f.sha256 := by
  obtain ⟨o, ho, hid, hpath⟩ := (hinv.kept hprepared hpins).covers f hf
  obtain ⟨g, hg, hgpath, hgkey⟩ := hinv.covered hprepared o ho hid
  refine ⟨o, ho, hid, ?_⟩
  rw [← hgkey, hagree g hg f hf (hgpath.trans hpath)]

theorem RunInv.pinned_storedKeys {w : World Bytes} {run : Run} (hinv : RunInv w run)
    (hagree : PathsAgree run.scan.files) (haccounted : run.accounted)
    (hprepared : run.phase.prepared = true) (hpins : w.pins run.snapshotId) {key : String}
    (hkey : key ∈ run.storedKeys) : contentPinned w.db key ∨ manifestPinned w.db key := by
  have hkept := hinv.kept hprepared hpins
  obtain ⟨s, hs, hid, hpinned⟩ := id hpins
  rcases List.mem_append.mp (Run.storedKeys_claimed haccounted hkey) with hfile | hmanifest
  · obtain ⟨f, hf, rfl⟩ := List.mem_map.mp hfile
    obtain ⟨o, ho, hoid, hokey⟩ := hinv.exists_object hagree hprepared hpins hf
    exact .inl ⟨s, hs, hpinned, o, ho, hoid.trans hid.symm, hokey⟩
  · rw [List.mem_singleton.mp hmanifest]
    exact .inr ⟨s, hs, hpinned, hkept.manifestKey s hs hid hpinned⟩

theorem runInv_idle {w : World Bytes} {run : Run} (h : run.phase.rowState = none) :
    RunInv w run := by
  constructor
  all_goals
    revert h
    cases hphase : run.phase <;> simp [RunPhase.rowState, RunPhase.prepared]

/-! ## Which rows a step pins -/

theorem pinned_of_update {p : SnapshotRow → Bool} {f : SnapshotRow → SnapshotRow}
    {rows : List SnapshotRow} {s : SnapshotRow}
    (hf : ∀ t, p t = true → pinned (f t) = true →
      pinned t = true ∧ (f t).id = t.id ∧ (f t).manifestKey = t.manifestKey)
    (hs : s ∈ updateWhere p f rows) (hpinned : pinned s = true) :
    ∃ s₀ ∈ rows, s₀.id = s.id ∧ pinned s₀ = true ∧ s.manifestKey = s₀.manifestKey := by
  obtain ⟨t, ht, rfl⟩ := mem_updateWhere.mp hs
  split at hpinned
  · rename_i hp
    obtain ⟨hpinned', hid, hkey⟩ := hf t hp hpinned
    rw [if_pos hp]
    exact ⟨t, ht, hid.symm, hpinned', hkey⟩
  · rename_i hp
    rw [if_neg hp]
    exact ⟨t, ht, rfl, hpinned, rfl⟩

/-- A pinned row was pinned under its manifest key, or is the row the run prepares or
publishes. -/
theorem RunStep.pinned_row {d : DataPlane Bytes} {now : Timestamp} {db : Database}
    {store : Store Bytes} {run : Run} {op : RunOp Bytes} {e : Effect Bytes}
    (h : RunStep d now db store run op e) {s : SnapshotRow} (hs : s ∈ e.db.snapshots)
    (hpinned : pinned s = true) :
    (∃ s₀ ∈ db.snapshots, s₀.id = s.id ∧ pinned s₀ = true ∧
      (s.manifestKey = s₀.manifestKey ∨ run.phase.prepared = true ∧
        s.id = run.snapshotId ∧ s.manifestKey = some run.manifestKey)) ∨
    ((∃ canonical, op = .prepare canonical) ∧ run.phase = .hashing ∧ s.id = run.snapshotId ∧
      s.manifestKey = some run.manifestKey) := by
  have hupdate : ∀ {p : SnapshotRow → Bool} {f : SnapshotRow → SnapshotRow},
      (∀ t, p t = true → pinned (f t) = true →
        pinned t = true ∧ (f t).id = t.id ∧ (f t).manifestKey = t.manifestKey) →
      s ∈ updateWhere p f db.snapshots → ∃ s₀ ∈ db.snapshots, s₀.id = s.id ∧
        pinned s₀ = true ∧ (s.manifestKey = s₀.manifestKey ∨ run.phase.prepared = true ∧
          s.id = run.snapshotId ∧ s.manifestKey = some run.manifestKey) := by
    intro p f hf hmem
    obtain ⟨s₀, hs₀, hid, hpinned₀, hkey⟩ := pinned_of_update hf hmem hpinned
    exact ⟨s₀, hs₀, hid, hpinned₀, .inl hkey⟩
  cases h with
  | claimed phase claim =>
      left
      rcases claimSnapshot_cases claim with ⟨-, -, rfl⟩ | ⟨-, -, -, -, -, rfl⟩
      · rcases List.mem_append.mp hs with hold | hnew
        · exact ⟨s, hold, rfl, hpinned, .inl rfl⟩
        · rw [List.mem_singleton.mp hnew] at hpinned
          cases hpinned
      · exact hupdate (by intro t _ ht; cases ht) hs
  | hashing phase => exact .inl (hupdate (by intro t _ ht; cases ht) hs)
  | prepared phase prepare =>
      unfold prepareSnapshotUpload at prepare
      split at prepare
      · cases prepare
        obtain ⟨t, ht, rfl⟩ := mem_updateWhere.mp hs
        split at hpinned
        · rename_i hhashing
          rw [if_pos hhashing]
          simp only [Bool.and_eq_true, decide_eq_true_eq] at hhashing
          exact .inr ⟨⟨_, rfl⟩, phase, hhashing.1, rfl⟩
        · rename_i hhashing
          rw [if_neg hhashing]
          exact .inl ⟨t, ht, rfl, hpinned, .inl rfl⟩
      · cases prepare
  | verifying phase =>
      refine .inl (hupdate ?_ hs)
      intro t hp _
      simp only [Bool.and_eq_true, decide_eq_true_eq] at hp
      exact ⟨by simp [pinned, hp.2], rfl, rfl⟩
  | committed phase finalize =>
      left
      obtain ⟨-, rfl⟩ := finalizeBody_eq_ok_iff.mp finalize
      obtain ⟨t, ht, rfl⟩ := mem_updateWhere.mp hs
      have hsuperseded : pinned t = true → ∃ s₀ ∈ db.snapshots, s₀.id = t.id ∧
          pinned s₀ = true ∧ t.manifestKey = s₀.manifestKey :=
        fun hp => pinned_of_update (by intro u _ hu; cases hu) ht hp
      split
      · rename_i hfinal
        obtain ⟨hid, -, -, hstate⟩ := finalizable_iff.mp hfinal
        obtain ⟨s₀, hs₀, hid₀, hpinned₀, -⟩ := hsuperseded (by simp [pinned, hstate])
        exact ⟨s₀, hs₀, hid₀, hpinned₀, .inr ⟨by rw [phase]; rfl, hid, rfl⟩⟩
      · rename_i hfinal
        rw [if_neg hfinal] at hpinned
        obtain ⟨s₀, hs₀, hid₀, hpinned₀, hkey⟩ := hsuperseded hpinned
        exact ⟨s₀, hs₀, hid₀, hpinned₀, .inl hkey⟩
  | marked phase => exact .inl (hupdate (by intro t _ ht; cases ht) hs)
  | _ => exact .inl ⟨s, hs, rfl, hpinned, .inl rfl⟩

theorem pins_of_admitted {w : World Bytes} {run : Run} {m : Manifest}
    (h : FinalizeAdmitted w.now (run.finalizeArgs m) w.db) : w.pins run.snapshotId := by
  obtain ⟨t, ht, hfinal⟩ := List.countP_pos_iff.mp (by rw [h.verifying]; decide)
  obtain ⟨hid, -, -, hstate⟩ := finalizable_iff.mp hfinal
  obtain ⟨s₀, hs₀, hid₀, hpinned, -⟩ :=
    pinned_of_update (by intro u _ hu; cases hu) ht (by simp [pinned, hstate])
  exact ⟨s₀, hs₀, hid₀.trans hid, hpinned⟩

theorem Run.mem_scan_of_inFlight {run : Run} {canonical : String} {pending : List FileEntry}
    {inFlight : List Task} {uploaded : List ManifestFile} {i : Nat} {t : Task}
    (h : run.accounted) (hphase : run.phase = .uploading canonical pending inFlight uploaded)
    (ht : inFlight[i]? = some t) : ∃ f ∈ run.scan.files, f.toManifestFile = t.file.toManifestFile := by
  rw [Run.accounted, hphase] at h
  refine List.mem_map.mp (h.mem_iff.mp ?_)
  simp only [List.mem_append, List.mem_map]
  exact .inl (.inr ⟨t, List.mem_of_getElem? ht, rfl⟩)

theorem RunInv.recorded_key {w : World Bytes} {run : Run} {canonical : String}
    {pending : List FileEntry} {inFlight : List Task} {uploaded : List ManifestFile} {i : Nat}
    {t : Task} {o : SnapshotObjectRow} (hinv : RunInv w run) (hagree : PathsAgree run.scan.files)
    (haccounted : run.accounted)
    (hphase : run.phase = .uploading canonical pending inFlight uploaded)
    (ht : inFlight[i]? = some t) (ho : o ∈ w.db.snapshotObjects)
    (hat : o.isAt run.snapshotId t.file.path = true) :
    (t.file.storedRow o).objectKey = o.objectKey := by
  simp only [SnapshotObjectRow.isAt, Bool.and_eq_true, decide_eq_true_eq] at hat
  obtain ⟨f, hf, hpath, hkey⟩ := hinv.covered (by rw [hphase]; rfl) o ho hat.1
  obtain ⟨f', hf', hfile⟩ := Run.mem_scan_of_inFlight haccounted hphase ht
  simp only [FileEntry.toManifestFile, ManifestFile.mk.injEq] at hfile
  have hsha := hagree f hf f' hf' ((hpath.trans hat.2).trans hfile.1.symm)
  rw [← hkey, hsha, hfile.2.1]
  rfl

theorem RunStep.object_key {d : DataPlane Bytes} {w : World Bytes} {run : Run}
    {op : RunOp Bytes} {e : Effect Bytes} (h : RunStep d w.now w.db w.store run op e)
    (hinv : RunInv w run) (hagree : PathsAgree run.scan.files) (haccounted : run.accounted)
    {o : SnapshotObjectRow} (ho : o ∈ e.db.snapshotObjects) :
    (∃ o₀ ∈ w.db.snapshotObjects, o₀.snapshotId = o.snapshotId ∧ o₀.objectKey = o.objectKey) ∨
    ((∃ canonical, op = .prepare canonical) ∧ run.phase = .hashing ∧
      o.snapshotId = run.snapshotId ∧
        o.objectKey ∈ claimedKeys run.scan.files run.manifestKey) := by
  cases h with
  | cleaned phase => exact .inl ⟨o, (mem_deleteWhere.mp ho).1, rfl, rfl⟩
  | prepared phase prepare =>
      unfold prepareSnapshotUpload at prepare
      split at prepare
      · cases prepare
        rcases mem_upsertObjects ho with ⟨hold, -⟩ | hnew
        · exact .inl ⟨o, hold, rfl, rfl⟩
        · obtain ⟨f, hf, rfl⟩ := List.mem_map.mp hnew
          refine .inr ⟨⟨_, rfl⟩, phase, rfl, ?_⟩
          exact List.mem_append_left _ (List.mem_map.mpr ⟨f, hf, rfl⟩)
      · cases prepare
  | @recorded canonical pending inFlight uploaded i t objects phase inFlightAt stored record =>
      left
      obtain ⟨g, rfl, hg⟩ := recordUploaded_eq_ok record
      obtain ⟨o₀, ho₀, rfl⟩ := List.mem_map.mp ho
      refine ⟨o₀, ho₀, (hg o₀).1.symm, ?_⟩
      rcases (hg o₀).2.2 with hsame | ⟨hat, hstoredRow⟩
      · rw [hsame]
      · rw [hstoredRow, hinv.recorded_key hagree haccounted phase inFlightAt ho₀ hat]
  | @committed m db' phase finalize =>
      left
      obtain ⟨hadm, rfl⟩ := finalizeBody_eq_ok_iff.mp finalize
      rcases mem_upsertObjects ho with ⟨hold, -⟩ | hnew
      · exact ⟨o, hold, rfl, rfl⟩
      · obtain ⟨g, hg, rfl⟩ := List.mem_map.mp hnew
        rw [Run.accounted, phase] at haccounted
        obtain ⟨f, hf, rfl⟩ := List.mem_map.mp (haccounted.mem_iff.mp hg)
        exact hinv.exists_object hagree (by rw [phase]; rfl) (pins_of_admitted hadm) hf
  | _ => exact .inl ⟨o, ho, rfl, rfl⟩

/-- What a collector has seen unpinned stays so, unless the run claims it. -/
theorem RunStep.pinned_key {d : DataPlane Bytes} {w : World Bytes} {run : Run}
    {op : RunOp Bytes} {e : Effect Bytes} (h : RunStep d w.now w.db w.store run op e)
    (hinv : RunInv w run) (hagree : PathsAgree run.scan.files) (haccounted : run.accounted)
    {key : String}
    (hfree : ∀ canonical, op = .prepare canonical →
      key ∉ claimedKeys run.scan.files run.manifestKey) :
    (contentPinned e.db key → contentPinned w.db key) ∧
      (manifestPinned e.db key → manifestPinned w.db key) := by
  constructor
  · rintro ⟨s, hs, hpinned, o, ho, hid, rfl⟩
    rcases h.object_key hinv hagree haccounted ho with
      ⟨o₀, ho₀, hid₀, hkey₀⟩ | ⟨⟨canonical, hop⟩, -, -, hclaimed⟩
    · rcases h.pinned_row hs hpinned with ⟨s₀, hs₀, hsid, hpinned₀, -⟩ | ⟨-, hphase, hsid, -⟩
      · exact ⟨s₀, hs₀, hpinned₀, o₀, ho₀, hid₀.trans (hid.trans hsid.symm), hkey₀⟩
      · exact absurd (hid₀.trans (hid.trans hsid)) (hinv.bare (.inr hphase) o₀ ho₀)
    · exact absurd hclaimed (hfree canonical hop)
  · rintro ⟨s, hs, hpinned, hkey⟩
    rcases h.pinned_row hs hpinned with
      ⟨s₀, hs₀, hsid, hpinned₀, hkey₀ | ⟨hprepared, hid, hkey'⟩⟩ | ⟨⟨canonical, hop⟩, -, -, hkey'⟩
    · exact ⟨s₀, hs₀, hpinned₀, hkey₀.symm.trans hkey⟩
    · have hid₀ := hsid.trans hid
      have hkept := hinv.kept hprepared ⟨s₀, hs₀, hid₀, hpinned₀⟩
      refine ⟨s₀, hs₀, hpinned₀, ?_⟩
      rw [hkept.manifestKey s₀ hs₀ hid₀ hpinned₀, ← hkey', hkey]
    · obtain rfl : key = run.manifestKey := Option.some.inj (hkey.symm.trans hkey')
      exact absurd (List.mem_append_right _ (List.mem_singleton.mpr rfl)) (hfree canonical hop)

/-! ## The run's own steps -/

theorem runInv_state {rows : List SnapshotRow} {id : Uuid} {p : SnapshotRow → Bool}
    {f : SnapshotRow → SnapshotRow} {after : SnapshotState} (before : SnapshotState)
    (hstate : ∀ s ∈ rows, s.id = id → s.state = before ∨ s.state = .error)
    (hafter : ∀ s, (f s).state = after)
    (hp : ∀ s ∈ rows, s.id = id → s.state = before → p s = true) :
    ∀ s ∈ updateWhere p f rows, s.id = id → s.state = after ∨ s.state = .error := by
  intro s hs hsid
  obtain ⟨t, ht, rfl⟩ := mem_updateWhere.mp hs
  split
  · exact .inl (hafter t)
  · rename_i hpt
    rw [if_neg hpt] at hsid
    rcases hstate t ht hsid with hbefore | herror
    · exact absurd (hp t ht hsid hbefore) hpt
    · exact .inr herror

theorem RunInv.goesOn {w w' : World Bytes} {run run' : Run} (hinv : RunInv w run)
    (hprepared : run.phase.prepared = true) (hrun : run'.phase.prepared = true)
    (hsame : run'.snapshotId = run.snapshotId ∧ run'.scan = run.scan ∧
      run'.manifestKey = run.manifestKey)
    (hobjects : w'.db.snapshotObjects = w.db.snapshotObjects)
    (hrows : w'.db.snapshots = w.db.snapshots)
    (hstate : run'.phase.rowState = run.phase.rowState)
    (hstored : w.pins run.snapshotId → (∀ key ∈ run.storedKeys, (w.store key).isSome = true) →
      ∀ key ∈ run'.storedKeys, (w'.store key).isSome = true) : RunInv w' run' := by
  obtain ⟨hid, hscan, hmkey⟩ := hsame
  constructor
  · rw [hstate, hrows, hid]
    exact hinv.state
  · rintro (hphase | hphase) <;> simp [hphase, RunPhase.prepared] at hrun
  · rw [hobjects, hid, hscan]
    exact fun _ => hinv.covered hprepared
  · rintro - ⟨s, hs, hsid, hpinned⟩
    rw [hrows] at hs
    have hpins : w.pins run.snapshotId := ⟨s, hs, hsid.trans hid, hpinned⟩
    have hkept := hinv.kept hprepared hpins
    refine ⟨?_, ?_, hstored hpins hkept.stored⟩
    · rw [hrows, hid, hmkey]
      exact hkept.manifestKey
    · rw [hobjects, hid, hscan]
      exact hkept.covers

theorem discovered_of_claim {now : Timestamp} {rows rows' : List SnapshotRow}
    {requestedId id : Uuid} {problemId : String} {generation : Int} {createdAt : Timestamp}
    (hkeys : KeysUnique (rowIds rows)) (hfresh : ∀ s ∈ rows, s.id ≠ requestedId)
    (h : claimSnapshot now rows requestedId problemId generation createdAt = (rows', some id)) :
    ∀ s ∈ rows', s.id = id → s.state = .discovered := by
  intro s hs hid
  rcases claimSnapshot_cases h with ⟨rfl, -, rfl⟩ | ⟨t, ht, hfor, hallowed, rfl, rfl⟩
  · rcases List.mem_append.mp hs with hold | hnew
    · exact absurd hid (hfresh s hold)
    · rw [List.mem_singleton.mp hnew]
      rfl
  · obtain ⟨u, hu, rfl⟩ := mem_updateWhere.mp hs
    split
    · rfl
    · rename_i hskipped
      rw [if_neg hskipped] at hid
      obtain rfl := hkeys.row_eq hu ht hid
      exact absurd (by simp [hfor, hallowed]) hskipped

theorem runInv_prepared {w w' : World Bytes} {run : Run} {canonical : String} {db' : Database}
    (hinv : RunInv w run) (phase : run.phase = .hashing)
    (h : prepareSnapshotUpload w.db run.snapshotId run.scan.files run.manifestKey = .ok db')
    (hw' : w'.db = db') : RunInv w' (run.at (.uploading canonical run.scan.files [] [])) := by
  subst hw'
  unfold prepareSnapshotUpload at h
  split at h
  · have hrows : w'.db.snapshots = setUploading run.snapshotId run.manifestKey w.db.snapshots :=
      congrArg Database.snapshots (Except.ok.inj h).symm
    have hobjects : w'.db.snapshotObjects = upsertObjects
        (run.scan.files.map (FileEntry.claimRow run.snapshotId)) w.db.snapshotObjects :=
      congrArg Database.snapshotObjects (Except.ok.inj h).symm
    have hstate := hinv.state .hashing (by rw [phase]; rfl)
    refine ⟨?_, by simp [Run.at], ?_, ?_⟩
    · rintro st hst
      obtain rfl : SnapshotState.uploading = st := Option.some.inj hst
      rw [hrows]
      refine runInv_state .hashing hstate (by intro s; rfl) ?_
      intro s _ hid hhashing
      simp only [Bool.and_eq_true, decide_eq_true_eq]
      exact ⟨hid, hhashing⟩
    · intro _ o ho hid
      rw [hobjects] at ho
      rcases mem_upsertObjects ho with ⟨hold, -⟩ | hnew
      · exact absurd hid (hinv.bare (.inr phase) o hold)
      · obtain ⟨f, hf, rfl⟩ := List.mem_map.mp hnew
        exact ⟨f, hf, rfl, rfl⟩
    · intro _ _
      refine ⟨?_, ?_, by simp [Run.storedKeys, Run.at]⟩
      · intro s hs hid hpinned
        rw [hrows] at hs
        obtain ⟨t, ht, rfl⟩ := mem_updateWhere.mp hs
        split
        · rfl
        · rename_i hskipped
          rw [if_neg hskipped] at hid hpinned
          have hunpinned : pinned t = false := by
            rcases hstate t ht hid with hstate | hstate <;> rw [pinned, hstate]
          exact absurd hpinned (by simp [hunpinned])
      · intro f hf
        rw [hobjects]
        obtain ⟨o, ho, hkey⟩ := exists_mem_upsertObjects w.db.snapshotObjects
          (List.mem_map_of_mem hf)
        exact ⟨o, ho, congrArg Prod.fst hkey, congrArg Prod.snd hkey⟩
  · cases h

theorem stored_of_taskStep {d : DataPlane Bytes} {store store' : Store Bytes} {t t' : Task}
    (h : TaskStep d store t t' store') (hstored : t'.phase = .stored) :
    (store t'.objectKey).isSome = true := by
  cases h with
  | hashed phase => cases hstored
  | headed phase seen unwritten => exact absurd hstored unwritten.2
  | verified phase verify =>
      unfold verifyObject at verify
      split at verify
      · cases verify
      · rename_i bytes hbytes
        change (store t.objectKey).isSome = true
        rw [hbytes]
        rfl
  | put phase => cases hstored

theorem runInv_recorded {w w' : World Bytes} {run : Run} {canonical : String}
    {pending : List FileEntry} {inFlight : List Task} {uploaded : List ManifestFile} {i : Nat}
    {t : Task} (hinv : RunInv w run) (hagree : PathsAgree run.scan.files)
    (haccounted : run.accounted)
    (phase : run.phase = .uploading canonical pending inFlight uploaded)
    (ht : inFlight[i]? = some t) (hstored : t.phase = .stored)
    (h : recordUploaded run.snapshotId t.file w.db.snapshotObjects = .ok w'.db.snapshotObjects)
    (hrows : w'.db.snapshots = w.db.snapshots) (hstore : w'.store = w.store) :
    RunInv w' (run.at (.uploading canonical pending (inFlight.eraseIdx i)
      (uploaded ++ [t.file.toManifestFile]))) := by
  have hprepared : run.phase.prepared = true := by rw [phase]; rfl
  obtain ⟨g, hobjects, hg⟩ := recordUploaded_eq_ok h
  refine ⟨?_, by simp [Run.at], ?_, ?_⟩
  · rw [hrows]
    have hstate := hinv.state
    rw [phase] at hstate
    exact hstate
  · intro _ o ho hid
    rw [hobjects] at ho
    obtain ⟨o₀, ho₀, rfl⟩ := List.mem_map.mp ho
    rw [(hg o₀).1] at hid
    rw [(hg o₀).2.1]
    obtain ⟨f, hf, hpath, hkey⟩ := hinv.covered hprepared o₀ ho₀ hid
    refine ⟨f, hf, hpath, hkey.trans ?_⟩
    rcases (hg o₀).2.2 with hsame | ⟨hat, hstoredRow⟩
    · rw [hsame]
    · rw [hstoredRow, hinv.recorded_key hagree haccounted phase ht ho₀ hat]
  · rintro - ⟨s, hs, hid, hpinned⟩
    rw [hrows] at hs
    have hkept := hinv.kept hprepared ⟨s, hs, hid, hpinned⟩
    refine ⟨?_, ?_, ?_⟩
    · rw [hrows]
      exact hkept.manifestKey
    · intro f hf
      obtain ⟨o, ho, hoid, hpath⟩ := hkept.covers f hf
      rw [hobjects]
      exact ⟨g o, List.mem_map_of_mem ho, (hg o).1.trans hoid, (hg o).2.1.trans hpath⟩
    · intro key hkey
      rw [hstore]
      apply hkept.stored
      simp only [Run.storedKeys, Run.at, phase, List.map_append, List.mem_append] at hkey ⊢
      rcases hkey with (hold | hnew) | hflight
      · exact .inl hold
      · right
        rw [List.mem_singleton.mp hnew]
        exact List.mem_map.mpr ⟨t, List.mem_filter.mpr
          ⟨List.mem_of_getElem? ht, decide_eq_true hstored⟩, rfl⟩
      · obtain ⟨t', ht', rfl⟩ := List.mem_map.mp hflight
        obtain ⟨hmem, hphase⟩ := List.mem_filter.mp ht'
        exact .inr (List.mem_map.mpr ⟨t', List.mem_filter.mpr
          ⟨List.mem_of_mem_eraseIdx hmem, hphase⟩, rfl⟩)

theorem runInv_verifying {w w' : World Bytes} {run : Run} {canonical : String}
    {uploaded : List ManifestFile} (hinv : RunInv w run)
    (phase : run.phase = .uploading canonical [] [] uploaded)
    (hrows : w'.db.snapshots = setVerifying run.snapshotId w.db.snapshots)
    (hobjects : w'.db.snapshotObjects = w.db.snapshotObjects) (hstore : w'.store = w.store) :
    RunInv w' (run.at (.verifying (run.manifest canonical uploaded))) := by
  have hprepared : run.phase.prepared = true := by rw [phase]; rfl
  have hpinned : ∀ s ∈ w'.db.snapshots, pinned s = true →
      ∃ s₀ ∈ w.db.snapshots, s₀.id = s.id ∧ pinned s₀ = true ∧ s.manifestKey = s₀.manifestKey := by
    rw [hrows]
    refine fun s hs => pinned_of_update ?_ hs
    intro t hp _
    simp only [Bool.and_eq_true, decide_eq_true_eq] at hp
    exact ⟨by simp [pinned, hp.2], rfl, rfl⟩
  refine ⟨?_, by simp [Run.at], ?_, ?_⟩
  · rintro st hst
    obtain rfl : SnapshotState.verifying = st := Option.some.inj hst
    rw [hrows]
    refine runInv_state .uploading (hinv.state _ (by rw [phase]; rfl)) (by intro s; rfl) ?_
    intro s _ hid hstate
    simp only [Bool.and_eq_true, decide_eq_true_eq]
    exact ⟨hid, hstate⟩
  · rw [hobjects]
    exact fun _ => hinv.covered hprepared
  · rintro - ⟨s, hs, hid, hp⟩
    obtain ⟨s₀, hs₀, hid₀, hp₀, -⟩ := hpinned s hs hp
    have hkept := hinv.kept hprepared ⟨s₀, hs₀, hid₀.trans hid, hp₀⟩
    refine ⟨?_, by rw [hobjects]; exact hkept.covers, ?_⟩
    · intro s' hs' hid' hp'
      obtain ⟨s₁, hs₁, hid₁, hp₁, hkey⟩ := hpinned s' hs' hp'
      exact hkey.trans (hkept.manifestKey s₁ hs₁ (hid₁.trans hid') hp₁)
    · intro key hkey
      rw [hstore]
      apply hkept.stored
      simp only [Run.storedKeys, Run.at, phase, Run.manifest, buildManifest, sortManifestFiles,
        List.mem_map, List.mem_insertionSort] at hkey ⊢
      simpa using hkey

theorem runInv_own {d : DataPlane Bytes} {w : World Bytes} {r : Nat} {run : Run}
    {op : RunOp Bytes} {e : Effect Bytes} (hconsistent : Consistent w)
    (hr : w.runs[r]? = some run) (hagree : PathsAgree run.scan.files) (hinv : RunInv w run)
    (h : RunStep d w.now w.db w.store run op e) : RunInv (w.afterRun r run e) e.run := by
  have haccounted := hconsistent.accounted r run hr
  have hmono : ∀ key, (w.store key).isSome = true → (e.store key).isSome = true :=
    fun _ hkey => h.store_mono hkey
  cases h with
  | claimed phase claim =>
      refine ⟨?_, by simp, by simp [RunPhase.prepared], by simp [RunPhase.prepared]⟩
      rintro st hst s hs hid
      obtain rfl : SnapshotState.discovered = st := Option.some.inj hst
      exact .inl (discovered_of_claim hconsistent.keys
        (hconsistent.unclaimed r run hr phase).rows claim s hs hid)
  | cleaned phase =>
      refine ⟨?_, ?_, by simp [Run.at, RunPhase.prepared], by simp [Run.at, RunPhase.prepared]⟩
      · have hstate := hinv.state
        rw [phase] at hstate
        exact hstate
      · intro _ o ho
        exact of_decide_eq_false (mem_deleteWhere.mp ho).2
  | hashing phase =>
      refine ⟨?_, fun _ => hinv.bare (.inl phase), by simp [Run.at, RunPhase.prepared],
        by simp [Run.at, RunPhase.prepared]⟩
      rintro st hst
      obtain rfl : SnapshotState.hashing = st := Option.some.inj hst
      refine runInv_state .discovered ?_ (by intro s; rfl) ?_
      · exact hinv.state _ (by rw [phase]; rfl)
      · exact fun s _ hid _ => decide_eq_true hid
  | prepared phase prepare => exact runInv_prepared hinv phase prepare rfl
  | started phase =>
      refine hinv.goesOn (by rw [phase]; rfl) rfl ⟨rfl, rfl, rfl⟩ rfl rfl (by rw [phase]; rfl) ?_
      intro _ hstored key hkey
      apply hstored
      simp only [Run.storedKeys, Run.at, phase, List.filter_append] at hkey ⊢
      simpa using hkey
  | @task canonical pending inFlight uploaded i op t t' store' phase inFlightAt taken =>
      refine hinv.goesOn (by rw [phase]; rfl) rfl ⟨rfl, rfl, rfl⟩ rfl rfl (by rw [phase]; rfl) ?_
      intro _ hstored key hkey
      simp only [Run.storedKeys, Run.at, phase, List.mem_append] at hkey hstored
      rcases hkey with hold | hflight
      · exact hmono _ (hstored key (.inl hold))
      · obtain ⟨t'', ht'', rfl⟩ := List.mem_map.mp hflight
        obtain ⟨hmem, hphase⟩ := List.mem_filter.mp ht''
        rcases List.mem_or_eq_of_mem_set hmem with hmem | rfl
        · exact hmono _ (hstored _ (.inr (List.mem_map.mpr
            ⟨t'', List.mem_filter.mpr ⟨hmem, hphase⟩, rfl⟩)))
        · exact hmono _ (stored_of_taskStep (taskStep_cases taken) (of_decide_eq_true hphase))
  | @recorded canonical pending inFlight uploaded i t objects phase inFlightAt stored record =>
      exact runInv_recorded hinv hagree haccounted phase inFlightAt stored record rfl rfl
  | verifying phase => exact runInv_verifying hinv phase rfl rfl rfl
  | published phase =>
      refine hinv.goesOn (by rw [phase]; rfl) rfl ⟨rfl, rfl, rfl⟩ rfl rfl (by rw [phase]; rfl) ?_
      intro _ hstored key hkey
      simp only [Run.storedKeys, Run.at, phase, List.mem_cons] at hkey hstored
      rcases hkey with rfl | hkey
      · exact Option.isSome_iff_exists.mpr ⟨_, Function.update_self ..⟩
      · exact hmono _ (hstored key hkey)
  | verified phase | checked phase =>
      refine hinv.goesOn (by rw [phase]; rfl) rfl ⟨rfl, rfl, rfl⟩ rfl rfl (by rw [phase]; rfl) ?_
      intro _ hstored key hkey
      apply hstored
      simp only [Run.storedKeys, Run.at, phase] at hkey ⊢
      exact hkey
  | _ => exact runInv_idle rfl

/-! ## Steps of the others -/

/-- A run keeps what it relies on while its rows stay or fail, its objects stay with a
pinned row and nothing pinned leaves the store. -/
theorem runInv_frame {w w' : World Bytes} {run : Run} (hinv : RunInv w run)
    (hagree : PathsAgree run.scan.files) (haccounted : run.accounted)
    (hrows : ∀ s ∈ w'.db.snapshots, s.id = run.snapshotId → s ∈ w.db.snapshots ∨
      s.state = .error ∨ s.state = .superseded ∧
        ∃ s₀ ∈ w.db.snapshots, s₀.id = s.id ∧ s₀.state = .ready)
    (hobjects : ∀ o ∈ w'.db.snapshotObjects, o.snapshotId = run.snapshotId →
      o ∈ w.db.snapshotObjects)
    (hkept : w'.pins run.snapshotId → ∀ o ∈ w.db.snapshotObjects,
      o.snapshotId = run.snapshotId → o ∈ w'.db.snapshotObjects)
    (hstore : ∀ key, contentPinned w.db key ∨ manifestPinned w.db key →
      (w.store key).isSome = true → (w'.store key).isSome = true) : RunInv w' run := by
  have hpinned : ∀ s ∈ w'.db.snapshots, s.id = run.snapshotId → pinned s = true →
      s ∈ w.db.snapshots := by
    intro s hs hid hp
    rcases hrows s hs hid with hold | herror | ⟨hsuperseded, -⟩
    · exact hold
    · simp [pinned, herror] at hp
    · simp [pinned, hsuperseded] at hp
  refine ⟨?_, ?_, ?_, ?_⟩
  · intro st hst s hs hid
    rcases hrows s hs hid with hold | herror | ⟨-, s₀, hs₀, hid₀, hready⟩
    · exact hinv.state st hst s hold hid
    · exact .inr herror
    · have hstate := hinv.state st hst s₀ hs₀ (hid₀.trans hid)
      rw [hready] at hstate
      revert hst
      rcases hstate with rfl | hstate
      · cases run.phase <;> simp [RunPhase.rowState]
      · cases hstate
  · intro hphase o ho hid
    exact hinv.bare hphase o (hobjects o ho hid) hid
  · intro hprepared o ho hid
    exact hinv.covered hprepared o (hobjects o ho hid) hid
  · intro hprepared hpins
    have hpins₀ : w.pins run.snapshotId := by
      obtain ⟨s, hs, hid, hp⟩ := hpins
      exact ⟨s, hpinned s hs hid hp, hid, hp⟩
    have hkept₀ := hinv.kept hprepared hpins₀
    refine ⟨?_, ?_, ?_⟩
    · exact fun s hs hid hp => hkept₀.manifestKey s (hpinned s hs hid hp) hid hp
    · intro f hf
      obtain ⟨o, ho, hid, hpath⟩ := hkept₀.covers f hf
      exact ⟨o, hkept hpins o ho hid, hid, hpath⟩
    · intro key hkey
      exact hstore key (hinv.pinned_storedKeys hagree haccounted hprepared hpins₀ hkey)
        (hkept₀.stored key hkey)

theorem Stored.frame {w w' : World Bytes} {s : SnapshotRow} (hstored : Stored w.db w.store s)
    (hs : s ∈ w.db.snapshots) (hready : s.state = .ready)
    (hobjects : ∀ o ∈ w'.db.snapshotObjects, o.snapshotId = s.id → o ∈ w.db.snapshotObjects)
    (hstore : ∀ key, contentPinned w.db key ∨ manifestPinned w.db key →
      (w.store key).isSome = true → (w'.store key).isSome = true) :
    Stored w'.db w'.store s := by
  have hpinned := pinned_of_ready hready
  refine ⟨hstored.manifestKey, ?_, ?_⟩
  · exact hstore _ (.inr ⟨s, hs, hpinned, hstored.manifestKey⟩) hstored.manifest
  · intro o ho hid
    have hold := hobjects o ho hid
    exact hstore _ (.inl ⟨s, hs, hpinned, o, hold, hid, rfl⟩) (hstored.objects o hold hid)

/-- What the collector and the maintenance statements do: rows fail or go, objects go
with an expired row, and nothing pinned leaves the store. -/
theorem collectionInv_maintenance {w w' : World Bytes} (hw : CollectionInv w)
    (hconsistent : Consistent w') (hruns : w'.runs = w.runs)
    (hrows : ∀ s ∈ w'.db.snapshots, s ∈ w.db.snapshots ∨ s.state = .error)
    (hobjects : ∀ o ∈ w'.db.snapshotObjects, o ∈ w.db.snapshotObjects)
    (hkept : ∀ s ∈ w'.db.snapshots, pinned s = true → ∀ o ∈ w.db.snapshotObjects,
      o.snapshotId = s.id → o ∈ w'.db.snapshotObjects)
    (hstore : ∀ key, contentPinned w.db key ∨ manifestPinned w.db key →
      (w.store key).isSome = true → (w'.store key).isSome = true)
    (hworkers : ∀ worker ∈ w'.workers, WorkerInv w'.db worker) : CollectionInv w' := by
  refine ⟨hconsistent, ?_, ?_, ?_, hworkers, ?_⟩
  · rw [hruns]
    exact hw.agree
  · rw [hruns]
    exact hw.exclusive
  · rw [hruns]
    intro r run hr
    refine runInv_frame (hw.runs r run hr) (hw.agree r run hr) (hw.consistent.accounted r run hr)
      ?_ (fun o ho _ => hobjects o ho) ?_ hstore
    · exact fun s hs _ => (hrows s hs).imp_right .inl
    · rintro ⟨s, hs, hid, hp⟩ o ho hoid
      exact hkept s hs hp o ho (hoid.trans hid.symm)
  · intro s hs hready
    rcases hrows s hs with hold | herror
    · exact (hw.ready s hold hready).frame hold hready (fun o ho _ => hobjects o ho) hstore
    · rw [hready] at herror
      cases herror

/-- What a collector has seen unpinned stays so when rows only fail or go. -/
theorem WorkerInv.frame {db db' : Database} {worker : GcWorker} (h : WorkerInv db worker)
    (hrows : ∀ s ∈ db'.snapshots, pinned s = true → s ∈ db.snapshots)
    (hobjects : ∀ o ∈ db'.snapshotObjects, o ∈ db.snapshotObjects) : WorkerInv db' worker := by
  constructor
  · rintro hphase ⟨s, hs, hp, o, ho, hid, hkey⟩
    exact h.content hphase ⟨s, hrows s hs hp, hp, o, hobjects o ho, hid, hkey⟩
  · rintro hphase ⟨s, hs, hp, hkey⟩
    exact h.manifest hphase ⟨s, hrows s hs hp, hp, hkey⟩

/-! ## Steps of a collector -/

theorem gcStep_store {now : Timestamp} {db : Database} {store : Store Bytes} {worker : GcWorker}
    {op : GcOp} {e : Database × Store Bytes × GcWorker}
    (h : gcStep now db store worker op = some e) :
    e.2.1 = store ∨
      worker.phase = .passed .confirm ∧ e.2.1 = Function.update store worker.objectKey none := by
  unfold gcStep at h
  split at h
  case h_6 =>
    rename_i phase
    cases h
    exact .inr ⟨phase, rfl⟩
  all_goals repeat' split at h
  all_goals cases h
  all_goals exact .inl rfl

theorem workerInv_idle {db : Database} {worker : GcWorker}
    (h : worker.phase.contentChecked = false) : WorkerInv db worker := by
  constructor
  · intro hphase
    rw [h] at hphase
    cases hphase
  · intro hphase
    rw [GcPhase.contentChecked_of_manifestChecked hphase] at h
    cases h

theorem gcStep_workerInv {now : Timestamp} {db : Database} {store : Store Bytes}
    {worker : GcWorker} {op : GcOp} {e : Database × Store Bytes × GcWorker}
    (hinv : WorkerInv db worker) (h : gcStep now db store worker op = some e) :
    WorkerInv db e.2.2 := by
  unfold gcStep at h
  split at h
  case h_3 =>
    rename_i round phase
    cases h
    unfold GcWorker.onCheck
    split
    · rename_i hcheck
      refine ⟨fun _ => not_contentPinned_of_check hcheck, ?_⟩
      intro hphase
      cases hphase
    · exact workerInv_idle rfl
  case h_4 =>
    rename_i round phase
    cases h
    unfold GcWorker.onCheck
    split
    · rename_i hcheck
      cases round with
      | confirm =>
          exact ⟨fun _ => hinv.content (by rw [phase]; rfl),
            fun _ => not_manifestPinned_of_check hcheck⟩
      | before => exact workerInv_idle rfl
      | after => exact workerInv_idle rfl
    · exact workerInv_idle rfl
  case h_2 =>
    cases h
    unfold GcWorker.onCheck
    split <;> exact workerInv_idle rfl
  case h_5 =>
    cases h
    dsimp only
    split <;> exact workerInv_idle rfl
  all_goals repeat' split at h
  all_goals cases h
  all_goals exact workerInv_idle rfl

theorem collectionInv_gc {w : World Bytes} {g : Nat} {worker : GcWorker} {op : GcOp}
    {e : Database × Store Bytes × GcWorker} (hw : CollectionInv w)
    (hg : w.workers[g]? = some worker) (h : gcStep w.now w.db w.store worker op = some e)
    (hconsistent : Consistent { w with
      db := e.1, store := e.2.1, workers := w.workers.set g e.2.2 }) :
    CollectionInv { w with db := e.1, store := e.2.1, workers := w.workers.set g e.2.2 } := by
  obtain ⟨hrows, hobjects, -⟩ := gcStep_rows h
  have hinv := hw.workers worker (List.mem_of_getElem? hg)
  refine collectionInv_maintenance hw hconsistent rfl ?_ ?_ ?_ ?_ ?_
  · rw [hrows]
    exact fun s hs => .inl hs
  · rw [hobjects]
    exact fun o ho => ho
  · rw [hobjects]
    exact fun _ _ _ o ho _ => ho
  · intro key hpinned hkey
    change (e.2.1 key).isSome = true
    rcases gcStep_store h with hstore | ⟨hphase, hstore⟩
    · rw [hstore]
      exact hkey
    · rw [hstore, Function.update_of_ne]
      · exact hkey
      · rintro rfl
        rcases hpinned with hcontent | hmanifest
        · exact hinv.content (by rw [hphase]; rfl) hcontent
        · exact hinv.manifest (by rw [hphase]; rfl) hmanifest
  · intro worker' hworker'
    have hmem : WorkerInv w.db worker' := by
      rcases List.mem_or_eq_of_mem_set hworker' with hold | rfl
      · exact hw.workers worker' hold
      · exact gcStep_workerInv hinv h
    refine hmem.frame ?_ ?_
    · rw [hrows]
      exact fun s hs _ => hs
    · rw [hobjects]
      exact fun o ho => ho

/-! ## Steps of the machine -/

theorem collectionInv_begin {w : World Bytes} {run : Run} (hw : CollectionInv w)
    (hconsistent : Consistent { w with runs := w.runs ++ [run] }) (hphase : run.phase = .fenced)
    (hagree : PathsAgree run.scan.files) : CollectionInv { w with runs := w.runs ++ [run] } := by
  refine ⟨hconsistent, ?_, ?_, ?_, hw.workers, hw.ready⟩
  · intro i run' hi
    rcases getElem?_begin hi with hi | ⟨-, rfl⟩
    · exact hw.agree i run' hi
    · exact hagree
  · intro i j run₁ run₂ hi hj hlive₁ hlive₂ hid
    rcases getElem?_begin hi with hi | ⟨-, rfl⟩
    · rcases getElem?_begin hj with hj | ⟨-, rfl⟩
      · exact hw.exclusive i j run₁ run₂ hi hj hlive₁ hlive₂ hid
      · rw [hphase] at hlive₂
        cases hlive₂
    · rw [hphase] at hlive₁
      cases hlive₁
  · intro i run' hi
    rcases getElem?_begin hi with hi | ⟨-, rfl⟩
    · have hinv := hw.runs i run' hi
      exact ⟨hinv.state, hinv.bare, hinv.covered, fun hprepared hpins =>
        ⟨(hinv.kept hprepared hpins).manifestKey, (hinv.kept hprepared hpins).covers,
          (hinv.kept hprepared hpins).stored⟩⟩
    · exact runInv_idle (by rw [hphase]; rfl)

theorem CollectionInv.other_id {d : DataPlane Bytes} {w : World Bytes} {r i : Nat}
    {run other : Run} {op : RunOp Bytes} {e : Effect Bytes} (hw : CollectionInv w)
    (hr : w.runs[r]? = some run) (hi : w.runs[i]? = some other) (hne : r ≠ i)
    (hlive : other.phase.executing = true) (h : RunStep d w.now w.db w.store run op e)
    (hclaim : NoReclaim w (.run r op) (w.afterRun r run e)) :
    other.snapshotId ≠ run.snapshotId ∧ other.snapshotId ≠ e.run.snapshotId := by
  by_cases hphase : run.phase = .fenced
  · have hid := (hw.consistent.unclaimed r run hr hphase).runs i other hi (Ne.symm hne)
    refine ⟨hid, ?_⟩
    cases h with
    | claimed phase claim =>
        refine hclaim _ ?_ rfl other (List.mem_of_getElem? hi) hlive
        rw [getElem?_afterRun hr, if_pos rfl]
        rfl
    | stopped | rejected => exact hid
    | failed fallible live =>
        rw [hphase] at live
        cases live
    | _ => cases hphase.symm.trans ‹run.phase = _›
  · have hid : other.snapshotId ≠ run.snapshotId := fun heq =>
      hne (hw.exclusive r i run other hr hi (h.executing hphase) hlive heq.symm)
    rw [(h.rowIds_eq hphase).2]
    exact ⟨hid, hid⟩

theorem RunPhase.rowState_eq_none {phase : RunPhase} (h : phase.executing = false) :
    phase.rowState = none := by
  cases phase <;> first | rfl | cases h

theorem RunPhase.rowState_ne_ready {phase : RunPhase} {st : SnapshotState}
    (h : st ∈ phase.rowState) : st ≠ .ready ∧ st ≠ .error := by
  revert h
  cases phase <;> simp only [RunPhase.rowState, Option.mem_def, Option.some.injEq, reduceCtorEq,
    false_implies]
  all_goals
    rintro rfl
    simp

theorem RunStep.objects_of_idle {d : DataPlane Bytes} {now : Timestamp} {db : Database}
    {store : Store Bytes} {run : Run} {op : RunOp Bytes} {e : Effect Bytes}
    (h : RunStep d now db store run op e) (hphase : run.phase.rowState = none) :
    e.db.snapshotObjects = db.snapshotObjects := by
  cases h with
  | cleaned phase | prepared phase _ | recorded phase _ _ _ | committed phase _ =>
      rw [phase] at hphase
      cases hphase
  | _ => rfl

theorem stored_of_commit {d : DataPlane Bytes} {w : World Bytes} {r : Nat} {run : Run}
    {m : Manifest} {e : Effect Bytes} (hw : CollectionInv w) (hr : w.runs[r]? = some run)
    (h : RunStep d w.now w.db w.store run .commit e)
    (hconsistent : Consistent (w.afterRun r run e)) (hphase : run.phase = .checked m)
    (hadm : FinalizeAdmitted w.now (run.finalizeArgs m) w.db) (hnamed : e.run.phase.named = true)
    {s : SnapshotRow} (hs : s ∈ e.db.snapshots) (hready : s.state = .ready)
    (hid : s.id = run.snapshotId) : Stored e.db e.store s := by
  have hinv := hw.runs r run hr
  have hagree := hw.agree r run hr
  have haccounted := hw.consistent.accounted r run hr
  have hprepared : run.phase.prepared = true := by rw [hphase]; rfl
  have hkept := hinv.kept hprepared (pins_of_admitted hadm)
  have hkey : s.manifestKey = some run.manifestKey := by
    rcases h.pinned_row hs (pinned_of_ready hready) with
      ⟨s₀, hs₀, hid₀, hp₀, hkey | ⟨-, -, hkey⟩⟩ | ⟨-, hhashing, -⟩
    · exact hkey.trans (hkept.manifestKey s₀ hs₀ (hid₀.trans hid) hp₀)
    · exact hkey
    · rw [hphase] at hhashing
      cases hhashing
  obtain ⟨hproblem, hgeneration⟩ : s.problemId = run.problemId ∧ s.generation = run.generation := by
    obtain ⟨hp, hg, -, -⟩ := h.kept
    have hrow := hconsistent.named r e.run (by rw [getElem?_afterRun hr, if_pos rfl]) hnamed s hs
      (by rw [(h.rowIds_eq (by simp [hphase])).2]; exact hid)
    rwa [hp, hg] at hrow
  have hmkey : Model.manifestKey s.problemId s.generation = run.manifestKey := by
    rw [hproblem, hgeneration]
    rfl
  have hstoredKeys : run.storedKeys = run.manifestKey :: m.files.map ManifestFile.objectKey := by
    simp only [Run.storedKeys, hphase]
  refine ⟨by rw [hmkey, hkey], ?_, ?_⟩
  · rw [hmkey]
    exact h.store_mono (hkept.stored _ (by rw [hstoredKeys]; exact List.mem_cons_self))
  · intro o ho hoid
    rcases h.object_key hinv hagree haccounted ho with ⟨o₀, ho₀, hid₀, hkey₀⟩ | ⟨⟨_, hop⟩, -⟩
    · obtain ⟨f, hf, -, hfkey⟩ := hinv.covered hprepared o₀ ho₀ (hid₀.trans (hoid.trans hid))
      rw [Run.accounted, hphase] at haccounted
      have hmem : f.toManifestFile ∈ m.files := haccounted.mem_iff.mpr (List.mem_map_of_mem hf)
      refine h.store_mono (hkept.stored _ ?_)
      rw [hstoredKeys, ← hkey₀, ← hfkey]
      exact List.mem_cons_of_mem _ (List.mem_map.mpr ⟨_, hmem, rfl⟩)
    · cases hop

theorem readyStored_run {d : DataPlane Bytes} {w : World Bytes} {r : Nat} {run : Run}
    {op : RunOp Bytes} {e : Effect Bytes} (hw : CollectionInv w) (hr : w.runs[r]? = some run)
    (h : RunStep d w.now w.db w.store run op e)
    (hconsistent : Consistent (w.afterRun r run e)) : ReadyStored (w.afterRun r run e) := by
  intro s hs hready
  rcases h.ready (mem_readyRows.mpr ⟨hs, hready⟩) with hold | ⟨hid, m, rfl, hphase, hadm⟩
  · obtain ⟨hmem, -⟩ := mem_readyRows.mp hold
    refine (hw.ready s hmem hready).frame hmem hready ?_ fun key _ hkey => h.store_mono hkey
    intro o ho hoid
    by_cases hid : s.id = run.snapshotId
    · cases hstate : run.phase.rowState with
      | none =>
          change o ∈ e.db.snapshotObjects at ho
          rwa [h.objects_of_idle hstate] at ho
      | some st =>
          -- The row of an executing run is not READY.
          rcases (hw.runs r run hr).state st hstate s hmem hid with hst | herror
          · exact absurd (hst.symm.trans hready) (RunPhase.rowState_ne_ready hstate).1
          · rw [hready] at herror
            cases herror
    · exact (h.objects_other (hoid ▸ hid)).mp ho
  · refine stored_of_commit hw hr h hconsistent hphase hadm ?_ hs hready hid
    cases h with
    | committed | commitFailed | failed => rfl
    | stopped stopping => cases stopping

theorem collectionInv_run {d : DataPlane Bytes} {w : World Bytes} {r : Nat} {run : Run}
    {op : RunOp Bytes} {e : Effect Bytes} (hw : CollectionInv w) (hr : w.runs[r]? = some run)
    (hallowed : w.runAllowed run op = true) (h : RunStep d w.now w.db w.store run op e)
    (hclaim : NoReclaim w (.run r op) (w.afterRun r run e)) :
    CollectionInv (w.afterRun r run e) := by
  have hconsistent := consistent_run hw.consistent hr h
  have hagree := hw.agree r run hr
  have haccounted := hw.consistent.accounted r run hr
  obtain ⟨-, -, hscan, -⟩ := h.kept
  refine ⟨hconsistent, ?_, ?_, ?_, ?_, readyStored_run hw hr h hconsistent⟩
  · intro i run' hi
    rw [getElem?_afterRun hr] at hi
    split at hi
    · cases hi
      rwa [hscan]
    · exact hw.agree i run' hi
  · intro i j run₁ run₂ hi hj hlive₁ hlive₂ hid
    rw [getElem?_afterRun hr] at hi hj
    split at hi <;> split at hj
    · rename_i hri hrj
      exact hri.symm.trans hrj
    · rename_i hri hrj
      cases hi
      exact absurd hid.symm (hw.other_id hr hj hrj hlive₂ h hclaim).2
    · rename_i hri hrj
      cases hj
      exact absurd hid (hw.other_id hr hi hri hlive₁ h hclaim).2
    · exact hw.exclusive i j run₁ run₂ hi hj hlive₁ hlive₂ hid
  · intro i run' hi
    rw [getElem?_afterRun hr] at hi
    split at hi
    · cases hi
      exact runInv_own hw.consistent hr hagree (hw.runs r run hr) h
    · rename_i hne
      by_cases hlive : run'.phase.executing = true
      · obtain ⟨hbefore, hafter⟩ := hw.other_id hr hi hne hlive h hclaim
        refine runInv_frame (hw.runs i run' hi) (hw.agree i run' hi)
          (hw.consistent.accounted i run' hi) ?_ ?_ ?_ fun key _ hkey => h.store_mono hkey
        · intro s hs hid
          exact (h.rows_other hw.consistent.keys hs (hid ▸ hafter)).imp_right .inr
        · exact fun o ho hid => (h.objects_other (hid ▸ hbefore)).mp ho
        · exact fun _ o ho hid => (h.objects_other (hid ▸ hbefore)).mpr ho
      · exact runInv_idle (RunPhase.rowState_eq_none (by simpa using hlive))
  · intro worker hworker
    have hfree : worker.phase.contentChecked = true → ∀ canonical, op = .prepare canonical →
        worker.objectKey ∉ claimedKeys run.scan.files run.manifestKey := by
      rintro hphase canonical rfl hclaimed
      -- The collector still holds the lock that the claim waits for.
      have hlocking := GcPhase.locking_of_contentChecked hphase
      simp only [World.runAllowed, Bool.and_eq_true, List.all_eq_true, Bool.not_eq_true',
        World.keyLocked, List.any_eq_false, decide_eq_true_eq] at hallowed
      exact hallowed.2 _ hclaimed worker hworker ⟨rfl, hlocking⟩
    have hinv := hw.workers worker hworker
    constructor
    · intro hphase hpinned
      exact hinv.content hphase
        ((h.pinned_key (hw.runs r run hr) hagree haccounted (hfree hphase)).1 hpinned)
    · intro hphase hpinned
      have hcontent := GcPhase.contentChecked_of_manifestChecked hphase
      exact hinv.manifest hphase
        ((h.pinned_key (hw.runs r run hr) hagree haccounted (hfree hcontent)).2 hpinned)

theorem collectionInv_step {d : DataPlane Bytes} {w w' : World Bytes} {a : Action Bytes}
    (hw : CollectionInv w) (hagree : a.scanAgrees) (hclaim : NoReclaim w a w')
    (h : step d w a = some w') : CollectionInv w' := by
  have hconsistent := consistent_step hw.consistent h
  -- The rows stay, and so do the objects and the store.
  have hframe : w'.runs = w.runs → w'.db.snapshots = w.db.snapshots →
      w'.db.snapshotObjects = w.db.snapshotObjects → w'.store = w.store →
      (∀ worker ∈ w'.workers, worker ∈ w.workers ∨ worker.phase.contentChecked = false) →
      CollectionInv w' := by
    intro hruns hrows hobjects hstore hworkers
    refine collectionInv_maintenance hw hconsistent hruns ?_ ?_ ?_ ?_ ?_
    · exact fun s hs => .inl (hrows ▸ hs)
    · exact fun o ho => hobjects ▸ ho
    · exact fun _ _ _ o ho _ => hobjects ▸ ho
    · exact fun key _ hkey => hstore ▸ hkey
    · intro worker hworker
      rcases hworkers worker hworker with hold | hidle
      · exact (hw.workers worker hold).frame (fun s hs _ => hrows ▸ hs) fun o ho => hobjects ▸ ho
      · exact workerInv_idle hidle
  cases a with
  | begin id problemId generation token version scan =>
      obtain ⟨-, -, rfl⟩ := step_begin h
      exact collectionInv_begin hw hconsistent rfl hagree
  | run r op =>
      obtain ⟨run, e, hr, hallowed, hstep, rfl⟩ := step_run h
      exact collectionInv_run hw hr hallowed hstep hclaim
  | gcList id token =>
      obtain ⟨m, -, rfl⟩ := step_gcList h
      refine hframe rfl rfl rfl rfl ?_
      intro worker hworker
      rcases List.mem_append.mp hworker with hold | hnew
      · exact .inl hold
      · rw [List.mem_singleton.mp hnew]
        exact .inr rfl
  | gc g op =>
      obtain ⟨worker, e, hg, -, hgc, rfl⟩ := step_gc h
      exact collectionInv_gc hw hg hgc hconsistent
  | retention ids =>
      cases h
      have hrows : ∀ s ∈ (applyRetention w.now ids w.db).snapshots, s ∈ w.db.snapshots :=
        fun s hs => (mem_deleteWhere.mp hs).1
      have hobjects : ∀ o ∈ (applyRetention w.now ids w.db).snapshotObjects,
          o ∈ w.db.snapshotObjects := fun o ho => (mem_deleteWhere.mp ho).1
      refine collectionInv_maintenance hw hconsistent rfl (fun s hs => .inl (hrows s hs)) hobjects
        ?_ (fun _ _ hkey => hkey) ?_
      · intro s hs hp o ho hid
        refine mem_deleteWhere.mpr ⟨ho, ?_⟩
        rw [List.any_eq_false]
        intro t ht hpruned
        simp only [Bool.and_eq_true, decide_eq_true_eq] at hpruned
        obtain rfl := hw.consistent.keys.row_eq ht (hrows s hs) (hpruned.2.trans hid)
        rw [not_pinned_of_prunable hpruned.1] at hp
        cases hp
      · exact fun worker hworker =>
          (hw.workers worker hworker).frame (fun s hs _ => hrows s hs) hobjects
  | failStalled =>
      cases h
      have hrows : ∀ s ∈ failStalledSnapshots w.now w.db.snapshots,
          s ∈ w.db.snapshots ∨ s.state = .error := by
        intro s hs
        obtain ⟨t, ht, rfl⟩ := mem_updateWhere.mp hs
        split
        · exact .inr rfl
        · exact .inl ht
      refine collectionInv_maintenance hw hconsistent rfl hrows (fun o ho => ho)
        (fun _ _ _ o ho _ => ho) (fun _ _ hkey => hkey) ?_
      intro worker hworker
      refine (hw.workers worker hworker).frame ?_ fun o ho => ho
      intro s hs hp
      rcases hrows s hs with hold | herror
      · exact hold
      · simp [pinned, herror] at hp
  | tick elapsed =>
      cases h
      exact hframe rfl rfl rfl rfl fun worker hworker => .inl hworker
  | external tables =>
      cases h
      exact hframe rfl rfl rfl rfl fun worker hworker => .inl hworker

theorem collectionInv_initial {w : World Bytes} (hw : Initial w) (hstored : ReadyStored w) :
    CollectionInv w := by
  refine ⟨consistent_initial hw, ?_, ?_, ?_, ?_, hstored⟩
  · intro r run hr
    simp [hw.runs] at hr
  · intro i j run run' hi
    simp [hw.runs] at hi
  · intro r run hr
    simp [hw.runs] at hr
  · intro worker hworker
    simp [hw.workers] at hworker

/-- Every READY snapshot has its manifest and its objects in the store, whatever the
interleaving of runs, collectors and maintenance, when each scan names a path once. -/
theorem ready_snapshots_stored {d : DataPlane Bytes} {w u : World Bytes}
    {as : List (Action Bytes)} (hinit : Initial w) (hstored : ReadyStored w)
    (hagree : ∀ a ∈ as, a.scanAgrees) (hclaim : EveryStep (step d) NoReclaim w as)
    (hrun : exec (step d) w as = some u) : ReadyStored u := by
  have hinv : CollectionInv u := by
    refine exec_invariant (C := fun w a w' => NoReclaim w a w' ∧ a.scanAgrees) ?_
      (collectionInv_initial hinit hstored) (hclaim.and (everyStep_of_forall_mem hagree)) hrun
    exact fun _ _ _ hw hC h => collectionInv_step hw hC.2 hC.1 h
  exact hinv.ready

instance (db : Database) (store : Store Bytes) (s : SnapshotRow) :
    Decidable (Stored db store s) :=
  decidable_of_iff (s.manifestKey = some (manifestKey s.problemId s.generation) ∧
      (store (manifestKey s.problemId s.generation)).isSome = true ∧
      ∀ o ∈ db.snapshotObjects, o.snapshotId = s.id → (store o.objectKey).isSome = true)
    ⟨fun ⟨h₁, h₂, h₃⟩ => ⟨h₁, h₂, h₃⟩, fun ⟨h₁, h₂, h₃⟩ => ⟨h₁, h₂, h₃⟩⟩

instance (w : World Bytes) : Decidable (ReadyStored w) :=
  inferInstanceAs (Decidable (∀ s ∈ w.db.snapshots, s.state = .ready → Stored w.db w.store s))

instance (w : World Bytes) (a : Action Bytes) (w' : World Bytes) :
    Decidable (NoReclaim w a w') := by
  unfold NoReclaim
  obtain _ | ⟨r, op⟩ | _ := a
  case run => obtain _ | _ := op <;> infer_instance
  all_goals infer_instance

instance (a : Action Bytes) : Decidable a.scanAgrees := by
  unfold Action.scanAgrees
  obtain _ | _ := a <;> infer_instance

def markedWorld (f : FileEntry) (text : String) : World Content :=
  { sampleWorld with
    store := Function.update sampleWorld.store (objectKeyForSha256 f.sha256) (some (.file text))
    db := { sampleWorld.db with
      gcMarks := [{
        id := 7, sha256 := f.sha256, objectKey := objectKeyForSha256 f.sha256, snapshotId := none
        objectKind := .content, markedAt := sampleTime - days 7, eligibleAt := sampleTime
        collected := false, collectedAt := none, attempts := 0, lastError := none }] } }

def collectingRun : List (Action Content) :=
  claimingRun 0 1 1 ++ [.gcList 7 1, .run 0 .setHashing, .run 0 (.prepare (some initYmlText))] ++
    [.gc 0 .lock, .gc 0 .next, .gc 0 .next, .gc 0 .next, .gc 0 (.record "409")] ++
    uploadExisting 0 dataZip ++ uploadAbsent 0 initYml initYmlText ++ [.run 0 .setVerifying] ++
    publishingRun 0

theorem ready_snapshots_stored_collecting :
    ∃ u : World Content, exec (step samplePlane) (markedWorld dataZip dataZipText)
        collectingRun = some u ∧ ReadyStored u ∧ ∃ s ∈ u.db.snapshots, s.state = .ready := by
  have hinit : Initial (markedWorld dataZip dataZipText) :=
    ⟨⟨by decide, by decide⟩, rfl, rfl, fun _ => rfl⟩
  have hstored : ReadyStored (markedWorld dataZip dataZipText) := by decide
  have hagree : ∀ a ∈ collectingRun, a.scanAgrees := by decide
  -- both in one evaluation of the run
  have ⟨hclaim, hrun⟩ : EveryStep (step samplePlane) NoReclaim (markedWorld dataZip dataZipText)
        collectingRun ∧
      (exec (step samplePlane) (markedWorld dataZip dataZipText) collectingRun).any
        (fun u => ∃ s ∈ u.db.snapshots, s.state = .ready) = true := by
    decide +kernel
  obtain ⟨u, hu, hready⟩ := (Option.any_eq_true _ _).mp hrun
  exact ⟨u, hu, ready_snapshots_stored hinit hstored hagree hclaim hu, of_decide_eq_true hready⟩

/-- `tests/1.in`, and a link in the folder named `tests\1.in`: the scanner gives both
the path of the first. -/
def testIn : FileEntry where
  path := "tests/1.in"
  sha256 := "f251ddc12234e0da8d3b778bd0f7463fb477f16f47757f5617dc8b4ff4d4f14a"
  size := 4
  allocatedBytes := 4096
  dev := 2049
  ino := 13
  nlink := 1
  mode := 0o100644
  duplicateOf := none
  symlinkTarget := none

def testLink : FileEntry where
  path := "tests/1.in"
  sha256 := "83865d3887436ef22ec2d255d68facd7b778c81e458a1a515592803752e89729"
  size := 8
  allocatedBytes := 0
  dev := 2049
  ino := 14
  nlink := 1
  mode := 0o120777
  duplicateOf := none
  symlinkTarget := some "data.zip"

def clashingScan : ScanResult where
  code := "aplusb"
  logicalBytes := 52
  allocatedBytes := 12288
  archiveBytes := 22
  auxiliaryBytes := 30
  fileCount := 4
  files := [testLink, testIn, dataZip, initYml]

def clashingDigest : Content → String
  | .file text =>
      if text = "1 2\n" then testIn.sha256
      else if text = "data.zip" then testLink.sha256
      else sampleDigest (.file text)
  | .manifestJson _ => "57336b7d8aac7cbe7657fac3a821a9ba4b14932a71b6269d593ec3fee892e729"

def clashingPlane : DataPlane Content :=
  { samplePlane with sha256Bytes := clashingDigest }

/-- The claim of the path lists the content of the link while the collector looks, and
that of the file when the run publishes. -/
def clashingRun : List (Action Content) :=
  [.begin 1 "101" 1 1 (some 1) clashingScan, .run 0 .claim, .run 0 .cleanup, .gcList 7 1,
    .run 0 .setHashing, .run 0 (.prepare (some initYmlText))] ++
    uploadAbsent 0 testLink "data.zip" ++
    [.run 0 .start, .run 0 (.task 0 (.read testIn.sha256)), .run 0 (.task 0 .next),
      .run 0 (.task 0 .next)] ++
    [.gc 0 .lock, .gc 0 .next, .gc 0 .next, .gc 0 .next, .gc 0 .next, .gc 0 .next, .gc 0 .next,
      .gc 0 .next, .gc 0 .next] ++
    [.run 0 (.record 0)] ++ uploadAbsent 0 dataZip dataZipText ++
    uploadAbsent 0 initYml initYmlText ++ [.run 0 .setVerifying] ++ publishingRun 0

theorem ready_object_collected :
    ∃ u : World Content, exec (step clashingPlane) (markedWorld testIn "1 2\n") clashingRun =
        some u ∧ ReadyStored (markedWorld testIn "1 2\n") ∧
      EveryStep (step clashingPlane) NoReclaim (markedWorld testIn "1 2\n") clashingRun ∧
      ∃ s ∈ u.db.snapshots, s.state = .ready ∧ ∃ o ∈ u.db.snapshotObjects,
        o.snapshotId = s.id ∧ u.store o.objectKey = none := by
  have hstored : ReadyStored (markedWorld testIn "1 2\n") := by decide
  have ⟨hclaim, hrun⟩ : EveryStep (step clashingPlane) NoReclaim (markedWorld testIn "1 2\n")
        clashingRun ∧
      (exec (step clashingPlane) (markedWorld testIn "1 2\n") clashingRun).any
        (fun u => ∃ s ∈ u.db.snapshots, s.state = .ready ∧ ∃ o ∈ u.db.snapshotObjects,
          o.snapshotId = s.id ∧ u.store o.objectKey = none) = true := by
    decide +kernel
  obtain ⟨u, hu, hmissing⟩ := (Option.any_eq_true _ _).mp hrun
  exact ⟨u, hu, hstored, hclaim, of_decide_eq_true hmissing⟩

end ExternalStorage.Snapshot
