import ExternalStorage.Snapshot.Machine

/-!
# What a step can do

The inversion of the step function: `RunStep` lists the outcomes of a step of a
run, `GcStep` those of a collector, and the lemmas below read them off a step of
the machine.  The invariants are case analyses over these outcomes.
-/

namespace ExternalStorage.Snapshot

open ExternalStorage.Model

variable {Bytes : Type}

/-! ## One file -/

inductive TaskStep (d : DataPlane Bytes) (store : Store Bytes) (t : Task) :
    Task → Store Bytes → Prop
  | hashed (phase : t.phase = .hashing) : TaskStep d store t (t.at .heading) store
  | headed {next} (phase : t.phase = .heading ∨ t.phase = .absent)
      (seen : next = .existing ∨ next = .existingAtPut → (store t.objectKey).isSome = true)
      (unwritten : next ≠ .written ∧ next ≠ .stored) :
      TaskStep d store t (t.at next) store
  | verified {next} (phase : t.phase = .existing ∨ t.phase = .existingAtPut ∨ t.phase = .written)
      (verify : verifyObject d store t.objectKey t.file.sha256 = .ok true) :
      TaskStep d store t (t.at next) store
  | put {bytes} (phase : t.phase = .putting) :
      TaskStep d store t (t.at .written) (Function.update store t.objectKey (some bytes))

theorem Task.verified_eq_ok {d : DataPlane Bytes} {store store' : Store Bytes} {t t' : Task}
    {phase : TaskPhase} {got : String} (h : t.verified d store phase got = .ok (t', store')) :
    verifyObject d store t.objectKey t.file.sha256 = .ok true ∧ t' = t.at phase ∧
      store' = store := by
  unfold Task.verified at h
  cases hv : verifyObject d store t.objectKey t.file.sha256 with
  | error e =>
      rw [hv] at h
      cases h
  | ok same =>
      rw [hv] at h
      cases same with
      | false => cases h
      | true =>
          cases h
          exact ⟨rfl, rfl, rfl⟩

theorem taskStep_cases {d : DataPlane Bytes} {store store' : Store Bytes} {t t' : Task}
    {op : TaskOp Bytes} (h : taskStep d store t op = some (.ok (t', store'))) :
    TaskStep d store t t' store' := by
  unfold taskStep at h
  split at h
  · rename_i phase
    split at h
    · cases h
      exact .hashed phase
    · cases h
  · rename_i phase
    cases h
    refine .headed (.inl phase) ?_ ?_
    · cases (store t.objectKey).isSome <;> simp
    · cases (store t.objectKey).isSome <;> simp
  · rename_i phase
    obtain ⟨hv, rfl, rfl⟩ := Task.verified_eq_ok (Option.some.inj h)
    exact .verified (.inl phase) hv
  · rename_i phase
    cases h
    refine .headed (.inr phase) ?_ ?_
    · cases (store t.objectKey).isSome <;> simp
    · cases (store t.objectKey).isSome <;> simp
  · rename_i phase
    obtain ⟨hv, rfl, rfl⟩ := Task.verified_eq_ok (Option.some.inj h)
    exact .verified (.inr (.inl phase)) hv
  · rename_i phase
    cases h
    exact .put phase
  · rename_i phase
    obtain ⟨hv, rfl, rfl⟩ := Task.verified_eq_ok (Option.some.inj h)
    exact .verified (.inr (.inr phase)) hv
  · cases h

theorem TaskStep.file_eq {d : DataPlane Bytes} {store store' : Store Bytes} {t t' : Task}
    (h : TaskStep d store t t' store') : t'.file = t.file := by
  cases h <;> rfl

/-! ## One run -/

def RunOp.fallible : RunOp Bytes → Bool
  | .task .. | .verifyManifest | .checkFencing | .fail _ => true
  | _ => false

/-- The operations after which the run has returned without recording an error. -/
def RunOp.stopping : RunOp Bytes → Bool
  | .fail _ | .crash => true
  | _ => false

inductive RunStep (d : DataPlane Bytes) (now : Timestamp) (db : Database) (store : Store Bytes)
    (run : Run) : RunOp Bytes → Effect Bytes → Prop
  | claimed {rows id} (phase : run.phase = .fenced)
      (claim : claimSnapshot now db.snapshots run.snapshotId run.problemId run.generation
        run.createdAt = (rows, some id)) :
      RunStep d now db store run .claim ⟨{ db with snapshots := rows }, store,
        { run with snapshotId := id, phase := .claimed }⟩
  | rejected {rows err} (phase : run.phase = .fenced)
      (claim : claimSnapshot now db.snapshots run.snapshotId run.problemId run.generation
        run.createdAt = (rows, none))
      (load : loadSnapshot db.snapshots run.problemId run.generation = .error err) :
      RunStep d now db store run .claim ⟨db, store, run.at (.rejected err)⟩
  | cleaned (phase : run.phase = .claimed) :
      RunStep d now db store run .cleanup
        ⟨{ db with
            snapshotObjects := deleteSnapshotObjects run.snapshotId db.snapshotObjects }, store,
          run.at .cleaned⟩
  | hashing (phase : run.phase = .cleaned) :
      RunStep d now db store run .setHashing
        ⟨{ db with snapshots := setHashing run.snapshotId db.snapshots }, store,
          run.at .hashing⟩
  | prepared {initYml canonical db'} (phase : run.phase = .hashing)
      (prepare : prepareSnapshotUpload db run.snapshotId run.scan.files run.manifestKey = .ok db')
      (archive : canonicalDownloadPath initYml run.scan.files = some canonical) :
      RunStep d now db store run (.prepare initYml)
        ⟨db', store, run.at (.uploading canonical run.scan.files [] [])⟩
  | prepareFailed {initYml err} (phase : run.phase = .hashing)
      (prepare : prepareSnapshotUpload db run.snapshotId run.scan.files run.manifestKey =
        .error err) :
      RunStep d now db store run (.prepare initYml) ⟨db, store, run.at (.failing err)⟩
  | archiveless {initYml err} (phase : run.phase = .hashing)
      (archive : canonicalDownloadPath initYml run.scan.files = none) :
      RunStep d now db store run (.prepare initYml) ⟨db, store, run.at (.failing err)⟩
  | started {canonical f pending inFlight uploaded}
      (phase : run.phase = .uploading canonical (f :: pending) inFlight uploaded) :
      RunStep d now db store run .start ⟨db, store,
        run.at (.uploading canonical pending (inFlight ++ [⟨f, .hashing⟩]) uploaded)⟩
  | task {canonical pending inFlight uploaded i op t t' store'}
      (phase : run.phase = .uploading canonical pending inFlight uploaded)
      (inFlightAt : inFlight[i]? = some t) (taken : taskStep d store t op = some (.ok (t', store'))) :
      RunStep d now db store run (.task i op) ⟨db, store',
        run.at (.uploading canonical pending (inFlight.set i t') uploaded)⟩
  | recorded {canonical pending inFlight uploaded i t objects}
      (phase : run.phase = .uploading canonical pending inFlight uploaded)
      (inFlightAt : inFlight[i]? = some t) (stored : t.phase = .stored)
      (record : recordUploaded run.snapshotId t.file db.snapshotObjects = .ok objects) :
      RunStep d now db store run (.record i) ⟨{ db with snapshotObjects := objects }, store,
        run.at (.uploading canonical pending (inFlight.eraseIdx i)
          (uploaded ++ [t.file.toManifestFile]))⟩
  | recordFailed {canonical pending inFlight uploaded i t err}
      (phase : run.phase = .uploading canonical pending inFlight uploaded)
      (inFlightAt : inFlight[i]? = some t)
      (record : recordUploaded run.snapshotId t.file db.snapshotObjects = .error err) :
      RunStep d now db store run (.record i) ⟨db, store, run.at (.failing err)⟩
  | verifying {canonical uploaded} (phase : run.phase = .uploading canonical [] [] uploaded) :
      RunStep d now db store run .setVerifying
        ⟨{ db with snapshots := setVerifying run.snapshotId db.snapshots }, store,
          run.at (.verifying (run.manifest canonical uploaded))⟩
  | published {m} (phase : run.phase = .verifying m) :
      RunStep d now db store run .putManifest
        ⟨db, Function.update store run.manifestKey (some (d.manifestToVec m)),
          run.at (.published m)⟩
  | verified {m} (phase : run.phase = .published m)
      (verify : verifyObject d store run.manifestKey (d.sha256Bytes (d.manifestToVec m)) =
        .ok true) :
      RunStep d now db store run .verifyManifest ⟨db, store, run.at (.finalizing m)⟩
  | checked {m} (phase : run.phase = .finalizing m)
      (fencing : ensureLatestFencing db.jobs run.problemId run.fencingToken = .ok ()) :
      RunStep d now db store run .checkFencing ⟨db, store, run.at (.checked m)⟩
  | committed {m db'} (phase : run.phase = .checked m)
      (finalize : finalizeBody now (run.finalizeArgs m) db = .ok db') :
      RunStep d now db store run .commit ⟨db', store, run.at (.committed m)⟩
  | commitFailed {m err} (phase : run.phase = .checked m)
      (finalize : finalizeBody now (run.finalizeArgs m) db = .error err) :
      RunStep d now db store run .commit ⟨db, store, run.at (.failing err)⟩
  | marked {e} (phase : run.phase = .failing e) :
      RunStep d now db store run .markError
        ⟨{ db with snapshots := markSnapshotError now run.snapshotId e db.snapshots }, store,
          run.at .ended⟩
  | failed {op e} (fallible : op.fallible = true) (live : run.phase.uploadStarted = true) :
      RunStep d now db store run op ⟨db, store, run.at (.failing e)⟩
  | stopped {op} (stopping : op.stopping = true)
      (live : run.phase.executing = true ∨ run.phase = .fenced) :
      RunStep d now db store run op ⟨db, store, run.at .ended⟩

theorem runStep_cases {d : DataPlane Bytes} {now : Timestamp} {db : Database}
    {store : Store Bytes} {run : Run} {op : RunOp Bytes} {e : Effect Bytes}
    (h : runStep d now db store run op = some e) : RunStep d now db store run op e := by
  unfold runStep at h
  split at h
  · rename_i phase
    split at h
    · rename_i claim
      split at h
      · rename_i load
        exact absurd load (loadSnapshot_ne_ok _ _ _ _)
      · rename_i load
        cases h
        exact .rejected phase claim load
    · rename_i claim
      cases h
      exact .claimed phase claim
  · rename_i phase
    cases h
    exact .cleaned phase
  · rename_i phase
    cases h
    exact .hashing phase
  · rename_i phase
    split at h
    · rename_i archive
      cases h
      exact .archiveless phase archive
    · rename_i archive
      split at h
      · rename_i prepare
        cases h
        exact .prepared phase prepare archive
      · rename_i prepare
        cases h
        exact .prepareFailed phase prepare
  · rename_i phase
    split at h
    · cases h
      exact .started phase
    · cases h
  · rename_i phase
    obtain ⟨t, ht, h⟩ := Option.bind_eq_some_iff.mp h
    obtain ⟨result, htaken, h⟩ := Option.map_eq_some_iff.mp h
    split at h
    · cases h
      exact .task phase ht htaken
    · cases h
      exact .failed rfl (by rw [phase]; rfl)
  · rename_i phase
    obtain ⟨t, ht, h⟩ := Option.bind_eq_some_iff.mp h
    split at h
    · rename_i stored
      split at h
      · rename_i record
        cases h
        exact .recorded phase ht stored record
      · rename_i record
        cases h
        exact .recordFailed phase ht record
    · cases h
  · rename_i phase
    cases h
    exact .verifying phase
  · rename_i phase
    cases h
    exact .published phase
  · rename_i phase
    split at h
    · rename_i verify
      cases h
      exact .verified phase verify
    · cases h
      exact .failed rfl (by rw [phase]; rfl)
    · cases h
      exact .failed rfl (by rw [phase]; rfl)
  · rename_i phase
    split at h
    · rename_i fencing
      cases h
      exact .checked phase fencing
    · cases h
      exact .failed rfl (by rw [phase]; rfl)
  · rename_i phase
    split at h
    · rename_i finalize
      cases h
      exact .committed phase finalize
    · rename_i finalize
      cases h
      exact .commitFailed phase finalize
  · split at h
    · rename_i live
      cases h
      exact .failed rfl live
    · split at h
      · rename_i early
        cases h
        exact .stopped rfl (early.symm.imp_left fun claimed => by rw [claimed]; rfl)
      · cases h
  · rename_i phase
    cases h
    exact .marked phase
  · split at h
    · rename_i live
      cases h
      exact .stopped rfl live
    · cases h
  · cases h

theorem RunStep.commits {d : DataPlane Bytes} {now : Timestamp} {db : Database}
    {store : Store Bytes} {run : Run} {op : RunOp Bytes} {e : Effect Bytes} {m : Manifest}
    (h : RunStep d now db store run op e) (hcommit : e.run.phase = .committed m) :
    run.phase = .checked m ∧ finalizeBody now (run.finalizeArgs m) db = .ok e.db := by
  cases h with
  | committed phase finalize =>
      cases hcommit
      exact ⟨phase, finalize⟩
  | _ => cases hcommit

theorem RunStep.jobs {d : DataPlane Bytes} {now : Timestamp} {db : Database}
    {store : Store Bytes} {run : Run} {op : RunOp Bytes} {e : Effect Bytes}
    (h : RunStep d now db store run op e) : e.db.jobs = db.jobs := by
  cases h with
  | prepared phase prepare =>
      unfold prepareSnapshotUpload at prepare
      split at prepare
      · cases prepare
        rfl
      · cases prepare
  | committed phase finalize =>
      obtain ⟨-, rfl⟩ := finalizeBody_eq_ok_iff.mp finalize
      rfl
  | _ => rfl

theorem gcStep_rows {now : Timestamp} {db : Database} {store : Store Bytes} {worker : GcWorker}
    {op : GcOp} {e : Database × Store Bytes × GcWorker}
    (h : gcStep now db store worker op = some e) :
    e.1.snapshots = db.snapshots ∧ e.1.snapshotObjects = db.snapshotObjects ∧
      e.1.jobs = db.jobs := by
  unfold gcStep at h
  split at h
  case h_10 =>
    cases h
    unfold recordGcOutcome
    split <;> exact ⟨rfl, rfl, rfl⟩
  all_goals repeat' split at h
  all_goals cases h
  all_goals exact ⟨rfl, rfl, rfl⟩

/-! ## Steps of the machine -/

section Steps

variable {d : DataPlane Bytes} {w w' : World Bytes}

theorem step_begin {id : Uuid} {problemId : String} {generation token : Int}
    {version : Option Int} {scan : ScanResult}
    (h : step d w (.begin id problemId generation token version scan) = some w') :
    w.freshId id = true ∧ ensureLatestFencing w.db.jobs problemId token = .ok () ∧
      w' = { w with runs := w.runs ++
        [⟨problemId, generation, token, version, scan, id, w.now, .fenced⟩] } := by
  simp only [step] at h
  split at h
  · rename_i guard
    exact ⟨guard.1, guard.2, (Option.some.inj h).symm⟩
  · cases h

theorem step_run {r : Nat} {op : RunOp Bytes} (h : step d w (.run r op) = some w') :
    ∃ run e, w.runs[r]? = some run ∧ w.runAllowed run op = true ∧
      RunStep d w.now w.db w.store run op e ∧ w' = w.afterRun r run e := by
  simp only [step] at h
  obtain ⟨run, hrun, h⟩ := Option.bind_eq_some_iff.mp h
  split at h
  · rename_i allowed
    obtain ⟨e, he, rfl⟩ := Option.map_eq_some_iff.mp h
    exact ⟨run, e, hrun, allowed, runStep_cases he, rfl⟩
  · cases h

theorem step_gcList {id : Uuid} {token : Int} (h : step d w (.gcList id token) = some w') :
    ∃ m ∈ w.db.gcMarks, w' = { w with
      workers := w.workers ++ [⟨m.id, m.objectKey, token, .listed⟩] } := by
  simp only [step] at h
  obtain ⟨m, hm, rfl⟩ := Option.map_eq_some_iff.mp h
  exact ⟨m, List.mem_of_find?_eq_some hm, rfl⟩

theorem step_gc {g : Nat} {op : GcOp} (h : step d w (.gc g op) = some w') :
    ∃ worker e, w.workers[g]? = some worker ∧ w.gcAllowed worker op = true ∧
      gcStep w.now w.db w.store worker op = some e ∧
      w' = { w with db := e.1, store := e.2.1, workers := w.workers.set g e.2.2 } := by
  simp only [step] at h
  obtain ⟨worker, hworker, h⟩ := Option.bind_eq_some_iff.mp h
  split at h
  · rename_i allowed
    obtain ⟨e, he, rfl⟩ := Option.map_eq_some_iff.mp h
    exact ⟨worker, e, hworker, allowed, he, rfl⟩
  · cases h

end Steps

end ExternalStorage.Snapshot
