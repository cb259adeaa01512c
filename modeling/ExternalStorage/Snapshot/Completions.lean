import ExternalStorage.Jobs.Fencing
import ExternalStorage.Model.Leases
import ExternalStorage.Snapshot.Consistency

/-!
# Completed snapshot jobs

`JobWorker.snapshot` completes its job when it has read the row of its generation in state
`ready`; the watcher completes its job when `run_snapshot_upload` has returned, and would also
do so when `claim_snapshot` tells it that the row belongs to another run.  It is never told:
`load_snapshot` fails on every row, and the error fails the job.
-/

namespace ExternalStorage.Snapshot

open ExternalStorage.Model Library.Runs Library.Table

variable {Bytes : Type}

/-! ## The machine -/

inductive ExecutorPhase where
  /-- `JobWorker.snapshot` reads the row of its generation. -/
  | polling
  /-- The watcher has acquired the job. -/
  | working
  /-- Its run `r` has passed the fencing check of `claim_snapshot`. -/
  | claiming (r : Nat)
  | uploading (r : Nat)
  /-- `claim_snapshot` has returned an error; what is left is `fail_job`. -/
  | failing
  /-- What is left is to complete the job. -/
  | completing
  | closed
  deriving DecidableEq

structure Executor where
  jobId : Uuid
  owner : String
  token : Int
  problemId : String
  generation : Int
  /-- `snapshot_dirty_code` of the data plane, or `JobWorker.snapshot`. -/
  watcher : Bool
  phase : ExecutorPhase
  deriving DecidableEq

def Executor.at (e : Executor) (phase : ExecutorPhase) : Executor := { e with phase := phase }

structure Backups (Bytes : Type) where
  world : World Bytes
  executors : List Executor := []
  /-- The problem and generation of each row that has been READY: history the program does
  not keep. -/
  readied : List (String × Int) := []

inductive BackupAction (Bytes : Type) where
  /-- A step of a run, of a collector or of the maintenance. -/
  | snapshot (a : Action Bytes)
  | acquire (worker : String) (leaseSeconds : Int) (lane : JobLane) (paused : Bool)
      (locked : List Uuid)
  | watch (code owner : String) (leaseSeconds : Int) (id : Uuid) (millis : Int)
  /-- The watcher `i` enters `claim_snapshot`. -/
  | enter (i : Nat) (requestedId : Uuid) (expectedDirtyVersion : Option Int) (scan : ScanResult)
  | claim (i : Nat)
  /-- Its `run_snapshot_upload` returns. -/
  | uploaded (i : Nat)
  /-- The control plane reads the row of its generation. -/
  | poll (i : Nat)
  | complete (i : Nat) (result : Option JobPayload)
  /-- `fail_job`, or `completeJobWithLease` with `failed`. -/
  | release (i : Nat) (errorCode errorMessage : String)
  /-- The other statements of both code bases. -/
  | rest (tables : Database)

/-- The executor that a job of type `snapshot` gets. -/
def workerOf (worker : String) (c : JobRow) (token : Int) : List Executor :=
  match c.jobType, c.problemId, c.targetGeneration with
  | .snapshot, some problemId, some generation =>
      [⟨c.id, worker, token, problemId, generation, false, .polling⟩]
  -- `snapshot job requires problem_id and generation`
  | _, _, _ => []

def watcherOf (owner : String) (d : DirtySnapshotJob) : Executor :=
  ⟨d.jobId, owner, d.fencingToken, d.problemId, d.generation, true, .working⟩

def Executor.completion (e : Executor) (result : Option JobPayload) : LeaseStatement :=
  if e.watcher then .completeJob result else .completeJobWithLease .completed result none none

def Executor.failure (e : Executor) (errorCode errorMessage : String) : LeaseStatement :=
  if e.watcher then .failJob errorCode errorMessage
  else .completeJobWithLease .failed none (some errorCode) (some errorMessage)

def Executor.perform (e : Executor) (now : Timestamp) (s : LeaseStatement) (db : Database) :
    Database :=
  s.run now e.jobId (some e.owner) e.token db

/-- The claim of a watcher's run is a step of the watcher, and the other tables are written
by `rest`. -/
def reserved (executors : List Executor) : Action Bytes → Bool
  | .external _ => true
  | .run r .claim => executors.any fun e => e.phase = .claiming r
  | _ => false

/-- No row and no executor has the id: UUIDs are unique. -/
def Backups.freshJob (b : Backups Bytes) (id : Uuid) : Bool :=
  b.world.db.jobs.all (fun j => j.id ≠ id) && b.executors.all fun e => e.jobId ≠ id

/-- A job keeps its type, its problem and its generation, and no statement but those of its
executor completes a snapshot job. -/
def continues (j k : JobRow) : Bool :=
  k.id = j.id && k.jobType = j.jobType && k.problemId = j.problemId &&
    k.targetGeneration = j.targetGeneration &&
    (k.jobType ≠ .snapshot || k.state ≠ .completed || j.state = .completed)

def Backups.allows (b : Backups Bytes) (jobs : List JobRow) : Bool :=
  (jobs.map JobRow.id).Nodup && jobs.all fun k =>
    b.world.db.jobs.any (fun j => continues j k) || (b.freshJob k.id && k.state ≠ .completed)

def readyGenerations (rows : List SnapshotRow) : List (String × Int) :=
  (rows.filter fun s => s.state = .ready).map fun s => (s.problemId, s.generation)

def Backups.after (b : Backups Bytes) (w : World Bytes) (executors : List Executor) :
    Backups Bytes :=
  ⟨w, executors, b.readied ++ readyGenerations w.db.snapshots⟩

/-- The executor `i` goes on to `phase`. -/
def Backups.advance (b : Backups Bytes) (i : Nat) (e : Executor) (phase : ExecutorPhase)
    (w : World Bytes) : Backups Bytes :=
  b.after w (b.executors.set i (e.at phase))

def Backups.write (b : Backups Bytes) (db : Database) : World Bytes := { b.world with db := db }

def backupStep (d : DataPlane Bytes) (b : Backups Bytes) :
    BackupAction Bytes → Option (Backups Bytes)
  | .snapshot a =>
      if reserved b.executors a then none
      else (step d b.world a).map fun w => b.after w b.executors
  | .acquire worker leaseSeconds lane paused locked =>
      (acquireJob b.world.now worker leaseSeconds lane paused locked b.world.db).map
        fun (db, c, token) => b.after (b.write db) (b.executors ++ workerOf worker c token)
  | .watch code owner leaseSeconds id millis =>
      if b.freshJob id then
        match acquireDirtySnapshotJobByCode b.world.now code owner leaseSeconds id millis
            b.world.db with
        | .error _ => none
        | .ok (db, _, job) =>
            some (b.after (b.write db) (b.executors ++ (job.map (watcherOf owner)).toList))
      else
        none
  | .enter i requestedId version scan => do
      let e ← b.executors[i]?
      if e.phase = .working then
        (step d b.world
          (.begin requestedId e.problemId e.generation e.token version scan)).map
            (b.advance i e (.claiming b.world.runs.length))
      else
        none
  | .claim i => do
      let e ← b.executors[i]?
      match e.phase with
      | .claiming r =>
          (step d b.world (.run r .claim)).map fun w =>
            match w.runs[r]?.map Run.phase with
            | some .claimed => b.advance i e (.uploading r) w
            -- `run_upload` is false.
            | some (.unowned _) => b.advance i e .completing w
            | _ => b.advance i e .failing w
      | _ => none
  | .uploaded i => do
      let e ← b.executors[i]?
      match e.phase with
      | .uploading r =>
          match b.world.runs[r]?.map Run.phase with
          | some (.committed _) => some (b.advance i e .completing b.world)
          | _ => none
      | _ => none
  | .poll i => do
      let e ← b.executors[i]?
      match e.phase, b.world.db.snapshots.find? (SnapshotRow.isFor e.problemId e.generation) with
      | .polling, some s =>
          if s.state = .ready then some (b.advance i e .completing b.world) else none
      | _, _ => none
  | .complete i result => do
      let e ← b.executors[i]?
      if e.phase = .completing then
        some (b.advance i e .closed
          (b.write (e.perform b.world.now (e.completion result) b.world.db)))
      else
        none
  | .release i errorCode errorMessage => do
      let e ← b.executors[i]?
      some (b.advance i e .closed
        (b.write (e.perform b.world.now (e.failure errorCode errorMessage) b.world.db)))
  | .rest tables =>
      if b.allows tables.jobs then
        some (b.after (b.write { tables with
          snapshots := b.world.db.snapshots, snapshotObjects := b.world.db.snapshotObjects
          gcMarks := b.world.db.gcMarks }) b.executors)
      else
        none

/-! ## Statements -/

/-- A snapshot job that the step completes is for a generation that has been READY. -/
def CompletionsBackedUp (b : Backups Bytes) (_ : BackupAction Bytes) (b' : Backups Bytes) : Prop :=
  ∀ k ∈ b'.world.db.jobs, k.jobType = .snapshot → k.state = .completed →
    (∀ j ∈ b.world.db.jobs, j.id = k.id → j.state ≠ .completed) →
    ∀ generation ∈ k.targetGeneration, ∃ problemId ∈ k.problemId,
      (problemId, generation) ∈ b'.readied

instance (b : Backups Bytes) (a : BackupAction Bytes) (b' : Backups Bytes) :
    Decidable (CompletionsBackedUp b a b') :=
  inferInstanceAs (Decidable (∀ k ∈ b'.world.db.jobs, _ → _ →
    (∀ j ∈ b.world.db.jobs, _ → _) →
      ∀ generation ∈ k.targetGeneration, ∃ problemId ∈ k.problemId, _))

def SnapshotState.settled : SnapshotState → Bool
  | .ready | .superseded => true
  | _ => false

/-- Nobody works on a snapshot yet. -/
structure Backups.Initial (b : Backups Bytes) : Prop where
  ids : (b.world.db.jobs.map JobRow.id).Nodup
  runs : b.world.runs = []
  executors : b.executors = []
  recorded : ∀ s ∈ b.world.db.snapshots, SnapshotState.settled s.state = true →
    (s.problemId, s.generation) ∈ b.readied

/-! ## What a step does to the rows -/

def Descends (rows rows' : List SnapshotRow) : Prop :=
  ∀ s ∈ rows', s.state = .superseded → ∃ s₀ ∈ rows, SnapshotState.settled s₀.state = true ∧
    s₀.problemId = s.problemId ∧ s₀.generation = s.generation

theorem descends_of_subset {rows rows' : List SnapshotRow} (h : ∀ s ∈ rows', s ∈ rows) :
    Descends rows rows' := by
  intro s hs hstate
  exact ⟨s, h s hs, by rw [hstate]; rfl, rfl, rfl⟩

theorem descends_refl (rows : List SnapshotRow) : Descends rows rows :=
  descends_of_subset fun _ hs => hs

theorem descends_update {p : SnapshotRow → Bool} {f : SnapshotRow → SnapshotRow}
    {rows : List SnapshotRow} (hf : ∀ s, (f s).state ≠ .superseded) :
    Descends rows (updateWhere p f rows) := by
  intro s' hs' hstate
  obtain ⟨s, hs, rfl⟩ := mem_updateWhere.mp hs'
  split at hstate
  · exact absurd hstate (hf s)
  · rename_i hp
    rw [if_neg hp]
    exact ⟨s, hs, by rw [hstate]; rfl, rfl, rfl⟩

theorem descends_finalized (now : Timestamp) (a : FinalizeArgs) (db : Database) :
    Descends db.snapshots (finalized now a db).snapshots := by
  intro s hs hstate
  rw [finalized_snapshots] at hs
  obtain ⟨t, ht, rfl⟩ := mem_updateWhere.mp hs
  split at hstate
  · cases hstate
  · rename_i hfinal
    rw [if_neg hfinal]
    obtain ⟨u, hu, rfl⟩ := mem_updateWhere.mp ht
    split
    · rename_i hstale
      simp only [Bool.and_eq_true, decide_eq_true_eq] at hstale
      exact ⟨u, hu, by rw [hstale.1.2]; rfl, rfl, rfl⟩
    · rename_i hstale
      rw [if_neg hstale] at hstate
      exact ⟨u, hu, by rw [hstate]; rfl, rfl, rfl⟩

section Steps

variable {d : DataPlane Bytes} {now : Timestamp} {db : Database} {store : Store Bytes} {run : Run}
  {op : RunOp Bytes} {e : Effect Bytes}

theorem RunStep.descends (h : RunStep d now db store run op e) :
    Descends db.snapshots e.db.snapshots := by
  cases h with
  | claimed phase claim =>
      rcases claimSnapshot_cases claim with ⟨-, -, rfl⟩ | ⟨s, -, -, -, -, rfl⟩
      · intro s hs hstate
        rcases List.mem_append.mp hs with hold | hnew
        · exact descends_refl _ s hold hstate
        · rw [List.mem_singleton.mp hnew] at hstate
          cases hstate
      · exact descends_update (by intro s h; cases h)
  | hashing phase => exact descends_update (by intro s h; cases h)
  | prepared phase prepare =>
      unfold prepareSnapshotUpload at prepare
      split at prepare
      · cases prepare
        exact descends_update (by intro s h; cases h)
      · cases prepare
  | verifying phase => exact descends_update (by intro s h; cases h)
  | committed phase finalize =>
      obtain ⟨-, rfl⟩ := finalizeBody_eq_ok_iff.mp finalize
      exact descends_finalized _ _ _
  | marked phase => exact descends_update (by intro s h; cases h)
  | _ => exact descends_refl _

theorem RunStep.readied {m : Manifest} (h : RunStep d now db store run op e)
    (hcommit : e.run.phase = .committed m) :
    (e.run.problemId, e.run.generation) ∈ readyGenerations e.db.snapshots := by
  obtain ⟨-, hfinalize⟩ := h.commits hcommit
  obtain ⟨hadm, hdb⟩ := finalizeBody_eq_ok_iff.mp hfinalize
  obtain ⟨s, hs, -, hproblem, hgeneration, hready⟩ := hadm.exists_published
  rw [h.kept.1, h.kept.2.1]
  refine List.mem_map.mpr ⟨s, List.mem_filter.mpr ⟨?_, decide_eq_true hready⟩, ?_⟩
  · rw [hdb]
    exact hs
  · rw [hproblem, hgeneration]
    rfl

end Steps

/-! ## What a step leaves of the machine -/

structure SameJob (j k : JobRow) : Prop where
  id : k.id = j.id
  jobType : k.jobType = j.jobType
  problemId : k.problemId = j.problemId
  generation : k.targetGeneration = j.targetGeneration

/-- No snapshot job is completed. -/
def Quiet (jobs jobs' : List JobRow) : Prop :=
  ∀ k ∈ jobs', k.jobType = .snapshot → k.state = .completed →
    ∃ j ∈ jobs, j.id = k.id ∧ j.state = .completed

structure WorldMove (b : Backups Bytes) (w : World Bytes) : Prop where
  ids : (w.db.jobs.map JobRow.id).Nodup
  rows : Descends b.world.db.snapshots w.db.snapshots
  jobs : ∀ k ∈ w.db.jobs, (∃ j ∈ b.world.db.jobs, SameJob j k) ∨ ∀ e ∈ b.executors, e.jobId ≠ k.id
  runs : ∀ (r : Nat) (run : Run), b.world.runs[r]? = some run →
    ∃ run' : Run, w.runs[r]? = some run' ∧ run'.problemId = run.problemId ∧
      run'.generation = run.generation
  committed : ∀ run ∈ w.runs, ∀ m, run.phase = .committed m →
    run ∈ b.world.runs ∨ (run.problemId, run.generation) ∈ readyGenerations w.db.snapshots

section Moves

variable {d : DataPlane Bytes} {b : Backups Bytes} {w : World Bytes}

theorem worldMove_write {db : Database} (hrows : db.snapshots = b.world.db.snapshots)
    (hids : (db.jobs.map JobRow.id).Nodup)
    (hjobs : ∀ k ∈ db.jobs,
      (∃ j ∈ b.world.db.jobs, SameJob j k) ∨ ∀ e ∈ b.executors, e.jobId ≠ k.id) :
    WorldMove b (b.write db) :=
  ⟨hids, by rw [show (b.write db).db.snapshots = _ from hrows]; exact descends_refl _, hjobs,
    fun _ run hr => ⟨run, hr, rfl, rfl⟩, fun _ hrun _ _ => .inl hrun⟩

theorem worldMove_of_sublist (hids : (b.world.db.jobs.map JobRow.id).Nodup)
    (hjobs : w.db.jobs.Sublist b.world.db.jobs)
    (hrows : Descends b.world.db.snapshots w.db.snapshots)
    (hruns : ∀ (r : Nat) (run : Run), b.world.runs[r]? = some run →
      ∃ run' : Run, w.runs[r]? = some run' ∧ run'.problemId = run.problemId ∧
        run'.generation = run.generation)
    (hcommitted : ∀ run ∈ w.runs, ∀ m, run.phase = .committed m →
      run ∈ b.world.runs ∨ (run.problemId, run.generation) ∈ readyGenerations w.db.snapshots) :
    WorldMove b w ∧ Quiet b.world.db.jobs w.db.jobs := by
  refine ⟨⟨hids.sublist (hjobs.map JobRow.id), hrows, ?_, hruns, hcommitted⟩, ?_⟩
  · intro k hk
    exact .inl ⟨k, hjobs.subset hk, rfl, rfl, rfl, rfl⟩
  · intro k hk _ hstate
    exact ⟨k, hjobs.subset hk, rfl, hstate⟩

theorem worldMove_run (hids : (b.world.db.jobs.map JobRow.id).Nodup) {r : Nat} {run : Run}
    {op : RunOp Bytes} {e : Effect Bytes} (hr : b.world.runs[r]? = some run)
    (h : RunStep d b.world.now b.world.db b.world.store run op e) :
    WorldMove b (b.world.afterRun r run e) ∧
      Quiet b.world.db.jobs (b.world.afterRun r run e).db.jobs := by
  apply worldMove_of_sublist hids
  · exact h.jobs ▸ List.Sublist.refl _
  · exact h.descends
  · intro r' run' hr'
    by_cases hrr : r = r'
    · subst hrr
      obtain rfl : run = run' := Option.some.inj (hr.symm.trans hr')
      refine ⟨e.run, ?_, h.kept.1, h.kept.2.1⟩
      show (b.world.runs.set r e.run)[r]? = _
      rw [List.getElem?_set_self', hr]
      rfl
    · refine ⟨run', ?_, rfl, rfl⟩
      show (b.world.runs.set r e.run)[r']? = _
      rw [List.getElem?_set_ne hrr, hr']
  · intro run' hrun' m hcommit
    rcases List.mem_or_eq_of_mem_set hrun' with hold | rfl
    · exact .inl hold
    · exact .inr (h.readied hcommit)

theorem worldMove_step (hids : (b.world.db.jobs.map JobRow.id).Nodup) {a : Action Bytes}
    (h : step d b.world a = some w) (hown : ∀ tables, a ≠ .external tables) :
    WorldMove b w ∧ Quiet b.world.db.jobs w.db.jobs := by
  have hkept : ∀ (r : Nat) (run : Run), b.world.runs[r]? = some run →
      ∃ run' : Run, b.world.runs[r]? = some run' ∧ run'.problemId = run.problemId ∧
        run'.generation = run.generation :=
    fun _ run hr => ⟨run, hr, rfl, rfl⟩
  cases a with
  | begin id problemId generation token version scan =>
      obtain ⟨-, -, rfl⟩ := step_begin h
      refine worldMove_of_sublist hids (List.Sublist.refl _) (descends_refl _) ?_ ?_
      · intro r run hr
        refine ⟨run, ?_, rfl, rfl⟩
        rw [List.getElem?_append_left (List.getElem?_eq_some_iff.mp hr).1]
        exact hr
      · intro run hrun m hcommit
        rcases List.mem_append.mp hrun with hold | hnew
        · exact .inl hold
        · rw [List.mem_singleton.mp hnew] at hcommit
          cases hcommit
  | run r op =>
      obtain ⟨run, e, hr, -, hstep, rfl⟩ := step_run h
      exact worldMove_run hids hr hstep
  | gcList id token =>
      obtain ⟨m, -, rfl⟩ := step_gcList h
      exact worldMove_of_sublist hids (List.Sublist.refl _) (descends_refl _) hkept
        fun _ hrun _ _ => .inl hrun
  | gc g op =>
      obtain ⟨worker, e, -, -, hgc, rfl⟩ := step_gc h
      obtain ⟨hrows, -, hjobs⟩ := gcStep_rows hgc
      apply worldMove_of_sublist hids
      · exact hjobs ▸ List.Sublist.refl _
      · show Descends _ e.1.snapshots
        rw [hrows]
        exact descends_refl _
      · exact hkept
      · exact fun _ hrun _ _ => .inl hrun
  | retention ids =>
      cases h
      apply worldMove_of_sublist hids
      · exact List.filter_sublist
      · apply descends_of_subset
        intro s hs
        exact (mem_deleteWhere.mp hs).1
      · exact hkept
      · exact fun _ hrun _ _ => .inl hrun
  | failStalled =>
      cases h
      refine worldMove_of_sublist hids (List.Sublist.refl _) ?_ hkept fun _ hrun _ _ => .inl hrun
      exact descends_update (by intro s h; cases h)
  | tick elapsed =>
      cases h
      exact worldMove_of_sublist hids (List.Sublist.refl _) (descends_refl _) hkept
        fun _ hrun _ _ => .inl hrun
  | external tables => exact absurd rfl (hown tables)

end Moves

/-! ## What the statements do to the jobs -/

section Jobs

variable {jobs : List JobRow} {p : JobRow → Bool} {f : JobRow → JobRow}

theorem sameJob_update (hf : ∀ j, SameJob j (f j)) :
    ∀ k ∈ updateWhere p f jobs, ∃ j ∈ jobs, SameJob j k := by
  intro k hk
  obtain ⟨j, hj, rfl⟩ := mem_updateWhere.mp hk
  refine ⟨j, hj, ?_⟩
  split
  · exact hf j
  · exact ⟨rfl, rfl, rfl, rfl⟩

theorem quiet_update (hf : ∀ j ∈ jobs, p j = true → (f j).state ≠ .completed) :
    Quiet jobs (updateWhere p f jobs) := by
  intro k hk _ hstate
  obtain ⟨j, hj, rfl⟩ := mem_updateWhere.mp hk
  by_cases hp : p j = true
  · rw [if_pos hp] at hstate
    exact absurd hstate (hf j hj hp)
  · rw [if_neg hp] at hstate ⊢
    exact ⟨j, hj, rfl, hstate⟩

theorem sameJob_set (now : Timestamp) (s : LeaseStatement) (j : JobRow) :
    SameJob j (s.set now j) := by
  cases s <;> exact ⟨rfl, rfl, rfl, rfl⟩

theorem acquireJob_snapshots {now : Timestamp} {worker : String} {leaseSeconds : Int}
    {lane : JobLane} {paused : Bool} {locked : List Uuid} {db db' : Database} {c : JobRow}
    {token : Int}
    (h : acquireJob now worker leaseSeconds lane paused locked db = some (db', c, token)) :
    db'.snapshots = db.snapshots := by
  unfold acquireJob at h
  obtain ⟨c', -, h⟩ := Option.bind_eq_some_iff.mp h
  dsimp only at h
  split at h
  · cases h
    rfl
  · cases h

def Executor.Names (e : Executor) (j : JobRow) : Prop :=
  j.jobType = .snapshot ∧ j.problemId = some e.problemId ∧
    ∀ generation ∈ j.targetGeneration, generation = e.generation

theorem Executor.Names.same {e : Executor} {j k : JobRow} (h : e.Names j) (hsame : SameJob j k) :
    e.Names k := by
  obtain ⟨htype, hproblem, hgeneration⟩ := h
  refine ⟨hsame.jobType.trans htype, hsame.problemId.trans hproblem, ?_⟩
  rw [hsame.generation]
  exact hgeneration

structure WatcherMove (owner : String) (id : Uuid) (db db' : Database)
    (job : Option DirtySnapshotJob) : Prop where
  snapshots : db'.snapshots = db.snapshots
  ids : (db'.jobs.map JobRow.id).Nodup
  jobs : ∀ k ∈ db'.jobs, (∃ j ∈ db.jobs, SameJob j k) ∨ k.id = id
  quiet : Quiet db.jobs db'.jobs
  names : ∀ d ∈ job, ∀ k ∈ db'.jobs, k.id = d.jobId → (watcherOf owner d).Names k

theorem watcherMove_of_ok {now : Timestamp} {code owner : String} {leaseSeconds : Int} {id : Uuid}
    {millis : Int} {db db' : Database} {tokens : Option WatcherTokens}
    {job : Option DirtySnapshotJob} (hids : (db.jobs.map JobRow.id).Nodup)
    (hfresh : ∀ j ∈ db.jobs, j.id ≠ id)
    (h : acquireDirtySnapshotJobByCode now code owner leaseSeconds id millis db =
      .ok (db', tokens, job)) : WatcherMove owner id db db' job := by
  unfold acquireDirtySnapshotJobByCode at h
  split at h
  · cases h
    refine ⟨rfl, hids, fun k hk => .inl ⟨k, hk, rfl, rfl, rfl, rfl⟩,
      fun k hk _ hstate => ⟨k, hk, rfl, hstate⟩, fun d hd => by cases hd⟩
  · rename_i target marked htarget
    obtain ⟨hmarked, hsnapshots⟩ : marked.jobs = db.jobs ∧ marked.snapshots = db.snapshots := by
      obtain ⟨p, -, htarget⟩ := Option.bind_eq_some_iff.mp htarget
      cases htarget
      exact ⟨rfl, rfl⟩
    dsimp only [claimPendingSnapshot] at h
    rw [hmarked] at h
    -- the rows of the claim, whether or not a job waits
    generalize hclaimed : updateWhere (pendingSnapshotOf target.externalId)
      (JobRow.watched owner (now + seconds leaseSeconds)
        (nextToken (bumpCounter target.externalId 2 (· + 1) marked.jobFencingCounters)
          target.externalId - 1)) db.jobs = claimed at h
    have hnodup : (claimed.map JobRow.id).Nodup := by
      rw [← hclaimed]
      exact Jobs.ids_update hids fun j => by rfl
    have hsame : ∀ k ∈ claimed, ∃ j ∈ db.jobs, SameJob j k := by
      rw [← hclaimed]
      exact sameJob_update fun j => ⟨rfl, rfl, rfl, rfl⟩
    have hquiet : Quiet db.jobs claimed := by
      rw [← hclaimed]
      exact quiet_update fun j _ _ h => by cases h
    split at h
    · cases h
    · split at h
      · rename_i j hfound
        cases h
        refine ⟨hsnapshots, hnodup, fun k hk => .inl (hsame k hk), hquiet, ?_⟩
        intro d hd k hk hid
        obtain rfl := Option.mem_some_iff.mp hd
        obtain ⟨j', hj', hk⟩ := hsame k hk
        obtain rfl := Jobs.row_eq_of_id hids hj' (List.mem_of_find?_eq_some hfound)
          (hk.id.symm.trans hid)
        have hpending := List.find?_some hfound
        simp only [pendingSnapshotOf, Bool.and_eq_true, decide_eq_true_eq] at hpending
        refine Executor.Names.same ⟨hpending.1.2, hpending.1.1, ?_⟩ hk
        intro generation hgeneration
        show generation = j'.targetGeneration.getD _
        rw [hgeneration]
        rfl
      · split at h
        · cases h
          exact ⟨hsnapshots, hnodup, fun k hk => .inl (hsame k hk), hquiet,
            fun d hd => by cases hd⟩
        · split at h
          · cases h
            have hnew : ∀ k ∈ claimed, k.id ≠ id := by
              intro k hk
              obtain ⟨j, hj, hsame⟩ := hsame k hk
              rw [hsame.id]
              exact hfresh j hj
            refine ⟨hsnapshots, nodup_map_concat hnodup hnew, ?_, ?_, ?_⟩
            · intro k hk
              rcases List.mem_append.mp hk with hold | hrow
              · exact .inl (hsame k hold)
              · rw [List.mem_singleton.mp hrow]
                exact .inr rfl
            · intro k hk htype hstate
              rcases List.mem_append.mp hk with hold | hrow
              · exact hquiet k hold htype hstate
              · rw [List.mem_singleton.mp hrow] at hstate
                cases hstate
            · intro d hd k hk hid
              obtain rfl := Option.mem_some_iff.mp hd
              rcases List.mem_append.mp hk with hold | hrow
              · exact absurd hid (hnew k hold)
              · rw [List.mem_singleton.mp hrow]
                refine ⟨rfl, rfl, ?_⟩
                rintro generation ⟨⟩
                rfl
          · cases h

end Jobs

/-! ## The invariant -/

def Executor.Owns (runs : List Run) (e : Executor) : Prop :=
  ∀ r, e.phase = .claiming r ∨ e.phase = .uploading r → ∃ run, runs[r]? = some run ∧
    run.problemId = e.problemId ∧ run.generation = e.generation

structure BackupInv (b : Backups Bytes) : Prop where
  ids : (b.world.db.jobs.map JobRow.id).Nodup
  recorded : ∀ s ∈ b.world.db.snapshots, SnapshotState.settled s.state = true →
    (s.problemId, s.generation) ∈ b.readied
  committed : ∀ run ∈ b.world.runs, ∀ m, run.phase = .committed m →
    (run.problemId, run.generation) ∈ b.readied
  jobs : ∀ e ∈ b.executors, ∀ j ∈ b.world.db.jobs, j.id = e.jobId → e.Names j
  runs : ∀ e ∈ b.executors, e.Owns b.world.runs
  done : ∀ e ∈ b.executors, e.phase = .completing → (e.problemId, e.generation) ∈ b.readied

section Invariant

variable {d : DataPlane Bytes} {b b' : Backups Bytes} {w : World Bytes} {e : Executor} {i : Nat}

theorem BackupInv.move (h : BackupInv b) (hmove : WorldMove b w) :
    BackupInv (b.after w b.executors) := by
  have hgrow : ∀ x ∈ b.readied, x ∈ (b.after w b.executors).readied :=
    fun _ hx => List.mem_append_left _ hx
  constructor
  · exact hmove.ids
  · intro s hs hsettled
    cases hstate : s.state with
    | ready =>
        apply List.mem_append_right
        exact List.mem_map.mpr ⟨s, List.mem_filter.mpr ⟨hs, decide_eq_true hstate⟩, rfl⟩
    | superseded =>
        obtain ⟨s₀, hs₀, hsettled₀, hproblem, hgeneration⟩ := hmove.rows s hs hstate
        rw [← hproblem, ← hgeneration]
        exact hgrow _ (h.recorded s₀ hs₀ hsettled₀)
    | discovered | hashing | uploading | verifying | error =>
        rw [hstate] at hsettled
        cases hsettled
  · intro run hrun m hcommit
    rcases hmove.committed run hrun m hcommit with hold | hnew
    · exact hgrow _ (h.committed run hold m hcommit)
    · exact List.mem_append_right _ hnew
  · intro e he k hk hid
    rcases hmove.jobs k hk with ⟨j, hj, hsame⟩ | hfresh
    · exact (h.jobs e he j hj (hsame.id.symm.trans hid)).same hsame
    · exact absurd hid.symm (hfresh e he)
  · intro e he r hr
    obtain ⟨run, hrun, hproblem, hgeneration⟩ := h.runs e he r hr
    obtain ⟨run', hrun', hproblem', hgeneration'⟩ := hmove.runs r run hrun
    exact ⟨run', hrun', hproblem'.trans hproblem, hgeneration'.trans hgeneration⟩
  · intro e he hdone
    exact hgrow _ (h.done e he hdone)

theorem BackupInv.advance {phase : ExecutorPhase} (h : BackupInv b)
    (he : b.executors[i]? = some e) (hruns : (e.at phase).Owns b.world.runs)
    (hdone : phase = .completing → (e.problemId, e.generation) ∈ b.readied) :
    BackupInv { b with executors := b.executors.set i (e.at phase) } := by
  have hmem := List.mem_of_getElem? he
  refine ⟨h.ids, h.recorded, h.committed, ?_, ?_, ?_⟩
  · intro e' he' j hj hid
    rcases List.mem_or_eq_of_mem_set he' with hold | rfl
    · exact h.jobs e' hold j hj hid
    · exact h.jobs e hmem j hj hid
  · intro e' he'
    rcases List.mem_or_eq_of_mem_set he' with hold | rfl
    · exact h.runs e' hold
    · exact hruns
  · intro e' he' hphase
    rcases List.mem_or_eq_of_mem_set he' with hold | rfl
    · exact h.done e' hold hphase
    · exact hdone hphase

theorem BackupInv.hire (h : BackupInv b)
    (hnames : ∀ j ∈ b.world.db.jobs, j.id = e.jobId → e.Names j)
    (hphase : e.phase = .polling ∨ e.phase = .working) :
    BackupInv { b with executors := b.executors ++ [e] } := by
  refine ⟨h.ids, h.recorded, h.committed, ?_, ?_, ?_⟩
  · intro e' he' j hj hid
    rcases List.mem_append.mp he' with hold | hnew
    · exact h.jobs e' hold j hj hid
    · obtain rfl := List.mem_singleton.mp hnew
      exact hnames j hj hid
  · intro e' he'
    rcases List.mem_append.mp he' with hold | hnew
    · exact h.runs e' hold
    · obtain rfl := List.mem_singleton.mp hnew
      intro r hr
      rcases hphase with hphase | hphase <;> rcases hr with hr | hr
      all_goals cases hphase.symm.trans hr
  · intro e' he' hdone
    rcases List.mem_append.mp he' with hold | hnew
    · exact h.done e' hold hdone
    · obtain rfl := List.mem_singleton.mp hnew
      rcases hphase with hphase | hphase
      all_goals cases hphase.symm.trans hdone

theorem owns_of_idle {runs : List Run} {phase : ExecutorPhase}
    (hclaiming : ∀ r, phase ≠ .claiming r) (huploading : ∀ r, phase ≠ .uploading r) :
    (e.at phase).Owns runs := by
  rintro r (hr | hr)
  · exact absurd hr (hclaiming r)
  · exact absurd hr (huploading r)

theorem completions_of_quiet {a : BackupAction Bytes}
    (h : Quiet b.world.db.jobs b'.world.db.jobs) : CompletionsBackedUp b a b' := by
  intro k hk htype hstate hbefore
  obtain ⟨j, hj, hid, hcompleted⟩ := h k hk htype hstate
  exact absurd hcompleted (hbefore j hj hid)

/-! ## The steps -/

theorem RunStep.not_unowned {now : Timestamp} {db : Database} {store : Store Bytes} {run : Run}
    {op : RunOp Bytes} {e : Effect Bytes} (h : RunStep d now db store run op e)
    (existing : SnapshotRow) : e.run.phase ≠ .unowned existing := by
  cases h <;> nofun

theorem step_claim {w' : World Bytes} {r : Nat} (h : step d w (.run r .claim) = some w')
    (existing : SnapshotRow) : w'.runs[r]?.map Run.phase ≠ some (.unowned existing) := by
  obtain ⟨run, e, hrun, -, hstep, rfl⟩ := step_run h
  change ((w.runs.set r e.run)[r]?).map Run.phase ≠ _
  rw [List.getElem?_set_self', hrun]
  exact fun heq => hstep.not_unowned existing (Option.some.inj heq)

theorem backup_acquire {worker : String} {leaseSeconds : Int} {lane : JobLane} {paused : Bool}
    {locked : List Uuid} {db : Database} {c : JobRow} {token : Int} (h : BackupInv b)
    (hacquire : acquireJob b.world.now worker leaseSeconds lane paused locked b.world.db =
      some (db, c, token)) :
    BackupInv (b.after (b.write db) (b.executors ++ workerOf worker c token)) ∧
      Quiet b.world.db.jobs db.jobs := by
  obtain ⟨hcandidate, hjobs, -⟩ := acquireJob_rows hacquire
  have hc := (acquireCandidate_mem hcandidate).1
  have hsame : ∀ k ∈ db.jobs, ∃ j ∈ b.world.db.jobs, SameJob j k := by
    rw [hjobs]
    exact sameJob_update fun j => ⟨rfl, rfl, rfl, rfl⟩
  have hids : (db.jobs.map JobRow.id).Nodup := by
    rw [hjobs]
    exact Jobs.ids_update h.ids fun j => by rfl
  have hquiet : Quiet b.world.db.jobs db.jobs := by
    rw [hjobs]
    exact quiet_update fun j _ _ h => by cases h
  have hmoved := h.move (worldMove_write (acquireJob_snapshots hacquire) hids
    fun k hk => .inl (hsame k hk))
  refine ⟨?_, hquiet⟩
  unfold workerOf
  split
  · rename_i problemId generation htype hproblem hgeneration
    refine hmoved.hire (e := ⟨c.id, worker, token, problemId, generation, false, .polling⟩) ?_
      (.inl rfl)
    intro k hk hid
    obtain ⟨j, hj, hkj⟩ := hsame k hk
    obtain rfl := Jobs.row_eq_of_id h.ids hj hc (hkj.id.symm.trans hid)
    refine Executor.Names.same ⟨htype, hproblem, ?_⟩ hkj
    rw [hgeneration]
    rintro g ⟨⟩
    rfl
  · rw [List.append_nil]
    exact hmoved

theorem backup_watch {code owner : String} {leaseSeconds : Int} {id : Uuid} {millis : Int}
    {db : Database} {tokens : Option WatcherTokens} {job : Option DirtySnapshotJob}
    (h : BackupInv b) (hfresh : b.freshJob id = true)
    (hwatch : acquireDirtySnapshotJobByCode b.world.now code owner leaseSeconds id millis
      b.world.db = .ok (db, tokens, job)) :
    BackupInv (b.after (b.write db) (b.executors ++ (job.map (watcherOf owner)).toList)) ∧
      Quiet b.world.db.jobs db.jobs := by
  simp only [Backups.freshJob, Bool.and_eq_true, List.all_eq_true, decide_eq_true_eq] at hfresh
  have hmove := watcherMove_of_ok h.ids hfresh.1 hwatch
  refine ⟨?_, hmove.quiet⟩
  have hmoved : BackupInv (b.after (b.write db) b.executors) := by
    refine h.move (worldMove_write hmove.snapshots hmove.ids fun k hk => ?_)
    rcases hmove.jobs k hk with hold | hnew
    · exact .inl hold
    · rw [hnew]
      exact .inr hfresh.2
  cases job with
  | none =>
      rw [Option.map_none, Option.toList_none, List.append_nil]
      exact hmoved
  | some job => exact hmoved.hire (hmove.names job rfl) (.inr rfl)

theorem backup_perform {s : LeaseStatement} (h : BackupInv b) :
    WorldMove b (b.write (e.perform b.world.now s b.world.db)) := by
  refine worldMove_write rfl ?_ ?_
  · exact Jobs.ids_update h.ids fun j => (sameJob_set _ s j).id
  · intro k hk
    exact .inl (sameJob_update (sameJob_set b.world.now s) k hk)

theorem backup_complete {result : Option JobPayload} (h : BackupInv b)
    (he : b.executors[i]? = some e) (hphase : e.phase = .completing) :
    ∀ k ∈ (e.perform b.world.now (e.completion result) b.world.db).jobs, k.jobType = .snapshot →
      k.state = .completed → (∀ j ∈ b.world.db.jobs, j.id = k.id → j.state ≠ .completed) →
      ∀ generation ∈ k.targetGeneration, ∃ problemId ∈ k.problemId,
        (problemId, generation) ∈ b.readied := by
  intro k hk _ hstate hbefore generation hgeneration
  have hmem := List.mem_of_getElem? he
  obtain ⟨j, hj, rfl⟩ := mem_updateWhere.mp hk
  by_cases hguard : (e.completion result).guard b.world.now e.jobId (some e.owner) e.token j = true
  · rw [if_pos hguard] at hgeneration ⊢
    have hid := (JobRow.heldAs_iff.mp (LeaseStatement.heldAs_of_guard hguard)).1
    obtain ⟨-, hproblem, hnamed⟩ :=
      (h.jobs e hmem j hj hid).same (sameJob_set b.world.now (e.completion result) j)
    rw [hnamed generation hgeneration]
    exact ⟨e.problemId, hproblem, h.done e hmem hphase⟩
  · rw [if_neg hguard] at hstate hbefore
    exact absurd hstate (hbefore j hj rfl)

theorem backup_claim {r : Nat} (h : BackupInv b) (he : b.executors[i]? = some e)
    (hphase : e.phase = .claiming r) (hmove : WorldMove b w)
    (hclaim : step d b.world (.run r .claim) = some w) :
    BackupInv (match w.runs[r]?.map Run.phase with
      | some .claimed => b.advance i e (.uploading r) w
      | some (.unowned _) => b.advance i e .completing w
      | _ => b.advance i e .failing w) := by
  have hmoved := h.move hmove
  have howns : (e.at (.uploading r)).Owns w.runs := by
    obtain ⟨run, hrun, hproblem, hgeneration⟩ := h.runs e (List.mem_of_getElem? he) r (.inl hphase)
    rintro r' (hr | hr)
    · cases hr
    · cases hr
      obtain ⟨run', hrun', hproblem', hgeneration'⟩ := hmove.runs r run hrun
      exact ⟨run', hrun', hproblem'.trans hproblem, hgeneration'.trans hgeneration⟩
  split
  · exact hmoved.advance he howns (by intro h; cases h)
  · rename_i existing hunowned
    exact absurd hunowned (step_claim hclaim existing)
  · exact hmoved.advance he (owns_of_idle (by intro _ h; cases h) (by intro _ h; cases h))
      (by intro h; cases h)

theorem backup_enter {id : Uuid} {version : Option Int} {scan : ScanResult} (h : BackupInv b)
    (he : b.executors[i]? = some e)
    (hbegin : step d b.world (.begin id e.problemId e.generation e.token version scan) = some w) :
    BackupInv (b.advance i e (.claiming b.world.runs.length) w) ∧
      Quiet b.world.db.jobs w.db.jobs := by
  obtain ⟨hmove, hquiet⟩ := worldMove_step h.ids hbegin (by intro _ h; cases h)
  refine ⟨(h.move hmove).advance he ?_ (by intro h; cases h), hquiet⟩
  obtain ⟨-, -, rfl⟩ := step_begin hbegin
  rintro r (hr | hr)
  · cases hr
    exact ⟨_, List.getElem?_concat_length, rfl, rfl⟩
  · cases hr

theorem backup_rest {tables : Database} (h : BackupInv b)
    (hallows : b.allows tables.jobs = true) (hrows : tables.snapshots = b.world.db.snapshots) :
    BackupInv (b.after (b.write tables) b.executors) ∧
      Quiet b.world.db.jobs tables.jobs := by
  simp only [Backups.allows, Bool.and_eq_true, Bool.or_eq_true, decide_eq_true_eq,
    List.all_eq_true, List.any_eq_true] at hallows
  obtain ⟨hnodup, hkept⟩ := hallows
  have hmove : WorldMove b (b.write tables) := by
    refine worldMove_write hrows hnodup ?_
    intro k hk
    rcases hkept k hk with ⟨j, hj, hcontinues⟩ | ⟨hfresh, -⟩
    · simp only [continues, Bool.and_eq_true, decide_eq_true_eq] at hcontinues
      obtain ⟨⟨⟨⟨hid, htype⟩, hproblem⟩, hgeneration⟩, -⟩ := hcontinues
      exact .inl ⟨j, hj, hid, htype, hproblem, hgeneration⟩
    · simp only [Backups.freshJob, Bool.and_eq_true, List.all_eq_true, decide_eq_true_eq] at hfresh
      exact .inr hfresh.2
  refine ⟨h.move hmove, ?_⟩
  intro k hk htype hstate
  rcases hkept k hk with ⟨j, hj, hcontinues⟩ | ⟨-, hopen⟩
  · simp only [continues, Bool.and_eq_true, Bool.or_eq_true, decide_eq_true_eq] at hcontinues
    refine ⟨j, hj, hcontinues.1.1.1.1.symm, ?_⟩
    rcases hcontinues.2 with (hother | hother) | hcompleted
    · exact absurd htype hother
    · exact absurd hstate hother
    · exact hcompleted
  · exact absurd hstate hopen

theorem backup_ready {a : BackupAction Bytes} (h : BackupInv b) (he : b.executors[i]? = some e)
    (hready : (e.problemId, e.generation) ∈ b.readied) :
    BackupInv (b.advance i e .completing b.world) ∧
      CompletionsBackedUp b a (b.advance i e .completing b.world) := by
  have hmove : WorldMove b b.world :=
    worldMove_write rfl h.ids fun k hk => .inl ⟨k, hk, rfl, rfl, rfl, rfl⟩
  constructor
  · apply (h.move hmove).advance he
    · exact owns_of_idle (by intro _ h; cases h) (by intro _ h; cases h)
    · exact fun _ => List.mem_append_left _ hready
  · exact completions_of_quiet fun k hk _ hstate => ⟨k, hk, rfl, hstate⟩

/-- Only an executor that has come to `completing` completes a snapshot job, and only where
its generation has been READY. -/
theorem backupInv_step {a : BackupAction Bytes} (h : BackupInv b)
    (hstep : backupStep d b a = some b') : BackupInv b' ∧ CompletionsBackedUp b a b' := by
  cases a with
  | snapshot a =>
      simp only [backupStep] at hstep
      split at hstep
      · cases hstep
      · rename_i hown
        obtain ⟨w, hw, rfl⟩ := Option.map_eq_some_iff.mp hstep
        obtain ⟨hmove, hquiet⟩ := worldMove_step h.ids hw (by rintro tables rfl; exact hown rfl)
        exact ⟨h.move hmove, completions_of_quiet hquiet⟩
  | acquire worker leaseSeconds lane paused locked =>
      obtain ⟨⟨db, c, token⟩, hacquire, rfl⟩ := Option.map_eq_some_iff.mp hstep
      obtain ⟨hinv, hquiet⟩ := backup_acquire h hacquire
      exact ⟨hinv, completions_of_quiet hquiet⟩
  | watch code owner leaseSeconds id millis =>
      simp only [backupStep] at hstep
      split at hstep
      · rename_i hfresh
        split at hstep
        · cases hstep
        · rename_i hwatch
          cases hstep
          obtain ⟨hinv, hquiet⟩ := backup_watch h hfresh hwatch
          exact ⟨hinv, completions_of_quiet hquiet⟩
      · cases hstep
  | enter i id version scan =>
      obtain ⟨e, he, hstep⟩ := Option.bind_eq_some_iff.mp hstep
      split at hstep
      · obtain ⟨w, hw, rfl⟩ := Option.map_eq_some_iff.mp hstep
        obtain ⟨hinv, hquiet⟩ := backup_enter h he hw
        exact ⟨hinv, completions_of_quiet hquiet⟩
      · cases hstep
  | claim i =>
      obtain ⟨e, he, hstep⟩ := Option.bind_eq_some_iff.mp hstep
      split at hstep
      · rename_i r hphase
        obtain ⟨w, hw, rfl⟩ := Option.map_eq_some_iff.mp hstep
        obtain ⟨hmove, hquiet⟩ := worldMove_step h.ids hw (by intro _ h; cases h)
        refine ⟨backup_claim h he hphase hmove hw, completions_of_quiet ?_⟩
        split <;> exact hquiet
      · cases hstep
  | uploaded i =>
      obtain ⟨e, he, hstep⟩ := Option.bind_eq_some_iff.mp hstep
      have hmem := List.mem_of_getElem? he
      split at hstep
      · rename_i r hphase
        split at hstep
        · rename_i m hcommitted
          cases hstep
          obtain ⟨run, hrun, hphase'⟩ := Option.map_eq_some_iff.mp hcommitted
          obtain ⟨run', hrun', hproblem, hgeneration⟩ := h.runs e hmem r (.inr hphase)
          obtain rfl := Option.some.inj (hrun.symm.trans hrun')
          have hready := h.committed run (List.mem_of_getElem? hrun) m hphase'
          rw [hproblem, hgeneration] at hready
          exact backup_ready h he hready
        · cases hstep
      · cases hstep
  | poll i =>
      obtain ⟨e, he, hstep⟩ := Option.bind_eq_some_iff.mp hstep
      split at hstep
      · rename_i s hphase hfound
        split at hstep
        · rename_i hready
          cases hstep
          have hrecorded := h.recorded s (List.mem_of_find?_eq_some hfound) (by rw [hready]; rfl)
          have hfor := List.find?_some hfound
          simp only [SnapshotRow.isFor, Bool.and_eq_true, decide_eq_true_eq] at hfor
          rw [hfor.1, hfor.2] at hrecorded
          exact backup_ready h he hrecorded
        · cases hstep
      · cases hstep
  | complete i result =>
      obtain ⟨e, he, hstep⟩ := Option.bind_eq_some_iff.mp hstep
      split at hstep
      · rename_i hphase
        cases hstep
        constructor
        · exact (h.move (backup_perform h)).advance he
            (owns_of_idle (by intro _ h; cases h) (by intro _ h; cases h)) (by intro h; cases h)
        · intro k hk htype hstate hbefore generation hgeneration
          obtain ⟨problemId, hproblem, hready⟩ :=
            backup_complete h he hphase k hk htype hstate hbefore generation hgeneration
          exact ⟨problemId, hproblem, List.mem_append_left _ hready⟩
      · cases hstep
  | release i errorCode errorMessage =>
      obtain ⟨e, he, hstep⟩ := Option.bind_eq_some_iff.mp hstep
      cases hstep
      constructor
      · exact (h.move (backup_perform h)).advance he
          (owns_of_idle (by intro _ h; cases h) (by intro _ h; cases h)) (by intro h; cases h)
      · apply completions_of_quiet
        apply quiet_update
        intro j _ _
        unfold Executor.failure
        split
        · intro h
          simp only [LeaseStatement.set, released] at h
          split at h <;> cases h
        · intro h
          cases h
  | rest tables =>
      simp only [backupStep] at hstep
      split at hstep
      · rename_i hallows
        cases hstep
        set written : Database := { tables with
          snapshots := b.world.db.snapshots, snapshotObjects := b.world.db.snapshotObjects
          gcMarks := b.world.db.gcMarks }
        have hrest : BackupInv (b.after (b.write written) b.executors) ∧
          Quiet b.world.db.jobs written.jobs := backup_rest h hallows rfl
        exact ⟨hrest.1, completions_of_quiet hrest.2⟩
      · cases hstep

theorem Backups.Initial.backupInv (h : b.Initial) : BackupInv b := by
  refine ⟨h.ids, h.recorded, ?_, ?_, ?_, ?_⟩
  · intro run hrun
    rw [h.runs] at hrun
    cases hrun
  all_goals
    intro e he
    rw [h.executors] at he
    cases he

theorem completed_snapshots_backed_up (h : b.Initial) (as : List (BackupAction Bytes)) :
    EveryStep (backupStep d) CompletionsBackedUp b as := by
  refine everyStep_of_invariant (I := BackupInv) (C := fun _ _ _ => True) ?_ ?_ h.backupInv
    (everyStep_of_forall_mem (Q := fun _ => True) fun _ _ => trivial)
  · intro b a b' hinv _ hstep
    exact (backupInv_step hinv hstep).1
  · intro b a b' hinv _ hstep
    exact (backupInv_step hinv hstep).2

end Invariant

/-! ## Three watcher runs -/

def sampleBackups : Backups Content where
  world := sampleWorld

theorem initial_sampleBackups : sampleBackups.Initial := by
  refine ⟨by decide, rfl, rfl, ?_⟩
  intro s hs
  cases hs

/-- The lease is lost after the claim of the row; the pending job is acquired again and finds the
row to be that of the first run; more than two hours later it takes the row over. -/
def takenOverRun : List (BackupAction Content) :=
  [.watch "aplusb" "watcher-1" 120 1 1000, .enter 0 1 (some 2) sampleScan, .claim 0,
    .release 0 "dirty_snapshot_failed" "fencing token mismatch: expected 2 got -1",
    .watch "aplusb" "watcher-1" 120 2 2000, .enter 1 2 (some 3) sampleScan, .claim 1,
    .release 1 "dirty_snapshot_failed" "database error: mismatched types",
    .snapshot (.tick 7201000000),
    .watch "aplusb" "watcher-1" 120 3 3000, .enter 2 3 (some 4) sampleScan, .claim 2] ++
    (.run 2 .cleanup :: uploadingRun 2 ++ publishingRun 2).map .snapshot ++
    [.uploaded 2, .complete 2 none]

theorem completed_snapshots_backed_up_taken_over :
    (exec (backupStep samplePlane) sampleBackups takenOverRun).any (fun b =>
        b.world.db.jobs.any fun j => j.id = 1 && j.state = .completed) = true ∧
      EveryStep (backupStep samplePlane) CompletionsBackedUp sampleBackups takenOverRun :=
  ⟨by decide +kernel, completed_snapshots_backed_up initial_sampleBackups takenOverRun⟩

end ExternalStorage.Snapshot
