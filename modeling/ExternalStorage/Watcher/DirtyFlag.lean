import ExternalStorage.Snapshot.Generations
import ExternalStorage.Watcher.Processing

/-!
# The dirty flag after a watcher's run

`acquire_dirty_snapshot_job_by_code` writes a newly allocated generation into
`dirty_generation`.  When it claims a job from the queue it hands out that job's generation
instead, and `finalize_snapshot_cas` clears the flag only for generations from
`dirty_generation` on.
-/

namespace ExternalStorage.Watcher

open ExternalStorage.Model ExternalStorage.Snapshot Library.Runs Library.Table

/-! ## Statements -/

/-- The columns that the clear compares. -/
structure DirtyColumns where
  dirty : Bool
  generation : Option Int
  version : Int
  deriving DecidableEq, Repr

def dirtyColumns (db : Database) (problemId : String) : Option DirtyColumns :=
  (db.problems.find? fun p => p.externalId = problemId).map fun p =>
    ⟨p.dirty, p.dirtyGeneration, p.dirtyVersion⟩

def Unreached (db : Database) (problemId : String) (generation : Int) : Prop :=
  nextGeneration db.problemGenerationCounters problemId ≤ generation ∧
    maxGeneration db problemId < generation ∧ 0 < generation

instance (db : Database) (problemId : String) (generation : Int) :
    Decidable (Unreached db problemId generation) :=
  inferInstanceAs (Decidable (_ ∧ _ ∧ _))

/-- A job that waits for a snapshot of the problem names no generation, or one that is still
to be allocated. -/
def WaitingUnreached (db : Database) (problemId : String) : Prop :=
  ∀ j ∈ db.jobs.find? (pendingSnapshotOf problemId), ∀ generation ∈ j.targetGeneration,
    Unreached db problemId generation

instance (db : Database) (problemId : String) : Decidable (WaitingUnreached db problemId) :=
  inferInstanceAs (Decidable (∀ j ∈ db.jobs.find? (pendingSnapshotOf problemId),
    ∀ generation ∈ j.targetGeneration, _))

/-! ## The transaction of the watcher -/

/-- The generation of `generation_alloc`. -/
def allocatedGeneration (db : Database) (problemId : String) : Int :=
  nextGeneration (allocGeneration problemId (maxGeneration db problemId)
    db.problemGenerationCounters) problemId - 1

/-- The generation that the transaction allocates, against one that it could hand out. -/
theorem allocated_le_iff {db : Database} {problemId : String} {generation : Int} :
    allocatedGeneration db problemId ≤ generation ↔ Unreached db problemId generation := by
  have heq := congrArg Prod.fst
    (allocGeneration_eq problemId (maxGeneration db problemId) db.problemGenerationCounters)
  dsimp only [allocateCounterValue] at heq
  rw [allocatedGeneration, heq, Unreached]
  omega

/-- What `acquire_dirty_snapshot_job_by_code` writes of the problem and what it returns. -/
structure AcquiredFor (now : Timestamp) (db db' : Database) (p : ProblemRow)
    (job : DirtySnapshotJob) : Prop where
  problem : job.problemId = p.externalId
  version : job.dirtyVersion = p.dirtyVersion + 1
  generation : job.generation =
    ((db.jobs.find? (pendingSnapshotOf p.externalId)).bind JobRow.targetGeneration).getD
      (allocatedGeneration db p.externalId)
  problems : db'.problems = updateWhere (fun q => q.externalId = p.externalId)
    (ProblemRow.watched now (allocatedGeneration db p.externalId)) db.problems

theorem acquiredFor_of_ok {now : Timestamp} {code owner : String} {leaseSeconds : Int} {id : Uuid}
    {millis : Int} {db db' : Database} {tokens : Option WatcherTokens} {job : DirtySnapshotJob}
    (h : acquireDirtySnapshotJobByCode now code owner leaseSeconds id millis db =
      .ok (db', tokens, some job)) : ∃ p ∈ db.problems, AcquiredFor now db db' p job := by
  unfold acquireDirtySnapshotJobByCode at h
  split at h
  · cases h
  · rename_i target marked htarget
    unfold acquireDirtySnapshotTarget at htarget
    obtain ⟨p, hp, htarget⟩ := Option.bind_eq_some_iff.mp htarget
    cases htarget
    refine ⟨p, List.mem_of_find?_eq_some hp, ?_⟩
    dsimp only [claimPendingSnapshot] at h
    split at h
    · cases h
    · split at h
      · rename_i j hfound
        cases h
        refine ⟨rfl, rfl, ?_, rfl⟩
        rw [hfound]
        rfl
      · rename_i hnone
        split at h
        · cases h
        · split at h
          · cases h
            refine ⟨rfl, rfl, ?_, rfl⟩
            rw [hnone]
            rfl
          · cases h

theorem AcquiredFor.generation_iff {now : Timestamp} {db db' : Database} {p : ProblemRow}
    {job : DirtySnapshotJob} (h : AcquiredFor now db db' p job) :
    allocatedGeneration db p.externalId ≤ job.generation ↔ WaitingUnreached db p.externalId := by
  rw [h.generation, WaitingUnreached]
  cases db.jobs.find? (pendingSnapshotOf p.externalId) with
  | none => simp
  | some j =>
      cases htarget : j.targetGeneration with
      | none => simp [htarget]
      | some generation =>
          simp only [Option.bind_some, htarget, Option.getD_some, Option.mem_some_iff,
            forall_eq']
          exact allocated_le_iff

theorem AcquiredFor.dirtyColumns_eq {now : Timestamp} {db db' : Database} {p : ProblemRow}
    {job : DirtySnapshotJob} (h : AcquiredFor now db db' p job) (hp : p ∈ db.problems)
    (hkey : (db.problems.map ProblemRow.externalId).Nodup) :
    dirtyColumns db' p.externalId =
      some ⟨true, some (allocatedGeneration db p.externalId), p.dirtyVersion + 1⟩ := by
  have hfound : (db.problems.find? fun q => q.externalId = p.externalId) = some p := by
    cases hq : db.problems.find? fun q => decide (q.externalId = p.externalId) with
    | none =>
        have hnone := List.find?_eq_none.mp hq p hp
        simp at hnone
    | some q =>
        have hid := List.find?_some hq
        rw [decide_eq_true_eq] at hid
        rw [List.inj_on_of_nodup_map hkey (List.mem_of_find?_eq_some hq) hp hid]
  rw [dirtyColumns, h.problems, find?_updateWhere (by exact fun _ => rfl), hfound,
    Option.map_some, Option.map_some, if_pos rfl]
  rfl

/-! ## The clear -/

theorem dirtyColumns_finalized {now : Timestamp} {a : FinalizeArgs} {db : Database}
    {version : Int} (hversion : a.expectedDirtyVersion = some version) :
    dirtyColumns (finalized now a db) a.problemId =
      (dirtyColumns db a.problemId).map fun c =>
        if shouldClearDirtyAfterSnapshot c.dirty c.generation c.version a.generation
            (some version) then
          { c with dirty := false, generation := none }
        else c := by
  have hproblems : (finalized now a db).problems =
      clearDirtyAfterSnapshot now a.problemId a.generation (some version) db.problems := by
    simp only [finalized, hversion]
  rw [dirtyColumns, hproblems, clearDirtyAfterSnapshot,
    find?_key_updateWhere (by exact fun _ => rfl), dirtyColumns]
  cases hfound : db.problems.find? fun p => decide (p.externalId = a.problemId) with
  | none => rfl
  | some p =>
      have hid := List.find?_some hfound
      rw [decide_eq_true_eq] at hid
      simp only [Option.map_some, hid, decide_true, Bool.true_and]
      split <;> rfl

/-- A watcher's run whose finalization commits, with no other write to the dirty columns in
between, leaves the problem clean exactly when the job it claimed, if any, names no
generation that had been allocated before. -/
theorem dirty_cleared_iff {now : Timestamp} {code owner : String} {leaseSeconds : Int} {id : Uuid}
    {millis : Int} {db acquired before after : Database} {tokens : Option WatcherTokens}
    {job : DirtySnapshotJob} {finalizedAt : Timestamp} {a : FinalizeArgs}
    (hkey : (db.problems.map ProblemRow.externalId).Nodup)
    (hacquire : acquireDirtySnapshotJobByCode now code owner leaseSeconds id millis db =
      .ok (acquired, tokens, some job))
    (hundisturbed : dirtyColumns before job.problemId = dirtyColumns acquired job.problemId)
    (hproblem : a.problemId = job.problemId) (hgeneration : a.generation = job.generation)
    (hversion : a.expectedDirtyVersion = some job.dirtyVersion)
    (hfinalize : finalizeSnapshotCas finalizedAt a before = .ok after) :
    (dirtyColumns after job.problemId).map DirtyColumns.dirty = some false ↔
      WaitingUnreached db job.problemId := by
  obtain ⟨p, hp, hacquired⟩ := acquiredFor_of_ok hacquire
  obtain ⟨-, rfl⟩ := finalizeSnapshotCas_eq_ok hfinalize
  have hafter : dirtyColumns (finalized finalizedAt a before) a.problemId = _ :=
    dirtyColumns_finalized hversion
  rw [hproblem, hundisturbed, hacquired.problem, hacquired.dirtyColumns_eq hp hkey,
    Option.map_some, hacquired.version, hgeneration] at hafter
  rw [hacquired.problem, hafter, ← hacquired.generation_iff]
  simp only [shouldClearDirtyAfterSnapshot, decide_true, Bool.true_and, Bool.and_true,
    decide_eq_true_eq, Option.map_some, Option.some.injEq]
  split <;> simp_all

/-! ## A run from the queue and one of the watcher's own -/

/-- The row that the run owns, uploaded and verified. -/
def withVerifying (job : DirtySnapshotJob) (db : Database) : Database :=
  { db with
    snapshots := [{ freshSnapshot 7 job.problemId job.generation sampleTime with
      state := .verifying }] }

def finalizeArgsOf (job : DirtySnapshotJob) : FinalizeArgs where
  snapshotId := 7
  problemId := job.problemId
  generation := job.generation
  fencingToken := job.fencingToken
  expectedDirtyVersion := some job.dirtyVersion
  manifestFiles := []
  totalBytes := 0
  manifestKey := manifestKey job.problemId job.generation

def queuedStart (jobs : List JobRow) : Database where
  problems := [sampleProblem]
  problemUsage := [sampleUsage]
  problemGenerationCounters := [⟨"101", 2⟩]
  jobs := jobs

theorem dirty_cleared_inserted :
    ∃ acquired tokens job after,
      acquireDirtySnapshotJobByCode sampleTime "aplusb" "rust-watcher:1" 300 1 0 (queuedStart []) =
          .ok (acquired, tokens, some job) ∧
        finalizeSnapshotCas sampleTime (finalizeArgsOf job) (withVerifying job acquired) =
          .ok after ∧
        (dirtyColumns after job.problemId).map DirtyColumns.dirty = some false := by
  obtain ⟨acquired, tokens, job, after, hacquire, hfinalize⟩ :
      ∃ acquired tokens job after,
        acquireDirtySnapshotJobByCode sampleTime "aplusb" "rust-watcher:1" 300 1 0
            (queuedStart []) = .ok (acquired, tokens, some job) ∧
          finalizeSnapshotCas sampleTime (finalizeArgsOf job) (withVerifying job acquired) =
            .ok after := ⟨_, _, _, _, rfl, rfl⟩
  refine ⟨acquired, tokens, job, after, hacquire, hfinalize, ?_⟩
  have hundisturbed : dirtyColumns (withVerifying job acquired) job.problemId =
      dirtyColumns acquired job.problemId := rfl
  have hproblem : (finalizeArgsOf job).problemId = job.problemId := rfl
  refine (dirty_cleared_iff (by decide) hacquire hundisturbed hproblem rfl rfl hfinalize).mpr ?_
  intro j hj
  cases hj

/-- The job of the notification is for generation 1, and the watcher allocates 2. -/
theorem claimed_job_leaves_dirty :
    ∃ acquired tokens job after,
      acquireDirtySnapshotJobByCode sampleTime "aplusb" "rust-watcher:1" 300 2 0
          (queuedStart [newJob sampleTime 1 ⟨"k", .snapshot, some "101", some 1, "f"⟩]) =
          .ok (acquired, tokens, some job) ∧
        dirtyColumns (withVerifying job acquired) "101" = dirtyColumns acquired "101" ∧
        finalizeSnapshotCas sampleTime (finalizeArgsOf job) (withVerifying job acquired) =
          .ok after ∧
        dirtyColumns after "101" = some ⟨true, some 2, 2⟩ :=
  ⟨_, _, _, _, rfl, rfl, rfl, by decide +kernel⟩

end ExternalStorage.Watcher
