import ExternalStorage.Jobs.Creation
import ExternalStorage.Model.Scheduling
import ExternalStorage.Snapshot.Generations

/-!
# Scheduling one problem

A turn of the scheduler asks for a scan and a snapshot of one problem.  What the table answers
to the two requests can be told before the turn, and the turn changes nothing that another
problem's turn reads.  A second turn of the same problem finds what the first left, unless
the problem has no generation of its own: then it asks for a new one under the old key.
-/

namespace ExternalStorage.Jobs

open ExternalStorage.Model Library.Table Library.Batches

/-! ## Answers -/

def answerOf (r : JobRequest) (jobs : List JobRow) : CreateAnswer :=
  if ∃ j ∈ jobs, keyedBy r j ∧ SameRequest r j then .replayed
  else if ∃ j ∈ jobs, keyedBy r j then .keyTaken
  else if ∃ j ∈ jobs, Compatible r j then .joined
  else if ∃ j ∈ jobs, OtherOperation r j then .refused
  else .inserted

/-- What `createJob` throws for it. -/
def CreateAnswer.conflict (problemId : String) : CreateAnswer → Option CreateJobError
  | .keyTaken => some .idempotencyConflict
  | .refused => some (.problemOperationConflict problemId)
  | .replayed | .joined | .inserted => none

def CreateAnswer.found : CreateAnswer → Bool
  | .replayed | .joined => true
  | .keyTaken | .refused | .inserted => false

section Answers

variable {now : Timestamp} {id : Uuid} {r : JobRequest} {db : Database} {p : String}

variable (now id) in
theorem createJob_found (hidx : JobIndexes db.jobs) (h : (answerOf r db.jobs).found = true) :
    ∃ j ∈ db.jobs, createJob now id r db = .ok (db, j) := by
  unfold answerOf at h
  split at h
  · rename_i hsame
    obtain ⟨j, hj, hkeyed, hsame⟩ := hsame
    rcases createJob_keyed now id hidx hj hkeyed with ⟨-, hok⟩ | ⟨hdiffers, -⟩
    · exact ⟨j, hj, hok⟩
    · exact absurd hsame hdiffers
  · split at h
    · cases h
    · rename_i hkeys
      split at h
      · rename_i hjoin
        have hkeys : ∀ j ∈ db.jobs, ¬ keyedBy r j := fun j hj hkeyed => hkeys ⟨j, hj, hkeyed⟩
        obtain ⟨k, hk, hcompatible⟩ := hjoin
        rcases activeFor_cases r db.jobs with ⟨j, hactive, hj, -⟩ | ⟨-, hnone⟩
        · exact ⟨j, hj, createJob_joins now id hkeys hactive⟩
        · exact absurd hcompatible (hnone k hk)
      · split at h <;> cases h

theorem createJob_conflict (hidx : JobIndexes db.jobs) (hproblem : r.problemId = some p)
    (hexclusive : r.jobType.exclusive = true) {e : CreateJobError}
    (h : (answerOf r db.jobs).conflict p = some e) : createJob now id r db = .error e := by
  unfold answerOf at h
  split at h
  · cases h
  · rename_i hsame
    split at h
    · rename_i hkeyed
      cases h
      obtain ⟨j, hj, hkeyed⟩ := hkeyed
      rcases createJob_keyed now id hidx hj hkeyed with ⟨hsame', -⟩ | ⟨-, herror⟩
      · exact absurd ⟨j, hj, hkeyed, hsame'⟩ hsame
      · exact herror
    · rename_i hkeys
      split at h
      · cases h
      · rename_i hjoin
        split at h
        · rename_i hother
          cases h
          have hkeys : ∀ j ∈ db.jobs, ¬ keyedBy r j := fun j hj hkeyed => hkeys ⟨j, hj, hkeyed⟩
          obtain ⟨k, hk, hother⟩ := hother
          rcases activeFor_cases r db.jobs with ⟨j, -, hj, hcompatible, -⟩ | ⟨hactive, -⟩
          · exact absurd ⟨j, hj, hcompatible⟩ hjoin
          · rw [createJob_other now id hkeys hactive hproblem hk hother, if_pos hexclusive]
        · cases h

theorem answerOf_inserted (h : answerOf r db.jobs = .inserted) :
    (∀ j ∈ db.jobs, ¬ keyedBy r j) ∧ (∀ j ∈ db.jobs, ¬ Compatible r j) ∧
      ∀ j ∈ db.jobs, ¬ OtherOperation r j := by
  unfold answerOf at h
  split at h
  · cases h
  · split at h
    · cases h
    · rename_i hkeys
      split at h
      · cases h
      · rename_i hjoin
        split at h
        · cases h
        · rename_i hother
          exact ⟨fun j hj h => hkeys ⟨j, hj, h⟩, fun j hj h => hjoin ⟨j, hj, h⟩,
            fun j hj h => hother ⟨j, hj, h⟩⟩

variable (now) in
theorem createJob_inserted (hidx : JobIndexes db.jobs) (hfresh : ∀ j ∈ db.jobs, j.id ≠ id)
    (hproblem : r.problemId = some p) (h : answerOf r db.jobs = .inserted) :
    createJob now id r db =
        .ok ({ db with jobs := db.jobs ++ [newJob now id r] }, newJob now id r) ∧
      JobIndexes (db.jobs ++ [newJob now id r]) := by
  obtain ⟨hkeys, hjoin, hother⟩ := answerOf_inserted h
  have hgc : r.jobType = .gcCollect → r.problemId = none →
      ∀ j ∈ db.jobs, ¬ (j.jobType = .gcCollect ∧ j.problemId = none ∧ j.state.active = true) := by
    intro _ hnone
    exact absurd (hproblem.symm.trans hnone) (Option.some_ne_none p)
  have hactive : activeFor r db.jobs = none := by
    rcases activeFor_cases r db.jobs with ⟨j, -, hj, hcompatible, -⟩ | ⟨hactive, -⟩
    · exact absurd hcompatible (hjoin j hj)
    · exact hactive
  exact ⟨createJob_inserts now id hidx hfresh hkeys hactive (.inr hother) hgc,
    hidx.insert hfresh hkeys ((guards_new_iff hidx hfresh (.inr hother)).mpr hgc)⟩

theorem CreateAnswer.cases (p : String) (answer : CreateAnswer) :
    (∃ e, answer.conflict p = some e) ∨ answer.conflict p = none ∧
      (answer.found = true ∧ answer ≠ .inserted ∨ answer = .inserted) := by
  cases answer <;> simp [conflict, found]

end Answers

/-! ## Rows but for their payload -/

def jobFacts (j : JobRow) : JobRow := { j with result := none }

theorem facts_setJobPayload (id : Uuid) (payload : JobPayload) (db : Database) :
    (setJobPayload id payload db).jobs.map jobFacts = db.jobs.map jobFacts :=
  map_updateWhere (by exact fun _ => rfl) db.jobs

theorem jobIndexes_of_facts {jobs jobs' : List JobRow}
    (hfacts : jobs'.map jobFacts = jobs.map jobFacts) (h : JobIndexes jobs) :
    JobIndexes jobs' := by
  have hguards : ∀ jobs : List JobRow, activeGuards (jobs.map jobFacts) = activeGuards jobs := by
    intro jobs
    rw [activeGuards, List.all_map, activeGuards]
    simp only [Function.comp_def, List.all_map]
    rfl
  constructor
  · have hids := congrArg (List.map JobRow.id) hfacts
    rw [List.map_map, List.map_map] at hids
    exact hids ▸ h.ids
  · have hkeys := congrArg (List.map fun j => (j.idempotencyKey, j.jobType)) hfacts
    rw [List.map_map, List.map_map] at hkeys
    exact hkeys ▸ h.keys
  · rw [← hguards, hfacts, hguards]
    exact h.guards

def Concerns (r : JobRequest) (j : JobRow) : Prop :=
  keyedBy r j ∨ j.problemId = r.problemId

theorem exists_facts_iff (jobs : List JobRow) {P : JobRow → Prop} (hP : ∀ j, P (jobFacts j) ↔ P j) :
    (∃ j ∈ jobs, P j) ↔ ∃ f ∈ jobs.map jobFacts, P f := by
  constructor
  · rintro ⟨j, hj, h⟩
    exact ⟨jobFacts j, List.mem_map_of_mem hj, (hP j).mpr h⟩
  · rintro ⟨f, hf, h⟩
    obtain ⟨j, hj, rfl⟩ := List.mem_map.mp hf
    exact ⟨j, hj, (hP j).mp h⟩

theorem exists_iff_of_facts {jobs jobs' : List JobRow} {P Q : JobRow → Prop}
    (hP : ∀ j, P (jobFacts j) ↔ P j) (hPQ : ∀ j, P j → Q j)
    (h : ∀ f, Q f → (f ∈ jobs'.map jobFacts ↔ f ∈ jobs.map jobFacts)) :
    (∃ j ∈ jobs', P j) ↔ ∃ j ∈ jobs, P j := by
  rw [exists_facts_iff jobs' hP, exists_facts_iff jobs hP]
  exact exists_congr fun f => and_congr_left fun hf => h f (hPQ f hf)

theorem answerOf_congr {r : JobRequest} {jobs jobs' : List JobRow}
    (h : ∀ f, Concerns r f → (f ∈ jobs'.map jobFacts ↔ f ∈ jobs.map jobFacts)) :
    answerOf r jobs' = answerOf r jobs := by
  have hreplay := exists_iff_of_facts (P := fun j => keyedBy r j ∧ SameRequest r j)
    (fun j => Iff.rfl) (fun j hj => .inl hj.1) h
  have hkeyed := exists_iff_of_facts (P := keyedBy r) (fun j => Iff.rfl) (fun j hj => .inl hj) h
  have hjoin := exists_iff_of_facts (P := Compatible r) (fun j => Iff.rfl)
    (fun j hj => .inr hj.2.1) h
  have hother := exists_iff_of_facts (P := OtherOperation r) (fun j => Iff.rfl)
    (fun j hj => .inr hj.1) h
  simp only [answerOf, hreplay, hkeyed, hjoin, hother]

theorem answerOf_concat {r : JobRequest} {j : JobRow} {jobs : List JobRow} (hkeyed : ¬ keyedBy r j)
    (hjoin : ¬ Compatible r j) (hother : ¬ OtherOperation r j) :
    answerOf r (jobs ++ [j]) = answerOf r jobs := by
  have hrow : ∀ P : JobRow → Prop, ¬ P j → ((∃ k ∈ jobs ++ [j], P k) ↔ ∃ k ∈ jobs, P k) := by
    intro P hP
    simp only [List.mem_append, List.mem_singleton, or_and_right, exists_or, exists_eq_left, hP,
      or_false]
  have hreplay := hrow (fun j => keyedBy r j ∧ SameRequest r j) fun h => hkeyed h.1
  simp only [answerOf, hreplay, hrow _ hkeyed, hrow _ hjoin, hrow _ hother]

/-! ## The two jobs -/

section AutoJobs

variable {c : ScheduleContext} {p : ProblemRow} {generation : Int} {db : Database}

/-- The identifiers that a call draws are new. -/
def DrawsNew (c : ScheduleContext) : Prop := ∀ jobs, ∀ j ∈ jobs, j.id ≠ c.newId jobs

def AutoKeyed (problemId : String) (j : JobRow) : Prop :=
  ∃ v round,
    j.jobType = .scan ∧ j.idempotencyKey = autoKey "auto-scan:" problemId v round ∨
      j.jobType = .snapshot ∧ j.idempotencyKey = autoKey "auto-snapshot:" problemId v round

theorem AutoKeyed.eq {q q' : String} {j : JobRow} (h : AutoKeyed q j) (h' : AutoKeyed q' j) :
    q = q' := by
  obtain ⟨v, round, ⟨htype, hkey⟩ | ⟨htype, hkey⟩⟩ := h
  · obtain ⟨v', round', ⟨-, hkey'⟩ | ⟨htype', -⟩⟩ := h'
    · exact (autoKey_injective (hkey.symm.trans hkey')).1
    · cases htype.symm.trans htype'
  · obtain ⟨v', round', ⟨htype', -⟩ | ⟨-, hkey'⟩⟩ := h'
    · cases htype.symm.trans htype'
    · exact (autoKey_injective (hkey.symm.trans hkey')).1

def scanAnswer (c : ScheduleContext) (p : ProblemRow) (db : Database) : CreateAnswer :=
  answerOf (autoScanRequest p (c.round p.externalId)) db.jobs

def snapshotAnswer (c : ScheduleContext) (p : ProblemRow) (generation : Int) (db : Database) :
    CreateAnswer :=
  answerOf (autoSnapshotRequest p generation (c.round p.externalId)) db.jobs

def autoConflict (c : ScheduleContext) (p : ProblemRow) (generation : Int) (db : Database) :
    Option CreateJobError :=
  ((scanAnswer c p db).conflict p.externalId).or
    ((snapshotAnswer c p generation db).conflict p.externalId)

def autoRows (c : ScheduleContext) (p : ProblemRow) (generation : Int) (db : Database)
    (scanId snapshotId : Uuid) : List JobRow :=
  (if scanAnswer c p db = .inserted then
    [newJob c.now scanId (autoScanRequest p (c.round p.externalId))] else []) ++
  if (scanAnswer c p db).conflict p.externalId = none ∧
      snapshotAnswer c p generation db = .inserted then
    [newJob c.now snapshotId (autoSnapshotRequest p generation (c.round p.externalId))] else []

def conflictOf {β : Type} (x : Except CreateJobError β) : Option CreateJobError :=
  match x with
  | .ok _ => none
  | .error e => some e

structure AutoJobs (c : ScheduleContext) (p : ProblemRow) (generation : Int) (db : Database)
    (out : Database × Except CreateJobError (Option ScheduledJobs)) : Prop where
  others : out.1 = { db with jobs := out.1.jobs }
  conflict : conflictOf out.2 = autoConflict c p generation db
  rows : ∃ scanId snapshotId,
    (∀ j ∈ autoRows c p generation db scanId snapshotId, ∀ k ∈ db.jobs, k.id ≠ j.id) ∧
      out.1.jobs.map jobFacts =
        db.jobs.map jobFacts ++ autoRows c p generation db scanId snapshotId
  indexes : JobIndexes out.1.jobs

theorem snapshotAnswer_scanned (scanId : Uuid) :
    snapshotAnswer c p generation { db with
        jobs := db.jobs ++ [newJob c.now scanId (autoScanRequest p (c.round p.externalId))] } =
      snapshotAnswer c p generation db := by
  apply answerOf_concat
  · exact fun h => JobType.noConfusion h.2
  · exact fun h => JobType.noConfusion h.1
  · exact fun h => h.2.2.2.2 ⟨rfl, rfl⟩

def scanRows (c : ScheduleContext) (p : ProblemRow) (db : Database) (scanId : Uuid) :
    List JobRow :=
  if scanAnswer c p db = .inserted then
    [newJob c.now scanId (autoScanRequest p (c.round p.externalId))] else []

structure Scanned (c : ScheduleContext) (p : ProblemRow) (generation : Int) (db : Database)
    (scanId : Uuid) (t : Database) : Prop where
  others : t = { db with jobs := t.jobs }
  indexes : JobIndexes t.jobs
  rows : t.jobs.map jobFacts = db.jobs.map jobFacts ++ scanRows c p db scanId
  fresh : ∀ j ∈ scanRows c p db scanId, ∀ k ∈ db.jobs, k.id ≠ j.id
  answer : snapshotAnswer c p generation t = snapshotAnswer c p generation db
  granted : (scanAnswer c p db).conflict p.externalId = none

theorem autoRows_granted {scanId snapshotId : Uuid}
    (h : (scanAnswer c p db).conflict p.externalId = none) :
    autoRows c p generation db scanId snapshotId = scanRows c p db scanId ++
      if snapshotAnswer c p generation db = .inserted then
        [newJob c.now snapshotId (autoSnapshotRequest p generation (c.round p.externalId))]
      else [] := by
  simp only [autoRows, scanRows, h, true_and]

theorem Scanned.id_fresh {scanId id : Uuid} {t : Database}
    (h : Scanned c p generation db scanId t) (hid : ∀ j ∈ t.jobs, j.id ≠ id) :
    ∀ k ∈ db.jobs, k.id ≠ id := by
  intro k hk
  have hkt : jobFacts k ∈ t.jobs.map jobFacts := by
    rw [h.rows]
    exact List.mem_append_left _ (List.mem_map_of_mem hk)
  obtain ⟨k', hk', hfacts⟩ := List.mem_map.mp hkt
  have hsame : (jobFacts k').id = (jobFacts k).id := congrArg JobRow.id hfacts
  intro heq
  exact hid k' hk' (hsame.trans heq)

theorem createAutoSnapshot_spec (scanId : Uuid) {scan : JobRow} {t : Database}
    (hdraws : DrawsNew c) (h : Scanned c p generation db scanId t) :
    AutoJobs c p generation db (createAutoSnapshot c p generation scan t) := by
  have hconflict : autoConflict c p generation db =
      (snapshotAnswer c p generation db).conflict p.externalId := by
    rw [autoConflict, h.granted, Option.none_or]
  have hanswer := h.answer
  unfold createAutoSnapshot
  rcases CreateAnswer.cases p.externalId (snapshotAnswer c p generation db) with
    ⟨e, he⟩ | ⟨hnone, ⟨hfound, hne⟩ | hinserted⟩
  · have hne : snapshotAnswer c p generation db ≠ .inserted := by
      intro hinserted
      rw [hinserted] at he
      cases he
    have hrows : autoRows c p generation db scanId 0 = scanRows c p db scanId := by
      rw [autoRows_granted h.granted, if_neg hne, List.append_nil]
    rw [← hanswer] at he
    rw [createJob_conflict h.indexes rfl rfl he]
    refine ⟨h.others, ?_, ⟨scanId, 0, ?_, ?_⟩, h.indexes⟩
    · rw [hconflict, ← hanswer, he]
      rfl
    · rw [hrows]
      exact h.fresh
    · rw [hrows]
      exact h.rows
  · have hrows : autoRows c p generation db scanId 0 = scanRows c p db scanId := by
      rw [autoRows_granted h.granted, if_neg hne, List.append_nil]
    rw [← hanswer] at hfound
    obtain ⟨j, -, hok⟩ := createJob_found c.now (c.newId t.jobs) h.indexes hfound
    rw [hok]
    refine ⟨?_, ?_, ⟨scanId, 0, ?_, ?_⟩, ?_⟩
    · dsimp only
      rw [setJobPayload, h.others]
    · rw [hconflict, hnone]
      rfl
    · rw [hrows]
      exact h.fresh
    · rw [hrows, ← h.rows]
      exact facts_setJobPayload _ _ _
    · exact jobIndexes_of_facts (facts_setJobPayload _ _ _) h.indexes
  · have hrows : autoRows c p generation db scanId (c.newId t.jobs) = scanRows c p db scanId ++
        [newJob c.now (c.newId t.jobs)
          (autoSnapshotRequest p generation (c.round p.externalId))] := by
      rw [autoRows_granted h.granted, if_pos hinserted]
    rw [← hanswer] at hinserted
    obtain ⟨hok, hidx⟩ :=
      createJob_inserted c.now h.indexes (hdraws t.jobs) rfl hinserted
    rw [hok]
    refine ⟨?_, ?_, ⟨scanId, c.newId t.jobs, ?_, ?_⟩, ?_⟩
    · dsimp only
      rw [setJobPayload, h.others]
    · rw [hconflict, hnone]
      rfl
    · rw [hrows]
      intro j hj
      rcases List.mem_append.mp hj with hj | hj
      · exact h.fresh j hj
      · rw [List.mem_singleton.mp hj]
        exact h.id_fresh (hdraws t.jobs)
    · rw [hrows, ← List.append_assoc, ← h.rows]
      exact (facts_setJobPayload _ _ _).trans List.map_append
    · exact jobIndexes_of_facts (facts_setJobPayload _ _ _) hidx

variable (p generation) in
theorem createAutoJobs_spec (hdraws : DrawsNew c) (hidx : JobIndexes db.jobs) :
    AutoJobs c p generation db (createAutoJobs c p generation db) := by
  unfold createAutoJobs
  rcases CreateAnswer.cases p.externalId (scanAnswer c p db) with
    ⟨e, he⟩ | ⟨hnone, ⟨hfound, hne⟩ | hinserted⟩
  · have hrows : autoRows c p generation db 0 0 = [] := by
      rw [autoRows, if_neg, if_neg, List.append_nil]
      · intro h
        cases he.symm.trans h.1
      · intro hinserted
        rw [hinserted] at he
        cases he
    rw [createJob_conflict hidx rfl rfl he]
    refine ⟨rfl, ?_, ⟨0, 0, ?_, ?_⟩, hidx⟩
    · rw [autoConflict, he]
      rfl
    · rw [hrows]
      exact fun j hj => absurd hj List.not_mem_nil
    · rw [hrows]
      exact (List.append_nil _).symm
  · obtain ⟨j, -, hok⟩ := createJob_found c.now (c.newId db.jobs) hidx hfound
    have hrows : scanRows c p db 0 = [] := if_neg hne
    rw [hok]
    apply createAutoSnapshot_spec 0 hdraws
    refine ⟨rfl, hidx, ?_, ?_, rfl, hnone⟩
    · rw [hrows, List.append_nil]
    · rw [hrows]
      exact fun j hj => absurd hj List.not_mem_nil
  · obtain ⟨hok, hidx'⟩ := createJob_inserted c.now hidx (hdraws db.jobs) rfl hinserted
    have hrows : scanRows c p db (c.newId db.jobs) =
        [newJob c.now (c.newId db.jobs) (autoScanRequest p (c.round p.externalId))] :=
      if_pos hinserted
    rw [hok]
    apply createAutoSnapshot_spec (c.newId db.jobs) hdraws
    refine ⟨rfl, hidx', ?_, ?_, snapshotAnswer_scanned _, hnone⟩
    · rw [hrows]
      exact List.map_append
    · rw [hrows]
      intro j hj
      rw [List.mem_singleton.mp hj]
      exact hdraws db.jobs

end AutoJobs

/-! ## A turn -/

def rowOf (db : Database) (externalId : String) : Option ProblemRow :=
  db.problems.find? fun p => p.externalId = externalId

def nextOf (db : Database) (problemId : String) : Int :=
  nextGeneration db.problemGenerationCounters problemId

/-- The problem is dirty, or `markDirtyIfNoReady` makes it so. -/
def becomesDirty (db : Database) (p : ProblemRow) : Bool :=
  p.dirty || cleanWithoutReady db p.externalId p

def wants (c : ScheduleContext) (db : Database) (p : ProblemRow) : Bool :=
  becomesDirty db p && !c.parked p.externalId

/-- The generation of the snapshot that the turn asks for. -/
def generationFor (db : Database) (p : ProblemRow) : Int :=
  (if p.dirty then p.dirtyGeneration else none).getD (nextOf db p.externalId)

def dirtied (c : ScheduleContext) (db : Database) (p : ProblemRow) : ProblemRow :=
  if !p.dirty && cleanWithoutReady db p.externalId p then
    { p with
      dirty := true, dirtyGeneration := some (nextOf db p.externalId)
      stale := true, observedAt := c.now }
  else
    p

def draws (c : ScheduleContext) (db : Database) (p : ProblemRow) : Bool :=
  if p.dirty then p.dirtyGeneration.isNone && !c.parked p.externalId
  else cleanWithoutReady db p.externalId p

def turnConflict (c : ScheduleContext) (db : Database) (p : ProblemRow) : Option CreateJobError :=
  if wants c db p then autoConflict c p (generationFor db p) db else none

def turnRows (c : ScheduleContext) (db : Database) (p : ProblemRow) (scanId snapshotId : Uuid) :
    List JobRow :=
  if wants c db p then autoRows c p (generationFor db p) db scanId snapshotId else []

structure Turn (c : ScheduleContext) (p : ProblemRow) (db : Database)
    (out : Database × Except CreateJobError (Option ScheduledJobs)) : Prop where
  usage : out.1.problemUsage = db.problemUsage
  snapshots : out.1.snapshots = db.snapshots
  ids : out.1.problems.map ProblemRow.externalId = db.problems.map ProblemRow.externalId
  row : rowOf out.1 p.externalId = some (dirtied c db p)
  others : ∀ q, q ≠ p.externalId → rowOf out.1 q = rowOf db q ∧ nextOf out.1 q = nextOf db q
  next : nextOf out.1 p.externalId = nextOf db p.externalId + if draws c db p then 1 else 0
  conflict : conflictOf out.2 = turnConflict c db p
  rows : ∃ scanId snapshotId,
    (∀ j ∈ turnRows c db p scanId snapshotId, ∀ k ∈ db.jobs, k.id ≠ j.id) ∧
      out.1.jobs.map jobFacts = db.jobs.map jobFacts ++ turnRows c db p scanId snapshotId
  indexes : JobIndexes out.1.jobs

section OneTurn

variable {c : ScheduleContext} {p : ProblemRow} {db : Database}

variable (db) in
theorem nextOf_allocateGeneration (externalId q : String) (problems : List ProblemRow) :
    nextOf { db with
        problemGenerationCounters := (allocateGeneration externalId db.problemGenerationCounters).1
        problems := problems } q =
      nextOf db q + if q = externalId then 1 else 0 := by
  by_cases hq : q = externalId
  · subst hq
    rw [if_pos rfl]
    exact (Snapshot.allocateGeneration_eq q db.problemGenerationCounters).2
  · rw [if_neg hq, Int.add_zero, nextOf, nextOf, nextGeneration, nextGeneration, allocateGeneration]
    dsimp only
    rw [find?_upsertOn (by exact fun _ => rfl), if_neg hq]

/-- What `markDirtyIfNoReady` makes of a clean problem. -/
structure Marked (c : ScheduleContext) (p : ProblemRow) (db : Database)
    (out : Database × Option ProblemRow) : Prop where
  others : out.1 = { db with
    problems := out.1.problems
    problemGenerationCounters := out.1.problemGenerationCounters }
  ids : out.1.problems.map ProblemRow.externalId = db.problems.map ProblemRow.externalId
  row : rowOf out.1 p.externalId = some (dirtied c db p)
  otherRows : ∀ q, q ≠ p.externalId → rowOf out.1 q = rowOf db q
  next : ∀ q, nextOf out.1 q =
    nextOf db q + if q = p.externalId ∧ cleanWithoutReady db p.externalId p = true then 1 else 0
  returned : out.2.getD p = dirtied c db p

theorem markDirtyIfNoReady_spec (hids : (db.problems.map ProblemRow.externalId).Nodup)
    (hrow : rowOf db p.externalId = some p) (hdirty : p.dirty = false) :
    Marked c p db (markDirtyIfNoReady c.now p.externalId db) := by
  have hmem : p ∈ db.problems := List.mem_of_find?_eq_some hrow
  unfold markDirtyIfNoReady
  by_cases hclean : cleanWithoutReady db p.externalId p = true
  · have hany : db.problems.any (cleanWithoutReady db p.externalId) = true :=
      List.any_eq_true.mpr ⟨p, hmem, hclean⟩
    rw [if_pos hany]
    dsimp only
    generalize hallocate : allocateGeneration p.externalId db.problemGenerationCounters = allocated
    have hnext := nextOf_allocateGeneration db p.externalId
    have hgeneration : allocated.2 = nextOf db p.externalId :=
      hallocate ▸ (Snapshot.allocateGeneration_eq p.externalId db.problemGenerationCounters).1
    rw [hallocate] at hnext
    -- The rows after the two updates, looked up by their keys.
    generalize hproblems : updateWhere (fun r : ProblemRow => r.externalId = p.externalId && r.dirty)
      (fun r => { r with dirtyGeneration := some allocated.2 })
      (updateWhere (cleanWithoutReady db p.externalId) (fun r => { r with
        dirty := true, dirtyGeneration := none, stale := true, observedAt := c.now })
        db.problems) = problems
    have hfind : ∀ q, (problems.find? fun r => r.externalId = q) =
        ((rowOf db q).map fun r => if cleanWithoutReady db p.externalId r then { r with
          dirty := true, dirtyGeneration := none, stale := true, observedAt := c.now } else r).map
        fun r => if r.externalId = p.externalId && r.dirty then
          { r with dirtyGeneration := some allocated.2 } else r := by
      intro q
      rw [← hproblems, find?_key_updateWhere (by exact fun _ => rfl),
        find?_key_updateWhere (by exact fun _ => rfl)]
      rfl
    have hdirtied : dirtied c db p = { p with
        dirty := true, dirtyGeneration := some (nextOf db p.externalId)
        stale := true, observedAt := c.now } := by
      rw [dirtied, if_pos]
      simp [hdirty, hclean]
    have hown : (problems.find? fun r => r.externalId = p.externalId) = some (dirtied c db p) := by
      rw [hfind, hrow, Option.map_some, Option.map_some, if_pos hclean, hdirtied, hgeneration]
      simp
    refine ⟨rfl, ?_, hown, ?_, ?_, ?_⟩
    · dsimp only
      rw [← hproblems, map_updateWhere (by exact fun _ => rfl), map_updateWhere (by exact fun _ => rfl)]
    · intro q hq
      rw [rowOf]
      dsimp only
      rw [hfind]
      cases hr : rowOf db q with
      | none => rfl
      | some r =>
          have hid : r.externalId = q := by simpa using List.find?_some hr
          simp [cleanWithoutReady, hid, hq]
    · intro q
      simp only [hclean, and_true]
      exact hnext q problems
    · have hrow' : (dirtied c db p).dirty = true := by rw [hdirtied]
      have hfound := find?_key_and hown hrow'
      rw [hfound]
      rfl
  · have hany : ¬ db.problems.any (cleanWithoutReady db p.externalId) = true := by
      rw [List.any_eq_true]
      rintro ⟨r, hr, hclean'⟩
      have hid : r.externalId = p.externalId := by
        simp only [cleanWithoutReady, Bool.and_eq_true, decide_eq_true_eq] at hclean'
        exact hclean'.1.1.1
      rw [List.inj_on_of_nodup_map hids hr hmem hid] at hclean'
      exact hclean hclean'
    have hsame : dirtied c db p = p := by
      rw [dirtied, if_neg]
      simp [hclean]
    rw [if_neg hany]
    refine ⟨rfl, rfl, ?_, fun _ _ => rfl, ?_, ?_⟩
    · rw [hsame]
      exact hrow
    · intro q
      rw [if_neg fun h => hclean h.2, Int.add_zero]
    · rw [hsame]
      rfl

/-- The database when the turn comes to its requests, or to its end without any. -/
structure Prepared (c : ScheduleContext) (p : ProblemRow) (db t : Database) : Prop where
  others : t = { db with
    problems := t.problems, problemGenerationCounters := t.problemGenerationCounters }
  ids : t.problems.map ProblemRow.externalId = db.problems.map ProblemRow.externalId
  row : rowOf t p.externalId = some (dirtied c db p)
  otherRows : ∀ q, q ≠ p.externalId → rowOf t q = rowOf db q
  next : ∀ q, nextOf t q =
    nextOf db q + if q = p.externalId ∧ draws c db p = true then 1 else 0

theorem Prepared.jobs {t : Database} (h : Prepared c p db t) : t.jobs = db.jobs := by
  rw [h.others]

theorem Prepared.others' {t : Database} (h : Prepared c p db t) {q : String}
    (hq : q ≠ p.externalId) : rowOf t q = rowOf db q ∧ nextOf t q = nextOf db q := by
  refine ⟨h.otherRows q hq, ?_⟩
  rw [h.next, if_neg fun h => hq h.1, Int.add_zero]

theorem Prepared.own {t : Database} (h : Prepared c p db t) :
    nextOf t p.externalId = nextOf db p.externalId + if draws c db p then 1 else 0 := by
  rw [h.next]
  simp only [true_and]

theorem Prepared.idle {t : Database} (h : Prepared c p db t) (hidx : JobIndexes db.jobs)
    (hwants : wants c db p = false) : Turn c p db (t, .ok none) := by
  have hjobs := h.jobs
  have hothers := h.others
  refine ⟨?_, ?_, h.ids, h.row, fun q hq => h.others' hq, h.own, ?_, ⟨0, 0, ?_, ?_⟩, ?_⟩
  · rw [hothers]
  · rw [hothers]
  · rw [turnConflict, hwants]
    rfl
  · rw [turnRows, hwants]
    exact fun j hj => absurd hj List.not_mem_nil
  · rw [turnRows, hwants, hjobs]
    exact (List.append_nil _).symm
  · rw [hjobs]
    exact hidx

theorem Prepared.creating {t : Database} (h : Prepared c p db t) (hdraws : DrawsNew c)
    (hidx : JobIndexes db.jobs) (hwants : wants c db p = true) :
    Turn c p db (createAutoJobs c p (generationFor db p) t) := by
  have hjobs := h.jobs
  have hothers := h.others
  have hscan : scanAnswer c p t = scanAnswer c p db := by rw [scanAnswer, hjobs, scanAnswer]
  have hsnapshot : snapshotAnswer c p (generationFor db p) t =
      snapshotAnswer c p (generationFor db p) db := by
    rw [snapshotAnswer, hjobs, snapshotAnswer]
  have hconflict : autoConflict c p (generationFor db p) t =
      autoConflict c p (generationFor db p) db := by
    rw [autoConflict, hscan, hsnapshot, autoConflict]
  have hrows : autoRows c p (generationFor db p) t = autoRows c p (generationFor db p) db := by
    funext scanId snapshotId
    simp only [autoRows, hscan, hsnapshot]
  obtain ⟨hcreated, hconflict', ⟨scanId, snapshotId, hfresh, hfacts⟩, hindexes⟩ :=
    createAutoJobs_spec p (generationFor db p) hdraws (hjobs ▸ hidx)
  generalize createAutoJobs c p (generationFor db p) t = out at hcreated hconflict' hfacts hindexes ⊢
  have hproblems : out.1.problems = t.problems := by rw [hcreated]
  have hcounters : out.1.problemGenerationCounters = t.problemGenerationCounters := by rw [hcreated]
  have hrowOf : ∀ q, rowOf out.1 q = rowOf t q := by
    intro q
    rw [rowOf, hproblems, rowOf]
  have hnextOf : ∀ q, nextOf out.1 q = nextOf t q := by
    intro q
    rw [nextOf, hcounters, nextOf]
  refine ⟨?_, ?_, ?_, ?_, ?_, ?_, ?_, ⟨scanId, snapshotId, ?_, ?_⟩, hindexes⟩
  · rw [hcreated, hothers]
  · rw [hcreated, hothers]
  · rw [hproblems, h.ids]
  · rw [hrowOf, h.row]
  · intro q hq
    rw [hrowOf, hnextOf]
    exact h.others' hq
  · rw [hnextOf, h.own]
  · rw [hconflict', hconflict, turnConflict, if_pos hwants]
  · rw [turnRows, if_pos hwants, ← hrows, ← hjobs]
    exact hfresh
  · rw [turnRows, if_pos hwants, ← hrows, ← hjobs]
    exact hfacts

theorem prepared_self (hrow : rowOf db p.externalId = some p) (hdraws : draws c db p = false)
    (hsame : dirtied c db p = p) : Prepared c p db db := by
  refine ⟨rfl, rfl, hsame.symm ▸ hrow, fun _ _ => rfl, ?_⟩
  intro q
  rw [hdraws, if_neg fun h => Bool.noConfusion h.2, Int.add_zero]

/-- A problem that is dirty has its own generation, or takes one from the counter. -/
theorem dirtyGenerationOf_spec (hrow : rowOf db p.externalId = some p) (hdirty : p.dirty = true)
    (hparked : c.parked p.externalId = false) :
    Prepared c p db (dirtyGenerationOf p db).1 ∧
      (dirtyGenerationOf p db).2 = generationFor db p := by
  have hsame : dirtied c db p = p := by
    rw [dirtied, hdirty]
    rfl
  unfold dirtyGenerationOf generationFor
  rw [if_pos hdirty]
  cases hgeneration : p.dirtyGeneration with
  | some generation =>
      refine ⟨prepared_self hrow ?_ hsame, rfl⟩
      simp [draws, hdirty, hgeneration]
  | none =>
      refine ⟨⟨rfl, rfl, hsame.symm ▸ hrow, fun _ _ => rfl, ?_⟩,
        (Snapshot.allocateGeneration_eq p.externalId db.problemGenerationCounters).1⟩
      intro q
      have hdraws : draws c db p = true := by simp [draws, hdirty, hgeneration, hparked]
      simp only [hdraws, and_true]
      exact nextOf_allocateGeneration db p.externalId q db.problems

theorem scheduleProblem_turn (hdraws : DrawsNew c) (hidx : JobIndexes db.jobs)
    (hids : (db.problems.map ProblemRow.externalId).Nodup)
    (hrow : rowOf db p.externalId = some p) : Turn c p db (scheduleProblem c p db) := by
  unfold scheduleProblem
  cases hdirty : p.dirty with
  | true =>
      rw [if_pos rfl, scheduleAutoSnapshotJobs, hdirty, if_neg (by decide)]
      cases hparked : c.parked p.externalId with
      | true =>
          rw [if_pos rfl]
          apply (prepared_self hrow ?_ ?_).idle hidx
          · simp [wants, hparked]
          · simp [draws, hdirty, hparked]
          · rw [dirtied, hdirty]
            rfl
      | false =>
          obtain ⟨hprepared, hgeneration⟩ := dirtyGenerationOf_spec hrow hdirty hparked
          rw [if_neg Bool.false_ne_true]
          dsimp only
          rw [hgeneration]
          apply hprepared.creating hdraws hidx
          simp [wants, becomesDirty, hdirty, hparked]
  | false =>
      obtain ⟨hothers, hids', hrow', hotherRows, hnext, hreturned⟩ :=
        markDirtyIfNoReady_spec (c := c) hids hrow hdirty
      rw [if_neg Bool.false_ne_true]
      dsimp only
      rw [hreturned]
      generalize markDirtyIfNoReady c.now p.externalId db = m at hothers hids' hrow' hotherRows hnext ⊢
      have hprepared : Prepared c p db m.1 := by
        refine ⟨hothers, hids', hrow', hotherRows, ?_⟩
        intro q
        rw [hnext, draws, hdirty]
        rfl
      unfold scheduleAutoSnapshotJobs
      cases hclean : cleanWithoutReady db p.externalId p with
      | false =>
          have hsame : dirtied c db p = p := by
            rw [dirtied, hclean, Bool.and_false]
            rfl
          rw [hsame, hdirty, if_pos (by decide)]
          apply hprepared.idle hidx
          simp [wants, becomesDirty, hdirty, hclean]
      | true =>
          have hdirtied : dirtied c db p = { p with
              dirty := true, dirtyGeneration := some (nextOf db p.externalId)
              stale := true, observedAt := c.now } := by
            rw [dirtied, hdirty, hclean]
            rfl
          have hgeneration : generationFor db p = nextOf db p.externalId := by
            rw [generationFor, hdirty]
            rfl
          rw [hdirtied, if_neg (by exact Bool.false_ne_true)]
          cases hparked : c.parked p.externalId with
          | true =>
              rw [if_pos rfl]
              apply hprepared.idle hidx
              simp [wants, hparked]
          | false =>
              rw [if_neg Bool.false_ne_true]
              have hwants : wants c db p = true := by
                simp [wants, becomesDirty, hclean, hparked]
              have hturn := hprepared.creating hdraws hidx hwants
              rw [hgeneration] at hturn
              exact hturn

end OneTurn

/-! ## What a turn of another problem leaves -/

def ForProblem (q : String) (j : JobRow) : Prop := j.problemId = some q ∨ AutoKeyed q j

/-- A turn of the problem reads the same in both databases. -/
structure SameFor (q : String) (db db' : Database) : Prop where
  usage : db'.problemUsage = db.problemUsage
  snapshots : db'.snapshots = db.snapshots
  row : rowOf db' q = rowOf db q
  next : nextOf db' q = nextOf db q
  jobs : ∀ f, ForProblem q f → (f ∈ db'.jobs.map jobFacts ↔ f ∈ db.jobs.map jobFacts)

theorem SameFor.refl (q : String) (db : Database) : SameFor q db db :=
  ⟨rfl, rfl, rfl, rfl, fun _ _ => Iff.rfl⟩

theorem SameFor.trans {q : String} {db db' db'' : Database} (h : SameFor q db db')
    (h' : SameFor q db' db'') : SameFor q db db'' :=
  ⟨h'.usage.trans h.usage, h'.snapshots.trans h.snapshots, h'.row.trans h.row,
    h'.next.trans h.next, fun f hf => (h'.jobs f hf).trans (h.jobs f hf)⟩

section Rows

variable {c : ScheduleContext} {p : ProblemRow} {db : Database} {scanId snapshotId : Uuid}

structure AutoRow (q : String) (j : JobRow) : Prop where
  problem : j.problemId = some q
  keyed : AutoKeyed q j
  kind : j.jobType = .scan ∨ j.jobType = .snapshot
  pending : j.state = .pending
  plain : jobFacts j = j

theorem autoRow_of_mem_turnRows {j : JobRow} (hj : j ∈ turnRows c db p scanId snapshotId) :
    AutoRow p.externalId j := by
  unfold turnRows autoRows at hj
  split at hj
  · rcases List.mem_append.mp hj with hj | hj
    · split at hj
      · rw [List.mem_singleton.mp hj]
        exact ⟨rfl, ⟨_, _, .inl ⟨rfl, rfl⟩⟩, .inl rfl, rfl, rfl⟩
      · cases hj
    · split at hj
      · rw [List.mem_singleton.mp hj]
        exact ⟨rfl, ⟨_, _, .inr ⟨rfl, rfl⟩⟩, .inr rfl, rfl, rfl⟩
      · cases hj
  · cases hj

theorem AutoRow.not_forProblem {q q' : String} {j : JobRow} (h : AutoRow q j) (hne : q' ≠ q) :
    ¬ ForProblem q' j := by
  rintro (hproblem | hkeyed)
  · exact hne (Option.some.inj (hproblem.symm.trans h.problem))
  · exact hne (hkeyed.eq h.keyed)

theorem Turn.sameFor {out : Database × Except CreateJobError (Option ScheduledJobs)}
    (h : Turn c p db out) {q : String} (hq : q ≠ p.externalId) : SameFor q db out.1 := by
  obtain ⟨scanId, snapshotId, -, hfacts⟩ := h.rows
  refine ⟨h.usage, h.snapshots, (h.others q hq).1, (h.others q hq).2, ?_⟩
  intro f hf
  rw [hfacts, List.mem_append]
  refine or_iff_left ?_
  intro hrow
  exact (autoRow_of_mem_turnRows hrow).not_forProblem hq hf

end Rows

section Same

variable {c : ScheduleContext} {p : ProblemRow} {db db' : Database}

theorem SameFor.clean (h : SameFor p.externalId db db') :
    cleanWithoutReady db' p.externalId p = cleanWithoutReady db p.externalId p := by
  rw [cleanWithoutReady, h.snapshots, cleanWithoutReady]

theorem SameFor.wants (h : SameFor p.externalId db db') :
    Jobs.wants c db' p = Jobs.wants c db p := by
  rw [Jobs.wants, becomesDirty, h.clean, Jobs.wants, becomesDirty]

theorem SameFor.generationFor (h : SameFor p.externalId db db') :
    Jobs.generationFor db' p = Jobs.generationFor db p := by
  rw [Jobs.generationFor, h.next, Jobs.generationFor]

theorem SameFor.dirtied (h : SameFor p.externalId db db') :
    Jobs.dirtied c db' p = Jobs.dirtied c db p := by
  rw [Jobs.dirtied, h.clean, h.next, Jobs.dirtied]

theorem SameFor.draws (h : SameFor p.externalId db db') :
    Jobs.draws c db' p = Jobs.draws c db p := by
  rw [Jobs.draws, h.clean, Jobs.draws]

theorem SameFor.scanAnswer (h : SameFor p.externalId db db') :
    Jobs.scanAnswer c p db' = Jobs.scanAnswer c p db := by
  apply answerOf_congr
  rintro f (⟨hkey, htype⟩ | hproblem)
  · exact h.jobs f (.inr ⟨_, _, .inl ⟨htype, hkey⟩⟩)
  · exact h.jobs f (.inl hproblem)

theorem SameFor.snapshotAnswer (h : SameFor p.externalId db db') (generation : Int) :
    Jobs.snapshotAnswer c p generation db' = Jobs.snapshotAnswer c p generation db := by
  apply answerOf_congr
  rintro f (⟨hkey, htype⟩ | hproblem)
  · exact h.jobs f (.inr ⟨_, _, .inr ⟨htype, hkey⟩⟩)
  · exact h.jobs f (.inl hproblem)

theorem SameFor.turnConflict (h : SameFor p.externalId db db') :
    Jobs.turnConflict c db' p = Jobs.turnConflict c db p := by
  rw [Jobs.turnConflict, h.wants, autoConflict, h.scanAnswer, h.snapshotAnswer, h.generationFor]
  rfl

theorem SameFor.turnRows (h : SameFor p.externalId db db') :
    Jobs.turnRows c db' p = Jobs.turnRows c db p := by
  funext scanId snapshotId
  simp only [Jobs.turnRows, h.wants, autoRows, h.scanAnswer, h.snapshotAnswer, h.generationFor]

end Same

end ExternalStorage.Jobs
