import ExternalStorage.Model.Errors
import ExternalStorage.Model.Tables

/-!
# Job statements

The statements that hand out fencing tokens: `acquireJob`, `cancelJob`,
`failExpiredRunningJobs` and `retryJob` of the control plane, and the transaction of
the watcher's `acquire_dirty_snapshot_job_by_code`.  A statement that a unique index
of migrations 007 and 008 turns down changes nothing.
-/

namespace ExternalStorage.Model

open Library.Table

/-! ## Counters -/

/-- `COALESCE(problem_id, '__global__')`. -/
def JobRow.counterKey (j : JobRow) : String := j.problemId.getD "__global__"

/-- Where the counter of a key stands; a key without a row starts at 1. -/
def nextToken (counters : List FencingCounterRow) (key : String) : Int :=
  ((counters.find? fun c => c.problemId = key).map FencingCounterRow.nextToken).getD 1

/-- `INSERT INTO job_fencing_counters VALUES (key, seed) ON CONFLICT (problem_id) DO UPDATE
SET next_token = …`. -/
def bumpCounter (key : String) (seed : Int) (advance : Int → Int)
    (counters : List FencingCounterRow) : List FencingCounterRow :=
  upsertOn FencingCounterRow.problemId ⟨key, seed⟩
    (fun c => { c with nextToken := advance c.nextToken }) counters

/-- A statement seeds a missing counter as if it advanced one that stands at 1. -/
theorem nextToken_bumpCounter (key : String) {seed : Int} (advance : Int → Int)
    (hseed : seed = advance 1) (counters : List FencingCounterRow) (k : String) :
    nextToken (bumpCounter key seed advance counters) k =
      if k = key then advance (nextToken counters k) else nextToken counters k := by
  unfold nextToken bumpCounter
  rw [find?_upsertOn (by intro c; rfl)]
  split
  · cases hfound : counters.find? fun c => c.problemId = k with
    | none => simp [hseed]
    | some c => simp
  · rfl

/-! ## The guards on active jobs -/

def JobType.exclusive : JobType → Bool
  | .scan | .snapshot | .restore | .evict => true
  | _ => false

def JobState.active : JobState → Bool
  | .pending | .running => true
  | _ => false

/-- `idx_jobs_one_active_problem_job_type`, `idx_jobs_one_running_problem_operation` and
`idx_jobs_one_active_gc_collect`. -/
def conflicting (j k : JobRow) : Bool :=
  j.state.active && k.state.active &&
    ((j.problemId.isSome && j.problemId = k.problemId && j.jobType.exclusive &&
        k.jobType.exclusive &&
        (j.jobType = k.jobType || (j.state = .running && k.state = .running))) ||
      (j.problemId = none && k.problemId = none && j.jobType = .gcCollect &&
        k.jobType = .gcCollect))

def activeGuards (jobs : List JobRow) : Bool :=
  jobs.all fun j => jobs.all fun k => j.id = k.id || !conflicting j k

theorem conflicting_eq_true {j k : JobRow} :
    conflicting j k = true ↔ j.state.active = true ∧ k.state.active = true ∧
      (j.problemId.isSome = true ∧ j.problemId = k.problemId ∧ j.jobType.exclusive = true ∧
          k.jobType.exclusive = true ∧
          (j.jobType = k.jobType ∨ j.state = .running ∧ k.state = .running) ∨
        j.problemId = none ∧ k.problemId = none ∧ j.jobType = .gcCollect ∧
          k.jobType = .gcCollect) := by
  simp only [conflicting, Bool.and_eq_true, Bool.or_eq_true, decide_eq_true_eq, and_assoc]

theorem conflicting_comm (j k : JobRow) : conflicting j k = conflicting k j := by
  rw [Bool.eq_iff_iff, conflicting_eq_true, conflicting_eq_true]
  constructor
  · rintro ⟨hj, hk, ⟨hsome, hid, hjx, hkx, hsame⟩ | ⟨hjn, hkn, hjt, hkt⟩⟩
    · exact ⟨hk, hj, .inl ⟨hid ▸ hsome, hid.symm, hkx, hjx, hsame.imp Eq.symm And.symm⟩⟩
    · exact ⟨hk, hj, .inr ⟨hkn, hjn, hkt, hjt⟩⟩
  · rintro ⟨hk, hj, ⟨hsome, hid, hkx, hjx, hsame⟩ | ⟨hkn, hjn, hkt, hjt⟩⟩
    · exact ⟨hj, hk, .inl ⟨hid ▸ hsome, hid.symm, hjx, hkx, hsame.imp Eq.symm And.symm⟩⟩
    · exact ⟨hj, hk, .inr ⟨hjn, hkn, hjt, hkt⟩⟩

theorem activeGuards_iff {jobs : List JobRow} :
    activeGuards jobs = true ↔
      ∀ j ∈ jobs, ∀ k ∈ jobs, j.id ≠ k.id → conflicting j k = false := by
  simp only [activeGuards, List.all_eq_true, Bool.or_eq_true, decide_eq_true_eq,
    Bool.not_eq_true', or_iff_not_imp_left]

theorem activeGuards_updateWhere {p : JobRow → Bool} {f : JobRow → JobRow} {jobs : List JobRow}
    (hguards : activeGuards jobs = true) (hid : ∀ j, (f j).id = j.id) :
    activeGuards (updateWhere p f jobs) = true ↔
      ∀ j ∈ jobs, ∀ k ∈ jobs, j.id ≠ k.id → p j = true →
        conflicting (f j) (if p k then f k else k) = false := by
  have hids : ∀ j, (if p j then f j else j).id = j.id := by
    intro j
    split
    · exact hid j
    · rfl
  rw [activeGuards_iff] at hguards ⊢
  constructor
  · intro h j hj k hk hne hp
    have hpair := h _ (mem_updateWhere.mpr ⟨j, hj, rfl⟩) _ (mem_updateWhere.mpr ⟨k, hk, rfl⟩)
      (by rw [hids, hids]; exact hne)
    rwa [if_pos hp] at hpair
  · intro h j' hj' k' hk' hne
    obtain ⟨j, hj, rfl⟩ := mem_updateWhere.mp hj'
    obtain ⟨k, hk, rfl⟩ := mem_updateWhere.mp hk'
    rw [hids, hids] at hne
    by_cases hpj : p j = true
    · rw [if_pos hpj]
      exact h j hj k hk hne hpj
    · by_cases hpk : p k = true
      · rw [conflicting_comm, if_pos hpk]
        exact h k hk j hj hne.symm hpk
      · rw [if_neg hpj, if_neg hpk]
        exact hguards j hj k hk hne

theorem activeGuards_append {jobs : List JobRow} {n : JobRow} (hguards : activeGuards jobs = true) :
    activeGuards (jobs ++ [n]) = true ↔
      ∀ j ∈ jobs, j.id ≠ n.id → conflicting j n = false := by
  rw [activeGuards_iff] at hguards ⊢
  constructor
  · intro h j hj hne
    exact h j (List.mem_append_left _ hj) n (List.mem_append_right _ (List.mem_singleton_self n)) hne
  · intro h j hj k hk hne
    rw [List.mem_append, List.mem_singleton] at hj hk
    rcases hj with hj | rfl
    · rcases hk with hk | rfl
      · exact hguards j hj k hk hne
      · exact h j hj hne
    · rcases hk with hk | rfl
      · rw [conflicting_comm]
        exact h k hk hne.symm
      · exact absurd rfl hne

/-! ## `acquireJob` -/

inductive JobLane where
  | restore | bulk
  deriving DecidableEq, Repr

/-- `lease_expires_at < now()`. -/
def JobRow.leaseExpired (now : Timestamp) (j : JobRow) : Bool :=
  match j.leaseExpiresAt with
  | none => false
  | some t => t < now

/-- The `WHERE` clause of the CTE `candidate`. -/
def acquirable (now : Timestamp) (lane : JobLane) (paused : Bool) (j : JobRow) : Bool :=
  j.attempt < j.maxAttempts &&
    ((j.state = .pending && !paused) || (j.state = .running && j.leaseExpired now)) &&
    (lane = .bulk || j.jobType = .restore)

/-- `ORDER BY created_at, id`, where the bulk lane puts restores first. -/
def JobRow.before (lane : JobLane) (j k : JobRow) : Bool :=
  if lane = .bulk && j.jobType = .restore && k.jobType ≠ .restore then
    true
  else if lane = .bulk && j.jobType ≠ .restore && k.jobType = .restore then
    false
  else
    j.createdAt < k.createdAt || (j.createdAt = k.createdAt && j.id < k.id)

/-- The row `acquireJob` takes; `locked` are the rows that `SKIP LOCKED` passes over. -/
def acquireCandidate (now : Timestamp) (lane : JobLane) (paused : Bool) (locked : List Uuid)
    (jobs : List JobRow) : Option JobRow :=
  firstBy (JobRow.before lane)
    (jobs.filter fun j => acquirable now lane paused j && !locked.contains j.id)

def seconds (n : Int) : Int := n * microsPerSecond

/-- The `SET` clause of `acquireJob`. -/
def JobRow.acquired (worker : String) (leaseExpiresAt : Timestamp) (token : Int) (j : JobRow) :
    JobRow :=
  { j with
    state := .running, leaseOwner := some worker, leaseExpiresAt := some leaseExpiresAt
    fencingToken := token
    attempt := if j.state = .pending then j.attempt else j.attempt + 1
    errorCode := none, errorMessage := none }

/-- The statement of `acquireJob` that follows `failExpiredRunningJobs`, with the token it
issues. -/
def acquireJob (now : Timestamp) (worker : String) (leaseSeconds : Int) (lane : JobLane)
    (paused : Bool) (locked : List Uuid) (db : Database) :
    Option (Database × JobRow × Int) := do
  let c ← acquireCandidate now lane paused locked db.jobs
  let counters := bumpCounter c.counterKey 2 (· + 1) db.jobFencingCounters
  let token := nextToken counters c.counterKey - 1
  let jobs := updateWhere (fun j => j.id = c.id && j.attempt < j.maxAttempts)
    (JobRow.acquired worker (now + seconds leaseSeconds) token) db.jobs
  if activeGuards jobs then
    some ({ db with jobs := jobs, jobFencingCounters := counters }, c, token)
  else
    none

theorem acquireJob_rows {now : Timestamp} {worker : String} {leaseSeconds : Int} {lane : JobLane}
    {paused : Bool} {locked : List Uuid} {db db' : Database} {c : JobRow} {token : Int}
    (h : acquireJob now worker leaseSeconds lane paused locked db = some (db', c, token)) :
    acquireCandidate now lane paused locked db.jobs = some c ∧
      db'.jobs = updateWhere (fun j => j.id = c.id && j.attempt < j.maxAttempts)
        (JobRow.acquired worker (now + seconds leaseSeconds) token) db.jobs ∧
      activeGuards db'.jobs = true := by
  unfold acquireJob at h
  obtain ⟨c', hc, h⟩ := Option.bind_eq_some_iff.mp h
  dsimp only at h
  split at h
  · rename_i hguards
    cases h
    exact ⟨hc, rfl, hguards⟩
  · cases h

theorem acquireJob_usage {now : Timestamp} {worker : String} {leaseSeconds : Int} {lane : JobLane}
    {paused : Bool} {locked : List Uuid} {db db' : Database} {c : JobRow} {token : Int}
    (h : acquireJob now worker leaseSeconds lane paused locked db = some (db', c, token)) :
    db'.problemUsage = db.problemUsage := by
  unfold acquireJob at h
  obtain ⟨c', -, h⟩ := Option.bind_eq_some_iff.mp h
  dsimp only at h
  split at h
  · cases h
    rfl
  · cases h

theorem acquirable_iff {now : Timestamp} {lane : JobLane} {paused : Bool} {j : JobRow} :
    acquirable now lane paused j = true ↔ j.attempt < j.maxAttempts ∧
      (j.state = .pending ∧ paused = false ∨ j.state = .running ∧ j.leaseExpired now = true) ∧
      (lane = .bulk ∨ j.jobType = .restore) := by
  simp only [acquirable, Bool.and_eq_true, Bool.or_eq_true, decide_eq_true_eq, Bool.not_eq_true',
    and_assoc]

/-- The statement takes jobs that wait and jobs whose lease has expired. -/
theorem acquirable_active {now : Timestamp} {lane : JobLane} {paused : Bool} {c : JobRow}
    (h : acquirable now lane paused c = true) :
    c.state.active = true ∧ c.attempt < c.maxAttempts := by
  obtain ⟨hattempts, hstate, -⟩ := acquirable_iff.mp h
  refine ⟨?_, hattempts⟩
  rcases hstate with ⟨hpending, -⟩ | ⟨hrunning, -⟩
  · rw [hpending]
    rfl
  · rw [hrunning]
    rfl

theorem acquireCandidate_mem {now : Timestamp} {lane : JobLane} {paused : Bool}
    {locked : List Uuid} {jobs : List JobRow} {c : JobRow}
    (h : acquireCandidate now lane paused locked jobs = some c) :
    c ∈ jobs ∧ acquirable now lane paused c = true := by
  obtain ⟨hmem, hacquirable⟩ := List.mem_filter.mp (mem_of_firstBy h)
  rw [Bool.and_eq_true] at hacquirable
  exact ⟨hmem, hacquirable.1⟩

/-! ## `cancelJob`, `failExpiredRunningJobs` and `retryJob` -/

def JobRow.cancelled (now : Timestamp) (reason : Option String) (token : Int) (j : JobRow) :
    JobRow :=
  { j with
    state := .cancelled, fencingToken := token, requestedCancelAt := some now
    requestedCancelReason := reason, errorMessage := reason, completedAt := some now }

def cancelJob (now : Timestamp) (id : Uuid) (reason : Option String) (db : Database) :
    Option (Database × JobRow × Int) := do
  let l ← db.jobs.find? fun j => j.id = id && j.state.active
  let counters := bumpCounter l.counterKey 2 (· + 1) db.jobFencingCounters
  let token := nextToken counters l.counterKey - 1
  some ({ db with
    jobs := updateWhere (fun j => j.id = l.id) (JobRow.cancelled now reason token) db.jobs
    jobFencingCounters := counters }, l, token)

theorem cancelJob_rows {now : Timestamp} {id : Uuid} {reason : Option String} {db db' : Database}
    {j : JobRow} {token : Int} (h : cancelJob now id reason db = some (db', j, token)) :
    j ∈ db.jobs ∧ j.state.active = true ∧
      db'.jobs = updateWhere (fun k => k.id = j.id) (JobRow.cancelled now reason token) db.jobs := by
  unfold cancelJob at h
  obtain ⟨l, hl, h⟩ := Option.bind_eq_some_iff.mp h
  cases h
  have hfound := List.find?_some hl
  rw [Bool.and_eq_true] at hfound
  exact ⟨List.mem_of_find?_eq_some hl, hfound.2, rfl⟩

/-- The rows of the CTE `locked`. -/
def expiredRunning (now : Timestamp) (jobs : List JobRow) : List JobRow :=
  jobs.filter fun j => j.state = .running && j.leaseExpired now && j.attempt ≥ j.maxAttempts

/-- `COUNT(*) … GROUP BY counter_key`. -/
def revokedCount (revoked : List JobRow) (key : String) : Nat :=
  revoked.countP fun j => j.counterKey = key

/-- `ROW_NUMBER() OVER (PARTITION BY counter_key ORDER BY id)`. -/
def revokedRank (revoked : List JobRow) (j : JobRow) : Nat :=
  revoked.countP fun k => k.counterKey = j.counterKey && k.id ≤ j.id

/-- The CTE `bumped`: one upsert for each group. -/
def bumpRevoked (revoked : List JobRow) (counters : List FencingCounterRow) :
    List FencingCounterRow :=
  (revoked.map JobRow.counterKey).dedup.foldl (fun counters key =>
    bumpCounter key (revokedCount revoked key + 1)
      (fun next => next + (revokedCount revoked key + 1) - 1) counters) counters

/-- The CTE `assigned`. -/
def revokedToken (revoked : List JobRow) (counters : List FencingCounterRow) (j : JobRow) : Int :=
  nextToken counters j.counterKey - revokedCount revoked j.counterKey + revokedRank revoked j - 1

def failExpiredRunningJobs (now : Timestamp) (db : Database) : Database :=
  let revoked := expiredRunning now db.jobs
  let counters := bumpRevoked revoked db.jobFencingCounters
  { db with
    jobFencingCounters := counters
    jobs := updateWhere (fun j => revoked.any fun r => r.id = j.id)
      (fun j => { j with
        state := .failed, fencingToken := revokedToken revoked counters j
        errorCode := some "lease_expired"
        errorMessage := some "Worker lease expired before completion"
        completedAt := some now }) db.jobs }

def retryJob (id : Uuid) (db : Database) : Option Database :=
  let jobs := updateWhere
    (fun j => j.id = id && (j.state = .failed || j.state = .cancelled) &&
      j.attempt < j.maxAttempts)
    (fun j => { j with
      state := .pending, leaseOwner := none, leaseExpiresAt := none, requestedCancelAt := none
      requestedCancelReason := none, errorCode := none, errorMessage := none }) db.jobs
  if activeGuards jobs then some { db with jobs := jobs } else none

theorem retryJob_eq_some {id : Uuid} {db db' : Database} (h : retryJob id db = some db') :
    activeGuards db'.jobs = true ∧ db' = { db with
      jobs := updateWhere
        (fun j => j.id = id && (j.state = .failed || j.state = .cancelled) &&
          j.attempt < j.maxAttempts)
        (fun j => { j with
          state := .pending, leaseOwner := none, leaseExpiresAt := none, requestedCancelAt := none
          requestedCancelReason := none, errorCode := none, errorMessage := none }) db.jobs } := by
  unfold retryJob at h
  dsimp only at h
  split at h
  · rename_i hguards
    cases h
    exact ⟨hguards, rfl⟩
  · cases h

/-! ## The watcher -/

structure DirtySnapshotTarget where
  externalId : String
  generation : Int
  fencingToken : Int
  dirtyVersion : Int
  deriving DecidableEq, Repr

/-- The CTE `generation_seed`. -/
def maxGeneration (db : Database) (problemId : String) : Int :=
  max (((db.problemUsage.find? fun u => u.problemId = problemId).bind
      ProblemUsageRow.snapshotGeneration).getD 0)
    ((maxWhere (fun s => s.problemId = problemId) SnapshotRow.generation db.snapshots).getD 0)

/-- The CTE `generation_alloc`. -/
def allocGeneration (problemId : String) (maxGeneration : Int)
    (counters : List GenerationCounterRow) : List GenerationCounterRow :=
  upsertOn GenerationCounterRow.problemId ⟨problemId, max (maxGeneration + 2) 2⟩
    (fun c => { c with nextGeneration := max c.nextGeneration (max (maxGeneration + 2) 2 - 1) + 1 })
    counters

def nextGeneration (counters : List GenerationCounterRow) (problemId : String) : Int :=
  ((counters.find? fun c => c.problemId = problemId).map
    GenerationCounterRow.nextGeneration).getD 1

/-- The CTE `dirty`. -/
def ProblemRow.watched (now : Timestamp) (generation : Int) (p : ProblemRow) : ProblemRow :=
  { p with
    dirty := true, dirtyVersion := p.dirtyVersion + 1, dirtyGeneration := some generation
    stale := true, observedAt := now }

/-- `ACQUIRE_DIRTY_SNAPSHOT_JOB_SQL`: the first statement of the watcher's transaction. -/
def acquireDirtySnapshotTarget (now : Timestamp) (code : String) (db : Database) :
    Option (DirtySnapshotTarget × Database) := do
  let p ← db.problems.find? fun p => p.code = code &&
    (p.catalogState = .present || p.catalogState = .mirror)
  let generations :=
    allocGeneration p.externalId (maxGeneration db p.externalId) db.problemGenerationCounters
  let generation := nextGeneration generations p.externalId - 1
  let maxToken := (latestFencingToken db.jobs p.externalId).getD 0
  let counters := bumpCounter p.externalId (max (maxToken + 2) 2)
    (fun next => max next (maxToken + 1) + 1) db.jobFencingCounters
  some
    (⟨p.externalId, generation, nextToken counters p.externalId - 1, p.dirtyVersion + 1⟩,
      { db with
        problemGenerationCounters := generations, jobFencingCounters := counters
        problems := updateWhere (fun q => q.externalId = p.externalId)
          (ProblemRow.watched now generation) db.problems })

def pendingSnapshotOf (problemId : String) (j : JobRow) : Bool :=
  j.problemId = some problemId && j.jobType = .snapshot && j.state = .pending

def JobRow.watched (owner : String) (leaseExpiresAt : Timestamp) (token : Int) (j : JobRow) :
    JobRow :=
  { j with
    state := .running, leaseOwner := some owner, leaseExpiresAt := some leaseExpiresAt
    fencingToken := token, attempt := j.attempt + 1, errorCode := none, errorMessage := none }

/-- The statement by which the watcher claims a waiting job.  Its CTE advances the counter
whether or not there is one. -/
def claimPendingSnapshot (now : Timestamp) (owner : String) (leaseSeconds : Int)
    (problemId : String) (db : Database) : Database × Int × Option JobRow :=
  let counters := bumpCounter problemId 2 (· + 1) db.jobFencingCounters
  let token := nextToken counters problemId - 1
  ({ db with
    jobFencingCounters := counters
    jobs := updateWhere (pendingSnapshotOf problemId)
      (JobRow.watched owner (now + seconds leaseSeconds) token) db.jobs },
    token, db.jobs.find? (pendingSnapshotOf problemId))

/-- The row the watcher inserts when no job waits; `millis` is its clock. -/
def watcherJob (now : Timestamp) (owner : String) (leaseSeconds : Int) (id : Uuid) (millis : Int)
    (target : DirtySnapshotTarget) : JobRow where
  id := id
  idempotencyKey := s!"rust-dirty:{target.externalId}:{millis}"
  jobType := .snapshot
  problemId := some target.externalId
  targetGeneration := some target.generation
  state := .running
  leaseOwner := some owner
  leaseExpiresAt := some (now + seconds leaseSeconds)
  fencingToken := target.fencingToken
  attempt := 1
  maxAttempts := 3
  result := none
  errorCode := none
  errorMessage := none
  createdAt := now
  completedAt := none
  requestedCancelAt := none
  requestedCancelReason := none
  requestFingerprint := ""

/-- The job a watcher works on. -/
structure DirtySnapshotJob where
  jobId : Uuid
  problemId : String
  generation : Int
  fencingToken : Int
  dirtyVersion : Int
  deriving DecidableEq, Repr

/-- The tokens that the watcher's transaction takes from the counter: that of its first
statement and that of the claim. -/
structure WatcherTokens where
  problemId : String
  first : Int
  claim : Int
  deriving DecidableEq, Repr

/-- `acquire_dirty_snapshot_job_by_code`; a violated index rolls the transaction back. -/
def acquireDirtySnapshotJobByCode (now : Timestamp) (code owner : String) (leaseSeconds : Int)
    (id : Uuid) (millis : Int) (db : Database) :
    Except AppError (Database × Option WatcherTokens × Option DirtySnapshotJob) :=
  match acquireDirtySnapshotTarget now code db with
  | none => .ok (db, none, none)
  | some (target, marked) =>
      let (claimed, token, job) :=
        claimPendingSnapshot now owner leaseSeconds target.externalId marked
      let tokens : WatcherTokens := ⟨target.externalId, target.fencingToken, token⟩
      if !activeGuards claimed.jobs then
        .error (.database "duplicate key value violates unique constraint")
      else
        match job with
        | some j =>
            .ok (claimed, some tokens, some ⟨j.id, target.externalId,
              j.targetGeneration.getD target.generation, token, target.dirtyVersion⟩)
        | none =>
            let row := watcherJob now owner leaseSeconds id millis target
            -- `ON CONFLICT (problem_id, job_type) … DO NOTHING`.
            if claimed.jobs.any fun j => j.problemId = row.problemId && j.jobType = .snapshot &&
                j.state.active then
              .ok (claimed, some tokens, none)
            else if activeGuards (claimed.jobs ++ [row]) && claimed.jobs.all (fun j =>
                j.idempotencyKey ≠ row.idempotencyKey || j.jobType ≠ row.jobType) then
              .ok ({ claimed with jobs := claimed.jobs ++ [row] }, some tokens,
                some ⟨id, target.externalId, target.generation, target.fencingToken,
                  target.dirtyVersion⟩)
            else
              .error (.database "duplicate key value violates unique constraint")

theorem acquireDirtySnapshotJob_cases {now : Timestamp} {code owner : String}
    {leaseSeconds : Int} {id : Uuid} {millis : Int} {db db' : Database}
    {tokens : Option WatcherTokens} {job : Option DirtySnapshotJob}
    (h : acquireDirtySnapshotJobByCode now code owner leaseSeconds id millis db =
      .ok (db', tokens, job)) :
    (db' = db ∧ tokens = none ∧ acquireDirtySnapshotTarget now code db = none) ∨
    ∃ target marked, acquireDirtySnapshotTarget now code db = some (target, marked) ∧
      tokens = some ⟨target.externalId, target.fencingToken,
        (claimPendingSnapshot now owner leaseSeconds target.externalId marked).2.1⟩ ∧
      (db' = (claimPendingSnapshot now owner leaseSeconds target.externalId marked).1 ∨
        db' = { (claimPendingSnapshot now owner leaseSeconds target.externalId marked).1 with
          jobs := (claimPendingSnapshot now owner leaseSeconds target.externalId marked).1.jobs ++
            [watcherJob now owner leaseSeconds id millis target] }) := by
  unfold acquireDirtySnapshotJobByCode at h
  split at h
  · rename_i htarget
    cases h
    exact .inl ⟨rfl, rfl, htarget⟩
  · rename_i target marked htarget
    right
    refine ⟨target, marked, htarget, ?_⟩
    dsimp only at h
    split at h
    · cases h
    · split at h
      · cases h
        exact ⟨rfl, .inl rfl⟩
      · split at h
        · cases h
          exact ⟨rfl, .inl rfl⟩
        · split at h
          · cases h
            exact ⟨rfl, .inr rfl⟩
          · cases h

end ExternalStorage.Model
