import ExternalStorage.Model.Jobs

/-!
# Creating jobs, and working under a lease

`createJob` and `setJobPayload` of the control plane, what its worker reads of a payload,
the statements by which an executor renews, asserts, completes or fails the job it holds,
in both code bases, and the two statements that cancel waiting jobs.
-/

namespace ExternalStorage.Model

open Library.Table

/-! ## `createJob` -/

structure JobRequest where
  idempotencyKey : String
  jobType : JobType
  problemId : Option String
  targetGeneration : Option Int
  fingerprint : String
  deriving DecidableEq, Repr

inductive CreateJobError where
  | idempotencyConflict
  | problemOperationConflict (problemId : String)
  | noResult
  deriving DecidableEq, Repr

/-- `$2 = ANY(ARRAY['scan','snapshot','restore','gc_collect'])`. -/
def JobType.shared : JobType → Bool
  | .scan | .snapshot | .restore | .gcCollect => true
  | _ => false

def sameTarget (r : JobRequest) (j : JobRow) : Bool :=
  j.problemId = r.problemId && j.targetGeneration = r.targetGeneration

/-- The CTE `active`. -/
def activeFor (r : JobRequest) (jobs : List JobRow) : Option JobRow :=
  firstBy (fun j k => decide (j.createdAt < k.createdAt)) (jobs.filter fun j =>
    j.jobType = r.jobType && sameTarget r j &&
      (j.requestFingerprint = r.fingerprint || r.jobType.shared) && j.state.active)

/-- The CTE `incompatible`. -/
def incompatibleWith (r : JobRequest) (j : JobRow) : Bool :=
  r.problemId.isSome && j.problemId = r.problemId && j.jobType.exclusive && j.state.active &&
    !((r.jobType = .scan && j.jobType = .snapshot) || (r.jobType = .snapshot && j.jobType = .scan))

/-- The CTE `inserted`. -/
def newJob (now : Timestamp) (id : Uuid) (r : JobRequest) : JobRow where
  id := id
  idempotencyKey := r.idempotencyKey
  jobType := r.jobType
  problemId := r.problemId
  targetGeneration := r.targetGeneration
  state := .pending
  leaseOwner := none
  leaseExpiresAt := none
  fencingToken := 0
  attempt := 1
  maxAttempts := 3
  result := none
  errorCode := none
  errorMessage := none
  createdAt := now
  completedAt := none
  requestedCancelAt := none
  requestedCancelReason := none
  requestFingerprint := r.fingerprint

/-- What `createJob` throws when its statement returns no row. -/
def noRowError (r : JobRequest) (jobs : List JobRow) : CreateJobError :=
  if jobs.any fun j => j.idempotencyKey = r.idempotencyKey && j.jobType = r.jobType then
    .idempotencyConflict
  else
    match r.problemId with
    | some p =>
        if r.jobType.exclusive && jobs.any fun j =>
            j.problemId = some p && j.jobType.exclusive && j.state.active then
          .problemOperationConflict p
        else
          .noResult
    | none => .noResult

/-- `createJob`; `id` is the key a new row gets. -/
def createJob (now : Timestamp) (id : Uuid) (r : JobRequest) (db : Database) :
    Except CreateJobError (Database × JobRow) :=
  match db.jobs.find? fun j => j.idempotencyKey = r.idempotencyKey && j.jobType = r.jobType with
  | some j =>
      if sameTarget r j && j.requestFingerprint = r.fingerprint then .ok (db, j)
      else .error (noRowError r db.jobs)
  | none =>
      match activeFor r db.jobs with
      | some j => .ok (db, j)
      | none =>
          if db.jobs.any (incompatibleWith r) then
            .error (noRowError r db.jobs)
          else if activeGuards (db.jobs ++ [newJob now id r]) then
            .ok ({ db with jobs := db.jobs ++ [newJob now id r] }, newJob now id r)
          else
            -- A violated index: `isActiveProblemOperationConstraint`, `isActiveGcConstraint`.
            match r.problemId, firstBy (fun j k => decide (j.createdAt < k.createdAt))
                (db.jobs.filter fun j => j.jobType = .gcCollect && j.problemId = none &&
                  j.state.active) with
            | some p, _ => .error (.problemOperationConflict p)
            | none, some j => .ok (db, j)
            | none, none => .error .noResult

/-- The statement of `createJob` when it has waited for the lock: `snapshot` are the rows as
they stood at its start, and only the indexes see those committed since. -/
def createJobFrom (now : Timestamp) (id : Uuid) (r : JobRequest) (snapshot jobs : List JobRow) :
    Except CreateJobError (List JobRow × JobRow) :=
  match snapshot.find? fun j => j.idempotencyKey = r.idempotencyKey && j.jobType = r.jobType with
  | some j =>
      if sameTarget r j && j.requestFingerprint = r.fingerprint then .ok (jobs, j)
      else .error (noRowError r jobs)
  | none =>
      match activeFor r snapshot with
      | some j => .ok (jobs, j)
      | none =>
          if snapshot.any (incompatibleWith r) then
            .error (noRowError r jobs)
          else
            -- `ON CONFLICT (idempotency_key, job_type) DO UPDATE … WHERE`.
            match jobs.find? fun j =>
                j.idempotencyKey = r.idempotencyKey && j.jobType = r.jobType with
            | some j =>
                if sameTarget r j && j.requestFingerprint = r.fingerprint then .ok (jobs, j)
                else .error (noRowError r jobs)
            | none =>
                if activeGuards (jobs ++ [newJob now id r]) then
                  .ok (jobs ++ [newJob now id r], newJob now id r)
                else
                  match r.problemId, firstBy (fun j k => decide (j.createdAt < k.createdAt))
                      (jobs.filter fun j => j.jobType = .gcCollect && j.problemId = none &&
                        j.state.active) with
                  | some p, _ => .error (.problemOperationConflict p)
                  | none, some j => .ok (jobs, j)
                  | none, none => .error .noResult

theorem createJob_eq_ok {now : Timestamp} {id : Uuid} {r : JobRequest} {db db' : Database}
    {j : JobRow} (h : createJob now id r db = .ok (db', j)) :
    db' = db ∧ j ∈ db.jobs ∨
      j = newJob now id r ∧ db' = { db with jobs := db.jobs ++ [j] } ∧
        activeGuards db'.jobs = true := by
  unfold createJob at h
  split at h
  · rename_i hfound
    split at h
    · cases h
      exact .inl ⟨rfl, List.mem_of_find?_eq_some hfound⟩
    · cases h
  · split at h
    · rename_i hactive
      cases h
      exact .inl ⟨rfl, (List.mem_filter.mp (mem_of_firstBy hactive)).1⟩
    · split at h
      · cases h
      · split at h
        · rename_i hguards
          cases h
          exact .inr ⟨rfl, rfl, hguards⟩
        · split at h
          · cases h
          · rename_i hfirst
            cases h
            exact .inl ⟨rfl, (List.mem_filter.mp (mem_of_firstBy hfirst)).1⟩
          · cases h

theorem createJob_new {now : Timestamp} {id : Uuid} {r : JobRequest} {db : Database}
    {p : String} (hproblem : r.problemId = some p) (hexclusive : r.jobType.exclusive = true)
    (hkey : ∀ j ∈ db.jobs, ¬ (j.idempotencyKey = r.idempotencyKey ∧ j.jobType = r.jobType))
    (hactive : activeFor r db.jobs = none) :
    (createJob now id r db = .ok ({ db with jobs := db.jobs ++ [newJob now id r] }, newJob now id r) ∧
        (∀ j ∈ db.jobs, incompatibleWith r j = false) ∧
        activeGuards (db.jobs ++ [newJob now id r]) = true) ∨
      createJob now id r db = .error (.problemOperationConflict p) := by
  have hfound : db.jobs.find? (fun j =>
      j.idempotencyKey = r.idempotencyKey && j.jobType = r.jobType) = none := by
    rw [List.find?_eq_none]
    intro j hj h
    rw [Bool.and_eq_true, decide_eq_true_eq, decide_eq_true_eq] at h
    exact hkey j hj h
  have hunkeyed : ¬ (db.jobs.any fun j =>
      j.idempotencyKey = r.idempotencyKey && j.jobType = r.jobType) = true := by
    rw [Bool.not_eq_true, List.any_eq_false]
    exact List.find?_eq_none.mp hfound
  unfold createJob
  rw [hfound, hactive]
  dsimp only
  by_cases hincompatible : db.jobs.any (incompatibleWith r) = true
  · right
    obtain ⟨j, hj, hincompatible'⟩ := List.any_eq_true.mp hincompatible
    simp only [incompatibleWith, Bool.and_eq_true, decide_eq_true_eq] at hincompatible'
    obtain ⟨⟨⟨⟨-, hid⟩, htype⟩, hstate⟩, -⟩ := hincompatible'
    have hbusy : (r.jobType.exclusive && db.jobs.any fun j =>
        j.problemId = some p && j.jobType.exclusive && j.state.active) = true := by
      rw [hexclusive, Bool.true_and, List.any_eq_true]
      exact ⟨j, hj, by simp [hid, hproblem, htype, hstate]⟩
    rw [if_pos hincompatible, noRowError, if_neg hunkeyed, hproblem]
    dsimp only
    rw [if_pos hbusy]
  · rw [if_neg hincompatible]
    rw [Bool.not_eq_true, List.any_eq_false] at hincompatible
    by_cases hguards : activeGuards (db.jobs ++ [newJob now id r]) = true
    · left
      rw [if_pos hguards]
      exact ⟨rfl, fun j hj => Bool.eq_false_iff.mpr (hincompatible j hj), hguards⟩
    · right
      rw [if_neg hguards, hproblem]

def setJobPayload (id : Uuid) (payload : JobPayload) (db : Database) : Database :=
  { db with
    jobs := updateWhere (fun j => j.id = id && j.state = .pending)
      (fun j => { j with result := some payload }) db.jobs }

/-! ## `dispatch` -/

/-- What the worker asks for, with what it reads of `job.result`. -/
inductive Dispatch where
  | snapshot (dirtyVersion : Option Int)
  | evict (dryRun force : Bool) (idleBefore : Option Timestamp)
  | backfill (capability : String) (limit : Int)
  | gcCollect (limit : Int)
  | other
  deriving DecidableEq, Repr

/-- `Number.isSafeInteger(requestedLimit) && requestedLimit > 0 ? Math.min(…, 500) : 100`. -/
def gcLimit (requestedLimit : Int) : Int :=
  if 0 < requestedLimit ∧ requestedLimit ≤ 2 ^ 53 - 1 then min requestedLimit 500 else 100

/-- `dispatch`, by the fields of `job.result ?? {}`. -/
def dispatch (jobType : JobType) (result : Option JobPayload) : Dispatch :=
  let payload := result.getD {}
  match jobType with
  | .snapshot => .snapshot payload.dirtyVersion
  | .evict => .evict (payload.dryRun.getD true) (payload.force.getD false) payload.idleBefore
  | .backfill =>
      .backfill (payload.capability.getD "accounting") (min (payload.limit.getD 25) 500)
  | .gcCollect => .gcCollect (gcLimit (payload.limit.getD 100))
  | _ => .other

/-! ## Guards -/

/-- `lease_expires_at >= now()`. -/
def JobRow.leaseCurrent (now : Timestamp) (j : JobRow) : Bool :=
  match j.leaseExpiresAt with
  | none => false
  | some t => now ≤ t

/-- `id = $1 AND lease_owner = … AND fencing_token = … AND state = 'running'`. -/
def JobRow.heldAs (id : Uuid) (owner : Option String) (token : Int) (j : JobRow) : Bool :=
  j.id = id && (j.leaseOwner.isSome && j.leaseOwner = owner) && j.fencingToken = token &&
    j.state = .running

/-- The guard of `renewJobLease`, `assertJobLease` and `completeJobWithLease`. -/
def controlPlaneGuard (now : Timestamp) (id : Uuid) (owner : Option String) (token : Int)
    (j : JobRow) : Bool :=
  j.heldAs id owner token && j.leaseCurrent now && j.requestedCancelAt.isNone

/-- The guard of `renew_job_lease`, `assert_job_lease` and `complete_job`. -/
def dataPlaneGuard (now : Timestamp) (id : Uuid) (owner : Option String) (token : Int)
    (j : JobRow) : Bool :=
  j.heldAs id owner token && j.leaseCurrent now

/-! ## The statements of an executor -/

def renewed (leaseExpiresAt : Timestamp) (j : JobRow) : JobRow :=
  { j with leaseExpiresAt := some leaseExpiresAt }

def finished (now : Timestamp) (state : JobState) (result : Option JobPayload)
    (errorCode errorMessage : Option String) (j : JobRow) : JobRow :=
  { j with
    state := state, result := result, errorCode := errorCode, errorMessage := errorMessage
    completedAt := some now }

/-- The `SET` clause of `complete_job`. -/
def completed (now : Timestamp) (result : Option JobPayload) (j : JobRow) : JobRow :=
  { j with state := .completed, result := result, completedAt := some now }

/-- The `SET` clause of `fail_job`. -/
def released (now : Timestamp) (errorCode errorMessage : String) (j : JobRow) : JobRow :=
  { j with
    state := if j.attempt < j.maxAttempts then .pending else .failed
    leaseOwner := none, leaseExpiresAt := none
    errorCode := some errorCode, errorMessage := some errorMessage
    completedAt := if j.attempt ≥ j.maxAttempts then some now else none }

/-- The third argument of `completeJobWithLease`. -/
inductive FinalState where
  | completed | failed | cancelled
  deriving DecidableEq, Repr

def FinalState.toJobState : FinalState → JobState
  | .completed => .completed
  | .failed => .failed
  | .cancelled => .cancelled

inductive LeaseStatement where
  | renewJobLease (leaseSeconds : Int)
  | assertJobLease
  | completeJobWithLease (state : FinalState) (result : Option JobPayload)
      (errorCode errorMessage : Option String)
  /-- `renew_job_lease`, `assert_job_lease`, `complete_job` and `fail_job` of the data plane. -/
  | dataPlaneRenew (leaseSeconds : Int)
  | dataPlaneAssert
  | completeJob (result : Option JobPayload)
  | failJob (errorCode errorMessage : String)

/-- The `WHERE` clause. -/
def LeaseStatement.guard (now : Timestamp) (id : Uuid) (owner : Option String) (token : Int) :
    LeaseStatement → JobRow → Bool
  | .renewJobLease _ | .assertJobLease | .completeJobWithLease .. =>
      controlPlaneGuard now id owner token
  | .dataPlaneRenew _ | .dataPlaneAssert | .completeJob _ => dataPlaneGuard now id owner token
  | .failJob _ _ => JobRow.heldAs id owner token

/-- The `SET` clause; the two assertions only read. -/
def LeaseStatement.set (now : Timestamp) : LeaseStatement → JobRow → JobRow
  | .renewJobLease leaseSeconds | .dataPlaneRenew leaseSeconds =>
      renewed (now + seconds leaseSeconds)
  | .assertJobLease | .dataPlaneAssert => id
  | .completeJobWithLease state result errorCode errorMessage =>
      finished now state.toJobState result errorCode errorMessage
  | .completeJob result => completed now result
  | .failJob errorCode errorMessage => released now errorCode errorMessage

def LeaseStatement.accepts (now : Timestamp) (id : Uuid) (owner : Option String) (token : Int)
    (s : LeaseStatement) (db : Database) : Bool :=
  db.jobs.any (s.guard now id owner token)

def LeaseStatement.run (now : Timestamp) (id : Uuid) (owner : Option String) (token : Int)
    (s : LeaseStatement) (db : Database) : Database :=
  { db with jobs := updateWhere (s.guard now id owner token) (s.set now) db.jobs }

theorem LeaseStatement.heldAs_of_guard {now : Timestamp} {id : Uuid} {owner : Option String}
    {token : Int} {s : LeaseStatement} {j : JobRow} (h : s.guard now id owner token j = true) :
    j.heldAs id owner token = true := by
  cases s <;> simp_all [guard, controlPlaneGuard, dataPlaneGuard]

theorem JobRow.heldAs_iff {id : Uuid} {owner : Option String} {token : Int} {j : JobRow} :
    j.heldAs id owner token = true ↔
      j.id = id ∧ (j.leaseOwner.isSome = true ∧ j.leaseOwner = owner) ∧ j.fencingToken = token ∧
        j.state = .running := by
  simp only [heldAs, Bool.and_eq_true, decide_eq_true_eq, and_assoc]

theorem LeaseStatement.run_of_not_accepts {now : Timestamp} {id : Uuid} {owner : Option String}
    {token : Int} {s : LeaseStatement} {db : Database}
    (h : s.accepts now id owner token db = false) : s.run now id owner token db = db := by
  have hnone : ∀ j ∈ db.jobs, ¬ s.guard now id owner token j = true :=
    List.any_eq_false.mp h
  have hjobs : updateWhere (s.guard now id owner token) (s.set now) db.jobs = db.jobs :=
    updateWhere_eq_self fun j hj hguard => absurd hguard (hnone j hj)
  rw [run, hjobs]

/-! ## Cancelling jobs that wait -/

/-- The statement on jobs of `touchProblemAccess`. -/
def cancelPendingEvictions (now : Timestamp) (problemId : String) (jobs : List JobRow) :
    List JobRow :=
  updateWhere (fun j => j.problemId = some problemId && j.jobType = .evict && j.state = .pending)
    (fun j => { j with
      state := .cancelled, errorCode := some "problem_became_active"
      errorMessage := some "Cancelled because ensure-ready observed new problem activity"
      completedAt := some now, leaseOwner := none, leaseExpiresAt := none }) jobs

def touchProblemAccess (now : Timestamp) (problemId : String) (db : Database) : Database :=
  { db with
    problemUsage := updateWhere (fun u => u.problemId = problemId)
      (fun u => { u with lastAccessedAt := some now }) db.problemUsage
    jobs := cancelPendingEvictions now problemId db.jobs }

def cancelPendingLocalJobsForRestore (now : Timestamp) (externalId : String) (db : Database) :
    Database :=
  { db with
    jobs := updateWhere (fun j => j.problemId = some externalId &&
        (j.jobType = .scan || j.jobType = .snapshot) && j.state = .pending)
      (fun j => { j with
        state := .cancelled, completedAt := some now
        errorCode := some "superseded_by_restore"
        errorMessage := some "cancelled: local folder missing, restore takes over" }) db.jobs }

end ExternalStorage.Model
