import ExternalStorage.Jobs.Leases
import ExternalStorage.Jobs.Queue
import ExternalStorage.Model.Restores

/-!
# Restore claims beside their executors

Calls of `createRestoreJobIfMissing` for one problem, statement by statement, beside the
executors that acquire its restore jobs, publish the folder and write its usage row.  A call
holds the advisory lock of the problem until it commits, but the executors do not take that
lock: this module shows that what a call has read survives what they do.
-/

namespace ExternalStorage.Restore

open ExternalStorage.Model Library.Table Library.Runs

/-! ## The machine -/

inductive ClaimPhase where
  | waiting
  /-- It holds the advisory lock. -/
  | locked
  /-- Its key names no job. -/
  | unkeyed
  /-- No restore of its generation is active. -/
  | unclaimed
  /-- It has cancelled these rows, which stay locked. -/
  | cancelled (victims : List Uuid)
  /-- The usage row, if there is one, is selected `FOR UPDATE`. -/
  | absent (victims : List Uuid)
  /-- The usage row says `missing`. -/
  | marked (victims : List Uuid)
  | returned (answer : Except CreateJobError RestoreAnswer)

structure ClaimCall where
  claim : RestoreClaim
  /-- `now()` in its transaction. -/
  began : Timestamp
  phase : ClaimPhase

/-- The point `JobWorker.restore` has reached. -/
inductive RunPhase where
  | working
  /-- The data plane has answered, and the lease was found valid. -/
  | asserted
  | marked
  | closed
  deriving DecidableEq, Repr

structure RestoreRun where
  jobId : Uuid
  owner : String
  token : Int
  generation : Option Int
  /-- The transaction of `restore_snapshot` has committed. -/
  published : Bool
  phase : RunPhase
  deriving DecidableEq, Repr

structure Episode where
  now : Timestamp
  db : Database
  calls : List ClaimCall := []
  runs : List RestoreRun := []

inductive EpisodeAction where
  | begin (q : RestoreClaim)
  /-- The next statement of a call; `id` is the key that a new job gets. -/
  | call (i : Nat) (id : Uuid)
  | acquire (worker : String) (leaseSeconds : Int) (lane : JobLane) (paused : Bool)
      (locked : List Uuid)
  | failExpired
  | renew (r : Nat) (leaseSeconds : Int)
  /-- The commit of `restore_snapshot`, whose transaction began at `began`. -/
  | publish (r : Nat) (began : Timestamp)
  /-- The next statement of the worker. -/
  | work (r : Nat) (result : Option JobPayload)
  | fail (r : Nat) (errorCode errorMessage : String)
  /-- The lease is lost, and the worker drops the job. -/
  | abandon (r : Nat)
  | tick (elapsed : Nat)

def ClaimPhase.holdsLock : ClaimPhase → Bool
  | .waiting | .returned _ => false
  | _ => true

/-- The rows that a call has cancelled and not committed. -/
def ClaimPhase.victims : ClaimPhase → Option (List Uuid)
  | .cancelled victims | .absent victims | .marked victims => some victims
  | _ => none

def lockedRows (calls : List ClaimCall) : List Uuid :=
  calls.flatMap fun c => c.phase.victims.getD []

def usageLocked (problemId : String) (e : Episode) : Bool :=
  e.calls.any fun c =>
    match c.phase with
    | .absent _ => e.db.problemUsage.any fun u => u.problemId = problemId
    | .marked _ => true
    | _ => false

/-- The effect of the call's `UPDATE jobs` on the rows it has locked. -/
def cancelRows (now : Timestamp) (victims : List Uuid) (db : Database) : Database :=
  { db with jobs := updateWhere (fun j => victims.contains j.id) (supersededByRestore now) db.jobs }

def nextStatement (e : Episode) (c : ClaimCall) (id : Uuid) : Option (Database × ClaimPhase) :=
  match c.phase with
  | .waiting => if e.calls.all fun d => !d.phase.holdsLock then some (e.db, .locked) else none
  | .locked =>
      match c.claim.replay e.db.jobs with
      | some j => some (e.db, .returned
          (if c.claim.repeats j then .ok (.job j.id) else .error .idempotencyConflict))
      | none => some (e.db, .unkeyed)
  | .unkeyed =>
      match c.claim.active e.db.jobs with
      | some j => some (e.db, .returned (.ok (.job j.id)))
      | none => some (e.db, .unclaimed)
  | .unclaimed =>
      some (e.db, .cancelled ((e.db.jobs.filter (pendingLocal c.claim.problemId)).map JobRow.id))
  | .cancelled victims =>
      if presentSince c.claim.problemId c.claim.missingObservedAt e.db.problemUsage then
        some (cancelRows c.began victims e.db, .returned (.ok .ready))
      else
        some (e.db, .absent victims)
  | .absent victims => some (e.db, .marked victims)
  | .marked victims =>
      if e.db.jobs.any fun j => j.id = id then
        none
      else
        match c.claim.create c.began id (cancelRows c.began victims e.db) with
        | .ok (db, answer) => some (db, .returned (.ok answer))
        | .error error => some (e.db, .returned (.error error))
  | .returned _ => none

def Episode.setRun (e : Episode) (r : Nat) (run : RestoreRun) (db : Database) : Episode :=
  { e with db := db, runs := e.runs.set r run }

def RestoreRun.perform (run : RestoreRun) (now : Timestamp) (s : LeaseStatement)
    (db : Database) : Database :=
  s.run now run.jobId (some run.owner) run.token db

/-- The next statement of `JobWorker.restore` and of `runJob` after it. -/
def nextWork (problemId : String) (e : Episode) (run : RestoreRun)
    (result : Option JobPayload) : Option (Database × RunPhase) :=
  match run.phase with
  | .working =>
      if run.published &&
          LeaseStatement.assertJobLease.accepts e.now run.jobId (some run.owner) run.token e.db then
        some (e.db, .asserted)
      else
        none
  | .asserted =>
      if usageLocked problemId e then
        none
      else
        some ({ e.db with
          problemUsage := markLocalPresent e.now problemId run.generation e.db.problemUsage },
          .marked)
  | .marked =>
      some (run.perform e.now (.completeJobWithLease .completed result none none) e.db, .closed)
  | .closed => none

def episodeStep (problemId dest : String) (e : Episode) : EpisodeAction → Option Episode
  | .begin q =>
      if q.problemId = problemId then
        some { e with calls := e.calls ++ [⟨q, e.now, .waiting⟩] }
      else
        none
  | .call i id => do
      let c ← e.calls[i]?
      let (db, phase) ← nextStatement e c id
      return { e with db := db, calls := e.calls.set i { c with phase := phase } }
  | .acquire worker leaseSeconds lane paused locked => do
      let (db, c, token) ←
        acquireJob e.now worker leaseSeconds lane paused (lockedRows e.calls ++ locked) e.db
      if c.problemId = some problemId ∧ c.jobType = .restore then
        return { e with
          db := db
          runs := e.runs ++ [⟨c.id, worker, token, c.targetGeneration, false, .working⟩] }
      else
        return { e with db := db }
  | .failExpired => some { e with db := failExpiredRunningJobs e.now e.db }
  | .renew r leaseSeconds => do
      let run ← e.runs[r]?
      return { e with db := run.perform e.now (.renewJobLease leaseSeconds) e.db }
  | .publish r began => do
      let run ← e.runs[r]?
      let request : RestoreRequest := ⟨problemId, run.generation.getD 0, run.token, dest⟩
      match ensureLatestFencing e.db.jobs problemId run.token with
      | .error _ => none
      | .ok () =>
          if run.published ∨ e.now < began ∨ usageLocked problemId e then
            none
          else
            return e.setRun r { run with published := true } (restored began request e.db)
  | .work r result => do
      let run ← e.runs[r]?
      let (db, phase) ← nextWork problemId e run result
      return e.setRun r { run with phase := phase } db
  | .fail r errorCode errorMessage => do
      let run ← e.runs[r]?
      if run.phase = .closed then
        none
      else
        return e.setRun r { run with phase := .closed } (run.perform e.now
          (.completeJobWithLease .failed none (some errorCode) (some errorMessage)) e.db)
  | .abandon r => do
      let run ← e.runs[r]?
      return e.setRun r { run with phase := .closed } e.db
  | .tick elapsed => some { e with now := e.now + elapsed }

/-! ## What holds between the statements of a call -/

def restoring (problemId : String) (j : JobRow) : Bool :=
  j.problemId = some problemId && j.jobType = .restore && j.state.active

/-- The problem has a usage row. -/
def Tracked (problemId : String) (usage : List ProblemUsageRow) : Prop :=
  ∃ u ∈ usage, u.problemId = problemId

def PresentIn (problemId : String) (usage : List ProblemUsageRow) : Prop :=
  ∃ u ∈ usage, u.problemId = problemId ∧ u.localStatus = .present

/-- No call and no executor is at work. -/
structure Outset (problemId : String) (e : Episode) : Prop where
  ids : (e.db.jobs.map JobRow.id).Nodup
  guards : activeGuards e.db.jobs = true
  tracked : ∀ j ∈ e.db.jobs, restoring problemId j = true → Tracked problemId e.db.problemUsage
  calls : e.calls = []
  runs : e.runs = []

def ClaimPhase.lookedForKey : ClaimPhase → Bool
  | .waiting | .locked | .returned _ => false
  | _ => true

def ClaimPhase.lookedForActive : ClaimPhase → Bool
  | .waiting | .locked | .unkeyed | .returned _ => false
  | _ => true

def ClaimPhase.lookedAtUsage : ClaimPhase → Bool
  | .absent _ | .marked _ => true
  | _ => false

structure CallInv (problemId : String) (db : Database) (c : ClaimCall) : Prop where
  problem : c.claim.problemId = problemId
  key : c.phase.lookedForKey = true → c.claim.replay db.jobs = none
  active : c.phase.lookedForActive = true → ∀ j ∈ db.jobs, c.claim.joins j = false
  victims : ∀ victims, c.phase.victims = some victims →
    ∀ j ∈ db.jobs, victims.contains j.id = pendingLocal problemId j
  usage : c.phase.lookedAtUsage = true →
    presentSince problemId c.claim.missingObservedAt db.problemUsage = false

/-- A run belongs to a restore of the problem, and once its worker has written the usage row,
the row says `present` for as long as the job is active. -/
structure RunInv (problemId : String) (db : Database) (r : RestoreRun) : Prop where
  tracked : Tracked problemId db.problemUsage
  job : r.jobId ∈ db.jobs.map JobRow.id
  restores : ∀ j ∈ db.jobs, j.id = r.jobId → j.problemId = some problemId ∧ j.jobType = .restore
  present : r.phase = .marked → ∀ j ∈ db.jobs, j.id = r.jobId → j.state.active = true →
    PresentIn problemId db.problemUsage

structure EpisodeInv (problemId : String) (e : Episode) : Prop where
  ids : (e.db.jobs.map JobRow.id).Nodup
  guards : activeGuards e.db.jobs = true
  tracked : ∀ j ∈ e.db.jobs, restoring problemId j = true → Tracked problemId e.db.problemUsage
  calls : ∀ c ∈ e.calls, CallInv problemId e.db c
  alone : ∀ (i k : Nat) (c d : ClaimCall), e.calls[i]? = some c → e.calls[k]? = some d →
    c.phase.holdsLock = true → d.phase.holdsLock = true → i = k
  runs : ∀ r ∈ e.runs, RunInv problemId e.db r

theorem restoring_iff {problemId : String} {j : JobRow} :
    restoring problemId j = true ↔
      j.problemId = some problemId ∧ j.jobType = .restore ∧ j.state.active = true := by
  simp only [restoring, Bool.and_eq_true, decide_eq_true_eq, and_assoc]

theorem holdsLock_of_lookedForKey {phase : ClaimPhase} (h : phase.lookedForKey = true) :
    phase.holdsLock = true := by
  cases phase <;> simp_all [ClaimPhase.lookedForKey, ClaimPhase.holdsLock]

theorem holdsLock_of_lookedForActive {phase : ClaimPhase} (h : phase.lookedForActive = true) :
    phase.holdsLock = true := by
  cases phase <;> simp_all [ClaimPhase.lookedForActive, ClaimPhase.holdsLock]

theorem holdsLock_of_victims {phase : ClaimPhase} {victims : List Uuid}
    (h : phase.victims = some victims) : phase.holdsLock = true := by
  cases phase <;> simp_all [ClaimPhase.victims, ClaimPhase.holdsLock]

theorem holdsLock_of_lookedAtUsage {phase : ClaimPhase} (h : phase.lookedAtUsage = true) :
    phase.holdsLock = true := by
  cases phase <;> simp_all [ClaimPhase.lookedAtUsage, ClaimPhase.holdsLock]

theorem callInv_of_not_holding {problemId : String} {db : Database} {c : ClaimCall}
    (hproblem : c.claim.problemId = problemId) (h : c.phase.holdsLock = false) :
    CallInv problemId db c := by
  refine ⟨hproblem, ?_, ?_, ?_, ?_⟩
  · intro hread
    rw [holdsLock_of_lookedForKey hread] at h
    cases h
  · intro hread
    rw [holdsLock_of_lookedForActive hread] at h
    cases h
  · intro victims hvictims
    rw [holdsLock_of_victims hvictims] at h
    cases h
  · intro hread
    rw [holdsLock_of_lookedAtUsage hread] at h
    cases h

/-! ## What executors do to jobs -/

/-- A row after a statement of an executor: it is the same job, nothing has made it active,
and a row that a call has locked is as it was. -/
structure Works (locked : List Uuid) (j j' : JobRow) : Prop where
  id : j'.id = j.id
  key : j'.idempotencyKey = j.idempotencyKey
  jobType : j'.jobType = j.jobType
  problemId : j'.problemId = j.problemId
  generation : j'.targetGeneration = j.targetGeneration
  active : j'.state.active = true → j.state.active = true
  pending : j'.state = .pending → j.state = .pending
  locked : j.id ∈ locked → j.state = .pending → j'.state = .pending

theorem works_refl (locked : List Uuid) (j : JobRow) : Works locked j j :=
  ⟨rfl, rfl, rfl, rfl, rfl, fun h => h, fun h => h, fun _ h => h⟩

def Worked (locked : List Uuid) (jobs jobs' : List JobRow) : Prop :=
  ∃ f : JobRow → JobRow, jobs' = jobs.map f ∧ ∀ j ∈ jobs, Works locked j (f j)

theorem worked_refl (locked : List Uuid) (jobs : List JobRow) : Worked locked jobs jobs :=
  ⟨id, (List.map_id jobs).symm, fun j _ => works_refl locked j⟩

theorem worked_update {locked : List Uuid} {jobs : List JobRow} {p : JobRow → Bool}
    {f : JobRow → JobRow} (h : ∀ j ∈ jobs, p j = true → Works locked j (f j)) :
    Worked locked jobs (updateWhere p f jobs) := by
  refine ⟨fun j => if p j then f j else j, rfl, ?_⟩
  intro j hj
  by_cases hp : p j = true
  · show Works locked j (if p j then f j else j)
    rw [if_pos hp]
    exact h j hj hp
  · show Works locked j (if p j then f j else j)
    rw [if_neg hp]
    exact works_refl locked j

section Worked

variable {problemId : String} {locked : List Uuid} {jobs jobs' : List JobRow}

theorem Worked.ids (h : Worked locked jobs jobs') : jobs'.map JobRow.id = jobs.map JobRow.id := by
  obtain ⟨f, rfl, hf⟩ := h
  rw [List.map_map]
  exact List.map_congr_left fun j hj => (hf j hj).id

theorem Worked.from (h : Worked locked jobs jobs') {j' : JobRow} (hj' : j' ∈ jobs') :
    ∃ j ∈ jobs, Works locked j j' := by
  obtain ⟨f, rfl, hf⟩ := h
  obtain ⟨j, hj, rfl⟩ := List.mem_map.mp hj'
  exact ⟨j, hj, hf j hj⟩

theorem Works.restoring {j j' : JobRow} (h : Works locked j j')
    (hj' : restoring problemId j' = true) : Restore.restoring problemId j = true := by
  rw [restoring_iff] at hj' ⊢
  exact ⟨h.problemId ▸ hj'.1, h.jobType ▸ hj'.2.1, h.active hj'.2.2⟩

theorem Works.joins {q : RestoreClaim} {j j' : JobRow} (h : Works locked j j')
    (hj : q.joins j = false) : q.joins j' = false := by
  rw [← Bool.not_eq_true, RestoreClaim.joins_iff] at hj ⊢
  rintro ⟨hproblem, htype, hgeneration, hactive⟩
  exact hj ⟨h.problemId ▸ hproblem, h.jobType ▸ htype, h.generation ▸ hgeneration,
    h.active hactive⟩

theorem Works.pendingLocal {j j' : JobRow} (h : Works locked j j')
    (hlocked : pendingLocal problemId j = true → j.id ∈ locked) :
    pendingLocal problemId j' = pendingLocal problemId j := by
  rw [Bool.eq_iff_iff]
  constructor
  · rw [pendingLocal_iff, pendingLocal_iff]
    rintro ⟨hproblem, htype, hstate⟩
    exact ⟨h.problemId ▸ hproblem, h.jobType ▸ htype, h.pending hstate⟩
  · intro hj
    have hmem := hlocked hj
    rw [pendingLocal_iff] at hj ⊢
    obtain ⟨hproblem, htype, hstate⟩ := hj
    exact ⟨by rw [h.problemId, hproblem], by rw [h.jobType]; exact htype, h.locked hmem hstate⟩

theorem Worked.replay_eq_none (h : Worked locked jobs jobs') {q : RestoreClaim}
    (hnone : q.replay jobs = none) : q.replay jobs' = none := by
  rw [RestoreClaim.replay_eq_none] at hnone ⊢
  intro j' hj'
  obtain ⟨j, hj, hworks⟩ := h.from hj'
  rw [hworks.key, hworks.jobType]
  exact hnone j hj

theorem Worked.joins (h : Worked locked jobs jobs') {q : RestoreClaim}
    (hnone : ∀ j ∈ jobs, q.joins j = false) : ∀ j' ∈ jobs', q.joins j' = false := by
  intro j' hj'
  obtain ⟨j, hj, hworks⟩ := h.from hj'
  exact hworks.joins (hnone j hj)

theorem CallInv.worked {db db' : Database} {c : ClaimCall} (h : CallInv problemId db c)
    (hworked : Worked locked db.jobs db'.jobs)
    (hlocked : ∀ victims, c.phase.victims = some victims → ∀ id ∈ victims, id ∈ locked)
    (husage : c.phase.lookedAtUsage = true → db'.problemUsage = db.problemUsage) :
    CallInv problemId db' c := by
  refine ⟨h.problem, fun hread => hworked.replay_eq_none (h.key hread),
    fun hread => hworked.joins (h.active hread), ?_, ?_⟩
  · intro victims hvictims j' hj'
    obtain ⟨j, hj, hworks⟩ := hworked.from hj'
    have hcontains := h.victims victims hvictims j hj
    rw [hworks.id, hcontains, hworks.pendingLocal]
    intro hpending
    rw [hpending] at hcontains
    exact hlocked victims hvictims j.id (List.contains_iff_mem.mp hcontains)
  · intro hread
    rw [husage hread]
    exact h.usage hread

theorem RunInv.worked {db db' : Database} {r : RestoreRun} (h : RunInv problemId db r)
    (hworked : Worked locked db.jobs db'.jobs)
    (htracked : Tracked problemId db.problemUsage → Tracked problemId db'.problemUsage)
    (hpresent : PresentIn problemId db.problemUsage → PresentIn problemId db'.problemUsage) :
    RunInv problemId db' r := by
  refine ⟨htracked h.tracked, by rw [hworked.ids]; exact h.job, ?_, ?_⟩
  · intro j' hj' hid
    obtain ⟨j, hj, hworks⟩ := hworked.from hj'
    rw [hworks.problemId, hworks.jobType]
    exact h.restores j hj (hworks.id ▸ hid)
  · intro hphase j' hj' hid hactive
    obtain ⟨j, hj, hworks⟩ := hworked.from hj'
    exact hpresent (h.present hphase j hj (hworks.id ▸ hid) (hworks.active hactive))

end Worked

/-! ## Steps of the executors -/

section Executors

variable {problemId : String} {e : Episode}

theorem lookedAtUsage_of_free (hfree : usageLocked problemId e = false)
    (htracked : Tracked problemId e.db.problemUsage) {c : ClaimCall} (hc : c ∈ e.calls) :
    c.phase.lookedAtUsage = false := by
  have hnone := List.any_eq_false.mp hfree c hc
  cases hphase : c.phase with
  | absent victims =>
      rw [hphase] at hnone
      obtain ⟨u, hu, hid⟩ := htracked
      exact absurd (List.any_eq_true.mpr ⟨u, hu, decide_eq_true hid⟩) hnone
  | marked victims =>
      rw [hphase] at hnone
      exact absurd rfl hnone
  | _ => rfl

theorem EpisodeInv.worked (h : EpisodeInv problemId e) {d : Database}
    (hworked : Worked (lockedRows e.calls) e.db.jobs d.jobs)
    (hguards : activeGuards d.jobs = true)
    (htracked : Tracked problemId e.db.problemUsage → Tracked problemId d.problemUsage)
    (hpresent : PresentIn problemId e.db.problemUsage → PresentIn problemId d.problemUsage)
    (husage : d.problemUsage = e.db.problemUsage ∨
      usageLocked problemId e = false ∧ Tracked problemId e.db.problemUsage) :
    EpisodeInv problemId { e with db := d } := by
  refine ⟨?_, hguards, ?_, ?_, h.alone, ?_⟩
  · show (d.jobs.map JobRow.id).Nodup
    rw [hworked.ids]
    exact h.ids
  · intro j' hj' hrestoring
    obtain ⟨j, hj, hworks⟩ := hworked.from hj'
    exact htracked (h.tracked j hj (hworks.restoring hrestoring))
  · intro c hc
    refine (h.calls c hc).worked hworked ?_ ?_
    · intro victims hvictims id hid
      refine List.mem_flatMap.mpr ⟨c, hc, ?_⟩
      rw [hvictims]
      exact hid
    · intro hread
      rcases husage with hsame | ⟨hfree, hrow⟩
      · exact hsame
      · rw [lookedAtUsage_of_free hfree hrow hc] at hread
        cases hread
  · exact fun r hr => (h.runs r hr).worked hworked htracked hpresent

theorem EpisodeInv.setRun (h : EpisodeInv problemId e) {r : Nat} {run w : RestoreRun}
    (hrun : e.runs[r]? = some run) (hjob : w.jobId = run.jobId)
    (hmarked : w.phase = .marked → run.phase = .marked ∨ PresentIn problemId e.db.problemUsage) :
    EpisodeInv problemId { e with runs := e.runs.set r w } := by
  refine ⟨h.ids, h.guards, h.tracked, h.calls, h.alone, ?_⟩
  intro x hx
  rcases List.mem_or_eq_of_mem_set hx with hx | rfl
  · exact h.runs x hx
  · have hold := h.runs run (List.mem_of_getElem? hrun)
    refine ⟨hold.tracked, by rw [hjob]; exact hold.job, by rw [hjob]; exact hold.restores, ?_⟩
    intro hphase j hj hid hactive
    rcases hmarked hphase with hwas | hpresent
    · exact hold.present hwas j hj (by rw [hid, hjob]) hactive
    · exact hpresent

/-- The statements of a worker that do not put its job back in the queue. -/
theorem worked_perform (locked : List Uuid) (now : Timestamp) (run : RestoreRun)
    {s : LeaseStatement} (hs : ∀ j : JobRow, j.state = .running → (s.set now j).state ≠ .pending)
    (db : Database) : Worked locked db.jobs (run.perform now s db).jobs := by
  refine worked_update ?_
  intro j _ hguard
  have hrunning : j.state = .running :=
    (JobRow.heldAs_iff.mp (s.heldAs_of_guard hguard)).2.2.2
  have hcalms := Jobs.calms_set now run.jobId (some run.owner) run.token s
  refine ⟨hcalms.id j, ?_, hcalms.jobType j, hcalms.problemId j, ?_, ?_, ?_, ?_⟩
  · cases s <;> rfl
  · cases s <;> rfl
  · exact fun hactive => (hcalms.active j hguard hactive).1
  · exact fun hpending => absurd hpending (hs j hrunning)
  · intro _ hpending
    rw [hrunning] at hpending
    cases hpending

theorem EpisodeInv.perform (h : EpisodeInv problemId e) (run : RestoreRun) {s : LeaseStatement}
    (hs : ∀ j : JobRow, j.state = .running → (s.set e.now j).state ≠ .pending) :
    EpisodeInv problemId { e with db := run.perform e.now s e.db } :=
  h.worked (worked_perform _ e.now run hs e.db)
    ((Jobs.calms_set e.now run.jobId (some run.owner) run.token s).guards h.guards)
    (fun ht => ht) (fun hp => hp) (.inl rfl)

theorem EpisodeInv.failExpired (h : EpisodeInv problemId e) :
    EpisodeInv problemId { e with db := failExpiredRunningJobs e.now e.db } := by
  refine h.worked (worked_update ?_) (Jobs.jobKeys_failExpired ⟨h.ids, h.guards⟩).guards
    (fun ht => ht) (fun hp => hp) (.inl rfl)
  intro j hj hrevoked
  obtain ⟨r, hr, hid⟩ := List.any_eq_true.mp hrevoked
  obtain ⟨hmem, hexpired⟩ := List.mem_filter.mp hr
  obtain rfl : r = j := List.inj_on_of_nodup_map h.ids hmem hj (of_decide_eq_true hid)
  simp only [Bool.and_eq_true, decide_eq_true_eq] at hexpired
  refine ⟨rfl, rfl, rfl, rfl, rfl, ?_, ?_, ?_⟩
  · intro hactive
    cases hactive
  · intro hpending
    cases hpending
  · intro _ hpending
    rw [hexpired.1.1] at hpending
    cases hpending

theorem EpisodeInv.acquire (h : EpisodeInv problemId e) {worker : String} {leaseSeconds : Int}
    {lane : JobLane} {paused : Bool} {locked : List Uuid} {db : Database} {c : JobRow}
    {token : Int} (hacquire : acquireJob e.now worker leaseSeconds lane paused
      (lockedRows e.calls ++ locked) e.db = some (db, c, token)) :
    EpisodeInv problemId { e with db := db } ∧ c ∈ e.db.jobs ∧ c.state.active = true := by
  obtain ⟨hcandidate, hjobs, hguards⟩ := acquireJob_rows hacquire
  obtain ⟨hmem, hacquirable, hunlocked⟩ := Jobs.mem_candidates.mp (mem_of_firstBy hcandidate)
  obtain ⟨hactive, -⟩ := acquirable_active hacquirable
  have husage : db.problemUsage = e.db.problemUsage := acquireJob_usage hacquire
  refine ⟨h.worked ?_ hguards (by rw [husage]; exact id) (by rw [husage]; exact id) (.inl husage),
    hmem, hactive⟩
  rw [hjobs]
  refine worked_update ?_
  intro j hj hp
  rw [Bool.and_eq_true, decide_eq_true_eq] at hp
  obtain rfl : j = c := List.inj_on_of_nodup_map h.ids hj hmem hp.1
  refine ⟨rfl, rfl, rfl, rfl, rfl, fun _ => hactive, ?_, ?_⟩
  · intro hpending
    cases hpending
  · intro hlocked
    exact absurd (List.mem_append_left locked hlocked) hunlocked

theorem EpisodeInv.addRun (h : EpisodeInv problemId e) {c : JobRow} (hc : c ∈ e.db.jobs)
    (hproblem : c.problemId = some problemId) (htype : c.jobType = .restore)
    (hactive : c.state.active = true) (worker : String) (token : Int) (runs : List RestoreRun)
    (hruns : runs = e.runs ++ [⟨c.id, worker, token, c.targetGeneration, false, .working⟩]) :
    EpisodeInv problemId { e with runs := runs } := by
  refine ⟨h.ids, h.guards, h.tracked, h.calls, h.alone, ?_⟩
  intro r hr
  have hr : r ∈ runs := hr
  rw [hruns, List.mem_append, List.mem_singleton] at hr
  rcases hr with hr | rfl
  · exact h.runs r hr
  · refine ⟨h.tracked c hc (restoring_iff.mpr ⟨hproblem, htype, hactive⟩),
      List.mem_map_of_mem hc, ?_, ?_⟩
    · intro j hj hid
      obtain rfl : j = c := List.inj_on_of_nodup_map h.ids hj hc hid
      exact ⟨hproblem, htype⟩
    · intro hphase
      cases hphase

end Executors

end ExternalStorage.Restore
