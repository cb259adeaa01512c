import ExternalStorage.Model.Jobs
import Mathlib.Data.Prod.Lex

/-!
# When the queue hands out a job

`acquireJob` takes the first job of the queue's order, whether or not the guards let it
run.  A job whose problem is busy is turned down by the index and gives `null`, although
jobs of other problems wait behind it.
-/

namespace ExternalStorage.Jobs

open ExternalStorage.Model Library.Table

/-- `acquireJob` with the call of `failExpiredRunningJobs` it starts with. -/
def acquireNextJob (now : Timestamp) (worker : String) (leaseSeconds : Int) (lane : JobLane)
    (paused : Bool) (locked : List Uuid) (db : Database) : Option (Database × JobRow × Int) :=
  acquireJob now worker leaseSeconds lane paused locked (failExpiredRunningJobs now db)

/-- Another operation of the job's problem is running. -/
def Blocked (jobs : List JobRow) (c : JobRow) : Prop :=
  c.jobType.exclusive = true ∧ ∃ k ∈ jobs, k.id ≠ c.id ∧ k.problemId.isSome = true ∧
    k.problemId = c.problemId ∧ k.jobType.exclusive = true ∧ k.state = .running

instance (jobs : List JobRow) (c : JobRow) : Decidable (Blocked jobs c) :=
  inferInstanceAs (Decidable (_ ∧ _))

def lapsed (now : Timestamp) (j : JobRow) : Bool :=
  j.state = .running && j.leaseExpired now && j.attempt ≥ j.maxAttempts

/-- The row is the first in the queue's order that the lane may take. -/
structure FirstInLine (now : Timestamp) (lane : JobLane) (locked : List Uuid) (jobs : List JobRow)
    (c : JobRow) : Prop where
  mem : c ∈ jobs
  acquirable : acquirable now lane false c = true
  unlocked : c.id ∉ locked
  first : ∀ k ∈ jobs, Model.acquirable now lane false k = true → k.id ∉ locked → k.id ≠ c.id →
    c.before lane k = true

/-- A waiting job of the lane that nothing keeps from running. -/
structure Startable (lane : JobLane) (locked : List Uuid) (jobs : List JobRow) (j : JobRow) :
    Prop where
  mem : j ∈ jobs
  pending : j.state = .pending
  attempts : j.attempt < j.maxAttempts
  lane : lane = .bulk ∨ j.jobType = .restore
  unlocked : j.id ∉ locked
  idle : ∀ k ∈ jobs, k.problemId.isSome = true → k.problemId = j.problemId →
    k.jobType.exclusive = true → k.state ≠ .running

/-- The keys of the schema on `jobs`. -/
structure JobKeys (jobs : List JobRow) : Prop where
  ids : (jobs.map JobRow.id).Nodup
  guards : activeGuards jobs = true

theorem JobKeys.eq_of_id {jobs : List JobRow} (h : JobKeys jobs) {j k : JobRow} (hj : j ∈ jobs)
    (hk : k ∈ jobs) (hid : j.id = k.id) : j = k :=
  List.inj_on_of_nodup_map h.ids hj hk hid

/-! ## Jobs whose lease has expired -/

theorem mem_failExpired_iff {now : Timestamp} {db : Database} (hkeys : JobKeys db.jobs)
    {j : JobRow} (hfailed : j.state ≠ .failed) :
    j ∈ (failExpiredRunningJobs now db).jobs ↔ j ∈ db.jobs ∧ lapsed now j = false := by
  constructor
  · intro h
    obtain ⟨k, hk, rfl⟩ := mem_updateWhere.mp h
    split
    · rename_i hrevoked
      rw [if_pos hrevoked] at hfailed
      exact absurd rfl hfailed
    · rename_i hrevoked
      refine ⟨hk, ?_⟩
      rw [← Bool.not_eq_true]
      intro hlapsed
      exact hrevoked (List.any_eq_true.mpr
        ⟨k, List.mem_filter.mpr ⟨hk, hlapsed⟩, decide_eq_true rfl⟩)
  · rintro ⟨hj, hlapsed⟩
    refine mem_updateWhere.mpr ⟨j, hj, (if_neg ?_).symm⟩
    intro hrevoked
    obtain ⟨r, hr, hid⟩ := List.any_eq_true.mp hrevoked
    obtain ⟨hmem, hrlapsed⟩ := List.mem_filter.mp hr
    rw [hkeys.eq_of_id hmem hj (of_decide_eq_true hid)] at hrlapsed
    have hrlapsed : lapsed now j = true := hrlapsed
    rw [hlapsed] at hrlapsed
    cases hrlapsed

theorem blocked_failExpired {now : Timestamp} {db : Database} (hkeys : JobKeys db.jobs)
    (c : JobRow) :
    Blocked (failExpiredRunningJobs now db).jobs c ↔
      Blocked (db.jobs.filter fun k => !lapsed now k) c := by
  refine and_congr_right fun _ => exists_congr fun k => ?_
  rw [List.mem_filter, Bool.not_eq_true']
  constructor
  · rintro ⟨hk, hne, hsome, hproblem, hexclusive, hrunning⟩
    exact ⟨(mem_failExpired_iff hkeys (by simp [hrunning])).mp hk, hne, hsome, hproblem, hexclusive,
      hrunning⟩
  · rintro ⟨hk, hne, hsome, hproblem, hexclusive, hrunning⟩
    exact ⟨(mem_failExpired_iff hkeys (by simp [hrunning])).mpr hk, hne, hsome, hproblem,
      hexclusive, hrunning⟩

theorem acquirable_not_lapsed {now : Timestamp} {lane : JobLane} {paused : Bool} {j : JobRow}
    (h : acquirable now lane paused j = true) : j.state ≠ .failed ∧ lapsed now j = false := by
  simp only [acquirable, Bool.and_eq_true, Bool.or_eq_true, decide_eq_true_eq] at h
  obtain ⟨⟨hattempts, hstate⟩, -⟩ := h
  constructor
  · intro hfailed
    simp [hfailed] at hstate
  · have hlt : ¬ j.maxAttempts ≤ j.attempt := by omega
    simp [lapsed, hlt]

theorem firstInLine_failExpired {now : Timestamp} {lane : JobLane} {locked : List Uuid}
    {db : Database} (hkeys : JobKeys db.jobs) (c : JobRow) :
    FirstInLine now lane locked (failExpiredRunningJobs now db).jobs c ↔
      FirstInLine now lane locked db.jobs c := by
  have hmem : ∀ j, acquirable now lane false j = true →
      (j ∈ (failExpiredRunningJobs now db).jobs ↔ j ∈ db.jobs) := by
    intro j hacquirable
    obtain ⟨hfailed, hlapsed⟩ := acquirable_not_lapsed hacquirable
    rw [mem_failExpired_iff hkeys hfailed]
    exact and_iff_left hlapsed
  constructor
  · intro h
    refine ⟨(hmem c h.acquirable).mp h.mem, h.acquirable, h.unlocked, ?_⟩
    exact fun k hk hacq => h.first k ((hmem k hacq).mpr hk) hacq
  · intro h
    refine ⟨(hmem c h.acquirable).mpr h.mem, h.acquirable, h.unlocked, ?_⟩
    exact fun k hk hacq => h.first k ((hmem k hacq).mp hk) hacq

theorem jobKeys_failExpired {now : Timestamp} {db : Database} (h : JobKeys db.jobs) :
    JobKeys (failExpiredRunningJobs now db).jobs := by
  constructor
  · show ((updateWhere _ _ db.jobs).map JobRow.id).Nodup
    rw [map_updateWhere (by intro j; rfl)]
    exact h.ids
  · show activeGuards (updateWhere _ _ db.jobs) = true
    rw [activeGuards_updateWhere h.guards (by intro j; rfl)]
    intro j _ k _ _ _
    simp [conflicting, JobState.active]

theorem Startable.failExpired {now : Timestamp} {lane : JobLane} {locked : List Uuid}
    {db : Database} {j : JobRow} (hkeys : JobKeys db.jobs) (h : Startable lane locked db.jobs j) :
    Startable lane locked (failExpiredRunningJobs now db).jobs j := by
  have hmem : j ∈ (failExpiredRunningJobs now db).jobs := by
    rw [mem_failExpired_iff hkeys (by simp [h.pending])]
    exact ⟨h.mem, by simp [lapsed, h.pending]⟩
  refine ⟨hmem, h.pending, h.attempts, h.lane, h.unlocked, ?_⟩
  intro k hk hsome hproblem hexclusive hrunning
  have hk := (mem_failExpired_iff hkeys (by simp [hrunning])).mp hk
  exact h.idle k hk.1 hsome hproblem hexclusive hrunning

/-! ## The order of the queue -/

def laneRank (lane : JobLane) (j : JobRow) : Nat :=
  if lane = .bulk ∧ j.jobType ≠ .restore then 1 else 0

def queueKey (lane : JobLane) (j : JobRow) : ℕ ×ₗ ℤ ×ₗ ℕ :=
  toLex (laneRank lane j, toLex (j.createdAt, j.id))

theorem before_eq_true {lane : JobLane} {j k : JobRow} :
    j.before lane k = true ↔ queueKey lane j < queueKey lane k := by
  unfold queueKey
  rw [Prod.Lex.toLex_lt_toLex, Prod.Lex.toLex_lt_toLex]
  unfold JobRow.before laneRank
  cases lane with
  | restore => simp
  | bulk =>
      by_cases hj : j.jobType = .restore <;> by_cases hk : k.jobType = .restore <;> simp [hj, hk]

theorem before_trans {lane : JobLane} {j k l : JobRow} (hjk : j.before lane k = true)
    (hkl : k.before lane l = true) : j.before lane l = true := by
  rw [before_eq_true] at hjk hkl ⊢
  exact lt_trans hjk hkl

theorem before_total {lane : JobLane} {j k : JobRow} (hne : j.id ≠ k.id)
    (h : j.before lane k = false) : k.before lane j = true := by
  rw [← Bool.not_eq_true, before_eq_true, not_lt] at h
  rw [before_eq_true]
  refine lt_of_le_of_ne h ?_
  intro hkey
  exact hne (congrArg (fun key => (ofLex (ofLex key).2).2) hkey).symm

theorem before_asymm {lane : JobLane} {j k : JobRow} (hjk : j.before lane k = true) :
    ¬ k.before lane j = true := by
  rw [before_eq_true] at hjk ⊢
  exact lt_asymm hjk

/-! ## The candidate -/

section Acquire

variable {now : Timestamp} {worker : String} {leaseSeconds : Int} {lane : JobLane}
  {paused : Bool} {locked : List Uuid} {db : Database}

theorem mem_candidates {jobs : List JobRow} {j : JobRow} :
    (j ∈ jobs.filter fun j => acquirable now lane paused j && !locked.contains j.id) ↔
      j ∈ jobs ∧ acquirable now lane paused j = true ∧ j.id ∉ locked := by
  rw [List.mem_filter, Bool.and_eq_true, Bool.not_eq_true', List.contains_eq_mem,
    decide_eq_false_iff_not]

theorem acquireCandidate_of_startable {jobs : List JobRow} {j : JobRow}
    (h : Startable lane locked jobs j) (now : Timestamp) :
    ∃ c, acquireCandidate now lane false locked jobs = some c := by
  rw [← Option.ne_none_iff_exists']
  intro hnone
  have hacquirable : acquirable now lane false j = true := by
    simp only [acquirable, h.pending, h.attempts, decide_true, Bool.not_false, Bool.and_true,
      Bool.true_or, Bool.true_and, Bool.or_eq_true, decide_eq_true_eq]
    exact h.lane
  have hmem := mem_candidates.mpr ⟨h.mem, hacquirable, h.unlocked⟩
  rw [firstBy_eq_none.mp hnone] at hmem
  cases hmem

theorem firstInLine_of_candidate {jobs : List JobRow} (hkeys : JobKeys jobs) {c : JobRow}
    (h : acquireCandidate now lane false locked jobs = some c) :
    FirstInLine now lane locked jobs c := by
  obtain ⟨hmem, hacquirable, hunlocked⟩ := mem_candidates.mp (mem_of_firstBy h)
  refine ⟨hmem, hacquirable, hunlocked, ?_⟩
  intro k hk hkacquirable hkunlocked hne
  have hmemk := mem_candidates.mpr ⟨hk, hkacquirable, hkunlocked⟩
  refine firstBy_eq_some ?_ ?_ h k hmemk ?_
  · intro r hr s hs hrs
    apply before_total
    intro hid
    exact hrs (hkeys.eq_of_id (mem_candidates.mp hr).1 (mem_candidates.mp hs).1 hid)
  · intro r s t hrs hst
    exact before_trans hrs hst
  · rintro rfl
    exact hne rfl

theorem FirstInLine.unique {jobs : List JobRow} (hkeys : JobKeys jobs) {c d : JobRow}
    (hc : FirstInLine now lane locked jobs c) (hd : FirstInLine now lane locked jobs d) : c = d := by
  refine hkeys.eq_of_id hc.mem hd.mem ?_
  by_contra hne
  have hbefore := hc.first d hd.mem hd.acquirable hd.unlocked (Ne.symm hne)
  exact before_asymm hbefore (hd.first c hc.mem hc.acquirable hc.unlocked hne)

/-- A row that goes to `running` meets the guards of the rows that were there unless an
operation of its problem is running. -/
theorem conflicting_acquired (worker : String) (lease : Timestamp) (token : Int) {c k : JobRow}
    (hactive : c.state.active = true) (hbefore : conflicting c k = false) :
    conflicting (c.acquired worker lease token) k = true ↔
      c.jobType.exclusive = true ∧ k.problemId.isSome = true ∧ k.problemId = c.problemId ∧
        k.jobType.exclusive = true ∧ k.state = .running := by
  have hold : ¬ conflicting c k = true := by simp [hbefore]
  rw [conflicting_eq_true] at hold ⊢
  constructor
  · rintro ⟨-, hk, ⟨hsome, hid, hcx, hkx, hsame | hrunning⟩ | hglobal⟩
    · exact absurd ⟨hactive, hk, .inl ⟨hsome, hid, hcx, hkx, .inl hsame⟩⟩ hold
    · have hid : c.problemId = k.problemId := hid
      exact ⟨hcx, hid ▸ hsome, hid.symm, hkx, hrunning.2⟩
    · exact absurd ⟨hactive, hk, .inr hglobal⟩ hold
  · rintro ⟨hcx, hsome, hid, hkx, hkrunning⟩
    refine ⟨rfl, by rw [hkrunning]; rfl, .inl ⟨?_, hid.symm, hcx, hkx, .inr ⟨rfl, hkrunning⟩⟩⟩
    show c.problemId.isSome = true
    rw [← hid]
    exact hsome

theorem acquireJob_isSome {c : JobRow}
    (hc : acquireCandidate now lane paused locked db.jobs = some c) :
    (∃ r, acquireJob now worker leaseSeconds lane paused locked db = some r) ↔
      activeGuards (updateWhere (fun j => j.id = c.id && j.attempt < j.maxAttempts)
        (JobRow.acquired worker (now + seconds leaseSeconds)
          (nextToken (bumpCounter c.counterKey 2 (· + 1) db.jobFencingCounters) c.counterKey - 1))
        db.jobs) = true := by
  unfold acquireJob
  rw [hc]
  simp only [Option.bind_eq_bind, Option.bind_some]
  split
  · rename_i hguards
    exact ⟨fun _ => hguards, fun _ => ⟨_, rfl⟩⟩
  · rename_i hguards
    simp [hguards]

theorem acquireJob_isSome_iff (hkeys : JobKeys db.jobs) {c : JobRow}
    (hc : acquireCandidate now lane paused locked db.jobs = some c) :
    (∃ r, acquireJob now worker leaseSeconds lane paused locked db = some r) ↔
      ¬ Blocked db.jobs c := by
  obtain ⟨hmem, hacquirable, -⟩ := mem_candidates.mp (mem_of_firstBy hc)
  obtain ⟨hactive, hattempts⟩ := acquirable_active hacquirable
  have hguards := activeGuards_iff.mp hkeys.guards
  have hother : ∀ k : JobRow, k.id ≠ c.id →
      ¬ (decide (k.id = c.id) && decide (k.attempt < k.maxAttempts)) = true := by
    intro k hne
    simp [hne]
  rw [acquireJob_isSome hc, activeGuards_updateWhere hkeys.guards (by intro j; rfl)]
  -- Of the rows, the update selects the candidate only.
  constructor
  · rintro h ⟨hexclusive, k, hk, hne, hsome, hproblem, hkexclusive, hrunning⟩
    have hpair := h c hmem k hk hne.symm (by simp [hattempts])
    rw [if_neg (hother k hne)] at hpair
    have hconflict := (conflicting_acquired worker (now + seconds leaseSeconds)
      (nextToken (bumpCounter c.counterKey 2 (· + 1) db.jobFencingCounters) c.counterKey - 1)
      hactive (hguards c hmem k hk hne.symm)).mpr
        ⟨hexclusive, hsome, hproblem, hkexclusive, hrunning⟩
    rw [hpair] at hconflict
    cases hconflict
  · intro hfree j hj k hk hne hp
    simp only [Bool.and_eq_true, decide_eq_true_eq] at hp
    rw [hkeys.eq_of_id hj hmem hp.1] at hne ⊢
    rw [if_neg (hother k hne.symm), ← Bool.not_eq_true,
      conflicting_acquired _ _ _ hactive (hguards c hmem k hk hne)]
    rintro ⟨hexclusive, hsome, hproblem, hkexclusive, hrunning⟩
    exact hfree ⟨hexclusive, k, hk, hne.symm, hsome, hproblem, hkexclusive, hrunning⟩

/-- While a job can be started, the queue hands one out exactly when the first job in line
is not blocked. -/
theorem queue_hands_out_job (hkeys : JobKeys db.jobs)
    (hstartable : ∃ j, Startable lane locked db.jobs j) :
    (∃ r, acquireNextJob now worker leaseSeconds lane false locked db = some r) ↔
      ∀ c, FirstInLine now lane locked db.jobs c →
        ¬ Blocked (db.jobs.filter fun k => !lapsed now k) c := by
  obtain ⟨j, hj⟩ := hstartable
  have hkeys' : JobKeys (failExpiredRunningJobs now db).jobs := jobKeys_failExpired hkeys
  obtain ⟨c, hc⟩ := acquireCandidate_of_startable (hj.failExpired hkeys) now
  have hfirst := (firstInLine_failExpired hkeys c).mp (firstInLine_of_candidate hkeys' hc)
  unfold acquireNextJob
  rw [acquireJob_isSome_iff hkeys' hc, blocked_failExpired hkeys]
  constructor
  · intro hfree c' hc'
    rw [FirstInLine.unique hkeys hc' hfirst]
    exact hfree
  · exact fun h => h c hfirst

end Acquire

def queuedJob (id : Uuid) (jobType : JobType) (problemId : String) (state : JobState) : JobRow where
  id := id
  idempotencyKey := ""
  jobType := jobType
  problemId := some problemId
  targetGeneration := none
  state := state
  leaseOwner := none
  leaseExpiresAt := none
  fencingToken := 0
  attempt := 1
  maxAttempts := 3
  result := none
  errorCode := none
  errorMessage := none
  createdAt := id
  completedAt := none
  requestedCancelAt := none
  requestedCancelReason := none
  requestFingerprint := ""

/-- The snapshot of problem 101 is being uploaded; restores of 202 and of 101 wait. -/
def idleFirst : Database where
  problems := [presentRow "101" "aplusb", presentRow "202" "sums"]
  jobs := [queuedJob 1 .snapshot "101" .running, queuedJob 2 .restore "202" .pending,
    queuedJob 3 .restore "101" .pending]

theorem queue_hands_out_idle_restore :
    ∃ r, acquireNextJob 10 "worker" 60 .restore false [] idleFirst = some r := by
  have hkeys : JobKeys idleFirst.jobs := ⟨by decide, by decide⟩
  have hstartable : Startable .restore [] idleFirst.jobs (queuedJob 2 .restore "202" .pending) :=
    ⟨by decide, rfl, by decide, by decide, by decide, by decide⟩
  refine (queue_hands_out_job hkeys ⟨_, hstartable⟩).mpr ?_
  intro c hc
  have hfirst : FirstInLine 10 .restore [] idleFirst.jobs (queuedJob 2 .restore "202" .pending) :=
    ⟨by decide, by decide, by decide, by decide⟩
  rw [hc.unique hkeys hfirst]
  decide

def busyFirst : Database where
  problems := [presentRow "101" "aplusb", presentRow "202" "sums"]
  jobs := [queuedJob 1 .snapshot "101" .running, queuedJob 2 .restore "101" .pending,
    queuedJob 3 .restore "202" .pending]

theorem busy_restore_blocks_queue :
    JobKeys busyFirst.jobs ∧
      Startable .restore [] busyFirst.jobs (queuedJob 3 .restore "202" .pending) ∧
      acquireNextJob 10 "worker" 60 .restore false [] busyFirst = none :=
  ⟨⟨by decide, by decide⟩, ⟨by decide, rfl, by decide, by decide, by decide, by decide⟩,
    by decide⟩

end ExternalStorage.Jobs
