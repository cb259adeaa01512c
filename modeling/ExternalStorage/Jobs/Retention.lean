import ExternalStorage.Jobs.Leases
import ExternalStorage.Model.Retention

/-!
# Retention and jobs at work

`purgeTerminalJobs` deletes jobs by their state, `applyRetention` by their `completed_at`.
Of the statements that put a job to work, `retryJob` alone leaves the column as it is, and
nothing clears it later: the job of a retry is deleted when its earlier end is old enough.
-/

namespace ExternalStorage.Jobs

open ExternalStorage.Model Library.Runs Library.Table

/-! ## The machine -/

structure Retained where
  leases : Leases
  /-- The jobs that `retryJob` has put back: history the program does not keep. -/
  retried : List Uuid := []

inductive RetentionAction where
  | job (a : LeaseAction)
  /-- `PUT /api/v1/retention/:entityType`. -/
  | configure (entity : RetentionEntity) (retentionDays : Int)
  | applyRetention (ids : String → Uuid)
  | purgeTerminalJobs (terminalJobRetentionDays : Int) (batchSize : Nat) (locked : List Uuid)
      (updatedAt : Uuid → Timestamp)

def Retained.jobs (w : Retained) : List JobRow := w.leases.ledger.db.jobs

def retriedBy : LeaseAction → List Uuid
  | .retry id => [id]
  | _ => []

def retentionStep (w : Retained) : RetentionAction → Option Retained
  | .job a => (leaseStep w.leases a).map fun l => ⟨l, w.retried ++ retriedBy a⟩
  | .configure entity retentionDays =>
      if 1 ≤ retentionDays then
        some { w with leases := w.leases.after { w.leases.ledger.db with
          retentionConfig := updateWhere (fun r => r.entityType = entity)
            (fun r => { r with retentionDays := retentionDays })
            w.leases.ledger.db.retentionConfig } [] [] }
      else
        none
  | .applyRetention ids =>
      some { w with
        leases := w.leases.after
          (applyRetention w.leases.ledger.now ids w.leases.ledger.db) [] [] }
  | .purgeTerminalJobs terminalJobRetentionDays batchSize locked updatedAt =>
      if 1 ≤ terminalJobRetentionDays ∧ 0 < batchSize then
        some { w with
          leases := w.leases.after { w.leases.ledger.db with
            jobs := purgeTerminalJobs w.leases.ledger.now terminalJobRetentionDays batchSize
              locked updatedAt w.jobs } [] [] }
      else
        none

def RetentionAction.deletes : RetentionAction → Bool
  | .applyRetention _ | .purgeTerminalJobs .. => true
  | _ => false

/-- No job at work is deleted. -/
def KeepsActive (w w' : Retained) : Prop :=
  ∀ j ∈ w.jobs, j.state.active = true → j ∈ w'.jobs

/-- Every retried job that has not ended again ended within the window before. -/
def RetriesCurrent (w : Retained) : Prop :=
  ∀ j ∈ w.jobs, j.id ∈ w.retried → j.state.active = true →
    beforeDays w.leases.ledger.now (w.leases.ledger.db.retentionDays .jobs) j.completedAt = false

/-- What `applyRetention` needs; the other statements need nothing. -/
def RetentionAction.current (w : Retained) : RetentionAction → Prop
  | .applyRetention _ => RetriesCurrent w
  | _ => True

/-- No job at work has ended before. -/
structure Unretried (w : Retained) : Prop where
  ids : (w.jobs.map JobRow.id).Nodup
  fresh : ∀ j ∈ w.jobs, j.state.active = true → j.completedAt = none
  retried : w.retried = []

/-! ## Who leaves `completed_at` on a job at work -/

/-- A job at work that has an earlier end was put back by `retryJob`. -/
structure RetentionInv (jobs : List JobRow) (retried : List Uuid) : Prop where
  ids : (jobs.map JobRow.id).Nodup
  ended : ∀ j ∈ jobs, j.state.active = true → j.completedAt.isSome = true → j.id ∈ retried

theorem RetentionInv.update {jobs : List JobRow} {retried news : List Uuid}
    (h : RetentionInv jobs retried) {p : JobRow → Bool} {f : JobRow → JobRow}
    (hid : ∀ j, (f j).id = j.id)
    (hf : ∀ j ∈ jobs, p j = true → (f j).state.active = true → (f j).completedAt.isSome = true →
      j.id ∈ retried ++ news) : RetentionInv (updateWhere p f jobs) (retried ++ news) := by
  constructor
  · rw [map_updateWhere hid]
    exact h.ids
  · intro j' hj' hactive hended
    obtain ⟨j, hj, rfl⟩ := mem_updateWhere.mp hj'
    by_cases hp : p j = true
    · rw [if_pos hp] at hactive hended ⊢
      rw [hid]
      exact hf j hj hp hactive hended
    · rw [if_neg hp] at hactive hended ⊢
      exact List.mem_append_left _ (h.ended j hj hactive hended)

theorem RetentionInv.append {jobs : List JobRow} {retried : List Uuid}
    (h : RetentionInv jobs retried) {n : JobRow} (hfresh : ∀ j ∈ jobs, j.id ≠ n.id)
    (hn : n.completedAt = none) : RetentionInv (jobs ++ [n]) retried := by
  constructor
  · exact nodup_map_concat h.ids hfresh
  · intro j hj hactive hended
    rcases List.mem_append.mp hj with hj | hj
    · exact h.ended j hj hactive hended
    · rw [List.mem_singleton.mp hj, hn] at hended
      cases hended

theorem RetentionInv.delete {jobs : List JobRow} {retried : List Uuid}
    (h : RetentionInv jobs retried) (p : JobRow → Bool) :
    RetentionInv (deleteWhere p jobs) retried := by
  constructor
  · exact h.ids.sublist ((List.filter_sublist).map JobRow.id)
  · intro j hj
    exact h.ended j (mem_deleteWhere.mp hj).1

theorem RetentionInv.grow {jobs : List JobRow} {retried : List Uuid}
    (h : RetentionInv jobs retried) (news : List Uuid) : RetentionInv jobs (retried ++ news) :=
  ⟨h.ids, fun j hj hactive hended => List.mem_append_left _ (h.ended j hj hactive hended)⟩

/-! ## Steps -/

section Steps

variable {l l' : Leases} {retried : List Uuid}

theorem retentionInv_acquire (h : RetentionInv l.ledger.db.jobs retried) {worker : String}
    {leaseSeconds : Int} {lane : JobLane} {paused : Bool} {locked : List Uuid}
    (hstep : leaseStep l (.acquire worker leaseSeconds lane paused locked) = some l') :
    RetentionInv l'.ledger.db.jobs (retried ++ []) := by
  obtain ⟨⟨db, c, token⟩, hacquire, rfl⟩ := Option.map_eq_some_iff.mp hstep
  obtain ⟨hcandidate, hjobs, -⟩ := acquireJob_rows hacquire
  obtain ⟨hmem, hacquirable⟩ := acquireCandidate_mem hcandidate
  have hactive := (acquirable_active hacquirable).1
  show RetentionInv db.jobs (retried ++ [])
  rw [hjobs]
  refine h.update (by intro j; rfl) ?_
  intro j hj hp _ hended
  rw [Bool.and_eq_true, decide_eq_true_eq] at hp
  obtain rfl := row_eq_of_id h.ids hj hmem hp.1
  exact List.mem_append_left _ (h.ended j hj hactive hended)

/-- The watcher takes a waiting job with the end that it has, or inserts one without. -/
theorem retentionInv_watch (h : RetentionInv l.ledger.db.jobs retried) {code owner : String}
    {leaseSeconds : Int} {id : Uuid} {millis : Int}
    (hstep : leaseStep l (.watch code owner leaseSeconds id millis) = some l') :
    RetentionInv l'.ledger.db.jobs (retried ++ []) := by
  simp only [leaseStep] at hstep
  split at hstep
  · cases hstep
  · rename_i hnew
    have hfresh : ∀ j ∈ l.ledger.db.jobs, j.id ≠ id := by simpa using hnew
    split at hstep
    · cases hstep
    · rename_i hwatch
      cases hstep
      rcases acquireDirtySnapshotJob_cases hwatch with ⟨rfl, -⟩ | ⟨target, marked, htarget, -, hdb⟩
      · exact h.grow []
      · have hmarked : marked.jobs = l.ledger.db.jobs := by
          obtain ⟨p, -, htarget⟩ := Option.bind_eq_some_iff.mp htarget
          cases htarget
          rfl
        have hclaimed : RetentionInv (claimPendingSnapshot l.ledger.now owner leaseSeconds
            target.externalId marked).1.jobs (retried ++ []) := by
          show RetentionInv (updateWhere _ _ marked.jobs) (retried ++ [])
          rw [hmarked]
          refine h.update (by intro j; rfl) ?_
          intro j hj hp _ hended
          simp only [pendingSnapshotOf, Bool.and_eq_true, decide_eq_true_eq] at hp
          exact List.mem_append_left _ (h.ended j hj (by rw [hp.2]; rfl) hended)
        rcases hdb with rfl | rfl
        · exact hclaimed
        · refine hclaimed.append ?_ rfl
          intro j hj
          obtain ⟨k, hk, rfl⟩ := mem_updateWhere.mp hj
          rw [hmarked] at hk
          split
          · exact hfresh k hk
          · exact hfresh k hk

/-- An executor ends a job, or leaves its end as it is, or clears it. -/
theorem retentionInv_perform (h : RetentionInv l.ledger.db.jobs retried) (s : LeaseStatement)
    (id : Uuid) (owner : Option String) (token : Int) :
    RetentionInv (s.run l.ledger.now id owner token l.ledger.db).jobs (retried ++ []) := by
  refine h.update (calms_set l.ledger.now id owner token s).id ?_
  intro j hj hp hactive hended
  have hrunning : j.state = .running :=
    (JobRow.heldAs_iff.mp (s.heldAs_of_guard hp)).2.2.2
  have hkept : ∀ k : JobRow, k.state = .running → k.completedAt.isSome = true → k = j →
      j.id ∈ retried ++ [] := by
    rintro k hk hkended rfl
    exact List.mem_append_left _ (h.ended k hj (by rw [hk]; rfl) hkended)
  cases s with
  | renewJobLease leaseSeconds => exact hkept j hrunning hended rfl
  | assertJobLease => exact hkept j hrunning hended rfl
  | completeJobWithLease state result errorCode errorMessage =>
      cases state <;> cases hactive
  | dataPlaneRenew leaseSeconds => exact hkept j hrunning hended rfl
  | dataPlaneAssert => exact hkept j hrunning hended rfl
  | completeJob result => cases hactive
  | failJob errorCode errorMessage =>
      simp only [LeaseStatement.set, released] at hactive hended
      by_cases hattempts : j.attempt < j.maxAttempts
      · rw [if_neg (by omega)] at hended
        cases hended
      · rw [if_neg hattempts] at hactive
        cases hactive

theorem retentionInv_job (h : RetentionInv l.ledger.db.jobs retried) {a : LeaseAction}
    (hstep : leaseStep l a = some l') :
    RetentionInv l'.ledger.db.jobs (retried ++ retriedBy a) := by
  cases a with
  | acquire worker leaseSeconds lane paused locked => exact retentionInv_acquire h hstep
  | watch code owner leaseSeconds id millis => exact retentionInv_watch h hstep
  | perform s id owner token =>
      cases hstep
      exact retentionInv_perform h s id owner token
  | cancel id reason =>
      obtain ⟨⟨db, j, token⟩, hcancel, rfl⟩ := Option.map_eq_some_iff.mp hstep
      obtain ⟨-, -, hjobs⟩ := cancelJob_rows hcancel
      show RetentionInv db.jobs (retried ++ [])
      rw [hjobs]
      exact h.update (by intro j; rfl) (fun j _ _ hactive => by cases hactive)
  | retry id =>
      obtain ⟨db, hretry, rfl⟩ := Option.map_eq_some_iff.mp hstep
      obtain ⟨-, rfl⟩ := retryJob_eq_some hretry
      refine h.update (by intro j; rfl) ?_
      intro j _ hp _ _
      simp only [Bool.and_eq_true, decide_eq_true_eq] at hp
      rw [hp.1.1]
      exact List.mem_append_right _ (List.mem_singleton_self id)
  | touch problemId =>
      cases hstep
      exact h.update (by intro j; rfl) (fun j _ _ hactive => by cases hactive)
  | cancelPending externalId =>
      cases hstep
      exact h.update (by intro j; rfl) (fun j _ _ hactive => by cases hactive)
  | failExpired =>
      cases hstep
      exact h.update (by intro j; rfl) (fun j _ _ hactive => by cases hactive)
  | create id r =>
      simp only [leaseStep] at hstep
      split at hstep
      · cases hstep
      · rename_i hnew
        have hfresh : ∀ j ∈ l.ledger.db.jobs, j.id ≠ id := by simpa using hnew
        split at hstep
        · cases hstep
        · rename_i hcreate
          cases hstep
          rcases createJob_eq_ok hcreate with ⟨rfl, -⟩ | ⟨rfl, rfl, -⟩
          · exact h.grow []
          · exact (h.append hfresh rfl).grow []
  | tick elapsed =>
      cases hstep
      exact h.grow []

end Steps

theorem retentionInv_step {w w' : Retained} (h : RetentionInv w.jobs w.retried)
    {a : RetentionAction} (hstep : retentionStep w a = some w') :
    RetentionInv w'.jobs w'.retried := by
  cases a with
  | job a =>
      obtain ⟨l, hjob, rfl⟩ := Option.map_eq_some_iff.mp hstep
      exact retentionInv_job h hjob
  | configure entity retentionDays =>
      change (if 1 ≤ retentionDays then _ else none) = some w' at hstep
      split at hstep
      · cases hstep
        exact h
      · cases hstep
  | applyRetention ids =>
      cases hstep
      exact h.delete _
  | purgeTerminalJobs terminalJobRetentionDays batchSize locked updatedAt =>
      change (if 1 ≤ terminalJobRetentionDays ∧ 0 < batchSize then _ else none) = some w' at hstep
      split at hstep
      · cases hstep
        exact h.delete _
      · cases hstep

/-! ## What the deletions spare -/

theorem keepsActive_purge {w w' : Retained} (h : RetentionInv w.jobs w.retried)
    {terminalJobRetentionDays : Int} {batchSize : Nat} {locked : List Uuid}
    {updatedAt : Uuid → Timestamp}
    (hstep : retentionStep w (.purgeTerminalJobs terminalJobRetentionDays batchSize locked
      updatedAt) = some w') : KeepsActive w w' := by
  change (if 1 ≤ terminalJobRetentionDays ∧ 0 < batchSize then _ else none) = some w' at hstep
  split at hstep
  · cases hstep
    intro j hj hactive
    refine mem_deleteWhere.mpr ⟨hj, ?_⟩
    rw [← Bool.not_eq_true]
    intro hexpired
    obtain ⟨e, he, hid⟩ := List.any_eq_true.mp hexpired
    obtain ⟨hmem, hterminal⟩ := List.mem_filter.mp
      (List.mem_mergeSort.mp (List.mem_of_mem_take he))
    obtain rfl := row_eq_of_id h.ids hmem hj (of_decide_eq_true hid)
    simp only [Bool.and_eq_true] at hterminal
    have hstate := hterminal.1.1
    cases hs : e.state <;> simp_all [JobState.terminal, JobState.active]
  · cases hstep

theorem keepsActive_applyRetention {w w' : Retained} (h : RetentionInv w.jobs w.retried)
    {ids : String → Uuid} (hstep : retentionStep w (.applyRetention ids) = some w') :
    KeepsActive w w' ↔ RetriesCurrent w := by
  cases hstep
  have hkept : ∀ j ∈ w.jobs, (j ∈ deleteWhere (fun j => beforeDays w.leases.ledger.now
      (w.leases.ledger.db.retentionDays .jobs) j.completedAt) w.jobs ↔
        beforeDays w.leases.ledger.now (w.leases.ledger.db.retentionDays .jobs) j.completedAt =
          false) := by
    intro j hj
    rw [mem_deleteWhere]
    exact and_iff_right hj
  constructor
  · intro hkeeps j hj _ hactive
    exact (hkept j hj).mp (hkeeps j hj hactive)
  · intro hcurrent j hj hactive
    refine (hkept j hj).mpr ?_
    cases hended : j.completedAt with
    | none =>
        unfold beforeDays
        split
        · rename_i hnone
          cases hnone
        · rfl
    | some t =>
        rw [← hended]
        exact hcurrent j hj (h.ended j hj hactive (by rw [hended]; rfl)) hactive

/-- In every step of a run that deletes jobs, no job at work is deleted exactly when the
statement is the purge of terminal jobs, or every retried job at work last ended within the
retention window. -/
theorem retention_spares_active {w : Retained} (h : Unretried w) (acts : List RetentionAction) :
    EveryStep retentionStep (fun w a w' => a.deletes = true → (KeepsActive w w' ↔ a.current w))
      w acts := by
  refine everyStep_of_invariant (I := fun w => RetentionInv w.jobs w.retried)
    (C := fun _ _ _ => True) (fun _ _ _ hinv _ hstep => retentionInv_step hinv hstep) ?_ ?_
    (everyStep_of_forall_mem fun _ _ => trivial)
  · intro w a w' hinv _ hstep hdeletes
    cases a with
    | job a => cases hdeletes
    | configure entity retentionDays => cases hdeletes
    | applyRetention ids => exact keepsActive_applyRetention hinv hstep
    | purgeTerminalJobs terminalJobRetentionDays batchSize locked updatedAt =>
        exact iff_of_true (keepsActive_purge hinv hstep) trivial
  · refine ⟨h.ids, ?_⟩
    intro j hj hactive hended
    rw [h.fresh j hj hactive] at hended
    cases hended

/-! ## A job retried a day later -/

def dailyRetention : Retained where
  leases := { ledger := { now := 0, db := { retentionConfig := [⟨.jobs, 1⟩] } } }

def retriedNextDay : List RetentionAction :=
  [.job (.create 1 snapshotRequest), .job (.acquire "worker" 60 .bulk false []),
    .job (.perform (.completeJobWithLease .failed none (some "r2_error") none) 1 (some "worker") 1),
    .job (.tick (23 * 3600 * 1000000)), .job (.retry 1), .applyRetention fun _ => 0]

theorem dailyRetention_unretried : Unretried dailyRetention :=
  ⟨List.nodup_nil, fun _ hj => absurd hj List.not_mem_nil, rfl⟩

theorem retention_spares_active_in_time :
    (exec retentionStep dailyRetention retriedNextDay).map (fun w => w.jobs.map JobRow.state) =
        some [.pending] ∧
      EveryStep retentionStep (fun w a w' => a.deletes = true → (KeepsActive w w' ↔ a.current w))
        dailyRetention retriedNextDay :=
  ⟨by rfl, retention_spares_active dailyRetention_unretried retriedNextDay⟩

/-- Two hours later the job still waits. -/
theorem retried_job_deleted :
    Unretried dailyRetention ∧ ∃ w w',
      exec retentionStep dailyRetention (retriedNextDay ++ [.job (.tick (2 * 3600 * 1000000))]) =
          some w ∧
        retentionStep w (.applyRetention fun _ => 0) = some w' ∧
        w.jobs.map JobRow.state = [.pending] ∧ w'.jobs = [] :=
  ⟨dailyRetention_unretried, _, _, rfl, rfl, rfl, rfl⟩

end ExternalStorage.Jobs
