import ExternalStorage.Jobs.Attempts
import ExternalStorage.Jobs.Retention

/-!
# A paused queue

`pause_queue` sets a flag that the statement of `acquireJob` reads before it takes a waiting
job, in either lane.  The watcher claims the waiting snapshot of a dirty problem without
reading it.
-/

namespace ExternalStorage.Jobs

open ExternalStorage.Model Library.Runs Library.Table

/-! ## The machine -/

structure PausableQueue where
  leases : Leases
  /-- `queue_state.paused` of `'default'`. -/
  paused : Bool

inductive QueueAction where
  /-- The incident commands `pause_queue` and `resume_queue`. -/
  | pauseQueue
  | resumeQueue
  | statement (a : AttemptAction)

def AttemptAction.sees (paused : Bool) : AttemptAction → Bool
  | .queue (.acquire _ _ _ seen _) => seen = paused
  | _ => true

def queueStep (q : PausableQueue) : QueueAction → Option PausableQueue
  | .pauseQueue => some { q with paused := true }
  | .resumeQueue => some { q with paused := false }
  | .statement a =>
      if a.sees q.paused then
        (attemptStep q.leases a).map fun l => { q with leases := l }
      else
        none

def PausableQueue.jobs (q : PausableQueue) : List JobRow := q.leases.ledger.db.jobs

def Started (jobs jobs' : List JobRow) : Prop :=
  ∃ j ∈ jobs, ∃ k ∈ jobs', k.id = j.id ∧ j.state = .pending ∧ k.state = .running

instance (jobs jobs' : List JobRow) : Decidable (Started jobs jobs') :=
  inferInstanceAs (Decidable (∃ j ∈ jobs, ∃ k ∈ jobs', _ ∧ _ ∧ _))

/-- A paused queue starts nothing. -/
def PauseKept (q q' : PausableQueue) : Prop := q.paused = true → ¬ Started q.jobs q'.jobs

instance (q q' : PausableQueue) : Decidable (PauseKept q q') :=
  inferInstanceAs (Decidable (_ → _))

def watchedProblem (db : Database) (code : String) : Option ProblemRow :=
  db.problems.find? fun p => p.code = code &&
    (p.catalogState = .present || p.catalogState = .mirror)

def snapshotWaits (db : Database) (code : String) : Bool :=
  (watchedProblem db code).any fun p => db.jobs.any (pendingSnapshotOf p.externalId)

def QueueAction.claimsWaiting (q : PausableQueue) : QueueAction → Bool
  | .statement (.queue (.watch code _ _ _ _)) => snapshotWaits q.leases.ledger.db code
  | _ => false

/-! ## Statements that start nothing -/

section Statements

variable {jobs : List JobRow} {p : JobRow → Bool} {f : JobRow → JobRow}

theorem not_started_update (hids : (jobs.map JobRow.id).Nodup) (hid : ∀ j, (f j).id = j.id)
    (hf : ∀ j ∈ jobs, p j = true → j.state = .pending → (f j).state ≠ .running) :
    ¬ Started jobs (updateWhere p f jobs) := by
  rintro ⟨j, hj, k, hk, hsame, hpending, hrunning⟩
  obtain ⟨j', hj', rfl⟩ := mem_updateWhere.mp hk
  have hrow : j' = j := by
    apply row_eq_of_id hids hj' hj
    rw [← hsame]
    split
    · exact (hid j').symm
    · rfl
  subst hrow
  split at hrunning
  · rename_i hp
    exact hf j' hj hp hpending hrunning
  · rw [hpending] at hrunning
    cases hrunning

theorem not_started_subset {jobs' : List JobRow} (hids : (jobs.map JobRow.id).Nodup)
    (hrows : ∀ k ∈ jobs', (∃ j ∈ jobs, j.id = k.id ∧ j.state = k.state) ∨
      ∀ j ∈ jobs, j.id ≠ k.id) : ¬ Started jobs jobs' := by
  rintro ⟨j, hj, k, hk, hsame, hpending, hrunning⟩
  rcases hrows k hk with ⟨j', hj', hid, hstate⟩ | hfresh
  · obtain rfl := row_eq_of_id hids hj' hj (hid.trans hsame)
    rw [hpending, hrunning] at hstate
    cases hstate
  · exact hfresh j hj hsame.symm

theorem not_started_append {row : JobRow} (hids : (jobs.map JobRow.id).Nodup)
    (hfresh : ∀ j ∈ jobs, j.id ≠ row.id) : ¬ Started jobs (jobs ++ [row]) := by
  refine not_started_subset hids fun k hk => ?_
  rcases List.mem_append.mp hk with hold | hnew
  · exact .inl ⟨k, hold, rfl, rfl⟩
  · rw [List.mem_singleton.mp hnew]
    exact .inr hfresh

theorem not_started_self (hids : (jobs.map JobRow.id).Nodup) : ¬ Started jobs jobs :=
  not_started_subset hids fun k hk => .inl ⟨k, hk, rfl, rfl⟩

end Statements

section Steps

variable {l l' : Leases}

theorem not_started_acquire {worker : String} {leaseSeconds : Int} {lane : JobLane}
    {locked : List Uuid} (hids : (l.ledger.db.jobs.map JobRow.id).Nodup)
    (hstep : leaseStep l (.acquire worker leaseSeconds lane true locked) = some l') :
    ¬ Started l.ledger.db.jobs l'.ledger.db.jobs := by
  obtain ⟨⟨db, c, token⟩, hacquire, rfl⟩ := Option.map_eq_some_iff.mp hstep
  obtain ⟨hcandidate, hjobs, -⟩ := acquireJob_rows hacquire
  obtain ⟨hmem, hacquirable⟩ := acquireCandidate_mem hcandidate
  obtain ⟨-, hstate, -⟩ := acquirable_iff.mp hacquirable
  show ¬ Started _ db.jobs
  rw [hjobs]
  refine not_started_update hids (fun _ => rfl) fun j hj hp hpending => ?_
  rw [Bool.and_eq_true, decide_eq_true_eq] at hp
  obtain rfl := row_eq_of_id hids hj hmem hp.1
  rcases hstate with ⟨-, hunpaused⟩ | ⟨hrunning, -⟩
  · cases hunpaused
  · rw [hpending] at hrunning
    cases hrunning

theorem acquireDirtySnapshotTarget_problem {now : Timestamp} {code : String}
    {db marked : Database} {target : DirtySnapshotTarget}
    (h : acquireDirtySnapshotTarget now code db = some (target, marked)) :
    ∃ p, watchedProblem db code = some p ∧ target.externalId = p.externalId ∧
      marked.jobs = db.jobs := by
  obtain ⟨p, hp, htarget⟩ := Option.bind_eq_some_iff.mp h
  cases htarget
  exact ⟨p, hp, rfl, rfl⟩

theorem started_watch_iff {code owner : String} {leaseSeconds : Int} {id : Uuid} {millis : Int}
    (hids : (l.ledger.db.jobs.map JobRow.id).Nodup)
    (hstep : leaseStep l (.watch code owner leaseSeconds id millis) = some l') :
    Started l.ledger.db.jobs l'.ledger.db.jobs ↔ snapshotWaits l.ledger.db code = true := by
  simp only [leaseStep] at hstep
  split at hstep
  · cases hstep
  · rename_i hnew
    have hfresh : ∀ j ∈ l.ledger.db.jobs, j.id ≠ id := by simpa using hnew
    split at hstep
    · cases hstep
    · rename_i db tokens job hwatch
      cases hstep
      show Started _ db.jobs ↔ _
      rcases acquireDirtySnapshotJob_cases hwatch with ⟨rfl, -, hnone⟩ |
          ⟨target, marked, htarget, -, hdb⟩
      · have hproblem : watchedProblem l.ledger.db code = none := by
          cases hfound : watchedProblem l.ledger.db code with
          | none => rfl
          | some p =>
              rw [watchedProblem] at hfound
              rw [acquireDirtySnapshotTarget, hfound] at hnone
              cases hnone
        rw [snapshotWaits, hproblem]
        exact iff_of_false (not_started_self hids) Bool.false_ne_true
      · obtain ⟨p, hp, hid, hmarked⟩ := acquireDirtySnapshotTarget_problem htarget
        rw [snapshotWaits, hp, Option.any_some, ← hid]
        cases hwaits : l.ledger.db.jobs.any (pendingSnapshotOf target.externalId) with
        | true =>
            obtain ⟨j, hj, hpending⟩ := List.any_eq_true.mp hwaits
            have hclaimed : ∀ token, j.watched owner (l.ledger.now + seconds leaseSeconds) token ∈
                updateWhere (pendingSnapshotOf target.externalId)
                  (JobRow.watched owner (l.ledger.now + seconds leaseSeconds) token)
                  marked.jobs := by
              intro token
              rw [hmarked]
              exact mem_updateWhere.mpr ⟨j, hj, (if_pos hpending).symm⟩
            have hrow : ∃ token, j.watched owner (l.ledger.now + seconds leaseSeconds) token ∈
                db.jobs := by
              rcases hdb with rfl | rfl
              · exact ⟨_, hclaimed _⟩
              · exact ⟨_, List.mem_append_left _ (hclaimed _)⟩
            have hstate : j.state = .pending := by
              simp only [pendingSnapshotOf, Bool.and_eq_true, decide_eq_true_eq] at hpending
              exact hpending.2
            obtain ⟨token, hrow⟩ := hrow
            exact iff_of_true ⟨j, hj, _, hrow, rfl, hstate, rfl⟩ rfl
        | false =>
            refine iff_of_false ?_ Bool.false_ne_true
            have hclaimed : (claimPendingSnapshot l.ledger.now owner leaseSeconds
                target.externalId marked).1.jobs = l.ledger.db.jobs := by
              show updateWhere _ _ marked.jobs = _
              rw [hmarked]
              exact updateWhere_eq_self fun j hj hpending =>
                absurd hpending (List.any_eq_false.mp hwaits j hj)
            rcases hdb with rfl | rfl
            · rw [hclaimed]
              exact not_started_self hids
            · show ¬ Started _ (_ ++ [watcherJob l.ledger.now owner leaseSeconds id millis target])
              rw [hclaimed]
              exact not_started_append hids hfresh

theorem not_started_leaseStep {a : LeaseAction} (hids : (l.ledger.db.jobs.map JobRow.id).Nodup)
    (hacquire : (AttemptAction.queue a).sees true = true)
    (hwatch : ∀ code owner leaseSeconds id millis, a ≠ .watch code owner leaseSeconds id millis)
    (hstep : leaseStep l a = some l') : ¬ Started l.ledger.db.jobs l'.ledger.db.jobs := by
  cases a with
  | acquire worker leaseSeconds lane paused locked =>
      obtain rfl : paused = true := of_decide_eq_true hacquire
      exact not_started_acquire hids hstep
  | watch code owner leaseSeconds id millis => exact absurd rfl (hwatch _ _ _ _ _)
  | perform s id owner token =>
      cases hstep
      refine not_started_update hids (calms_set l.ledger.now id owner token s).id ?_
      intro j _ hp hpending
      rw [(JobRow.heldAs_iff.mp (s.heldAs_of_guard hp)).2.2.2] at hpending
      cases hpending
  | cancel id reason =>
      obtain ⟨⟨db, j, token⟩, hcancel, rfl⟩ := Option.map_eq_some_iff.mp hstep
      obtain ⟨-, -, hjobs⟩ := cancelJob_rows hcancel
      show ¬ Started _ db.jobs
      rw [hjobs]
      exact not_started_update hids (by intro j; rfl) fun j _ _ _ hrunning => by cases hrunning
  | retry id =>
      obtain ⟨db, hretry, rfl⟩ := Option.map_eq_some_iff.mp hstep
      obtain ⟨-, rfl⟩ := retryJob_eq_some hretry
      exact not_started_update hids (by intro j; rfl) fun j _ _ _ hrunning => by cases hrunning
  | touch problemId =>
      cases hstep
      exact not_started_update hids (by intro j; rfl) fun j _ _ _ hrunning => by cases hrunning
  | cancelPending externalId =>
      cases hstep
      exact not_started_update hids (by intro j; rfl) fun j _ _ _ hrunning => by cases hrunning
  | failExpired =>
      cases hstep
      exact not_started_update hids (by intro j; rfl) fun j _ _ _ hrunning => by cases hrunning
  | create id r =>
      simp only [leaseStep] at hstep
      split at hstep
      · cases hstep
      · rename_i hnew
        have hfresh : ∀ j ∈ l.ledger.db.jobs, j.id ≠ id := by simpa using hnew
        split at hstep
        · cases hstep
        · rename_i hcreate
          cases hstep
          rcases createJob_eq_ok hcreate with ⟨rfl, -⟩ | ⟨rfl, rfl, -⟩
          · exact not_started_self hids
          · exact not_started_append hids hfresh
  | tick elapsed =>
      cases hstep
      exact not_started_self hids

end Steps

/-! ## Runs -/

variable {q q' : PausableQueue}

theorem ids_queueStep {a : QueueAction} (hids : (q.jobs.map JobRow.id).Nodup)
    (hstep : queueStep q a = some q') : (q'.jobs.map JobRow.id).Nodup := by
  cases a with
  | pauseQueue =>
      cases hstep
      exact hids
  | resumeQueue =>
      cases hstep
      exact hids
  | statement a =>
      obtain ⟨-, hstep⟩ := Option.ite_none_right_eq_some.mp hstep
      obtain ⟨l, hattempt, rfl⟩ := Option.map_eq_some_iff.mp hstep
      cases a with
      | queue a =>
          obtain ⟨-, hlease⟩ := Option.ite_none_left_eq_some.mp hattempt
          have hinv : RetentionInv q.leases.ledger.db.jobs (q.jobs.map JobRow.id) :=
            ⟨hids, fun j hj _ _ => List.mem_map_of_mem hj⟩
          exact (retentionInv_job hinv hlease).ids
      | rest db =>
          obtain ⟨hkeeps, hdb⟩ := Option.ite_none_right_eq_some.mp hattempt
          cases hdb
          rw [keepsAttempts, Bool.and_eq_true, decide_eq_true_eq] at hkeeps
          exact hkeeps.1

theorem pauseKept_iff {a : QueueAction} (hids : (q.jobs.map JobRow.id).Nodup)
    (hstep : queueStep q a = some q') :
    PauseKept q q' ↔ (q.paused = true → a.claimsWaiting q = false) := by
  unfold PauseKept
  refine imp_congr_right fun hpaused => ?_
  cases a with
  | pauseQueue =>
      cases hstep
      exact iff_of_true (not_started_self hids) rfl
  | resumeQueue =>
      cases hstep
      exact iff_of_true (not_started_self hids) rfl
  | statement a =>
      obtain ⟨hsees, hstep⟩ := Option.ite_none_right_eq_some.mp hstep
      obtain ⟨l, hattempt, rfl⟩ := Option.map_eq_some_iff.mp hstep
      rw [hpaused] at hsees
      cases a with
      | queue a =>
          obtain ⟨-, hlease⟩ := Option.ite_none_left_eq_some.mp hattempt
          by_cases hwatch : ∃ code owner leaseSeconds id millis,
              a = .watch code owner leaseSeconds id millis
          · obtain ⟨code, owner, leaseSeconds, id, millis, rfl⟩ := hwatch
            show ¬ Started q.leases.ledger.db.jobs l.ledger.db.jobs ↔
              snapshotWaits q.leases.ledger.db code = false
            rw [started_watch_iff hids hlease, Bool.not_eq_true]
          · have hother : ∀ code owner leaseSeconds id millis,
                a ≠ .watch code owner leaseSeconds id millis :=
              fun _ _ _ _ _ heq => hwatch ⟨_, _, _, _, _, heq⟩
            refine iff_of_true (not_started_leaseStep hids hsees hother hlease) ?_
            unfold QueueAction.claimsWaiting
            split
            · rename_i heq
              cases heq
              exact absurd rfl (hother _ _ _ _ _)
            · rfl
      | rest db =>
          obtain ⟨hkeeps, hdb⟩ := Option.ite_none_right_eq_some.mp hattempt
          cases hdb
          refine iff_of_true (not_started_subset hids fun k hk => .inl ?_) rfl
          rw [keepsAttempts, Bool.and_eq_true, List.all_eq_true] at hkeeps
          obtain ⟨j, hj, hsame⟩ := List.any_eq_true.mp (hkeeps.2 k hk)
          simp only [Bool.and_eq_true, decide_eq_true_eq] at hsame
          exact ⟨j, hj, hsame.1.1.1, hsame.1.1.2⟩

/-- Along every run a paused queue starts nothing exactly when the watcher acquires, while it
is paused, no problem whose snapshot waits. -/
theorem paused_queue_starts_nothing_iff {as : List QueueAction}
    (hids : (q.jobs.map JobRow.id).Nodup) :
    EveryStep queueStep (fun q _ q' => PauseKept q q') q as ↔
      EveryStep queueStep (fun q a _ => q.paused = true → a.claimsWaiting q = false) q as := by
  have hkeys : EveryStep queueStep (fun q a q' => PauseKept q q' ↔
      (q.paused = true → a.claimsWaiting q = false)) q as :=
    everyStep_of_invariant (I := fun q => (q.jobs.map JobRow.id).Nodup) (C := fun _ _ _ => True)
      (fun _ _ _ hids _ hstep => ids_queueStep hids hstep)
      (fun _ _ _ hids _ hstep => pauseKept_iff hids hstep) hids
      (everyStep_of_forall_mem fun _ _ => trivial)
  constructor
  · exact fun h => (hkeys.and h).mono fun _ _ _ _ h => h.1.mp h.2
  · exact fun h => (hkeys.and h).mono fun _ _ _ _ h => h.1.mpr h.2

def pausedWorker : List QueueAction :=
  [.statement (.queue (.create 1 snapshotRequest)), .pauseQueue,
    .statement (.queue (.touch "42")), .resumeQueue,
    .statement (.queue (.acquire "worker" 60 .bulk false []))]

theorem paused_queue_starts_nothing_worker :
    (exec queueStep ⟨emptyLeases, false⟩ pausedWorker).map (fun q =>
        q.jobs.map JobRow.state) = some [.running] ∧
      EveryStep queueStep (fun q _ q' => PauseKept q q') ⟨emptyLeases, false⟩ pausedWorker :=
  ⟨by decide +kernel,
    (paused_queue_starts_nothing_iff (q := ⟨emptyLeases, false⟩) List.nodup_nil).mpr
      (by decide +kernel)⟩

def pausedWatcher : List QueueAction :=
  [.statement (.queue (.create 1 snapshotRequest)), .pauseQueue,
    .statement (.queue (.watch "aplusb" "watcher" 300 2 0))]

theorem watcher_starts_while_paused :
    (exec queueStep ⟨emptyLeases, false⟩ pausedWatcher).map (fun q =>
        (q.paused, q.jobs.map JobRow.state)) = some (true, [.running]) ∧
      ¬ EveryStep queueStep (fun q _ q' => PauseKept q q') ⟨emptyLeases, false⟩ pausedWatcher := by
  refine ⟨by decide +kernel, ?_⟩
  decide +kernel

end ExternalStorage.Jobs
