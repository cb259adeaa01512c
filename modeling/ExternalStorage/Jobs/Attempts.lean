import ExternalStorage.Jobs.Leases

/-!
# How often a job is started

A job is started by `acquireJob`, by the watcher when it claims a waiting job, and by the
watcher's insert.  Each start but one is counted in `attempt`: `acquireJob` leaves the
count alone when the job was pending.  That is right for a job no executor has had yet,
since it was created with attempt 1, and wrong for one that `fail_job` has put back.
-/

namespace ExternalStorage.Jobs

open ExternalStorage.Model Library.Runs Library.Table

/-! ## The machine -/

inductive AttemptAction where
  | queue (a : LeaseAction)
  /-- Any other statement: the catalog, retention, the payload of a job. -/
  | rest (db : Database)

def LeaseAction.newId : LeaseAction → Option Uuid
  | .create id _ => some id
  | .watch _ _ _ id _ => some id
  | _ => none

def keepsAttempts (before after : List JobRow) : Bool :=
  (after.map JobRow.id).Nodup && after.all fun k => before.any fun j =>
    j.id = k.id && j.state = k.state && j.attempt = k.attempt && j.maxAttempts = k.maxAttempts

/-- `gen_random_uuid` hands out no key of a job that is gone. -/
def attemptStep (l : Leases) : AttemptAction → Option Leases
  | .queue a =>
      if a.newId.any fun id => l.log.any fun e => e.job = id then none else leaseStep l a
  | .rest db =>
      if keepsAttempts l.ledger.db.jobs db.jobs then some (l.after db [] []) else none

/-! ## Statements -/

def startsIn (events : List LeaseEvent) (id : Uuid) : Nat :=
  events.countP fun e => e.job = id && e.owner.isSome

def Leases.starts (l : Leases) (id : Uuid) : Nat := startsIn l.log id

/-- What holds of the attempts of every job, and that none waits where `acquireJob` passes
it over. -/
structure AttemptsKept (l : Leases) : Prop where
  bounded : ∀ j ∈ l.ledger.db.jobs, j.attempt ≤ j.maxAttempts
  startable : ∀ j ∈ l.ledger.db.jobs, j.state = .pending → j.attempt < j.maxAttempts

/-- No job is started more often than its `max_attempts`. -/
def StartsBounded (l : Leases) : Prop :=
  ∀ j ∈ l.ledger.db.jobs, (l.starts j.id : Int) ≤ j.maxAttempts

instance (l : Leases) : Decidable (StartsBounded l) :=
  inferInstanceAs (Decidable (∀ j ∈ l.ledger.db.jobs, _))

/-- The statement of `acquireJob` takes no waiting job whose starts its attempts already
count. -/
def Counted (l : Leases) : AttemptAction → Prop
  | .queue (.acquire _ _ lane paused locked) =>
      ∀ c ∈ acquireCandidate l.ledger.now lane paused locked l.ledger.db.jobs,
        c.state = .pending → (l.starts c.id : Int) < c.attempt
  | _ => True

instance (l : Leases) (a : AttemptAction) : Decidable (Counted l a) := by
  unfold Counted
  split <;> infer_instance

def AttemptAction.manualRetry : AttemptAction → Bool
  | .queue (.retry _) => true
  | _ => false

/-- A queue before its first job. -/
structure NoJobsYet (l : Leases) : Prop where
  jobs : l.ledger.db.jobs = []
  log : l.log = []

/-! ## What a statement does to a job -/

theorem startsIn_append (events events' : List LeaseEvent) (id : Uuid) :
    startsIn (events ++ events') id = startsIn events id + startsIn events' id :=
  List.countP_append

theorem startsIn_eq_zero {events : List LeaseEvent} {id : Uuid}
    (h : ∀ e ∈ events, e.job = id → e.owner = none) : startsIn events id = 0 := by
  apply List.countP_eq_zero.mpr
  intro e he
  by_cases hjob : e.job = id
  · simp [h e he hjob]
  · simp [hjob]

/-- A row before and after a statement, with the number of times the statement started it. -/
inductive Worked (l : Leases) (a : AttemptAction) (j k : JobRow) : Nat → Prop where
  | kept : k.attempt = j.attempt →
      (k.state = .pending → j.state = .pending ∨ j.attempt < j.maxAttempts) → Worked l a j k 0
  | counted : k.attempt = j.attempt + 1 → j.attempt < j.maxAttempts → k.state = .running →
      Worked l a j k 1
  | uncounted : k.attempt = j.attempt → k.state = .running →
      (Counted l a → (l.starts j.id : Int) < j.attempt) → Worked l a j k 1

structure Created (l : Leases) (k : JobRow) (starts : Nat) : Prop where
  unstarted : l.starts k.id = 0
  attempt : k.attempt = 1
  maxAttempts : k.maxAttempts = 3
  once : starts ≤ 1

structure AttemptMove (l : Leases) (a : AttemptAction) (jobs : List JobRow)
    (events : List LeaseEvent) : Prop where
  ids : (jobs.map JobRow.id).Nodup
  rows : ∀ k ∈ jobs,
    (∃ j ∈ l.ledger.db.jobs, j.id = k.id ∧ k.maxAttempts = j.maxAttempts ∧
      Worked l a j k (startsIn events k.id)) ∨ Created l k (startsIn events k.id)

/-! ## The invariants -/

structure AttemptInv (l : Leases) : Prop where
  ids : (l.ledger.db.jobs.map JobRow.id).Nodup
  kept : AttemptsKept l

def StartsCounted (l : Leases) : Prop :=
  ∀ j ∈ l.ledger.db.jobs, (l.starts j.id : Int) ≤ j.attempt

theorem StartsCounted.bounded {l : Leases} (hinv : AttemptInv l) (h : StartsCounted l) :
    StartsBounded l := by
  intro j hj
  calc (l.starts j.id : Int) ≤ j.attempt := h j hj
    _ ≤ j.maxAttempts := hinv.kept.bounded j hj

theorem attemptInv_move {l l' : Leases} {a : AttemptAction} {events : List LeaseEvent}
    (hinv : AttemptInv l) (h : AttemptMove l a l'.ledger.db.jobs events) : AttemptInv l' := by
  refine ⟨h.ids, ⟨?_, ?_⟩⟩
  · intro k hk
    rcases h.rows k hk with ⟨j, hj, -, hmax, hworked⟩ | hcreated
    · have hbound := hinv.kept.bounded j hj
      generalize startsIn events k.id = n at hworked
      cases hworked <;> omega
    · rw [hcreated.attempt, hcreated.maxAttempts]
      decide
  · intro k hk hpending
    rcases h.rows k hk with ⟨j, hj, -, hmax, hworked⟩ | hcreated
    · generalize startsIn events k.id = n at hworked
      cases hworked with
      | kept hattempt hstate =>
          rw [hattempt, hmax]
          rcases hstate hpending with hwaits | hroom
          · exact hinv.kept.startable j hj hwaits
          · exact hroom
      | counted _ _ hrunning =>
          rw [hrunning] at hpending
          cases hpending
      | uncounted _ hrunning _ =>
          rw [hrunning] at hpending
          cases hpending
    · rw [hcreated.attempt, hcreated.maxAttempts]
      decide

theorem startsCounted_move {l l' : Leases} {a : AttemptAction} {events : List LeaseEvent}
    (hcounted : StartsCounted l) (ha : Counted l a) (hlog : l'.log = l.log ++ events)
    (h : AttemptMove l a l'.ledger.db.jobs events) : StartsCounted l' := by
  intro k hk
  have hstarts : l'.starts k.id = l.starts k.id + startsIn events k.id := by
    rw [Leases.starts, hlog, startsIn_append]
    rfl
  rcases h.rows k hk with ⟨j, hj, hid, -, hworked⟩ | hcreated
  · have hle := hcounted j hj
    rw [hid] at hle
    generalize startsIn events k.id = n at hstarts hworked
    cases hworked with
    | kept hattempt _ => omega
    | counted hattempt _ _ => omega
    | uncounted hattempt _ hroom =>
        have hlt := hroom ha
        rw [hid] at hlt
        omega
  · have hzero := hcreated.unstarted
    have honce := hcreated.once
    have hattempt := hcreated.attempt
    omega

/-! ## Statements that update rows -/

theorem attemptMove_update {l : Leases} {a : AttemptAction} {p : JobRow → Bool}
    {f : JobRow → JobRow} {jobs : List JobRow} {events : List LeaseEvent} (hinv : AttemptInv l)
    (hjobs : jobs = updateWhere p f l.ledger.db.jobs) (hid : ∀ j, (f j).id = j.id)
    (hmax : ∀ j, (f j).maxAttempts = j.maxAttempts)
    (hin : ∀ j ∈ l.ledger.db.jobs, p j = true → Worked l a j (f j) (startsIn events j.id))
    (hout : ∀ j ∈ l.ledger.db.jobs, p j = false → startsIn events j.id = 0) :
    AttemptMove l a jobs events := by
  subst hjobs
  refine ⟨ids_update hinv.ids hid, ?_⟩
  intro k hk
  obtain ⟨j, hj, rfl⟩ := mem_updateWhere.mp hk
  left
  refine ⟨j, hj, ?_⟩
  cases hp : p j with
  | true =>
      rw [if_pos rfl, hid, hmax]
      exact ⟨rfl, rfl, hin j hj hp⟩
  | false =>
      rw [if_neg Bool.false_ne_true, hout j hj hp]
      exact ⟨rfl, rfl, .kept rfl fun hpending => .inl hpending⟩

/-- An update that starts no job, of rows that then wait only where `acquireJob` can take
them. -/
theorem attemptMove_silent {l : Leases} {a : AttemptAction} {p : JobRow → Bool}
    {f : JobRow → JobRow} {jobs : List JobRow} {events : List LeaseEvent} (hinv : AttemptInv l)
    (hjobs : jobs = updateWhere p f l.ledger.db.jobs) (hid : ∀ j, (f j).id = j.id)
    (hmax : ∀ j, (f j).maxAttempts = j.maxAttempts) (hattempt : ∀ j, (f j).attempt = j.attempt)
    (hwaits : ∀ j, p j = true → (f j).state = .pending →
      j.state = .pending ∨ j.attempt < j.maxAttempts)
    (hevents : ∀ e ∈ events, e.owner = none) : AttemptMove l a jobs events := by
  have hzero : ∀ id, startsIn events id = 0 :=
    fun id => startsIn_eq_zero fun e he _ => hevents e he
  refine attemptMove_update hinv hjobs hid hmax ?_ fun j _ _ => hzero j.id
  intro j _ hp
  rw [hzero]
  exact .kept (hattempt j) (hwaits j hp)

theorem attemptMove_perform {l : Leases} {a : AttemptAction} (hinv : AttemptInv l)
    (s : LeaseStatement) (id : Uuid) (owner : Option String) (token : Int) :
    AttemptMove l a (s.run l.ledger.now id owner token l.ledger.db).jobs [] := by
  refine attemptMove_silent hinv rfl ?_ ?_ ?_ ?_ nofun
  · intro j
    cases s <;> rfl
  · intro j
    cases s <;> rfl
  · intro j
    cases s <;> rfl
  · intro j hp hpending
    have hrunning : j.state = .running := (JobRow.heldAs_iff.mp (s.heldAs_of_guard hp)).2.2.2
    cases s with
    | failJob errorCode errorMessage =>
        -- `CASE WHEN attempt < max_attempts THEN 'pending' ELSE 'failed' END`.
        right
        by_contra hroom
        have hfailed : (released l.ledger.now errorCode errorMessage j).state = .failed :=
          if_neg hroom
        change (released l.ledger.now errorCode errorMessage j).state = .pending at hpending
        rw [hfailed] at hpending
        cases hpending
    | completeJobWithLease state _ _ _ =>
        change state.toJobState = .pending at hpending
        cases state <;> cases hpending
    | completeJob _ => cases hpending
    | renewJobLease _ => exact .inl hpending
    | assertJobLease => exact .inl hpending
    | dataPlaneRenew _ => exact .inl hpending
    | dataPlaneAssert => exact .inl hpending

theorem attemptMove_cancel {l : Leases} {a : AttemptAction} {id : Uuid} {reason : Option String}
    {db : Database} {j : JobRow} {token : Int} (hinv : AttemptInv l)
    (h : cancelJob l.ledger.now id reason l.ledger.db = some (db, j, token)) :
    AttemptMove l a db.jobs [⟨j.id, none, token⟩] := by
  obtain ⟨-, -, hjobs⟩ := cancelJob_rows h
  refine attemptMove_silent hinv hjobs ?_ ?_ ?_ ?_ ?_
  · exact fun _ => rfl
  · exact fun _ => rfl
  · exact fun _ => rfl
  · intro k _ hpending
    cases hpending
  · intro e he
    rw [List.mem_singleton.mp he]

theorem attemptMove_retry {l : Leases} {a : AttemptAction} {id : Uuid} {db : Database}
    (hinv : AttemptInv l) (h : retryJob id l.ledger.db = some db) :
    AttemptMove l a db.jobs [] := by
  obtain ⟨-, rfl⟩ := retryJob_eq_some h
  refine attemptMove_silent hinv rfl ?_ ?_ ?_ ?_ nofun
  · exact fun _ => rfl
  · exact fun _ => rfl
  · exact fun _ => rfl
  · intro j hp _
    rw [Bool.and_eq_true, decide_eq_true_eq] at hp
    exact .inr hp.2

theorem attemptMove_failExpired {l : Leases} {a : AttemptAction} (hinv : AttemptInv l) :
    AttemptMove l a (failExpiredRunningJobs l.ledger.now l.ledger.db).jobs
      (revocations l.ledger.now l.ledger.db) := by
  refine attemptMove_silent hinv rfl ?_ ?_ ?_ ?_ ?_
  · exact fun _ => rfl
  · exact fun _ => rfl
  · exact fun _ => rfl
  · intro k _ hpending
    cases hpending
  · intro e he
    obtain ⟨j, -, rfl⟩ := List.mem_map.mp he
    rfl

theorem startsIn_singleton (id : Uuid) (owner : String) (token : Int) :
    startsIn [⟨id, some owner, token⟩] id = 1 := by
  simp [startsIn]

theorem startsIn_singleton_of_ne {id id' : Uuid} (owner : Option String) (token : Int)
    (hne : id' ≠ id) : startsIn [⟨id, owner, token⟩] id' = 0 := by
  refine startsIn_eq_zero fun e he hid => ?_
  rw [List.mem_singleton.mp he] at hid
  exact absurd hid.symm hne

theorem attemptMove_acquire {l : Leases} {worker : String} {leaseSeconds : Int} {lane : JobLane}
    {paused : Bool} {locked : List Uuid} {db : Database} {c : JobRow} {token : Int}
    (hinv : AttemptInv l)
    (h : acquireJob l.ledger.now worker leaseSeconds lane paused locked l.ledger.db =
      some (db, c, token)) :
    AttemptMove l (.queue (.acquire worker leaseSeconds lane paused locked)) db.jobs
      [⟨c.id, some worker, token⟩] := by
  obtain ⟨hcandidate, hjobs, -⟩ := acquireJob_rows h
  obtain ⟨hmem, hacquirable⟩ := acquireCandidate_mem hcandidate
  obtain ⟨hroom, hstate, -⟩ := acquirable_iff.mp hacquirable
  refine attemptMove_update hinv hjobs (fun _ => rfl) (fun _ => rfl) ?_ ?_
  · intro j hj hp
    rw [Bool.and_eq_true, decide_eq_true_eq] at hp
    obtain rfl := row_eq_of_id hinv.ids hj hmem hp.1
    rw [startsIn_singleton]
    by_cases hpending : j.state = .pending
    · refine .uncounted (if_pos hpending) rfl fun hcounted => ?_
      exact hcounted j hcandidate hpending
    · exact .counted (if_neg hpending) hroom rfl
  · intro j hj hp
    apply startsIn_singleton_of_ne
    intro hid
    obtain rfl := row_eq_of_id hinv.ids hj hmem hid
    rw [hid, decide_eq_true rfl, Bool.true_and, decide_eq_false_iff_not] at hp
    exact hp hroom

/-! ## Statements that add rows -/

theorem attemptMove_refl {l : Leases} {a : AttemptAction} (hinv : AttemptInv l) :
    AttemptMove l a l.ledger.db.jobs [] :=
  ⟨hinv.ids, fun k hk => .inl ⟨k, hk, rfl, rfl, .kept rfl fun hpending => .inl hpending⟩⟩

theorem starts_eq_zero {l : Leases} {id : Uuid} (h : ∀ e ∈ l.log, e.job ≠ id) :
    l.starts id = 0 :=
  startsIn_eq_zero fun e he hid => absurd hid (h e he)

theorem attemptMove_append {l : Leases} {a : AttemptAction} {row : JobRow} {jobs : List JobRow}
    {events : List LeaseEvent} (hinv : AttemptInv l) (hjobs : jobs = l.ledger.db.jobs ++ [row])
    (hfresh : ∀ j ∈ l.ledger.db.jobs, j.id ≠ row.id)
    (hevents : ∀ e ∈ events, e.job = row.id) (hcreated : Created l row (startsIn events row.id)) :
    AttemptMove l a jobs events := by
  subst hjobs
  constructor
  · rw [List.map_append, List.map_singleton]
    refine List.Nodup.append hinv.ids (List.nodup_singleton _) ?_
    intro id hid hnew
    obtain ⟨j, hj, rfl⟩ := List.mem_map.mp hid
    exact hfresh j hj (List.mem_singleton.mp hnew)
  · intro k hk
    rcases List.mem_append.mp hk with hold | hnew
    · left
      have hzero : startsIn events k.id = 0 := by
        refine startsIn_eq_zero fun e he hid => ?_
        exact absurd (hid.symm.trans (hevents e he)) (hfresh k hold)
      refine ⟨k, hold, rfl, rfl, ?_⟩
      rw [hzero]
      exact .kept rfl fun hpending => .inl hpending
    · obtain rfl := List.mem_singleton.mp hnew
      exact .inr hcreated

theorem attemptMove_create {l : Leases} {a : AttemptAction} {id : Uuid} {r : JobRequest}
    {db : Database} {j : JobRow} (hinv : AttemptInv l)
    (hfresh : ∀ j ∈ l.ledger.db.jobs, j.id ≠ id) (hlog : ∀ e ∈ l.log, e.job ≠ id)
    (h : createJob l.ledger.now id r l.ledger.db = .ok (db, j)) :
    AttemptMove l a db.jobs [] := by
  rcases createJob_eq_ok h with ⟨rfl, -⟩ | ⟨rfl, rfl, -⟩
  · exact attemptMove_refl hinv
  · exact attemptMove_append hinv rfl hfresh nofun
      ⟨starts_eq_zero hlog, rfl, rfl, Nat.zero_le 1⟩

theorem pendingSnapshotOf_unique {problemId owner : String} {lease : Timestamp} {token : Int}
    {jobs : List JobRow} {j k : JobRow}
    (hguards : activeGuards (updateWhere (pendingSnapshotOf problemId)
      (JobRow.watched owner lease token) jobs) = true)
    (hj : j ∈ jobs) (hk : k ∈ jobs) (hpj : pendingSnapshotOf problemId j = true)
    (hpk : pendingSnapshotOf problemId k = true) : j.id = k.id := by
  by_contra hne
  have hclaimed : ∀ i ∈ jobs, pendingSnapshotOf problemId i = true →
      i.watched owner lease token ∈ updateWhere (pendingSnapshotOf problemId)
        (JobRow.watched owner lease token) jobs :=
    fun i hi hp => mem_updateWhere.mpr ⟨i, hi, by rw [if_pos hp]⟩
  have hfree := activeGuards_iff.mp hguards _ (hclaimed j hj hpj) _ (hclaimed k hk hpk) hne
  rw [← Bool.not_eq_true] at hfree
  apply hfree
  simp only [pendingSnapshotOf, Bool.and_eq_true, decide_eq_true_eq] at hpj hpk
  rw [conflicting_eq_true]
  refine ⟨rfl, rfl, .inl ⟨?_, ?_, ?_, ?_, .inr ⟨rfl, rfl⟩⟩⟩
  · show j.problemId.isSome = true
    rw [hpj.1.1]
    rfl
  · exact hpj.1.1.trans hpk.1.1.symm
  · show j.jobType.exclusive = true
    rw [hpj.1.2]
    rfl
  · show k.jobType.exclusive = true
    rw [hpk.1.2]
    rfl

theorem attemptMove_watch {l : Leases} {a : AttemptAction} {code owner : String}
    {leaseSeconds : Int} {id : Uuid} {millis : Int} {db : Database}
    {tokens : Option WatcherTokens} {job : Option DirtySnapshotJob} (hinv : AttemptInv l)
    (hfresh : ∀ j ∈ l.ledger.db.jobs, j.id ≠ id) (hlog : ∀ e ∈ l.log, e.job ≠ id)
    (h : acquireDirtySnapshotJobByCode l.ledger.now code owner leaseSeconds id millis
      l.ledger.db = .ok (db, tokens, job)) :
    AttemptMove l a db.jobs
      (job.toList.map fun d => ⟨d.jobId, some owner, d.fencingToken⟩) := by
  rcases acquireDirtySnapshotJob_grants h with ⟨rfl, -, rfl⟩ | ⟨t, -, hguards, hcases⟩
  · exact attemptMove_refl hinv
  · rcases hcases with ⟨d, j, rfl, hj, hpending, hjob, -, hjobs⟩ | ⟨rfl, hjobs⟩ |
      ⟨d, target, rfl, hjob, -, hjobs⟩
    · rw [hjobs] at hguards
      refine attemptMove_update hinv hjobs (fun _ => rfl) (fun _ => rfl) ?_ ?_
      · intro k hk hp
        have hid := pendingSnapshotOf_unique hguards hk hj hp hpending
        simp only [Option.toList_some, List.map_singleton, hjob, ← hid, startsIn_singleton]
        simp only [pendingSnapshotOf, Bool.and_eq_true, decide_eq_true_eq] at hp
        exact .counted rfl (hinv.kept.startable k hk hp.2) rfl
      · intro k hk hp
        apply startsIn_singleton_of_ne
        intro hid
        obtain rfl := row_eq_of_id hinv.ids hk hj (hid.trans hjob)
        rw [hpending] at hp
        cases hp
    · rw [hjobs]
      exact attemptMove_refl hinv
    · refine attemptMove_append hinv hjobs hfresh ?_ ⟨starts_eq_zero hlog, rfl, rfl, ?_⟩
      · intro e he
        rw [List.mem_singleton.mp he]
        exact hjob
      · exact List.countP_le_length

/-! ## The run -/

theorem keepsAttempts_iff {before after : List JobRow} :
    keepsAttempts before after = true ↔ (after.map JobRow.id).Nodup ∧
      ∀ k ∈ after, ∃ j ∈ before, j.id = k.id ∧ j.state = k.state ∧ j.attempt = k.attempt ∧
        j.maxAttempts = k.maxAttempts := by
  simp only [keepsAttempts, Bool.and_eq_true, decide_eq_true_eq, List.all_eq_true,
    List.any_eq_true, and_assoc]

theorem attempt_step {l l' : Leases} {a : AttemptAction} (hinv : AttemptInv l)
    (h : attemptStep l a = some l') :
    ∃ events, l'.log = l.log ++ events ∧ AttemptMove l a l'.ledger.db.jobs events := by
  cases a with
  | rest db =>
      simp only [attemptStep] at h
      split at h
      · rename_i hkeeps
        cases h
        obtain ⟨hids, hrows⟩ := keepsAttempts_iff.mp hkeeps
        refine ⟨[], rfl, hids, fun k hk => ?_⟩
        obtain ⟨j, hj, hid, hstate, hattempt, hmax⟩ := hrows k hk
        refine .inl ⟨j, hj, hid, hmax.symm, .kept hattempt.symm fun hpending => ?_⟩
        exact .inl (hstate.trans hpending)
      · cases h
  | queue a =>
      simp only [attemptStep] at h
      split at h
      · cases h
      · rename_i hunused
        rw [Bool.not_eq_true] at hunused
        cases a with
        | acquire worker leaseSeconds lane paused locked =>
            obtain ⟨⟨db, c, token⟩, hacquire, rfl⟩ := Option.map_eq_some_iff.mp h
            exact ⟨_, rfl, attemptMove_acquire hinv hacquire⟩
        | watch code owner leaseSeconds id millis =>
            have hlog : ∀ e ∈ l.log, e.job ≠ id := by
              simpa [LeaseAction.newId] using hunused
            simp only [leaseStep] at h
            split at h
            · cases h
            · rename_i hfresh
              split at h
              · cases h
              · rename_i hwatch
                cases h
                exact ⟨_, rfl, attemptMove_watch hinv (by simpa using hfresh) hlog hwatch⟩
        | perform s id owner token =>
            cases h
            exact ⟨_, rfl, attemptMove_perform hinv s id owner token⟩
        | cancel id reason =>
            obtain ⟨⟨db, j, token⟩, hcancel, rfl⟩ := Option.map_eq_some_iff.mp h
            exact ⟨_, rfl, attemptMove_cancel hinv hcancel⟩
        | retry id =>
            obtain ⟨db, hretry, rfl⟩ := Option.map_eq_some_iff.mp h
            exact ⟨_, rfl, attemptMove_retry hinv hretry⟩
        | touch problemId =>
            cases h
            refine ⟨_, rfl, attemptMove_silent hinv rfl (fun _ => rfl) (fun _ => rfl)
              (fun _ => rfl) ?_ ?_⟩
            · intro j _ hpending
              cases hpending
            · intro e he
              cases he
        | cancelPending externalId =>
            cases h
            refine ⟨_, rfl, attemptMove_silent hinv rfl (fun _ => rfl) (fun _ => rfl)
              (fun _ => rfl) ?_ ?_⟩
            · intro j _ hpending
              cases hpending
            · intro e he
              cases he
        | failExpired =>
            cases h
            exact ⟨_, rfl, attemptMove_failExpired hinv⟩
        | create id r =>
            have hlog : ∀ e ∈ l.log, e.job ≠ id := by
              simpa [LeaseAction.newId] using hunused
            simp only [leaseStep] at h
            split at h
            · cases h
            · rename_i hfresh
              split at h
              · cases h
              · rename_i hcreate
                cases h
                exact ⟨_, rfl, attemptMove_create hinv (by simpa using hfresh) hlog hcreate⟩
        | tick elapsed =>
            cases h
            exact ⟨[], (List.append_nil _).symm, attemptMove_refl hinv⟩

theorem attemptInv_step {l l' : Leases} {a : AttemptAction} (hinv : AttemptInv l)
    (h : attemptStep l a = some l') : AttemptInv l' := by
  obtain ⟨events, -, hmove⟩ := attempt_step hinv h
  exact attemptInv_move hinv hmove

theorem startsCounted_step {l l' : Leases} {a : AttemptAction} (hinv : AttemptInv l)
    (hcounted : StartsCounted l) (ha : Counted l a) (h : attemptStep l a = some l') :
    StartsCounted l' := by
  obtain ⟨events, hlog, hmove⟩ := attempt_step hinv h
  exact startsCounted_move hcounted ha hlog hmove

theorem NoJobsYet.not_mem {l : Leases} (h : NoJobsYet l) (j : JobRow) :
    j ∉ l.ledger.db.jobs := by
  rw [h.jobs]
  exact List.not_mem_nil

theorem NoJobsYet.attemptInv {l : Leases} (h : NoJobsYet l) : AttemptInv l := by
  refine ⟨?_, ?_, ?_⟩
  · rw [h.jobs]
    exact List.nodup_nil
  · intro j hj
    exact absurd hj (h.not_mem j)
  · intro j hj
    exact absurd hj (h.not_mem j)

theorem NoJobsYet.startsCounted {l : Leases} (h : NoJobsYet l) : StartsCounted l := by
  intro j hj
  exact absurd hj (h.not_mem j)

/-- Along every run the attempts of a job stay within its `max_attempts`, and a waiting job
can be acquired.  Its starts stay within them too while `acquireJob` takes no waiting job
whose starts its attempts already count. -/
theorem starts_bounded {l : Leases} {as : List AttemptAction} (h : NoJobsYet l) :
    EveryStep attemptStep (fun _ _ l' => AttemptsKept l') l as ∧
      (EveryStep attemptStep (fun l a _ => Counted l a) l as →
        EveryStep attemptStep (fun _ _ l' => AttemptsKept l' ∧ StartsBounded l') l as) := by
  constructor
  · exact everyStep_of_invariant (I := AttemptInv) (C := fun _ _ _ => True)
      (fun _ _ _ hinv _ hstep => attemptInv_step hinv hstep)
      (fun _ _ _ hinv _ hstep => (attemptInv_step hinv hstep).kept) h.attemptInv
      (everyStep_of_forall_mem fun _ _ => trivial)
  · intro hcounted
    have hstep : ∀ l a l', AttemptInv l ∧ StartsCounted l → Counted l a →
        attemptStep l a = some l' → AttemptInv l' ∧ StartsCounted l' :=
      fun l a l' hinv ha hstep =>
        ⟨attemptInv_step hinv.1 hstep, startsCounted_step hinv.1 hinv.2 ha hstep⟩
    refine everyStep_of_invariant (I := fun l => AttemptInv l ∧ StartsCounted l) hstep ?_
      ⟨h.attemptInv, h.startsCounted⟩ hcounted
    intro l a l' hinv ha hstep'
    obtain ⟨hinv', hcounted'⟩ := hstep l a l' hinv ha hstep'
    exact ⟨hinv'.kept, hcounted'.bounded hinv'⟩

def claimedSnapshot : List AttemptAction :=
  [.queue (.create 1 snapshotRequest), .queue (.watch "aplusb" "watcher" 300 2 0),
    .queue (.perform (.failJob "dirty_snapshot_failed" "") 1 (some "watcher") 2),
    .queue (.acquire "worker" 60 .bulk false []), .queue (.tick 60000001),
    .queue (.acquire "worker" 60 .bulk false [])]

theorem starts_bounded_claimed :
    (exec attemptStep emptyLeases claimedSnapshot).map (fun l => (l.starts 1, l.log.length)) =
        some (3, 3) ∧
      EveryStep attemptStep (fun _ _ l' => AttemptsKept l' ∧ StartsBounded l') emptyLeases
        claimedSnapshot :=
  ⟨by decide +kernel, (starts_bounded ⟨rfl, rfl⟩).2 (by decide +kernel)⟩

def restartedSnapshot : List AttemptAction :=
  [.queue (.watch "aplusb" "watcher" 300 1 0),
    .queue (.perform (.failJob "dirty_snapshot_failed" "") 1 (some "watcher") 1),
    .queue (.acquire "worker" 60 .bulk false []), .queue (.tick 60000001),
    .queue (.acquire "worker" 60 .bulk false []), .queue (.tick 60000001),
    .queue (.acquire "worker" 60 .bulk false [])]

/-- Its fourth start, without a retry by hand. -/
theorem job_started_four_times :
    NoJobsYet emptyLeases ∧ restartedSnapshot.all (fun a => !a.manualRetry) = true ∧
      (exec attemptStep emptyLeases restartedSnapshot).map (fun l =>
        (l.starts 1, l.ledger.db.jobs.map fun j => (j.attempt, j.maxAttempts))) =
        some (4, [(3, 3)]) ∧
      ¬ EveryStep attemptStep (fun _ _ l' => AttemptsKept l' ∧ StartsBounded l') emptyLeases
        restartedSnapshot := by
  refine ⟨⟨rfl, rfl⟩, rfl, by decide +kernel, ?_⟩
  intro h
  have hbounded : EveryStep attemptStep (fun _ _ l' => StartsBounded l') emptyLeases
      restartedSnapshot := h.mono fun _ _ _ _ h => h.2
  revert hbounded
  decide +kernel

end ExternalStorage.Jobs
