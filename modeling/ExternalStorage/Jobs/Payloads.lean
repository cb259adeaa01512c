import ExternalStorage.Jobs.Leases

/-!
# The payload a job is dispatched with

The payload of a job is attached by a second statement and kept in the column that the
result of the job goes to.  A worker reads it faithfully when, of all that was written
to the column, the creator's payload is the last.
-/

namespace ExternalStorage.Jobs

open ExternalStorage.Model Library.Runs Library.Table

/-! ## The machine -/

/-- A write of the column `result`; `payload` is `none` where a job ended. -/
structure PayloadWrite where
  job : Uuid
  payload : Option JobPayload
  deriving DecidableEq, Repr

structure PayloadBoard where
  leases : Leases
  /-- The calls of `createJob` that were answered and have not attached their payload yet. -/
  waiting : List (Uuid × JobPayload) := []
  /-- The jobs that were inserted, with the payload of the call that did, and the writes,
  the latest first: history the program does not keep. -/
  creators : List (Uuid × JobPayload) := []
  writes : List PayloadWrite := []

inductive PayloadAction where
  | create (id : Uuid) (r : JobRequest) (payload : JobPayload)
  | attach (id : Uuid) (payload : JobPayload)
  | lease (a : LeaseAction)

/-- The completions of `runJob`: a failure has no result. -/
def LeaseAction.called : LeaseAction → Bool
  | .create _ _ => false
  | .perform (.completeJobWithLease state result _ _) _ _ _ =>
      state = .completed || (state = .failed && result = none)
  | _ => true

def overwrites : LeaseStatement → Bool
  | .completeJobWithLease .. | .completeJob _ => true
  | _ => false

def LeaseAction.endings (now : Timestamp) (db : Database) : LeaseAction → List PayloadWrite
  | .perform s id owner token =>
      if overwrites s && s.accepts now id owner token db then [⟨id, none⟩] else []
  | _ => []

def payloadStep (b : PayloadBoard) : PayloadAction → Option PayloadBoard
  | .create id r payload =>
      if b.leases.ledger.db.jobs.any fun j => j.id = id then
        none
      else
        match createJob b.leases.ledger.now id r b.leases.ledger.db with
        | .error _ => none
        | .ok (db, j) => some { b with
            leases := b.leases.after db [] [], waiting := (j.id, payload) :: b.waiting
            creators := if j.id = id then (id, payload) :: b.creators else b.creators }
  | .attach id payload =>
      if (id, payload) ∈ b.waiting then
        some { b with
          leases := b.leases.after (setJobPayload id payload b.leases.ledger.db) [] []
          waiting := b.waiting.erase (id, payload)
          writes :=
            if b.leases.ledger.db.jobs.any fun j => j.id = id && j.state = .pending then
              ⟨id, some payload⟩ :: b.writes
            else b.writes }
      else
        none
  | .lease a =>
      if a.called then
        (leaseStep b.leases a).map fun l => { b with
          leases := l, writes := a.endings b.leases.ledger.now b.leases.ledger.db ++ b.writes }
      else
        none

/-! ## Statements -/

def JobType.carriesPayload : JobType → Bool
  | .snapshot | .evict | .backfill | .gcCollect => true
  | _ => false

/-- The row that `acquireJob` gives to a worker, which dispatches it; the statement leaves
`result` alone. -/
def dispatched (b : PayloadBoard) : PayloadAction → Option JobRow
  | .lease (.acquire _ _ lane paused locked) =>
      acquireCandidate b.leases.ledger.now lane paused locked b.leases.ledger.db.jobs
  | _ => none

/-- The worker dispatches a payload, and reads in it what the creator attached. -/
def Faithful (b : PayloadBoard) (a : PayloadAction) (_ : PayloadBoard) : Prop :=
  ∀ c ∈ dispatched b a, JobType.carriesPayload c.jobType = true →
    ∃ i ∈ b.creators, i.1 = c.id ∧ c.result.isSome = true ∧
      dispatch c.jobType c.result = dispatch c.jobType (some i.2)

/-- What was attached to the job, unless it has ended since. -/
def lastPayload (writes : List PayloadWrite) (id : Uuid) : Option JobPayload :=
  (writes.find? fun w => w.job = id).bind PayloadWrite.payload

/-- A job that a worker dispatches has been attached a payload since it was created or last
ended, and the worker reads in it what it reads in the creator's. -/
def AttachedInTime (b : PayloadBoard) (a : PayloadAction) (_ : PayloadBoard) : Prop :=
  ∀ c ∈ dispatched b a, JobType.carriesPayload c.jobType = true →
    ∃ i ∈ b.creators, i.1 = c.id ∧ ∃ p ∈ lastPayload b.writes c.id,
      dispatch c.jobType (some p) = dispatch c.jobType (some i.2)

instance (b : PayloadBoard) (a : PayloadAction) (b' : PayloadBoard) :
    Decidable (Faithful b a b') :=
  inferInstanceAs (Decidable (∀ c ∈ dispatched b a, _ → ∃ i ∈ b.creators, _))

instance (b : PayloadBoard) (a : PayloadAction) (b' : PayloadBoard) :
    Decidable (AttachedInTime b a b') :=
  inferInstanceAs (Decidable (∀ c ∈ dispatched b a, _ → ∃ i ∈ b.creators, _ ∧
    ∃ p ∈ lastPayload b.writes c.id, _))

/-- No job has been created yet. -/
structure Unused (b : PayloadBoard) : Prop where
  jobs : b.leases.ledger.db.jobs = []
  writes : b.writes = []

/-! ## The invariant -/

def Tied (writes : List PayloadWrite) (j : JobRow) : Prop :=
  j.state = .completed ∨ j.result = lastPayload writes j.id

structure PayloadInv (jobs : List JobRow) (writes : List PayloadWrite) : Prop where
  ids : (jobs.map JobRow.id).Nodup
  tied : ∀ j ∈ jobs, Tied writes j
  known : ∀ w ∈ writes, ∃ j ∈ jobs, j.id = w.job

theorem lastPayload_cons_self (writes : List PayloadWrite) (id : Uuid)
    (payload : Option JobPayload) : lastPayload (⟨id, payload⟩ :: writes) id = payload := by
  simp [lastPayload]

theorem lastPayload_cons_other (writes : List PayloadWrite) {id id' : Uuid}
    (payload : Option JobPayload) (h : id' ≠ id) :
    lastPayload (⟨id, payload⟩ :: writes) id' = lastPayload writes id' := by
  simp [lastPayload, Ne.symm h]

theorem lastPayload_unknown {writes : List PayloadWrite} {id : Uuid}
    (h : ∀ w ∈ writes, w.job ≠ id) : lastPayload writes id = none := by
  rw [lastPayload, List.find?_eq_none.mpr (by simpa using h), Option.bind_none]

theorem PayloadInv.update {jobs : List JobRow} {writes : List PayloadWrite} {p : JobRow → Bool}
    {f : JobRow → JobRow} (h : PayloadInv jobs writes) (hid : ∀ j, (f j).id = j.id)
    (hresult : ∀ j, (f j).result = j.result)
    (hp : ∀ j ∈ jobs, p j = true → j.state ≠ .completed) :
    PayloadInv (updateWhere p f jobs) writes := by
  refine ⟨ids_update h.ids hid, ?_, ?_⟩
  · intro j' hj'
    obtain ⟨j, hj, rfl⟩ := mem_updateWhere.mp hj'
    have htied := h.tied j hj
    split
    · rename_i hpj
      refine .inr ?_
      rw [hresult, hid]
      exact htied.resolve_left (hp j hj hpj)
    · exact htied
  · intro w hw
    obtain ⟨j, hj, hjob⟩ := h.known w hw
    refine ⟨_, mem_updateWhere.mpr ⟨j, hj, rfl⟩, ?_⟩
    split
    · rw [hid, hjob]
    · exact hjob

theorem PayloadInv.write {jobs : List JobRow} {writes : List PayloadWrite} {p : JobRow → Bool}
    {f : JobRow → JobRow} {id : Uuid} {payload : Option JobPayload} (h : PayloadInv jobs writes)
    (hid : ∀ j, (f j).id = j.id) (hp : ∀ j ∈ jobs, p j = true → j.id = id)
    (hany : jobs.any p = true) (hf : ∀ j, (f j).state = .completed ∨ (f j).result = payload) :
    PayloadInv (updateWhere p f jobs) (⟨id, payload⟩ :: writes) := by
  obtain ⟨k, hk, hpk⟩ := List.any_eq_true.mp hany
  refine ⟨ids_update h.ids hid, ?_, ?_⟩
  · intro j' hj'
    obtain ⟨j, hj, rfl⟩ := mem_updateWhere.mp hj'
    split
    · rename_i hpj
      refine (hf j).imp_right ?_
      intro hresult
      rw [hresult, hid, hp j hj hpj, lastPayload_cons_self]
    · rename_i hpj
      have hne : j.id ≠ id := by
        intro hjid
        apply hpj
        rw [row_eq_of_id h.ids hj hk (hjid.trans (hp k hk hpk).symm)]
        exact hpk
      rw [Tied, lastPayload_cons_other writes payload hne]
      exact h.tied j hj
  · intro w hw
    have hjob : ∃ j ∈ jobs, j.id = w.job := by
      rcases List.mem_cons.mp hw with rfl | hw
      · exact ⟨k, hk, hp k hk hpk⟩
      · exact h.known w hw
    obtain ⟨j, hj, hjob⟩ := hjob
    refine ⟨_, mem_updateWhere.mpr ⟨j, hj, rfl⟩, ?_⟩
    split
    · rw [hid, hjob]
    · exact hjob

theorem PayloadInv.append {jobs : List JobRow} {writes : List PayloadWrite} {row : JobRow}
    (h : PayloadInv jobs writes) (hfresh : ∀ j ∈ jobs, j.id ≠ row.id)
    (hresult : row.result = none) : PayloadInv (jobs ++ [row]) writes := by
  refine ⟨?_, ?_, ?_⟩
  · exact nodup_map_concat h.ids hfresh
  · intro j hj
    rcases List.mem_append.mp hj with hold | hnew
    · exact h.tied j hold
    · rw [List.mem_singleton.mp hnew]
      refine .inr ?_
      rw [hresult, lastPayload_unknown]
      intro w hw hjob
      obtain ⟨k, hk, hkid⟩ := h.known w hw
      exact hfresh k hk (hkid.trans hjob)
  · intro w hw
    obtain ⟨j, hj, hjob⟩ := h.known w hw
    exact ⟨j, List.mem_append_left _ hj, hjob⟩

/-! ## The step -/

theorem not_completed_of_active {j : JobRow} (h : j.state.active = true) :
    j.state ≠ .completed := by
  intro hcompleted
  rw [hcompleted] at h
  cases h

theorem acquired_not_completed {now : Timestamp} {lane : JobLane} {paused : Bool} {c : JobRow}
    (h : acquirable now lane paused c = true) : c.state ≠ .completed := by
  obtain ⟨-, ⟨hstate, -⟩ | ⟨hstate, -⟩, -⟩ := acquirable_iff.mp h
  · simp [hstate]
  · simp [hstate]

theorem payloadInv_perform {now : Timestamp} {id : Uuid} {owner : Option String} {token : Int}
    {s : LeaseStatement} {db : Database} {writes : List PayloadWrite}
    (h : PayloadInv db.jobs writes)
    (hcalled : LeaseAction.called (.perform s id owner token) = true) :
    PayloadInv (s.run now id owner token db).jobs
      (LeaseAction.endings now db (.perform s id owner token) ++ writes) := by
  have hset := calms_set now id owner token s
  have hheld : ∀ j, s.guard now id owner token j = true → j.id = id ∧ j.state = .running := by
    intro j hguard
    obtain ⟨hid, -, -, hrunning⟩ := JobRow.heldAs_iff.mp (s.heldAs_of_guard hguard)
    exact ⟨hid, hrunning⟩
  have hquiet : ∀ j ∈ db.jobs, s.guard now id owner token j = true → j.state ≠ .completed := by
    intro j _ hguard
    simp [(hheld j hguard).2]
  by_cases haccepts : s.accepts now id owner token db = true
  · by_cases hover : overwrites s = true
    · -- A completion writes the column; a job it completes is never dispatched again.
      have hends : LeaseAction.endings now db (.perform s id owner token) = [⟨id, none⟩] := by
        simp [LeaseAction.endings, haccepts, hover]
      rw [hends]
      refine h.write hset.id (fun j _ hguard => (hheld j hguard).1) haccepts ?_
      intro j
      cases s with
      | completeJobWithLease state result errorCode errorMessage =>
          simp only [LeaseAction.called, Bool.or_eq_true, Bool.and_eq_true, decide_eq_true_eq]
            at hcalled
          rcases hcalled with rfl | ⟨rfl, rfl⟩
          · exact .inl rfl
          · exact .inr rfl
      | completeJob result => exact .inl rfl
      | renewJobLease _ | assertJobLease | dataPlaneRenew _ | dataPlaneAssert | failJob _ _ =>
          cases hover
    · have hends : LeaseAction.endings now db (.perform s id owner token) = [] := by
        simp [LeaseAction.endings, hover]
      rw [hends, List.nil_append]
      refine h.update hset.id ?_ hquiet
      intro j
      cases s <;> first | rfl | exact absurd rfl hover
  · rw [Bool.not_eq_true] at haccepts
    have hends : LeaseAction.endings now db (.perform s id owner token) = [] := by
      simp [LeaseAction.endings, haccepts]
    rw [hends, LeaseStatement.run_of_not_accepts haccepts]
    exact h

theorem payloadInv_lease {l l' : Leases} {a : LeaseAction} {writes : List PayloadWrite}
    (h : PayloadInv l.ledger.db.jobs writes) (hcalled : a.called = true)
    (hstep : leaseStep l a = some l') :
    PayloadInv l'.ledger.db.jobs (a.endings l.ledger.now l.ledger.db ++ writes) := by
  cases a with
  | perform s id owner token =>
      cases hstep
      exact payloadInv_perform h hcalled
  | acquire worker leaseSeconds lane paused locked =>
      obtain ⟨⟨db, c, token⟩, hacquire, rfl⟩ := Option.map_eq_some_iff.mp hstep
      obtain ⟨hcandidate, hjobs, -⟩ := acquireJob_rows hacquire
      obtain ⟨hmem, hacquirable⟩ := acquireCandidate_mem hcandidate
      show PayloadInv db.jobs writes
      rw [hjobs]
      refine h.update (by intro j; rfl) (by intro j; rfl) ?_
      intro j hj hp
      rw [Bool.and_eq_true, decide_eq_true_eq] at hp
      rw [row_eq_of_id h.ids hj hmem hp.1]
      exact acquired_not_completed hacquirable
  | watch code owner leaseSeconds id millis =>
      simp only [leaseStep] at hstep
      split at hstep
      · cases hstep
      · rename_i hused
        have hfresh : ∀ j ∈ l.ledger.db.jobs, j.id ≠ id := by simpa using hused
        split at hstep
        · cases hstep
        · rename_i db tokens job hwatch
          cases hstep
          show PayloadInv db.jobs writes
          rcases acquireDirtySnapshotJob_grants hwatch with ⟨rfl, -⟩ | ⟨t, -, -, hcases⟩
          · exact h
          · rcases hcases with ⟨d, j, -, -, -, -, -, hjobs⟩ | ⟨-, hjobs⟩ | ⟨d, target, -, -, -, hjobs⟩
            · rw [hjobs]
              refine h.update (by intro j; rfl) (by intro j; rfl) ?_
              intro k _ hp
              simp only [pendingSnapshotOf, Bool.and_eq_true, decide_eq_true_eq] at hp
              simp [hp.2]
            · rw [hjobs]
              exact h
            · rw [hjobs]
              exact h.append hfresh rfl
  | cancel id reason =>
      obtain ⟨⟨db, j, token⟩, hcancel, rfl⟩ := Option.map_eq_some_iff.mp hstep
      obtain ⟨hmem, hactive, hjobs⟩ := cancelJob_rows hcancel
      show PayloadInv db.jobs writes
      rw [hjobs]
      refine h.update (by intro j; rfl) (by intro j; rfl) ?_
      intro k hk hp
      rw [row_eq_of_id h.ids hk hmem (of_decide_eq_true hp)]
      exact not_completed_of_active hactive
  | retry id =>
      obtain ⟨db, hretry, rfl⟩ := Option.map_eq_some_iff.mp hstep
      obtain ⟨-, rfl⟩ := retryJob_eq_some hretry
      refine h.update (by intro j; rfl) (by intro j; rfl) ?_
      intro j _ hp
      simp only [Bool.and_eq_true, Bool.or_eq_true, decide_eq_true_eq] at hp
      rcases hp.1.2 with hstate | hstate <;> simp [hstate]
  | touch problemId =>
      cases hstep
      refine h.update (by intro j; rfl) (by intro j; rfl) ?_
      intro j _ hp
      simp only [Bool.and_eq_true, decide_eq_true_eq] at hp
      simp [hp.2]
  | cancelPending externalId =>
      cases hstep
      refine h.update (by intro j; rfl) (by intro j; rfl) ?_
      intro j _ hp
      simp only [Bool.and_eq_true, decide_eq_true_eq] at hp
      simp [hp.2]
  | failExpired =>
      cases hstep
      refine h.update (by intro j; rfl) (by intro j; rfl) ?_
      intro j hj hp
      obtain ⟨r, hr, hid⟩ := List.any_eq_true.mp hp
      obtain ⟨hmem, hrunning⟩ := List.mem_filter.mp hr
      simp only [Bool.and_eq_true, decide_eq_true_eq] at hrunning
      rw [← row_eq_of_id h.ids hmem hj (of_decide_eq_true hid)]
      simp [hrunning.1.1]
  | create id r => cases hcalled
  | tick elapsed =>
      cases hstep
      exact h

theorem payloadInv_attach {id : Uuid} {payload : JobPayload} {db : Database}
    {writes : List PayloadWrite} (h : PayloadInv db.jobs writes) :
    PayloadInv (setJobPayload id payload db).jobs
      (if db.jobs.any fun j => j.id = id && j.state = .pending then ⟨id, some payload⟩ :: writes
        else writes) := by
  split
  · rename_i hany
    refine h.write (by intro j; rfl) ?_ hany (by intro j; exact .inr rfl)
    intro j _ hp
    rw [Bool.and_eq_true, decide_eq_true_eq] at hp
    exact hp.1
  · rename_i hnone
    have hsame : (setJobPayload id payload db).jobs = db.jobs :=
      updateWhere_eq_self fun j hj hp => absurd (List.any_eq_true.mpr ⟨j, hj, hp⟩) hnone
    rw [hsame]
    exact h

theorem payloadInv_step {b b' : PayloadBoard} {a : PayloadAction}
    (h : PayloadInv b.leases.ledger.db.jobs b.writes) (hstep : payloadStep b a = some b') :
    PayloadInv b'.leases.ledger.db.jobs b'.writes := by
  cases a with
  | create id r payload =>
      simp only [payloadStep] at hstep
      split at hstep
      · cases hstep
      · rename_i hused
        have hfresh : ∀ j ∈ b.leases.ledger.db.jobs, j.id ≠ id := by simpa using hused
        split at hstep
        · cases hstep
        · rename_i db j hcreate
          cases hstep
          show PayloadInv db.jobs b.writes
          rcases createJob_eq_ok hcreate with ⟨rfl, -⟩ | ⟨rfl, rfl, -⟩
          · exact h
          · exact h.append hfresh rfl
  | attach id payload =>
      simp only [payloadStep] at hstep
      split at hstep
      · cases hstep
        exact payloadInv_attach h
      · cases hstep
  | lease a =>
      simp only [payloadStep] at hstep
      split at hstep
      · rename_i hcalled
        obtain ⟨l, hlease, rfl⟩ := Option.map_eq_some_iff.mp hstep
        exact payloadInv_lease h hcalled hlease
      · cases hstep

/-! ## The result -/

theorem result_of_dispatched {b : PayloadBoard} {a : PayloadAction} {c : JobRow}
    (h : PayloadInv b.leases.ledger.db.jobs b.writes) (hc : c ∈ dispatched b a) :
    c.result = lastPayload b.writes c.id := by
  cases a with
  | lease a =>
      cases a with
      | acquire worker leaseSeconds lane paused locked =>
          obtain ⟨hmem, hacquirable⟩ := acquireCandidate_mem hc
          exact (h.tied c hmem).resolve_left (acquired_not_completed hacquirable)
      | watch | perform | cancel | retry | touch | cancelPending | failExpired | create | tick =>
          cases hc
  | create | attach => cases hc

theorem faithful_iff {b b' : PayloadBoard} {a : PayloadAction}
    (h : PayloadInv b.leases.ledger.db.jobs b.writes) :
    Faithful b a b' ↔ AttachedInTime b a b' := by
  refine forall_congr' fun c => forall_congr' fun hc => imp_congr_right fun _ => ?_
  refine exists_congr fun i => and_congr_right fun _ => and_congr_right fun _ => ?_
  rw [result_of_dispatched h hc]
  constructor
  · rintro ⟨hsome, hread⟩
    obtain ⟨p, hp⟩ := Option.isSome_iff_exists.mp hsome
    refine ⟨p, hp, ?_⟩
    rw [← hp]
    exact hread
  · rintro ⟨p, hp, hread⟩
    rw [Option.mem_def] at hp
    rw [hp]
    exact ⟨rfl, hread⟩

/-- Along a run from an empty queue: every dispatch reads what the creator of the job
attached, exactly when each comes after a payload was attached that reads the same, and
before the job ends. -/
theorem payloads_faithful {b : PayloadBoard} {as : List PayloadAction} (hunused : Unused b) :
    EveryStep payloadStep Faithful b as ↔ EveryStep payloadStep AttachedInTime b as := by
  have hinv : EveryStep payloadStep
      (fun b _ _ => PayloadInv b.leases.ledger.db.jobs b.writes) b as := by
    refine everyStep_of_invariant (I := fun b => PayloadInv b.leases.ledger.db.jobs b.writes)
      (C := fun _ _ _ => True) (fun _ _ _ h _ hstep => payloadInv_step h hstep)
      (fun _ _ _ h _ _ => h) ?_ (everyStep_of_forall_mem fun _ _ => trivial)
    rw [hunused.jobs, hunused.writes]
    exact ⟨List.nodup_nil, by simp, by simp⟩
  constructor
  · intro h
    exact (hinv.and h).mono fun _ _ _ _ h => (faithful_iff h.1).mp h.2
  · intro h
    exact (hinv.and h).mono fun _ _ _ _ h => (faithful_iff h.1).mpr h.2

def emptyBoard : PayloadBoard where
  leases := emptyLeases

theorem emptyBoard_unused : Unused emptyBoard := ⟨rfl, rfl⟩

def evictRequest : JobRequest := ⟨"k", .evict, some "101", none, "f"⟩

def forcedEviction : JobPayload := { dryRun := some false, force := some true }

def acquireNext : PayloadAction := .lease (.acquire "worker" 60 .bulk false [])

/-- An eviction that is attached, loses its first worker and fails; the caller's replay
attaches the payload again after the retry. -/
def evictedInTime : List PayloadAction :=
  [.create 1 evictRequest forcedEviction, .attach 1 forcedEviction, acquireNext,
    .lease (.tick 60000001), acquireNext,
    .lease (.perform (.completeJobWithLease .failed none (some "job_failed") none) 1
      (some "worker") 2),
    .lease (.retry 1), .create 2 evictRequest forcedEviction, .attach 1 forcedEviction,
    acquireNext]

theorem payloads_faithful_in_time :
    (exec payloadStep emptyBoard evictedInTime).isSome ∧
      EveryStep payloadStep Faithful emptyBoard evictedInTime :=
  ⟨by decide +kernel, (payloads_faithful emptyBoard_unused).mpr (by decide +kernel)⟩

/-- A worker takes the job between the two statements of its creator. -/
def takenBeforeAttached : List PayloadAction :=
  [.create 1 evictRequest forcedEviction, acquireNext, .attach 1 forcedEviction]

def retriedAfterFailure : List PayloadAction :=
  [.create 1 evictRequest forcedEviction, .attach 1 forcedEviction, acquireNext,
    .lease (.perform (.completeJobWithLease .failed none (some "job_failed") none) 1
      (some "worker") 1),
    .lease (.retry 1), acquireNext]

/-- Both evictions are dispatched as dry runs. -/
theorem payload_defaults_dispatched :
    (exec payloadStep emptyBoard takenBeforeAttached).isSome ∧
      ¬ EveryStep payloadStep Faithful emptyBoard takenBeforeAttached ∧
      (exec payloadStep emptyBoard retriedAfterFailure).isSome ∧
      ¬ EveryStep payloadStep Faithful emptyBoard retriedAfterFailure ∧
      dispatch .evict none = .evict true false none ∧
      dispatch .evict (some forcedEviction) = .evict false true none :=
  ⟨by decide +kernel, by decide +kernel, by decide +kernel, by decide +kernel, rfl, rfl⟩

end ExternalStorage.Jobs
