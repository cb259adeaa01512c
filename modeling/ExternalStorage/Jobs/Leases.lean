import ExternalStorage.Jobs.Fencing
import ExternalStorage.Model.Leases

/-!
# One holder of a lease

A statement of an executor names the job, its owner and the token.  Tokens of a job only
grow, so a lease that was taken over, cancelled or expired is turned down for good.  The
guards of the two code bases agree while no worker lets the lease of its job run out:
`fail_job` alone does not ask for it.
-/

namespace ExternalStorage.Jobs

open ExternalStorage.Model Library.Runs Library.Table

/-! ## The machine -/

/-- A job was acquired under a token, or its lease revoked: `owner` is `none` after a
cancellation and after `failExpiredRunningJobs`. -/
structure LeaseEvent where
  job : Uuid
  owner : Option String
  token : Int
  deriving DecidableEq, Repr

structure Leases where
  ledger : Ledger
  /-- Acquisitions and revocations in the order they were committed: history the program
  does not keep. -/
  log : List LeaseEvent := []

inductive LeaseAction where
  | acquire (worker : String) (leaseSeconds : Int) (lane : JobLane) (paused : Bool)
      (locked : List Uuid)
  | watch (code owner : String) (leaseSeconds : Int) (id : Uuid) (millis : Int)
  /-- An executor of either code base, with the lease it believes to hold. -/
  | perform (s : LeaseStatement) (id : Uuid) (owner : Option String) (token : Int)
  | cancel (id : Uuid) (reason : Option String)
  | retry (id : Uuid)
  | touch (problemId : String)
  | cancelPending (externalId : String)
  | failExpired
  | create (id : Uuid) (r : JobRequest)
  | tick (elapsed : Nat)

def Leases.after (l : Leases) (db : Database) (tokens : List (String × Int))
    (events : List LeaseEvent) : Leases :=
  ⟨l.ledger.after db tokens, l.log ++ events⟩

def revocations (now : Timestamp) (db : Database) : List LeaseEvent :=
  let revoked := expiredRunning now db.jobs
  revoked.map fun j =>
    ⟨j.id, none, revokedToken revoked (bumpRevoked revoked db.jobFencingCounters) j⟩

def leaseStep (l : Leases) : LeaseAction → Option Leases
  | .acquire worker leaseSeconds lane paused locked =>
      (acquireJob l.ledger.now worker leaseSeconds lane paused locked l.ledger.db).map fun r =>
        l.after r.1 [(r.2.1.counterKey, r.2.2)] [⟨r.2.1.id, some worker, r.2.2⟩]
  | .watch code owner leaseSeconds id millis =>
      if l.ledger.db.jobs.any fun j => j.id = id then
        none
      else
        match acquireDirtySnapshotJobByCode l.ledger.now code owner leaseSeconds id millis
            l.ledger.db with
        | .error _ => none
        | .ok (db, tokens, job) =>
            some (l.after db ((tokens.map WatcherTokens.toList).getD [])
              (job.toList.map fun d => ⟨d.jobId, some owner, d.fencingToken⟩))
  | .perform s id owner token =>
      some (l.after (s.run l.ledger.now id owner token l.ledger.db) [] [])
  | .cancel id reason =>
      (cancelJob l.ledger.now id reason l.ledger.db).map fun r =>
        l.after r.1 [(r.2.1.counterKey, r.2.2)] [⟨r.2.1.id, none, r.2.2⟩]
  | .retry id => (retryJob id l.ledger.db).map fun db => l.after db [] []
  | .touch problemId =>
      some (l.after (touchProblemAccess l.ledger.now problemId l.ledger.db) [] [])
  | .cancelPending externalId =>
      some (l.after (cancelPendingLocalJobsForRestore l.ledger.now externalId l.ledger.db) [] [])
  | .failExpired =>
      some (l.after (failExpiredRunningJobs l.ledger.now l.ledger.db)
        (revokedTokens l.ledger.now l.ledger.db) (revocations l.ledger.now l.ledger.db))
  | .create id r =>
      if l.ledger.db.jobs.any fun j => j.id = id then
        none
      else
        match createJob l.ledger.now id r l.ledger.db with
        | .error _ => none
        | .ok (db, _) => some (l.after db [] [])
  | .tick elapsed => some { l with ledger := { l.ledger with now := l.ledger.now + elapsed } }

/-! ## Statements -/

/-- What holds of a job's lease whoever works on it. -/
structure LeaseExclusive (l : Leases) : Prop where
  /-- A lease after which something else happened to its job is turned down everywhere. -/
  superseded : ∀ e f owner, List.Sublist [e, f] l.log → f.job = e.job → e.owner = some owner →
    ∀ (s : LeaseStatement) (now : Timestamp),
      s.accepts now e.job (some owner) e.token l.ledger.db = false ∧
        s.run now e.job (some owner) e.token l.ledger.db = l.ledger.db
  oneRunning : ∀ j ∈ l.ledger.db.jobs, ∀ k ∈ l.ledger.db.jobs, j.state = .running →
    k.state = .running → j.jobType.exclusive = true → k.jobType.exclusive = true →
      j.problemId.isSome = true → j.problemId = k.problemId → j = k

/-- Every guard accepts what any other accepts. -/
def GuardsAgree (l : Leases) : Prop :=
  ∀ (s t : LeaseStatement) (id : Uuid) (owner : Option String) (token : Int),
    s.accepts l.ledger.now id owner token l.ledger.db =
      t.accepts l.ledger.now id owner token l.ledger.db

/-- No job that somebody works on has a lease that has run out. -/
def LeasesKept (l : Leases) : Prop :=
  ∀ j ∈ l.ledger.db.jobs, j.state = .running → j.leaseOwner.isSome = true →
    j.leaseCurrent l.ledger.now = true

instance (l : Leases) : Decidable (LeasesKept l) :=
  inferInstanceAs (Decidable (∀ j ∈ l.ledger.db.jobs, _ → _ → _))

/-- A queue as the migrations leave it. -/
structure Installed (l : Leases) : Prop where
  seeded : Seeded l.ledger
  guards : activeGuards l.ledger.db.jobs = true
  uncancelled : ∀ j ∈ l.ledger.db.jobs, j.state.active = true → j.requestedCancelAt = none
  log : l.log = []

/-! ## The invariant -/

structure LeaseInv (l : Leases) : Prop where
  fencing : FencingInv l.ledger
  guards : activeGuards l.ledger.db.jobs = true
  uncancelled : ∀ j ∈ l.ledger.db.jobs, j.state.active = true → j.requestedCancelAt = none
  ordered : l.log.Pairwise fun e f => e.job = f.job → e.token < f.token
  reached : ∀ e ∈ l.log, ∃ j ∈ l.ledger.db.jobs, j.id = e.job ∧ e.token ≤ j.fencingToken

structure LeaseMove (l : Leases) (db : Database) (tokens : List (String × Int))
    (events : List LeaseEvent) : Prop where
  fencing : FencingInv (l.ledger.after db tokens)
  guards : activeGuards db.jobs = true
  uncancelled : ∀ j ∈ db.jobs, j.state.active = true → j.requestedCancelAt = none
  kept : ∀ j ∈ l.ledger.db.jobs, ∃ j' ∈ db.jobs, j'.id = j.id ∧ j.fencingToken ≤ j'.fencingToken
  stamped : ∀ e ∈ events, (∃ j ∈ db.jobs, j.id = e.job ∧ e.token ≤ j.fencingToken) ∧
    ∀ j ∈ l.ledger.db.jobs, j.id = e.job → j.fencingToken < e.token
  once : (events.map LeaseEvent.job).Nodup

theorem leaseInv_move {l : Leases} {db : Database} {tokens : List (String × Int)}
    {events : List LeaseEvent} (hinv : LeaseInv l)
    (h : LeaseMove l db tokens events) : LeaseInv (l.after db tokens events) := by
  refine ⟨h.fencing, h.guards, h.uncancelled, ?_, ?_⟩
  · refine List.pairwise_append.mpr ⟨hinv.ordered, ?_, ?_⟩
    · refine (List.pairwise_map.mp h.once).imp ?_
      intro e f hne heq
      exact absurd heq hne
    · intro e he f hf hjob
      obtain ⟨j, hj, hid, hle⟩ := hinv.reached e he
      have hlt := (h.stamped f hf).2 j hj (hid.trans hjob)
      omega
  · intro e he
    rcases List.mem_append.mp he with hold | hnew
    · obtain ⟨j, hj, hid, hle⟩ := hinv.reached e hold
      obtain ⟨j', hj', hid', hle'⟩ := h.kept j hj
      exact ⟨j', hj', hid'.trans hid, Int.le_trans hle hle'⟩
    · exact (h.stamped e hnew).1

/-- A lease after which something else happened is not the one on the row. -/
theorem LeaseInv.exclusive {l : Leases} (h : LeaseInv l) : LeaseExclusive l := by
  constructor
  · intro e f owner hsub hjob howner s now
    have hrejected : s.accepts now e.job (some owner) e.token l.ledger.db = false := by
      refine List.any_eq_false.mpr ?_
      intro j hj hguard
      obtain ⟨hid, -, htoken, -⟩ := JobRow.heldAs_iff.mp (s.heldAs_of_guard hguard)
      have hlt := List.pairwise_iff_forall_sublist.mp h.ordered hsub hjob.symm
      have hmem : f ∈ l.log := hsub.subset (by simp)
      obtain ⟨k, hk, hkid, hle⟩ := h.reached f hmem
      obtain rfl := row_eq_of_id h.fencing.ids hj hk (by rw [hid, hkid, hjob])
      omega
    exact ⟨hrejected, LeaseStatement.run_of_not_accepts hrejected⟩
  · intro j hj k hk hjrun hkrun hjtype hktype hsome hproblem
    by_contra hne
    have hid : j.id ≠ k.id := fun hid => hne (row_eq_of_id h.fencing.ids hj hk hid)
    have hfree := activeGuards_iff.mp h.guards j hj k hk hid
    rw [← Bool.not_eq_true] at hfree
    apply hfree
    rw [conflicting_eq_true]
    refine ⟨by rw [hjrun]; rfl, by rw [hkrun]; rfl, .inl ⟨hsome, hproblem, hjtype, hktype, ?_⟩⟩
    exact .inr ⟨hjrun, hkrun⟩

/-! ## Statements that update rows -/

theorem leaseMove_update {l : Leases} {db : Database} {p : JobRow → Bool} {f : JobRow → JobRow}
    {tokens : List (String × Int)} {events : List LeaseEvent} (hinv : LeaseInv l)
    (hissues : Issues l.ledger.db db tokens) (hjobs : db.jobs = updateWhere p f l.ledger.db.jobs)
    (hid : ∀ j, (f j).id = j.id) (hguards : activeGuards db.jobs = true)
    (hcancel : ∀ j ∈ l.ledger.db.jobs, p j = true → (f j).state.active = true →
      (f j).requestedCancelAt = none)
    (htoken : ∀ j ∈ l.ledger.db.jobs, p j = true →
      (f j).fencingToken = j.fencingToken ∨ (j.counterKey, (f j).fencingToken) ∈ tokens)
    (hevents : ∀ e ∈ events, ∃ j ∈ l.ledger.db.jobs, p j = true ∧ e.job = j.id ∧
      e.token = (f j).fencingToken ∧ (j.counterKey, e.token) ∈ tokens)
    (honce : (events.map LeaseEvent.job).Nodup) :
    LeaseMove l db tokens events := by
  -- A token of this step is above the one it replaces.
  have habove : ∀ j ∈ l.ledger.db.jobs, ∀ t, (j.counterKey, t) ∈ tokens → j.fencingToken < t := by
    intro j hj t ht
    have hahead := hinv.fencing.ahead j hj
    have hrange := (hissues.range _ ht).1
    dsimp only at hrange
    omega
  have hids : (db.jobs.map JobRow.id).Nodup := by
    rw [hjobs]
    exact ids_update hinv.fencing.ids hid
  refine ⟨hissues.fencingInv hinv.fencing hids, hguards, ?_, ?_, ?_, honce⟩
  · intro j' hj' hactive
    rw [hjobs] at hj'
    obtain ⟨j, hj, rfl⟩ := mem_updateWhere.mp hj'
    split
    · rename_i hp
      rw [if_pos hp] at hactive
      exact hcancel j hj hp hactive
    · rename_i hp
      rw [if_neg hp] at hactive
      exact hinv.uncancelled j hj hactive
  · intro j hj
    refine ⟨_, hjobs ▸ mem_updateWhere.mpr ⟨j, hj, rfl⟩, ?_⟩
    split
    · rename_i hp
      refine ⟨hid j, ?_⟩
      rcases htoken j hj hp with hsame | hnew
      · exact Int.le_of_eq hsame.symm
      · exact Int.le_of_lt (habove j hj _ hnew)
    · exact ⟨rfl, le_refl _⟩
  · intro e he
    obtain ⟨j, hj, hp, hjob, htok, hmem⟩ := hevents e he
    constructor
    · refine ⟨f j, hjobs ▸ mem_updateWhere.mpr ⟨j, hj, by rw [if_pos hp]⟩, ?_, ?_⟩
      · rw [hid, hjob]
      · exact Int.le_of_eq htok
    · intro k hk hkid
      obtain rfl := row_eq_of_id hinv.fencing.ids hk hj (hkid.trans hjob)
      exact habove k hk _ hmem

/-- A statement that neither starts jobs nor wakes them up. -/
structure Calms (p : JobRow → Bool) (f : JobRow → JobRow) : Prop where
  id : ∀ j, (f j).id = j.id
  problemId : ∀ j, (f j).problemId = j.problemId
  jobType : ∀ j, (f j).jobType = j.jobType
  active : ∀ j, p j = true → (f j).state.active = true →
    j.state.active = true ∧ (f j).requestedCancelAt = j.requestedCancelAt
  running : ∀ j, p j = true → (f j).state = .running → j.state = .running

theorem Calms.guards {p : JobRow → Bool} {f : JobRow → JobRow} (h : Calms p f)
    {jobs : List JobRow} (hguards : activeGuards jobs = true) :
    activeGuards (updateWhere p f jobs) = true := by
  rw [activeGuards_updateWhere hguards h.id]
  intro j hj k hk hne hp
  have hfree := activeGuards_iff.mp hguards j hj k hk hne
  rw [← Bool.not_eq_true] at hfree ⊢
  intro hconflict
  apply hfree
  have hk' : (if p k then f k else k).problemId = k.problemId ∧
      (if p k then f k else k).jobType = k.jobType ∧
      ((if p k then f k else k).state.active = true → k.state.active = true) ∧
      ((if p k then f k else k).state = .running → k.state = .running) := by
    split
    · rename_i hpk
      exact ⟨h.problemId k, h.jobType k, fun ha => (h.active k hpk ha).1, h.running k hpk⟩
    · exact ⟨rfl, rfl, fun ha => ha, fun hr => hr⟩
  obtain ⟨hkproblem, hktype, hkactive, hkrunning⟩ := hk'
  rw [conflicting_eq_true] at hconflict ⊢
  rw [h.problemId, h.jobType, hkproblem, hktype] at hconflict
  obtain ⟨hja, hka, hsame⟩ := hconflict
  refine ⟨(h.active j hp hja).1, hkactive hka, hsame.imp_left ?_⟩
  rintro ⟨hsome, hproblem, hjx, hkx, hclash⟩
  exact ⟨hsome, hproblem, hjx, hkx, hclash.imp_right fun ⟨hjr, hkr⟩ =>
    ⟨h.running j hp hjr, hkrunning hkr⟩⟩

theorem Calms.move {l : Leases} {db : Database} {p : JobRow → Bool} {f : JobRow → JobRow}
    (h : Calms p f) (hinv : LeaseInv l)
    (hcounters : db.jobFencingCounters = l.ledger.db.jobFencingCounters)
    (hjobs : db.jobs = updateWhere p f l.ledger.db.jobs)
    (htoken : ∀ j, (f j).fencingToken = j.fencingToken) : LeaseMove l db [] [] := by
  have hissues : Issues l.ledger.db db [] := by
    apply issues_none hcounters
    intro j' hj'
    rw [hjobs] at hj'
    obtain ⟨j, hj, rfl⟩ := mem_updateWhere.mp hj'
    refine ⟨j, hj, ?_⟩
    split
    · exact ⟨by rw [JobRow.counterKey, JobRow.counterKey, h.problemId], (htoken j).symm⟩
    · exact ⟨rfl, rfl⟩
  refine leaseMove_update hinv hissues hjobs h.id (hjobs ▸ h.guards hinv.guards) ?_ ?_ ?_
    List.nodup_nil
  · intro j hj hp hactive
    obtain ⟨hwas, hsame⟩ := h.active j hp hactive
    exact hsame.trans (hinv.uncancelled j hj hwas)
  · exact fun j _ _ => .inl (htoken j)
  · intro e he
    cases he

theorem calms_set (now : Timestamp) (id : Uuid) (owner : Option String) (token : Int)
    (s : LeaseStatement) : Calms (s.guard now id owner token) (s.set now) := by
  have hrunning : ∀ j, s.guard now id owner token j = true → j.state = .running :=
    fun j h => (JobRow.heldAs_iff.mp (s.heldAs_of_guard h)).2.2.2
  refine ⟨?_, ?_, ?_, ?_, fun j h _ => hrunning j h⟩
  · intro j
    cases s <;> rfl
  · intro j
    cases s <;> rfl
  · intro j
    cases s <;> rfl
  · intro j h _
    refine ⟨by rw [hrunning j h]; rfl, ?_⟩
    cases s <;> rfl

theorem set_fencingToken (now : Timestamp) (s : LeaseStatement) (j : JobRow) :
    (s.set now j).fencingToken = j.fencingToken := by
  cases s <;> rfl

theorem leaseMove_perform {l : Leases} (hinv : LeaseInv l) (s : LeaseStatement) (id : Uuid)
    (owner : Option String) (token : Int) :
    LeaseMove l (s.run l.ledger.now id owner token l.ledger.db) [] [] :=
  (calms_set l.ledger.now id owner token s).move hinv rfl rfl (set_fencingToken l.ledger.now s)

theorem calms_of_cancelled {p : JobRow → Bool} {f : JobRow → JobRow}
    (hid : ∀ j, (f j).id = j.id) (hproblem : ∀ j, (f j).problemId = j.problemId)
    (htype : ∀ j, (f j).jobType = j.jobType)
    (hstate : ∀ j, (f j).state = .cancelled ∨ (f j).state = .failed) :
    Calms p f := by
  refine ⟨hid, hproblem, htype, ?_, ?_⟩
  · intro j _ hactive
    rcases hstate j with h | h <;> (rw [h] at hactive; cases hactive)
  · intro j _ hrunning
    rcases hstate j with h | h <;> (rw [h] at hrunning; cases hrunning)

theorem leaseMove_touch {l : Leases} (hinv : LeaseInv l) (problemId : String) :
    LeaseMove l (touchProblemAccess l.ledger.now problemId l.ledger.db) [] [] :=
  (calms_of_cancelled (by intro j; rfl) (by intro j; rfl) (by intro j; rfl)
    (by intro j; exact .inl rfl)).move hinv rfl rfl (by intro j; rfl)

theorem leaseMove_cancelPending {l : Leases} (hinv : LeaseInv l) (externalId : String) :
    LeaseMove l
      (cancelPendingLocalJobsForRestore l.ledger.now externalId l.ledger.db) [] [] :=
  (calms_of_cancelled (by intro j; rfl) (by intro j; rfl) (by intro j; rfl)
    (by intro j; exact .inl rfl)).move hinv rfl rfl (by intro j; rfl)

/-! ### Statements that hand out tokens -/

theorem leaseMove_cancel {l : Leases} {id : Uuid} {reason : Option String} {db : Database}
    {j : JobRow} {token : Int} (hinv : LeaseInv l)
    (h : cancelJob l.ledger.now id reason l.ledger.db = some (db, j, token)) :
    LeaseMove l db [(j.counterKey, token)] [⟨j.id, none, token⟩] := by
  obtain ⟨hmem, -, hjobs⟩ := cancelJob_rows h
  have hcalms : Calms (fun k => decide (k.id = j.id)) (JobRow.cancelled l.ledger.now reason token) :=
    calms_of_cancelled (by intro j; rfl) (by intro j; rfl) (by intro j; rfl)
      (by intro j; exact .inl rfl)
  refine leaseMove_update hinv (cancelJob_issues hinv.fencing.ids h).1 hjobs hcalms.id
    (hjobs ▸ hcalms.guards hinv.guards) ?_ ?_ ?_ (List.nodup_singleton _)
  · intro i _ _ hactive
    cases hactive
  · intro i hi hp
    obtain rfl := row_eq_of_id hinv.fencing.ids hi hmem (of_decide_eq_true hp)
    exact .inr (List.mem_singleton.mpr rfl)
  · intro e he
    obtain rfl := List.mem_singleton.mp he
    exact ⟨j, hmem, decide_eq_true rfl, rfl, rfl, List.mem_singleton.mpr rfl⟩

theorem leaseMove_failExpired {l : Leases} (hinv : LeaseInv l) :
    LeaseMove l (failExpiredRunningJobs l.ledger.now l.ledger.db)
      (revokedTokens l.ledger.now l.ledger.db) (revocations l.ledger.now l.ledger.db) := by
  have hsub : ∀ j ∈ expiredRunning l.ledger.now l.ledger.db.jobs, j ∈ l.ledger.db.jobs :=
    fun j hj => (List.mem_filter.mp hj).1
  have hcalms : Calms (fun j => (expiredRunning l.ledger.now l.ledger.db.jobs).any
      fun r => decide (r.id = j.id)) (fun j => { j with
        state := .failed
        fencingToken := revokedToken (expiredRunning l.ledger.now l.ledger.db.jobs)
          (bumpRevoked (expiredRunning l.ledger.now l.ledger.db.jobs)
            l.ledger.db.jobFencingCounters) j
        errorCode := some "lease_expired"
        errorMessage := some "Worker lease expired before completion"
        completedAt := some l.ledger.now }) :=
    calms_of_cancelled (by intro j; rfl) (by intro j; rfl) (by intro j; rfl)
      (by intro j; exact .inr rfl)
  refine leaseMove_update hinv (failExpired_issues hinv.fencing.ids).1 rfl hcalms.id
    (hcalms.guards hinv.guards) ?_ ?_ ?_ ?_
  · intro j _ _ hactive
    cases hactive
  · intro j hj hp
    obtain ⟨r, hr, hid⟩ := List.any_eq_true.mp hp
    obtain rfl := row_eq_of_id hinv.fencing.ids (hsub r hr) hj (of_decide_eq_true hid)
    exact .inr (List.mem_map.mpr ⟨r, hr, rfl⟩)
  · intro e he
    obtain ⟨j, hj, rfl⟩ := List.mem_map.mp he
    exact ⟨j, hsub j hj, List.any_eq_true.mpr ⟨j, hj, decide_eq_true rfl⟩, rfl, rfl,
      List.mem_map.mpr ⟨j, hj, rfl⟩⟩
  · rw [revocations, List.map_map]
    exact hinv.fencing.ids.sublist (List.filter_sublist.map _)

theorem leaseMove_acquire {l : Leases} {worker : String} {leaseSeconds : Int} {lane : JobLane}
    {paused : Bool} {locked : List Uuid} {db : Database} {c : JobRow} {token : Int}
    (hinv : LeaseInv l)
    (h : acquireJob l.ledger.now worker leaseSeconds lane paused locked l.ledger.db =
      some (db, c, token)) :
    LeaseMove l db [(c.counterKey, token)] [⟨c.id, some worker, token⟩] := by
  obtain ⟨hcandidate, hjobs, hguards⟩ := acquireJob_rows h
  obtain ⟨hmem, hacquirable⟩ := acquireCandidate_mem hcandidate
  obtain ⟨hactive, hattempts⟩ := acquirable_active hacquirable
  have hone : ∀ i ∈ l.ledger.db.jobs,
      (decide (i.id = c.id) && decide (i.attempt < i.maxAttempts)) = true → i = c := by
    intro i hi hp
    rw [Bool.and_eq_true, decide_eq_true_eq] at hp
    exact row_eq_of_id hinv.fencing.ids hi hmem hp.1
  refine leaseMove_update hinv (acquireJob_issues hinv.fencing.ids h).1 hjobs (by intro j; rfl)
    hguards ?_ ?_ ?_ (List.nodup_singleton _)
  · intro i hi hp _
    obtain rfl := hone i hi hp
    exact hinv.uncancelled i hi hactive
  · intro i hi hp
    obtain rfl := hone i hi hp
    exact .inr (List.mem_singleton.mpr rfl)
  · intro e he
    obtain rfl := List.mem_singleton.mp he
    refine ⟨c, hmem, ?_, rfl, rfl, List.mem_singleton.mpr rfl⟩
    rw [decide_eq_true rfl, Bool.true_and]
    exact decide_eq_true hattempts

theorem leaseMove_retry {l : Leases} {id : Uuid} {db : Database} (hinv : LeaseInv l)
    (h : retryJob id l.ledger.db = some db) : LeaseMove l db [] [] := by
  have hissues := (retryJob_issues hinv.fencing.ids h).1
  obtain ⟨hguards, rfl⟩ := retryJob_eq_some h
  refine leaseMove_update hinv hissues rfl (by intro j; rfl) hguards ?_ ?_ ?_ List.nodup_nil
  · exact fun _ _ _ _ => rfl
  · exact fun _ _ _ => .inl rfl
  · intro e he
    cases he

/-! ### Statements that add rows -/

theorem leaseMove_append {l : Leases} {db : Database} {row : JobRow}
    {tokens : List (String × Int)} {events : List LeaseEvent} (hinv : LeaseInv l)
    (hfencing : FencingInv (l.ledger.after db tokens))
    (hjobs : db.jobs = l.ledger.db.jobs ++ [row])
    (hfresh : ∀ j ∈ l.ledger.db.jobs, j.id ≠ row.id) (hguards : activeGuards db.jobs = true)
    (hcancel : row.requestedCancelAt = none)
    (hevents : ∀ e ∈ events, e.job = row.id ∧ e.token = row.fencingToken)
    (honce : (events.map LeaseEvent.job).Nodup) :
    LeaseMove l db tokens events := by
  have hrow : row ∈ db.jobs := by simp [hjobs]
  refine ⟨hfencing, hguards, ?_, ?_, ?_, honce⟩
  · intro j hj hactive
    rw [hjobs] at hj
    rcases List.mem_append.mp hj with hold | hnew
    · exact hinv.uncancelled j hold hactive
    · rw [List.mem_singleton.mp hnew]
      exact hcancel
  · exact fun j hj => ⟨j, hjobs ▸ List.mem_append_left _ hj, rfl, le_refl _⟩
  · intro e he
    obtain ⟨hjob, htoken⟩ := hevents e he
    refine ⟨⟨row, hrow, hjob.symm, Int.le_of_eq htoken⟩, ?_⟩
    intro j hj hid
    exact absurd (hid.trans hjob) (hfresh j hj)

theorem fencingInv_silent {l : Leases} (hinv : LeaseInv l) :
    FencingInv (l.ledger.after l.ledger.db []) :=
  (issues_none rfl fun j hj => ⟨j, hj, rfl, rfl⟩).fencingInv hinv.fencing hinv.fencing.ids

theorem leaseMove_refl {l : Leases} (hinv : LeaseInv l) : LeaseMove l l.ledger.db [] [] :=
  ⟨fencingInv_silent hinv, hinv.guards, hinv.uncancelled, fun j hj => ⟨j, hj, rfl, le_refl _⟩,
    by simp, List.nodup_nil⟩

theorem leaseMove_create {l : Leases} {id : Uuid} {r : JobRequest} {db : Database} {j : JobRow}
    (hinv : LeaseInv l) (hfresh : ∀ k ∈ l.ledger.db.jobs, k.id ≠ id)
    (h : createJob l.ledger.now id r l.ledger.db = .ok (db, j)) : LeaseMove l db [] [] := by
  rcases createJob_eq_ok h with ⟨rfl, -⟩ | ⟨rfl, rfl, hguards⟩
  · exact leaseMove_refl hinv
  · refine leaseMove_append hinv ?_ rfl hfresh hguards rfl (by simp) List.nodup_nil
    apply fencingInv_rest hinv.fencing
    simp only [keepsTokens, Bool.and_eq_true, decide_eq_true_eq, List.all_eq_true, Bool.or_eq_true,
      List.any_eq_true]
    constructor
    · exact nodup_map_concat hinv.fencing.ids hfresh
    · intro k hk
      rcases List.mem_append.mp hk with hold | hnew
      · exact .inr ⟨k, hold, rfl, rfl⟩
      · rw [List.mem_singleton.mp hnew]
        exact .inl rfl

/-! ### The watcher -/

theorem acquireDirtySnapshotJob_grants {now : Timestamp} {code owner : String}
    {leaseSeconds : Int} {id : Uuid} {millis : Int} {db db' : Database}
    {tokens : Option WatcherTokens} {job : Option DirtySnapshotJob}
    (h : acquireDirtySnapshotJobByCode now code owner leaseSeconds id millis db =
      .ok (db', tokens, job)) :
    (db' = db ∧ tokens = none ∧ job = none) ∨
    ∃ t : WatcherTokens, tokens = some t ∧ activeGuards db'.jobs = true ∧
      ((∃ d j, job = some d ∧ j ∈ db.jobs ∧ pendingSnapshotOf t.problemId j = true ∧
          d.jobId = j.id ∧ d.fencingToken = t.claim ∧
          db'.jobs = updateWhere (pendingSnapshotOf t.problemId)
            (JobRow.watched owner (now + seconds leaseSeconds) t.claim) db.jobs) ∨
        (job = none ∧ db'.jobs = db.jobs) ∨
        ∃ d target, job = some d ∧ d.jobId = id ∧ d.fencingToken = target.fencingToken ∧
          db'.jobs = db.jobs ++ [watcherJob now owner leaseSeconds id millis target]) := by
  unfold acquireDirtySnapshotJobByCode at h
  split at h
  · cases h
    exact .inl ⟨rfl, rfl, rfl⟩
  · rename_i target marked htarget
    right
    have hmarked := (acquireDirtySnapshotTarget_counters htarget).1
    dsimp only [claimPendingSnapshot] at h
    rw [hmarked] at h
    split at h
    · cases h
    · rename_i hguards
      rw [Bool.not_eq_true', Bool.not_eq_false] at hguards
      split at h
      · rename_i j hfound
        cases h
        exact ⟨_, rfl, hguards, .inl ⟨_, j, rfl, List.mem_of_find?_eq_some hfound,
          List.find?_some hfound, rfl, rfl, rfl⟩⟩
      · rename_i hnone
        have hsame : updateWhere (pendingSnapshotOf target.externalId) (JobRow.watched owner
            (now + seconds leaseSeconds) (nextToken (bumpCounter target.externalId 2 (· + 1)
              marked.jobFencingCounters) target.externalId - 1)) db.jobs = db.jobs :=
          updateWhere_eq_self fun j hj hp => absurd hp (List.find?_eq_none.mp hnone j hj)
        rw [hsame] at h hguards
        split at h
        · cases h
          exact ⟨_, rfl, hguards, .inr (.inl ⟨rfl, rfl⟩)⟩
        · split at h
          · rename_i hnew
            rw [Bool.and_eq_true] at hnew
            cases h
            exact ⟨_, rfl, hnew.1, .inr (.inr ⟨_, target, rfl, rfl, rfl, rfl⟩)⟩
          · cases h

theorem leaseMove_watch {l : Leases} {code owner : String} {leaseSeconds : Int} {id : Uuid}
    {millis : Int} {db : Database} {tokens : Option WatcherTokens}
    {job : Option DirtySnapshotJob} (hinv : LeaseInv l) (hfresh : ∀ j ∈ l.ledger.db.jobs, j.id ≠ id)
    (h : acquireDirtySnapshotJobByCode l.ledger.now code owner leaseSeconds id millis
      l.ledger.db = .ok (db, tokens, job)) :
    LeaseMove l db ((tokens.map WatcherTokens.toList).getD [])
      (job.toList.map fun d => ⟨d.jobId, some owner, d.fencingToken⟩) := by
  obtain ⟨hissues, hids⟩ := watcher_issues hinv.fencing.ids hfresh h
  rcases acquireDirtySnapshotJob_grants h with ⟨rfl, rfl, rfl⟩ | ⟨t, rfl, hguards, hcases⟩
  · exact leaseMove_refl hinv
  · rcases hcases with ⟨d, j, rfl, hj, hpending, hjob, htoken, hjobs⟩ | ⟨rfl, hjobs⟩ |
      ⟨d, target, rfl, hjob, htoken, hjobs⟩
    · -- Only one snapshot of a problem waits at a time.
      have hclaim : ∀ k, pendingSnapshotOf t.problemId k = true →
          (k.counterKey, t.claim) ∈ WatcherTokens.toList t := by
        intro k hk
        simp only [pendingSnapshotOf, Bool.and_eq_true, decide_eq_true_eq] at hk
        rw [JobRow.counterKey, hk.1.1, WatcherTokens.toList]
        exact List.mem_cons_of_mem _ List.mem_cons_self
      refine leaseMove_update hinv hissues hjobs (by intro j; rfl) hguards ?_ ?_ ?_
        (List.nodup_singleton _)
      · intro k hk hp _
        simp only [pendingSnapshotOf, Bool.and_eq_true, decide_eq_true_eq] at hp
        exact hinv.uncancelled k hk (by rw [hp.2]; rfl)
      · exact fun k _ hp => .inr (hclaim k hp)
      · intro e he
        rw [List.mem_singleton.mp he]
        refine ⟨j, hj, hpending, hjob, htoken, ?_⟩
        show (j.counterKey, d.fencingToken) ∈ WatcherTokens.toList t
        rw [htoken]
        exact hclaim j hpending
    · refine ⟨hissues.fencingInv hinv.fencing hids, hguards, ?_, ?_, by simp, List.nodup_nil⟩
      · rw [hjobs]
        exact hinv.uncancelled
      · rw [hjobs]
        exact fun j hj => ⟨j, hj, rfl, le_refl _⟩
    · refine leaseMove_append hinv (hissues.fencingInv hinv.fencing hids) hjobs hfresh hguards rfl
        ?_ (List.nodup_singleton _)
      intro e he
      rw [List.mem_singleton.mp he]
      exact ⟨hjob, htoken⟩

/-! ## The run -/

theorem leaseInv_step {l l' : Leases} {a : LeaseAction} (hinv : LeaseInv l)
    (h : leaseStep l a = some l') : LeaseInv l' := by
  cases a with
  | acquire worker leaseSeconds lane paused locked =>
      obtain ⟨⟨db, c, token⟩, hacquire, rfl⟩ := Option.map_eq_some_iff.mp h
      exact leaseInv_move hinv (leaseMove_acquire hinv hacquire)
  | watch code owner leaseSeconds id millis =>
      simp only [leaseStep] at h
      split at h
      · cases h
      · rename_i hfresh
        split at h
        · cases h
        · rename_i hwatch
          cases h
          exact leaseInv_move hinv (leaseMove_watch hinv (by simpa using hfresh) hwatch)
  | perform s id owner token =>
      cases h
      exact leaseInv_move hinv (leaseMove_perform hinv s id owner token)
  | cancel id reason =>
      obtain ⟨⟨db, j, token⟩, hcancel, rfl⟩ := Option.map_eq_some_iff.mp h
      exact leaseInv_move hinv (leaseMove_cancel hinv hcancel)
  | retry id =>
      obtain ⟨db, hretry, rfl⟩ := Option.map_eq_some_iff.mp h
      exact leaseInv_move hinv (leaseMove_retry hinv hretry)
  | touch problemId =>
      cases h
      exact leaseInv_move hinv (leaseMove_touch hinv problemId)
  | cancelPending externalId =>
      cases h
      exact leaseInv_move hinv (leaseMove_cancelPending hinv externalId)
  | failExpired =>
      cases h
      exact leaseInv_move hinv (leaseMove_failExpired hinv)
  | create id r =>
      simp only [leaseStep] at h
      split at h
      · cases h
      · rename_i hfresh
        split at h
        · cases h
        · rename_i hcreate
          cases h
          exact leaseInv_move hinv (leaseMove_create hinv (by simpa using hfresh) hcreate)
  | tick elapsed =>
      cases h
      exact ⟨⟨hinv.fencing.ids, hinv.fencing.positive, hinv.fencing.ahead, hinv.fencing.behind,
        hinv.fencing.nodup⟩, hinv.guards, hinv.uncancelled, hinv.ordered, hinv.reached⟩

/-- A job is accepted by the guard that asks least and by the one that asks most, or its
lease has run out. -/
theorem guardsAgree_iff {l : Leases} (hinv : LeaseInv l) : GuardsAgree l ↔ LeasesKept l := by
  constructor
  · intro h j hj hrunning howner
    have hfail : LeaseStatement.accepts l.ledger.now j.id j.leaseOwner j.fencingToken
        (.failJob "" "") l.ledger.db = true :=
      List.any_eq_true.mpr ⟨j, hj, JobRow.heldAs_iff.mpr ⟨rfl, ⟨howner, rfl⟩, rfl, hrunning⟩⟩
    rw [h _ .dataPlaneAssert] at hfail
    obtain ⟨k, hk, hguard⟩ := List.any_eq_true.mp hfail
    change dataPlaneGuard _ _ _ _ k = true at hguard
    rw [dataPlaneGuard, Bool.and_eq_true] at hguard
    rw [row_eq_of_id hinv.fencing.ids hj hk (JobRow.heldAs_iff.mp hguard.1).1.symm]
    exact hguard.2
  · intro h s t id owner token
    have hguard : ∀ (s : LeaseStatement), ∀ j ∈ l.ledger.db.jobs,
        s.guard l.ledger.now id owner token j = j.heldAs id owner token := by
      intro s j hj
      rw [Bool.eq_iff_iff]
      constructor
      · exact s.heldAs_of_guard
      · intro hheld
        obtain ⟨-, ⟨hsome, -⟩, -, hrunning⟩ := JobRow.heldAs_iff.mp hheld
        have hcurrent := h j hj hrunning hsome
        have hcancel := hinv.uncancelled j hj (by rw [hrunning]; rfl)
        cases s <;> simp [LeaseStatement.guard, controlPlaneGuard, dataPlaneGuard, hheld, hcurrent,
          hcancel]
    unfold LeaseStatement.accepts
    rw [Bool.eq_iff_iff, List.any_eq_true, List.any_eq_true]
    refine exists_congr fun j => and_congr_right fun hj => ?_
    rw [hguard s j hj, hguard t j hj]

theorem leaseInv_installed {l : Leases} (h : Installed l) : LeaseInv l := by
  refine ⟨⟨h.seeded.ids, h.seeded.positive, h.seeded.ahead, ?_, ?_⟩, h.guards, h.uncancelled, ?_, ?_⟩
  · rw [h.seeded.issued]
    simp
  · rw [h.seeded.issued]
    exact List.nodup_nil
  · rw [h.log]
    exact List.Pairwise.nil
  · rw [h.log]
    simp

theorem leaseInv_run {l : Leases} (h : Installed l) (as : List LeaseAction) :
    EveryStep leaseStep (fun _ _ l' => LeaseInv l') l as :=
  everyStep_of_invariant (I := LeaseInv) (C := fun _ _ _ => True)
    (fun _ _ _ hinv _ hstep => leaseInv_step hinv hstep)
    (fun _ _ _ hinv _ hstep => leaseInv_step hinv hstep) (leaseInv_installed h)
    (everyStep_of_forall_mem fun _ _ => trivial)

theorem leasesKept_of_agree {l : Leases} {as : List LeaseAction} (h : Installed l)
    (hagree : EveryStep leaseStep (fun _ _ l' => LeaseExclusive l' ∧ GuardsAgree l') l as) :
    EveryStep leaseStep (fun _ _ l' => LeasesKept l') l as :=
  ((leaseInv_run h as).and hagree).mono fun _ _ _ _ h => (guardsAgree_iff h.1).mp h.2.2

/-- Along every run leases are exclusive, and the guards of the two code bases agree in
every state reached exactly when no worker lets the lease of its job run out. -/
theorem leases_exclusive {l : Leases} {as : List LeaseAction} (h : Installed l) :
    EveryStep leaseStep (fun _ _ l' => LeaseExclusive l') l as ∧
      (EveryStep leaseStep (fun _ _ l' => LeaseExclusive l' ∧ GuardsAgree l') l as ↔
        EveryStep leaseStep (fun _ _ l' => LeasesKept l') l as) := by
  have hinv := leaseInv_run h as
  refine ⟨hinv.mono fun _ _ _ _ hinv => hinv.exclusive, leasesKept_of_agree h, ?_⟩
  intro hkept
  exact (hinv.and hkept).mono fun _ _ _ _ h =>
    ⟨h.1.exclusive, (guardsAgree_iff h.1).mpr h.2⟩

def emptyLeases : Leases where
  ledger := { now := 0, db := { problems := [sampleProblem "101" "aplusb" .present] } }

theorem emptyLeases_installed : Installed emptyLeases :=
  ⟨⟨by decide, fun _ => le_refl _, by simp [emptyLeases], rfl⟩, by decide, by simp [emptyLeases],
    rfl⟩

def snapshotRequest : JobRequest := ⟨"k", .snapshot, some "101", some 1, "f"⟩

/-- A snapshot that is acquired, renewed, cancelled, retried, claimed by the watcher and
failed in time. -/
def busySnapshot : List LeaseAction :=
  [.create 1 snapshotRequest, .acquire "worker" 60 .bulk false [], .tick 30000000,
    .perform (.renewJobLease 60) 1 (some "worker") 1, .cancel 1 none, .retry 1,
    .watch "aplusb" "watcher" 300 2 0, .perform .assertJobLease 1 (some "worker") 1,
    .perform (.failJob "dirty_snapshot_failed" "") 1 (some "watcher") 4]

theorem leases_exclusive_busy :
    (exec leaseStep emptyLeases busySnapshot).map (fun l => l.log) =
        some [⟨1, some "worker", 1⟩, ⟨1, none, 2⟩, ⟨1, some "watcher", 4⟩] ∧
      EveryStep leaseStep (fun _ _ l' => LeaseExclusive l' ∧ GuardsAgree l') emptyLeases
        busySnapshot :=
  ⟨by decide +kernel, (leases_exclusive emptyLeases_installed).2.mpr (by decide +kernel)⟩

def lateWatcher : List LeaseAction := [.watch "aplusb" "watcher" 300 1 0, .tick 300000001]

/-- `fail_job` still finds the job; `completeJobWithLease` does not. -/
theorem expired_lease_failed :
    Installed emptyLeases ∧
      (exec leaseStep emptyLeases lateWatcher).map (fun l =>
        (LeaseStatement.accepts l.ledger.now 1 (some "watcher") 1
          (.failJob "dirty_snapshot_failed" "") l.ledger.db,
        LeaseStatement.accepts l.ledger.now 1 (some "watcher") 1
          (.completeJobWithLease .failed none (some "dirty_snapshot_failed") none)
          l.ledger.db)) = some (true, false) ∧
      ¬ EveryStep leaseStep (fun _ _ l' => LeaseExclusive l' ∧ GuardsAgree l') emptyLeases
        lateWatcher := by
  refine ⟨emptyLeases_installed, by decide +kernel, ?_⟩
  intro h
  have hkept := leasesKept_of_agree emptyLeases_installed h
  revert hkept
  decide +kernel

end ExternalStorage.Jobs
