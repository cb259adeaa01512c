import ExternalStorage.Jobs.Leases
import ExternalStorage.Model.Scheduling

/-!
# Identities of automatic jobs

The keys of `scheduleAutoSnapshotJobs` carry a round that `track_snapshot_job_outcome` keeps
in `problem_usage`.  Each snapshot job that ends advances the round of its problem by one,
and no other statement changes it: no key from before the end of a job comes again.
-/

namespace ExternalStorage.Jobs

open ExternalStorage.Model Library.Runs Library.Table

/-! ## The machine -/

/-- A call of `scheduleAutoSnapshotJobs` that has read the round. -/
structure AutoCall where
  problem : ProblemRow
  generation : Int
  round : Int
  deriving DecidableEq, Repr

def AutoCall.keys (c : AutoCall) : List String :=
  [(autoScanRequest c.problem c.round).idempotencyKey,
    (autoSnapshotRequest c.problem c.generation c.round).idempotencyKey]

structure Rounds where
  leases : Leases
  /-- The columns of `problem_usage` that migration 010 adds. -/
  backoff : List BackoffRow
  /-- Every call so far: history the program does not keep. -/
  calls : List AutoCall := []

def Rounds.jobs (s : Rounds) : List JobRow := s.leases.ledger.db.jobs

inductive RoundAction where
  /-- `scheduleAutoSnapshotJobs` up to its first job, with what `maintenanceConfig` says.  Its
  jobs and their payload are statements of their own. -/
  | call (permanentFailureThreshold snapshotBackoffIntervalMs : Int) (p : ProblemRow)
  | job (a : LeaseAction)
  | setJobPayload (id : Uuid) (payload : JobPayload)
  /-- A job is written again in the state it has.  `updateJobState`, which could write
  another one, has no caller. -/
  | rewrite (id : Uuid) (result : Option JobPayload) (errorCode errorMessage : Option String)
  /-- Terminal jobs are deleted, by `purgeTerminalJobs` or `applyRetention`. -/
  | purge (ids : List Uuid)
  /-- Any statement that inserts the row of `problem_usage` if it is missing. -/
  | insertUsage (problemId : String)
  /-- The version of a problem grows. -/
  | edit (externalId : String)

def Rounds.context (s : Rounds) (permanentFailureThreshold snapshotBackoffIntervalMs : Int) :
    ScheduleContext where
  now := s.leases.ledger.now
  permanentFailureThreshold := permanentFailureThreshold
  snapshotBackoffIntervalMs := snapshotBackoffIntervalMs
  backoff := s.backoff
  newId := fun _ => 0

def Rounds.autoCall (s : Rounds) (permanentFailureThreshold snapshotBackoffIntervalMs : Int)
    (p : ProblemRow) : Option (Database × AutoCall) :=
  let c := s.context permanentFailureThreshold snapshotBackoffIntervalMs
  if !p.dirty then none
  else if c.parked p.externalId then none
  else
    let (db, generation) := dirtyGenerationOf p s.leases.ledger.db
    some (db, ⟨p, generation, c.round p.externalId⟩)

/-- The trigger, `FOR EACH ROW` of an `UPDATE OF state`: it looks at no row whose state is
as it was, so that rows the statement does not address make no difference. -/
def fireOutcomes (now : Timestamp) (before after : List JobRow) (rows : List BackoffRow) :
    List BackoffRow :=
  before.foldl (fun rows old =>
    match after.find? fun new => new.id = old.id with
    | none => rows
    | some new => trackSnapshotJobOutcome now old new rows) rows

def Rounds.after (s : Rounds) (l : Leases) : Rounds :=
  { s with
    leases := l
    backoff := fireOutcomes s.leases.ledger.now s.jobs l.ledger.db.jobs s.backoff }

def Rounds.withJobs (s : Rounds) (jobs : List JobRow) : Rounds :=
  s.after (s.leases.after { s.leases.ledger.db with jobs := jobs } [] [])

def roundStep (s : Rounds) : RoundAction → Option Rounds
  | .call permanentFailureThreshold snapshotBackoffIntervalMs p =>
      (s.autoCall permanentFailureThreshold snapshotBackoffIntervalMs p).map fun r =>
        { s with leases := s.leases.after r.1 [] [], calls := s.calls ++ [r.2] }
  | .job a => (leaseStep s.leases a).map s.after
  | .setJobPayload id payload =>
      some (s.withJobs (setJobPayload id payload s.leases.ledger.db).jobs)
  | .rewrite id result errorCode errorMessage =>
      some (s.withJobs (updateWhere (fun j => j.id = id)
        (fun j => { j with result := result, errorCode := errorCode, errorMessage := errorMessage })
        s.jobs))
  | .purge ids =>
      some (s.withJobs (deleteWhere (fun j => ids.contains j.id && j.state.terminal) s.jobs))
  | .insertUsage problemId =>
      some { s with backoff := upsertOn BackoffRow.problemId ⟨problemId, 0, none, 0⟩ id s.backoff }
  | .edit externalId => some { s with
      leases := s.leases.after { s.leases.ledger.db with
        problems := markProblemDirty s.leases.ledger.now externalId
          s.leases.ledger.db.problems } [] []
      backoff := resetSnapshotBackoffOnDirty externalId s.backoff }

/-! ## Statements -/

/-- `snapshot_schedule_round`, 0 without a row. -/
def roundOf (q : String) (rows : List BackoffRow) : Int :=
  ((rows.find? fun b => b.problemId = q).map BackoffRow.snapshotScheduleRound).getD 0

def JobRow.snapshotOf (q : String) (j : JobRow) : Bool :=
  j.jobType = .snapshot && j.problemId = some q

def Rounds.ended (s s' : Rounds) (q : String) : List JobRow :=
  s.jobs.filter fun j => JobRow.snapshotOf q j && !j.state.terminal &&
    s'.jobs.any fun k => k.id = j.id && k.state.terminal

/-! ## The trigger -/

def entersTerminal (q : String) (old new : JobRow) : Bool :=
  JobRow.snapshotOf q new && decide (new.state ≠ old.state) && new.state.terminal

theorem roundOf_upsertOn {new : BackoffRow} {merge : BackoffRow → BackoffRow}
    (hmerge : ∀ r, (merge r).problemId = r.problemId) (rows : List BackoffRow) (q : String) :
    roundOf q (upsertOn BackoffRow.problemId new merge rows) =
      if q = new.problemId then
        (((rows.find? fun r => r.problemId = q).map merge).getD new).snapshotScheduleRound
      else
        roundOf q rows := by
  unfold roundOf
  rw [find?_upsertOn hmerge]
  split
  · rfl
  · rfl

theorem roundOf_upsertOn_kept {new : BackoffRow} {merge : BackoffRow → BackoffRow}
    (hmerge : ∀ r, (merge r).problemId = r.problemId)
    (hround : ∀ r, (merge r).snapshotScheduleRound = r.snapshotScheduleRound)
    (hnew : new.snapshotScheduleRound = 0) (rows : List BackoffRow) (q : String) :
    roundOf q (upsertOn BackoffRow.problemId new merge rows) = roundOf q rows := by
  rw [roundOf_upsertOn hmerge]
  split
  · unfold roundOf
    cases rows.find? fun r => r.problemId = q with
    | none => exact hnew
    | some r => exact hround r
  · rfl

theorem roundOf_countOutcome (now : Timestamp) (problemId : String) (permanent : Bool)
    (rows : List BackoffRow) (q : String) :
    roundOf q (countOutcome now problemId permanent rows) = roundOf q rows := by
  apply roundOf_upsertOn_kept
  · intro r
    rfl
  · intro r
    rfl
  · rfl

theorem roundOf_next (problemId : String) (rows : List BackoffRow) (q : String) :
    roundOf q (upsertOn BackoffRow.problemId ⟨problemId, 0, none, 1⟩
      (fun b => { b with snapshotScheduleRound := b.snapshotScheduleRound + 1 }) rows) =
      roundOf q rows + if q = problemId then 1 else 0 := by
  rw [roundOf_upsertOn (by intro r; rfl)]
  dsimp only
  split
  · unfold roundOf
    cases rows.find? fun r => r.problemId = q with
    | none => rfl
    | some r => rfl
  · exact (Int.add_zero _).symm

theorem roundOf_track (now : Timestamp) (old new : JobRow) (rows : List BackoffRow) (q : String) :
    roundOf q (trackSnapshotJobOutcome now old new rows) =
      roundOf q rows + if entersTerminal q old new then 1 else 0 := by
  unfold trackSnapshotJobOutcome entersTerminal JobRow.snapshotOf
  cases hproblem : new.problemId with
  | none => simp
  | some problemId =>
      by_cases hidle : new.jobType ≠ .snapshot ∨ new.state = old.state
      · have hskip : (decide (new.jobType ≠ .snapshot) ||
            decide (new.state = old.state)) = true := by
          simpa using hidle
        dsimp only
        rw [if_pos hskip]
        rcases hidle with htype | hstate
        · simp [htype]
        · simp [hstate]
      · obtain ⟨htype, hstate⟩ := not_or.mp hidle
        rw [not_not] at htype
        simp only [htype, hstate, ne_eq, not_true_eq_false, decide_false, Bool.or_self,
          Bool.false_eq_true, if_false, decide_true, not_false_eq_true, Bool.true_and,
          Option.some.injEq, Bool.and_true]
        have hrows : roundOf q (if new.state.terminal = true then
              upsertOn BackoffRow.problemId ⟨problemId, 0, none, 1⟩
                (fun b => { b with snapshotScheduleRound := b.snapshotScheduleRound + 1 }) rows
              else rows) =
            roundOf q rows +
              if (decide (problemId = q) && new.state.terminal) = true then 1 else 0 := by
          split
          · rename_i hterminal
            rw [roundOf_next, hterminal]
            by_cases hq : q = problemId
            · simp [hq]
            · simp [hq, Ne.symm hq]
          · rename_i hterminal
            rw [Bool.not_eq_true] at hterminal
            simp [hterminal]
        split
        · rw [roundOf_countOutcome, hrows]
        · exact hrows

theorem roundOf_fireOutcomes (now : Timestamp) (before after : List JobRow)
    (rows : List BackoffRow) (q : String) :
    roundOf q (fireOutcomes now before after rows) =
      roundOf q rows + before.countP fun old =>
        (after.find? fun new => new.id = old.id).any (entersTerminal q old) := by
  unfold fireOutcomes
  induction before generalizing rows with
  | nil => simp
  | cons old before ih =>
      rw [List.foldl_cons, ih, List.countP_cons]
      cases after.find? fun new => new.id = old.id with
      | none => simp
      | some new =>
          dsimp only [Option.any_some]
          rw [roundOf_track]
          split <;> omega

/-! ## What a statement does to the jobs -/

/-- A statement keeps the kind and the problem of a job; one that has ended stays as it
ended, or starts again. -/
structure Moves (jobs jobs' : List JobRow) : Prop where
  ids : (jobs'.map JobRow.id).Nodup
  jobType : ∀ j ∈ jobs, ∀ k ∈ jobs', k.id = j.id → k.jobType = j.jobType
  problemId : ∀ j ∈ jobs, ∀ k ∈ jobs', k.id = j.id → k.problemId = j.problemId
  ended : ∀ j ∈ jobs, ∀ k ∈ jobs', k.id = j.id → j.state.terminal = true →
    k.state.terminal = true → k.state = j.state

theorem moves_of_mem {jobs jobs' : List JobRow} (hids : (jobs.map JobRow.id).Nodup)
    (hids' : (jobs'.map JobRow.id).Nodup)
    (h : ∀ k ∈ jobs', k ∈ jobs ∨ ∀ j ∈ jobs, j.id ≠ k.id) : Moves jobs jobs' := by
  have hsame : ∀ j ∈ jobs, ∀ k ∈ jobs', k.id = j.id → k = j := by
    intro j hj k hk hid
    rcases h k hk with hold | hnew
    · exact row_eq_of_id hids hold hj hid
    · exact absurd hid.symm (hnew j hj)
  refine ⟨hids', ?_, ?_, ?_⟩
  · intro j hj k hk hid
    rw [hsame j hj k hk hid]
  · intro j hj k hk hid
    rw [hsame j hj k hk hid]
  · intro j hj k hk hid _ _
    rw [hsame j hj k hk hid]

theorem moves_refl {jobs : List JobRow} (hids : (jobs.map JobRow.id).Nodup) : Moves jobs jobs :=
  moves_of_mem hids hids fun _ hk => .inl hk

theorem moves_concat {jobs : List JobRow} {row : JobRow} (hids : (jobs.map JobRow.id).Nodup)
    (hfresh : ∀ j ∈ jobs, j.id ≠ row.id) : Moves jobs (jobs ++ [row]) := by
  refine moves_of_mem hids (nodup_map_concat hids hfresh) ?_
  intro k hk
  rcases List.mem_append.mp hk with hold | hnew
  · exact .inl hold
  · rw [List.mem_singleton.mp hnew]
    exact .inr hfresh

theorem moves_update {jobs : List JobRow} {p : JobRow → Bool} {f : JobRow → JobRow}
    (hids : (jobs.map JobRow.id).Nodup) (hid : ∀ j, (f j).id = j.id)
    (htype : ∀ j, (f j).jobType = j.jobType) (hproblem : ∀ j, (f j).problemId = j.problemId)
    (hended : ∀ j ∈ jobs, p j = true → j.state.terminal = true → (f j).state.terminal = true →
      (f j).state = j.state) : Moves jobs (updateWhere p f jobs) := by
  have hrow : ∀ j ∈ jobs, ∀ k ∈ updateWhere p f jobs, k.id = j.id → k = if p j then f j else j := by
    intro j hj k hk hkid
    obtain ⟨i, hi, rfl⟩ := mem_updateWhere.mp hk
    have hij : i.id = j.id := by
      split at hkid
      · exact (hid i).symm.trans hkid
      · exact hkid
    rw [row_eq_of_id hids hi hj hij]
  refine ⟨ids_update hids hid, ?_, ?_, ?_⟩
  · intro j hj k hk hkid
    rw [hrow j hj k hk hkid]
    split
    · exact htype j
    · rfl
  · intro j hj k hk hkid
    rw [hrow j hj k hk hkid]
    split
    · exact hproblem j
    · rfl
  · intro j hj k hk hkid hwas
    rw [hrow j hj k hk hkid]
    split
    · rename_i hp
      exact hended j hj hp hwas
    · exact fun _ => rfl

theorem not_terminal_of_active {j : JobRow} (h : j.state.active = true) :
    j.state.terminal = false := by
  cases hstate : j.state <;> simp_all [JobState.active, JobState.terminal]

theorem moves_active {jobs : List JobRow} {p : JobRow → Bool} {f : JobRow → JobRow}
    (hids : (jobs.map JobRow.id).Nodup) (hid : ∀ j, (f j).id = j.id)
    (htype : ∀ j, (f j).jobType = j.jobType) (hproblem : ∀ j, (f j).problemId = j.problemId)
    (hactive : ∀ j ∈ jobs, p j = true → j.state.active = true) :
    Moves jobs (updateWhere p f jobs) := by
  refine moves_update hids hid htype hproblem ?_
  intro j hj hp hended
  rw [not_terminal_of_active (hactive j hj hp)] at hended
  cases hended

theorem moves_perform {l : Leases} (hids : (l.ledger.db.jobs.map JobRow.id).Nodup)
    (s : LeaseStatement) (id : Uuid) (owner : Option String) (token : Int) :
    Moves l.ledger.db.jobs (s.run l.ledger.now id owner token l.ledger.db).jobs := by
  have hcalms := calms_set l.ledger.now id owner token s
  refine moves_active hids hcalms.id hcalms.jobType hcalms.problemId ?_
  intro j _ hp
  rw [(JobRow.heldAs_iff.mp (s.heldAs_of_guard hp)).2.2.2]
  rfl

theorem moves_watch {now : Timestamp} {code owner : String} {leaseSeconds : Int} {id : Uuid}
    {millis : Int} {db db' : Database} {tokens : Option WatcherTokens}
    {job : Option DirtySnapshotJob} (hids : (db.jobs.map JobRow.id).Nodup)
    (hfresh : ∀ j ∈ db.jobs, j.id ≠ id)
    (h : acquireDirtySnapshotJobByCode now code owner leaseSeconds id millis db =
      .ok (db', tokens, job)) : Moves db.jobs db'.jobs := by
  rcases acquireDirtySnapshotJob_grants h with ⟨rfl, -, -⟩ | ⟨t, -, -, hcases⟩
  · exact moves_refl hids
  · rcases hcases with ⟨d, j, -, -, -, -, -, hjobs⟩ | ⟨-, hjobs⟩ | ⟨d, target, -, -, -, hjobs⟩
    · rw [hjobs]
      refine moves_active hids (fun _ => rfl) (fun _ => rfl) (fun _ => rfl) ?_
      intro j _ hp
      simp only [pendingSnapshotOf, Bool.and_eq_true, decide_eq_true_eq] at hp
      rw [hp.2]
      rfl
    · rw [hjobs]
      exact moves_refl hids
    · rw [hjobs]
      exact moves_concat hids hfresh

theorem moves_cancelWaiting {jobs : List JobRow} {p : JobRow → Bool} {f : JobRow → JobRow}
    (hids : (jobs.map JobRow.id).Nodup) (hid : ∀ j, (f j).id = j.id)
    (htype : ∀ j, (f j).jobType = j.jobType) (hproblem : ∀ j, (f j).problemId = j.problemId) :
    Moves jobs (updateWhere (fun j => p j && j.state = .pending) f jobs) := by
  refine moves_active hids hid htype hproblem ?_
  intro j _ hp
  rw [Bool.and_eq_true, decide_eq_true_eq] at hp
  rw [hp.2]
  rfl

theorem moves_leaseStep {l l' : Leases} {a : LeaseAction}
    (hids : (l.ledger.db.jobs.map JobRow.id).Nodup) (h : leaseStep l a = some l') :
    Moves l.ledger.db.jobs l'.ledger.db.jobs := by
  cases a with
  | acquire worker leaseSeconds lane paused locked =>
      obtain ⟨⟨db, c, token⟩, hacquire, rfl⟩ := Option.map_eq_some_iff.mp h
      obtain ⟨hcandidate, hjobs, -⟩ := acquireJob_rows hacquire
      obtain ⟨hmem, hacquirable⟩ := acquireCandidate_mem hcandidate
      show Moves _ db.jobs
      rw [hjobs]
      refine moves_active hids (fun _ => rfl) (fun _ => rfl) (fun _ => rfl) ?_
      intro j hj hp
      rw [Bool.and_eq_true, decide_eq_true_eq] at hp
      obtain rfl := row_eq_of_id hids hj hmem hp.1
      exact (acquirable_active hacquirable).1
  | watch code owner leaseSeconds id millis =>
      simp only [leaseStep] at h
      split at h
      · cases h
      · rename_i hfresh
        split at h
        · cases h
        · rename_i hwatch
          cases h
          exact moves_watch hids (by simpa using hfresh) hwatch
  | perform s id owner token =>
      cases h
      exact moves_perform hids s id owner token
  | cancel id reason =>
      obtain ⟨⟨db, c, token⟩, hcancel, rfl⟩ := Option.map_eq_some_iff.mp h
      obtain ⟨hmem, hactive, hjobs⟩ := cancelJob_rows hcancel
      show Moves _ db.jobs
      rw [hjobs]
      refine moves_active hids (fun _ => rfl) (fun _ => rfl) (fun _ => rfl) ?_
      intro j hj hp
      obtain rfl := row_eq_of_id hids hj hmem (of_decide_eq_true hp)
      exact hactive
  | retry id =>
      -- A job that starts again has not ended.
      obtain ⟨db, hretry, rfl⟩ := Option.map_eq_some_iff.mp h
      obtain ⟨-, rfl⟩ := retryJob_eq_some hretry
      refine moves_update hids (fun _ => rfl) (fun _ => rfl) (fun _ => rfl) ?_
      intro j _ _ _ hended
      cases hended
  | touch problemId =>
      cases h
      exact moves_cancelWaiting hids (fun _ => rfl) (fun _ => rfl) (fun _ => rfl)
  | cancelPending externalId =>
      cases h
      exact moves_cancelWaiting hids (fun _ => rfl) (fun _ => rfl) (fun _ => rfl)
  | failExpired =>
      cases h
      refine moves_active hids (fun _ => rfl) (fun _ => rfl) (fun _ => rfl) ?_
      intro j hj hp
      obtain ⟨r, hr, hid⟩ := List.any_eq_true.mp hp
      obtain ⟨hr, hexpired⟩ := List.mem_filter.mp hr
      obtain rfl := row_eq_of_id hids hr hj (of_decide_eq_true hid)
      simp only [Bool.and_eq_true, decide_eq_true_eq] at hexpired
      rw [hexpired.1.1]
      rfl
  | create id r =>
      simp only [leaseStep] at h
      split at h
      · cases h
      · rename_i hfresh
        have hnew : ∀ j ∈ l.ledger.db.jobs, j.id ≠ id := by simpa using hfresh
        split at h
        · cases h
        · rename_i hcreate
          cases h
          rcases createJob_eq_ok hcreate with ⟨rfl, -⟩ | ⟨rfl, rfl, -⟩
          · exact moves_refl hids
          · exact moves_concat hids hnew
  | tick elapsed =>
      cases h
      exact moves_refl hids

/-! ## The round -/

theorem entersTerminal_iff {jobs jobs' : List JobRow} (h : Moves jobs jobs') {j : JobRow}
    (hj : j ∈ jobs) (q : String) :
    (jobs'.find? fun k => k.id = j.id).any (entersTerminal q j) =
      (JobRow.snapshotOf q j && !j.state.terminal &&
        jobs'.any fun k => k.id = j.id && k.state.terminal) := by
  cases hfound : jobs'.find? fun k => k.id = j.id with
  | none =>
      have hgone : (jobs'.any fun k => k.id = j.id && k.state.terminal) = false := by
        rw [List.any_eq_false]
        intro k hk hboth
        rw [Bool.and_eq_true] at hboth
        exact List.find?_eq_none.mp hfound k hk hboth.1
      rw [hgone, Bool.and_false, Option.any_none]
  | some k =>
      have hk : k ∈ jobs' := List.mem_of_find?_eq_some hfound
      have hid : k.id = j.id := by simpa using List.find?_some hfound
      have hany : (jobs'.any fun i => i.id = j.id && i.state.terminal) = k.state.terminal := by
        rw [Bool.eq_iff_iff, List.any_eq_true]
        constructor
        · rintro ⟨i, hi, hboth⟩
          rw [Bool.and_eq_true, decide_eq_true_eq] at hboth
          rw [row_eq_of_id h.ids hk hi (hid.trans hboth.1.symm)]
          exact hboth.2
        · intro hterminal
          exact ⟨k, hk, by rw [hterminal, Bool.and_true]; exact decide_eq_true hid⟩
      have hkind : JobRow.snapshotOf q k = JobRow.snapshotOf q j := by
        rw [JobRow.snapshotOf, JobRow.snapshotOf, h.jobType j hj k hk hid,
          h.problemId j hj k hk hid]
      rw [hany, Option.any_some, entersTerminal, hkind, Bool.and_assoc, Bool.and_assoc]
      congr 1
      cases hterminal : k.state.terminal with
      | false => rw [Bool.and_false, Bool.and_false]
      | true =>
          rw [Bool.and_true, Bool.and_true]
          cases hwas : j.state.terminal with
          | true => simpa using h.ended j hj k hk hid hwas hterminal
          | false =>
              have hne : k.state ≠ j.state := by
                intro heq
                rw [heq, hwas] at hterminal
                cases hterminal
              simpa using hne

theorem roundOf_after {s : Rounds} {l : Leases} (h : Moves s.jobs l.ledger.db.jobs) (q : String) :
    roundOf q (s.after l).backoff = roundOf q s.backoff + (s.ended (s.after l) q).length := by
  show roundOf q (fireOutcomes s.leases.ledger.now s.jobs l.ledger.db.jobs s.backoff) = _
  rw [roundOf_fireOutcomes, Rounds.ended, List.countP_eq_length_filter]
  congr 3
  apply List.filter_congr
  intro j hj
  exact entersTerminal_iff h hj q

structure Advance (s s' : Rounds) : Prop where
  ids : (s'.jobs.map JobRow.id).Nodup
  round : ∀ q, roundOf q s'.backoff = roundOf q s.backoff + (s.ended s' q).length

theorem advance_after {s : Rounds} {l : Leases} (h : Moves s.jobs l.ledger.db.jobs) :
    Advance s (s.after l) :=
  ⟨h.ids, roundOf_after h⟩

theorem ended_eq_nil {s s' : Rounds} (hids : (s.jobs.map JobRow.id).Nodup)
    (hjobs : s'.jobs = s.jobs) (q : String) : s.ended s' q = [] := by
  rw [Rounds.ended, List.filter_eq_nil_iff]
  intro j hj hends
  simp only [Bool.and_eq_true, Bool.not_eq_true', List.any_eq_true, decide_eq_true_eq] at hends
  obtain ⟨⟨-, hactive⟩, k, hk, hid, hterminal⟩ := hends
  rw [hjobs] at hk
  rw [row_eq_of_id hids hk hj hid, hactive] at hterminal
  cases hterminal

theorem advance_of_jobs {s s' : Rounds} (hids : (s.jobs.map JobRow.id).Nodup)
    (hjobs : s'.jobs = s.jobs) (hround : ∀ q, roundOf q s'.backoff = roundOf q s.backoff) :
    Advance s s' := by
  refine ⟨hjobs ▸ hids, fun q => ?_⟩
  rw [ended_eq_nil hids hjobs, hround]
  exact (Int.add_zero _).symm

theorem dirtyGenerationOf_jobs (p : ProblemRow) (db : Database) :
    (dirtyGenerationOf p db).1.jobs = db.jobs := by
  unfold dirtyGenerationOf
  split <;> rfl

theorem autoCall_jobs {s : Rounds} {permanentFailureThreshold snapshotBackoffIntervalMs : Int}
    {p : ProblemRow} {db : Database} {c : AutoCall}
    (h : s.autoCall permanentFailureThreshold snapshotBackoffIntervalMs p = some (db, c)) :
    db.jobs = s.jobs ∧ c.problem = p ∧ c.round = roundOf p.externalId s.backoff := by
  unfold Rounds.autoCall at h
  dsimp only at h
  split at h
  · cases h
  · split at h
    · cases h
    · cases h
      exact ⟨dirtyGenerationOf_jobs p _, rfl, rfl⟩

theorem roundOf_reset (externalId : String) (rows : List BackoffRow) (q : String) :
    roundOf q (resetSnapshotBackoffOnDirty externalId rows) = roundOf q rows := by
  unfold roundOf resetSnapshotBackoffOnDirty
  rw [find?_updateWhere (by intro r; rfl)]
  cases rows.find? fun r => r.problemId = q with
  | none => rfl
  | some r =>
      simp only [Option.map_some, Option.getD_some]
      split <;> rfl

theorem advance_step {s s' : Rounds} {a : RoundAction} (hids : (s.jobs.map JobRow.id).Nodup)
    (h : roundStep s a = some s') : Advance s s' := by
  cases a with
  | call permanentFailureThreshold snapshotBackoffIntervalMs p =>
      obtain ⟨⟨db, c⟩, hcall, rfl⟩ := Option.map_eq_some_iff.mp h
      exact advance_of_jobs hids (autoCall_jobs hcall).1 fun _ => rfl
  | job a =>
      obtain ⟨l, hlease, rfl⟩ := Option.map_eq_some_iff.mp h
      exact advance_after (moves_leaseStep hids hlease)
  | setJobPayload id payload =>
      cases h
      exact advance_after (moves_cancelWaiting hids (fun _ => rfl) (fun _ => rfl) (fun _ => rfl))
  | rewrite id result errorCode errorMessage =>
      cases h
      apply advance_after
      exact moves_update hids (fun _ => rfl) (fun _ => rfl) (fun _ => rfl) fun _ _ _ _ _ => rfl
  | purge ids =>
      cases h
      apply advance_after
      refine moves_of_mem hids (hids.sublist (List.filter_sublist.map _)) ?_
      intro k hk
      exact .inl (mem_deleteWhere.mp hk).1
  | insertUsage problemId =>
      cases h
      refine advance_of_jobs hids rfl fun q => ?_
      exact roundOf_upsertOn_kept (fun _ => rfl) (fun _ => rfl) rfl s.backoff q
  | edit externalId =>
      cases h
      exact advance_of_jobs hids rfl fun q => roundOf_reset externalId s.backoff q

/-! ## The calls of a run -/

structure RoundInv (s : Rounds) : Prop where
  ids : (s.jobs.map JobRow.id).Nodup
  reached : ∀ c ∈ s.calls, c.round ≤ roundOf c.problem.externalId s.backoff

theorem Advance.le {s s' : Rounds} (h : Advance s s') (q : String) :
    roundOf q s.backoff ≤ roundOf q s'.backoff := by
  rw [h.round q]
  omega

theorem roundStep_calls {s s' : Rounds} {a : RoundAction} (h : roundStep s a = some s') :
    s'.calls = s.calls ∨ s'.backoff = s.backoff ∧
      ∃ c, s'.calls = s.calls ++ [c] ∧ c.round = roundOf c.problem.externalId s.backoff := by
  cases a with
  | call permanentFailureThreshold snapshotBackoffIntervalMs p =>
      obtain ⟨⟨db, c⟩, hcall, rfl⟩ := Option.map_eq_some_iff.mp h
      obtain ⟨-, hproblem, hround⟩ := autoCall_jobs hcall
      exact .inr ⟨rfl, c, rfl, by rw [hround, hproblem]⟩
  | job a =>
      obtain ⟨l, -, rfl⟩ := Option.map_eq_some_iff.mp h
      exact .inl rfl
  | setJobPayload id payload =>
      cases h
      exact .inl rfl
  | rewrite id result errorCode errorMessage =>
      cases h
      exact .inl rfl
  | purge ids =>
      cases h
      exact .inl rfl
  | insertUsage problemId =>
      cases h
      exact .inl rfl
  | edit externalId =>
      cases h
      exact .inl rfl

theorem roundInv_step {s s' : Rounds} {a : RoundAction} (hinv : RoundInv s)
    (h : roundStep s a = some s') : RoundInv s' := by
  have hadvance := advance_step hinv.ids h
  refine ⟨hadvance.ids, ?_⟩
  have hold : ∀ c ∈ s.calls, c.round ≤ roundOf c.problem.externalId s'.backoff := by
    intro c hc
    calc c.round ≤ roundOf c.problem.externalId s.backoff := hinv.reached c hc
      _ ≤ roundOf c.problem.externalId s'.backoff := hadvance.le _
  rcases roundStep_calls h with hcalls | ⟨hbackoff, c, hcalls, hround⟩
  · rw [hcalls]
    exact hold
  · intro d hd
    rw [hcalls] at hd
    rcases List.mem_append.mp hd with hd | hd
    · exact hold d hd
    · rw [List.mem_singleton.mp hd, hbackoff, hround]

theorem roundInv_run {s s' : Rounds} {as : List RoundAction} (hinv : RoundInv s)
    (h : exec roundStep s as = some s') : RoundInv s' :=
  exec_invariant (C := fun _ _ _ => True) (fun _ _ _ hinv _ hstep => roundInv_step hinv hstep) hinv
    (everyStep_of_forall_mem (Q := fun _ => True) fun _ _ => trivial) h

theorem roundOf_le_run {s s' : Rounds} {as : List RoundAction} (hinv : RoundInv s)
    (h : exec roundStep s as = some s') (q : String) :
    roundOf q s.backoff ≤ roundOf q s'.backoff := by
  have hreached : RoundInv s' ∧ roundOf q s.backoff ≤ roundOf q s'.backoff := by
    refine exec_invariant (I := fun t => RoundInv t ∧ roundOf q s.backoff ≤ roundOf q t.backoff)
      (C := fun _ _ _ => True) ?_ ⟨hinv, le_refl _⟩
      (everyStep_of_forall_mem (Q := fun _ => True) fun _ _ => trivial) h
    intro t a u hkept _ hstep
    refine ⟨roundInv_step hkept.1 hstep, ?_⟩
    exact Int.le_trans hkept.2 ((advance_step hkept.1.ids hstep).le q)
  exact hreached.2

theorem keys_disjoint {c d : AutoCall}
    (h : c.problem.externalId = d.problem.externalId → c.round ≠ d.round) :
    List.Disjoint c.keys d.keys := by
  have hsame : ∀ kind, autoKey kind c.problem.externalId c.problem.dirtyVersion c.round ≠
      autoKey kind d.problem.externalId d.problem.dirtyVersion d.round := by
    intro kind heq
    obtain ⟨hproblem, -, hround⟩ := autoKey_injective heq
    exact h hproblem hround
  intro key hc hd
  simp only [AutoCall.keys, autoScanRequest, autoSnapshotRequest, List.mem_cons,
    List.not_mem_nil, or_false] at hc hd
  rcases hc with rfl | rfl
  · rcases hd with hscan | hsnapshot
    · exact hsame _ hscan
    · exact autoKey_scan_ne_snapshot hsnapshot
  · rcases hd with hscan | hsnapshot
    · exact autoKey_scan_ne_snapshot hscan.symm
    · exact hsame _ hsnapshot

/-- Along every run the round of a problem advances by the snapshot jobs of it that a step
ends, and by nothing else; once one has ended, a call has no key of a call from before. -/
theorem identities_not_reused {s s₁ s₂ s₃ : Rounds} {before after : List RoundAction}
    {a : RoundAction} (hids : (s.jobs.map JobRow.id).Nodup) (hcalls : s.calls = [])
    (hbefore : exec roundStep s before = some s₁) (hstep : roundStep s₁ a = some s₂)
    (hafter : exec roundStep s₂ after = some s₃) (q : String) :
    roundOf q s₂.backoff = roundOf q s₁.backoff + (s₁.ended s₂ q).length ∧
      (s₁.ended s₂ q ≠ [] →
        ∀ permanentFailureThreshold snapshotBackoffIntervalMs p r, p.externalId = q →
          s₃.autoCall permanentFailureThreshold snapshotBackoffIntervalMs p = some r →
            ∀ c ∈ s₁.calls, List.Disjoint c.keys r.2.keys) := by
  have hinit : RoundInv s := ⟨hids, by simp [hcalls]⟩
  have hinv₁ := roundInv_run hinit hbefore
  have hadvance := advance_step hinv₁.ids hstep
  refine ⟨hadvance.round q, ?_⟩
  rintro hended permanentFailureThreshold snapshotBackoffIntervalMs p ⟨db, d⟩ rfl hcall c hc
  obtain ⟨-, rfl, hround⟩ := autoCall_jobs hcall
  apply keys_disjoint
  intro hproblem heq
  have hpositive : 0 < (s₁.ended s₂ d.problem.externalId).length := List.length_pos_iff.mpr hended
  have hlast := roundOf_le_run (roundInv_step hinv₁ hstep) hafter d.problem.externalId
  have hreached := hinv₁.reached c hc
  dsimp only at hproblem heq
  rw [hproblem] at hreached
  rw [hadvance.round] at hlast
  omega

def dirtyAplusb : ProblemRow := { sampleProblem "101" "aplusb" .present with dirty := true }

/-- No row of `problem_usage` yet. -/
def firstRound : Rounds := { leases := emptyLeases, backoff := [] }

def scheduledOnce : List RoundAction :=
  [.call 3 0 dirtyAplusb,
    .job (.create 1 (autoScanRequest dirtyAplusb 0)),
    .job (.create 2 (autoSnapshotRequest dirtyAplusb 1 0)),
    .setJobPayload 2 { dirtyVersion := some 1, autoPush := some true },
    .job (.cancel 1 none)]

def beforeEnd : Rounds := (exec roundStep firstRound scheduledOnce).get (by decide +kernel)

def atEnd : Rounds := (roundStep beforeEnd (.job (.cancel 2 none))).get (by decide +kernel)

/-- The snapshot job is written again, and every job is deleted. -/
def purgedAll : Rounds :=
  (exec roundStep atEnd [.rewrite 2 none none none, .purge [1, 2]]).get (by decide +kernel)

theorem identities_not_reused_purged :
    (beforeEnd.calls.length = 1 ∧ beforeEnd.ended atEnd "101" ≠ [] ∧ purgedAll.jobs = [] ∧
        roundOf "101" purgedAll.backoff = 1) ∧
      ∀ r, purgedAll.autoCall 3 0 dirtyAplusb = some r →
        ∀ c ∈ beforeEnd.calls, List.Disjoint c.keys r.2.keys := by
  have hended : beforeEnd.ended atEnd "101" ≠ [] := by decide +kernel
  refine ⟨⟨by decide +kernel, hended, by decide +kernel, by decide +kernel⟩, ?_⟩
  have hbefore : exec roundStep firstRound scheduledOnce = some beforeEnd :=
    (Option.some_get _).symm
  have hstep : roundStep beforeEnd (.job (.cancel 2 none)) = some atEnd :=
    (Option.some_get _).symm
  have hafter : exec roundStep atEnd [.rewrite 2 none none none, .purge [1, 2]] =
      some purgedAll := (Option.some_get _).symm
  intro r hcall
  exact (identities_not_reused (by decide +kernel) rfl hbefore hstep hafter "101").2 hended 3 0
    dirtyAplusb r rfl hcall

end ExternalStorage.Jobs
