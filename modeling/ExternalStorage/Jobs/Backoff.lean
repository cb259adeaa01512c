import ExternalStorage.Library.Runs
import ExternalStorage.Model.Backoff

/-!
# Which failures park a problem

A permanent failure counts for the problem whatever version its job was dispatched for.
The count speaks of the current version as long as no job of another version ends in a
permanent failure.
-/

namespace ExternalStorage.Jobs

open ExternalStorage.Model Library.Runs Library.Table

/-! ## The machine -/

structure Failure where
  problemId : String
  dirtyVersion : Int
  failedAt : Timestamp
  deriving DecidableEq, Repr

structure Board where
  now : Timestamp
  problems : List ProblemRow
  jobs : List JobRow
  backoff : List BackoffRow
  /-- Every permanent failure so far: history the program does not keep. -/
  failures : List Failure := []

inductive BoardAction where
  /-- A mutation that bumps `dirty_version`: an edit, or the watcher's. -/
  | edit (externalId : String)
  | create (job : JobRow)
  /-- `setJobPayload`. -/
  | attach (id : Uuid) (payload : JobPayload)
  /-- An `UPDATE` of the state of a job: claimed, completed, failed, cancelled, retried. -/
  | move (id : Uuid) (state : JobState) (result : Option JobPayload)
      (errorCode errorMessage : Option String)
  | wait (elapsed : Nat)

def Board.version (b : Board) (problemId : String) : Option Int :=
  (b.problems.find? fun p => p.externalId = problemId).map ProblemRow.dirtyVersion

def dispatchVersion (old : JobRow) : Option Int := old.result.bind JobPayload.dirtyVersion

def moved (state : JobState) (result : Option JobPayload)
    (errorCode errorMessage : Option String) (old : JobRow) : JobRow :=
  { old with
    state := state, result := result, errorCode := errorCode, errorMessage := errorMessage }

def failsFor (old new : JobRow) : Option String :=
  if new.jobType = .snapshot && new.state ≠ old.state && new.permanentFailure then new.problemId
  else none

/-- A job without a version in its payload counts for the version it ends under. -/
def Board.failure (b : Board) (old new : JobRow) : List Failure :=
  match failsFor old new with
  | none => []
  | some problemId =>
      [⟨problemId, (dispatchVersion old).getD ((b.version problemId).getD 0), b.now⟩]

def boardStep (b : Board) : BoardAction → Option Board
  | .edit externalId =>
      if b.problems.any fun p => p.externalId = externalId then
        some { b with
          problems := markProblemDirty b.now externalId b.problems
          backoff := resetSnapshotBackoffOnDirty externalId b.backoff }
      else
        none
  | .create job =>
      if b.jobs.any fun j => j.id = job.id then none else some { b with jobs := b.jobs ++ [job] }
  | .attach id payload => some { b with
      jobs := updateWhere (fun j => j.id = id && j.state = .pending)
        (fun j => { j with result := some payload }) b.jobs }
  | .move id state result errorCode errorMessage => do
      let old ← b.jobs.find? fun j => j.id = id
      let new := moved state result errorCode errorMessage old
      some { b with
        jobs := updateWhere (fun j => j.id = id) (moved state result errorCode errorMessage)
          b.jobs
        backoff := trackSnapshotJobOutcome b.now old new b.backoff
        failures := b.failures ++ b.failure old new }
  | .wait elapsed => some { b with now := b.now + elapsed }

/-! ## Statements -/

/-- What is counted for a problem; without a row, the defaults of the columns. -/
def outcomeOf (problemId : String) (rows : List BackoffRow) : Int × Option Timestamp :=
  ((rows.find? fun b => b.problemId = problemId).map fun b =>
    (b.snapshotFailureCount, b.lastSnapshotFailedAt)).getD (0, none)

def staleFailure (b : Board) : BoardAction → Option String
  | .move id state result errorCode errorMessage => do
      let old ← b.jobs.find? fun j => j.id = id
      let problemId ← failsFor old (moved state result errorCode errorMessage old)
      let version ← dispatchVersion old
      if some version ≠ b.version problemId then some problemId else none
  | _ => none

/-- A permanent failure of another version leaves the count and its time alone. -/
def StaleIgnored (b : Board) (a : BoardAction) (b' : Board) : Prop :=
  ∀ problemId, staleFailure b a = some problemId →
    outcomeOf problemId b'.backoff = outcomeOf problemId b.backoff

def Board.current (b : Board) (problemId : String) (f : Failure) : Bool :=
  f.problemId = problemId && some f.dirtyVersion = b.version problemId

def Board.parked (b : Board) (threshold interval : Int) (problemId : String) : Bool :=
  (b.backoff.find? fun r => r.problemId = problemId).any (BackoffRow.parked b.now threshold interval)

/-- A problem is parked by at least `threshold` failures of its current version, the last
of them at the time the interval counts from. -/
def ParkedByCurrent (threshold interval : Int) (b : Board) : Prop :=
  ∀ problemId, (b.version problemId).isSome = true →
    b.parked threshold interval problemId = true →
      threshold ≤ b.failures.countP (b.current problemId) ∧
        ∃ f ∈ b.failures, b.current problemId f = true ∧
          (outcomeOf problemId b.backoff).2 = some f.failedAt

/-- No permanent failure of another version, except where counting it changes nothing. -/
def NoStaleFailure (b : Board) (a : BoardAction) (_ : Board) : Prop :=
  ∀ problemId, staleFailure b a = some problemId →
    outcomeOf problemId b.backoff = (maxFailureCount, some b.now)

instance (b : Board) (a : BoardAction) (b' : Board) : Decidable (StaleIgnored b a b') :=
  inferInstanceAs (Decidable (∀ problemId ∈ staleFailure b a,
    outcomeOf problemId b'.backoff = outcomeOf problemId b.backoff))

instance (b : Board) (a : BoardAction) (b' : Board) : Decidable (NoStaleFailure b a b') :=
  inferInstanceAs (Decidable (∀ problemId ∈ staleFailure b a,
    outcomeOf problemId b.backoff = (maxFailureCount, some b.now)))

/-- Nothing has been counted when the columns are added. -/
def Uncounted (b : Board) : Prop :=
  ∀ r ∈ b.backoff, r.snapshotFailureCount = 0 ∧ r.lastSnapshotFailedAt = none

instance (b : Board) : Decidable (Uncounted b) :=
  inferInstanceAs (Decidable (∀ r ∈ b.backoff,
    r.snapshotFailureCount = 0 ∧ r.lastSnapshotFailedAt = none))

/-! ## What the triggers do to the outcome -/

theorem outcomeOf_upsertOn {new : BackoffRow} {merge : BackoffRow → BackoffRow}
    (hmerge : ∀ r, (merge r).problemId = r.problemId) (rows : List BackoffRow)
    (problemId : String) :
    outcomeOf problemId (upsertOn BackoffRow.problemId new merge rows) =
      if problemId = new.problemId then
        let r := ((rows.find? fun r => r.problemId = problemId).map merge).getD new
        (r.snapshotFailureCount, r.lastSnapshotFailedAt)
      else
        outcomeOf problemId rows := by
  unfold outcomeOf
  rw [find?_upsertOn hmerge]
  split
  · rfl
  · rfl

theorem outcomeOf_countOutcome (now : Timestamp) (problemId : String) (permanent : Bool)
    (rows : List BackoffRow) (q : String) :
    outcomeOf q (countOutcome now problemId permanent rows) =
      if q = problemId then
        if permanent then (min ((outcomeOf q rows).1 + 1) maxFailureCount, some now) else (0, none)
      else
        outcomeOf q rows := by
  unfold countOutcome
  rw [outcomeOf_upsertOn (by intro r; rfl)]
  dsimp only
  split
  · unfold outcomeOf
    cases rows.find? fun r => r.problemId = q with
    | none => cases permanent <;> rfl
    | some r => cases permanent <;> rfl
  · rfl

theorem outcomeOf_round (problemId : String) (rows : List BackoffRow) (q : String) :
    outcomeOf q (upsertOn BackoffRow.problemId ⟨problemId, 0, none, 1⟩
      (fun b => { b with snapshotScheduleRound := b.snapshotScheduleRound + 1 }) rows) =
      outcomeOf q rows := by
  rw [outcomeOf_upsertOn (by intro r; rfl)]
  split
  · unfold outcomeOf
    cases rows.find? fun r => r.problemId = q with
    | none => rfl
    | some r => rfl
  · rfl

def completesFor (old new : JobRow) : Option String :=
  if new.jobType = .snapshot && new.state ≠ old.state && new.state = .completed then new.problemId
  else none

theorem permanentFailure_failed {new : JobRow} (h : new.permanentFailure = true) :
    new.state = .failed := by
  simp only [JobRow.permanentFailure, Bool.and_eq_true, decide_eq_true_eq] at h
  exact h.1

theorem outcomeOf_track (now : Timestamp) (old new : JobRow) (rows : List BackoffRow) (q : String) :
    outcomeOf q (trackSnapshotJobOutcome now old new rows) =
      if failsFor old new = some q then
        (min ((outcomeOf q rows).1 + 1) maxFailureCount, some now)
      else if completesFor old new = some q then
        (0, none)
      else
        outcomeOf q rows := by
  unfold trackSnapshotJobOutcome failsFor completesFor
  cases hproblem : new.problemId with
  | none => simp
  | some problemId =>
      by_cases htype : new.jobType = .snapshot
      · by_cases hstate : new.state = old.state
        · simp [hstate]
        · simp only [htype, hstate, ne_eq, not_true_eq_false, decide_false, Bool.or_self,
            Bool.false_eq_true, if_false, decide_true, not_false_eq_true, Bool.and_self,
            Bool.true_and]
          have hrows : ∀ q, outcomeOf q (if new.state.terminal = true then
              upsertOn BackoffRow.problemId ⟨problemId, 0, none, 1⟩
                (fun b => { b with snapshotScheduleRound := b.snapshotScheduleRound + 1 }) rows
              else rows) = outcomeOf q rows := by
            intro q
            split
            · exact outcomeOf_round problemId rows q
            · rfl
          generalize (if new.state.terminal = true then
              upsertOn BackoffRow.problemId ⟨problemId, 0, none, 1⟩
                (fun b => { b with snapshotScheduleRound := b.snapshotScheduleRound + 1 }) rows
              else rows) = rows' at hrows ⊢
          cases hpermanent : new.permanentFailure with
          | true =>
              have hfailed := permanentFailure_failed hpermanent
              by_cases hq : q = problemId
              · simp [outcomeOf_countOutcome, hrows, hq]
              · simp [outcomeOf_countOutcome, hrows, hfailed, hq, Ne.symm hq]
          | false =>
              by_cases hcompleted : new.state = .completed
              · by_cases hq : q = problemId
                · simp [outcomeOf_countOutcome, hcompleted, hq]
                · simp [outcomeOf_countOutcome, hrows, hcompleted, hq, Ne.symm hq]
              · simp [hcompleted, hrows]
      · simp [htype]

theorem outcomeOf_reset (externalId : String) (rows : List BackoffRow) (q : String) :
    outcomeOf q (resetSnapshotBackoffOnDirty externalId rows) =
      if q = externalId then (0, none) else outcomeOf q rows := by
  unfold outcomeOf resetSnapshotBackoffOnDirty
  rw [find?_updateWhere (by intro r; rfl)]
  cases hfound : rows.find? fun r => r.problemId = q with
  | none => simp
  | some r =>
      have hid : r.problemId = q := by simpa using List.find?_some hfound
      simp only [Option.map_some, hid, Option.getD_some]
      split <;> rfl

theorem version_markProblemDirty (b : Board) (externalId q : String) (hq : q ≠ externalId) :
    Board.version { b with problems := markProblemDirty b.now externalId b.problems } q =
      b.version q := by
  unfold Board.version markProblemDirty
  rw [find?_updateWhere (by intro p; rfl)]
  cases hfound : b.problems.find? fun p => p.externalId = q with
  | none => rfl
  | some p =>
      have hid : p.externalId = q := by simpa using List.find?_some hfound
      simp only [Option.map_some, hid, hq, if_false]

/-! ## The invariant -/

structure BackoffInv (b : Board) : Prop where
  counted : ∀ q, (b.version q).isSome = true →
    (outcomeOf q b.backoff).1 ≤ b.failures.countP (b.current q)
  last : ∀ q t, (b.version q).isSome = true → (outcomeOf q b.backoff).2 = some t →
    ∃ f ∈ b.failures, b.current q f = true ∧ f.failedAt = t

theorem outcomeOf_uncounted {b : Board} (h : Uncounted b) (q : String) :
    outcomeOf q b.backoff = (0, none) := by
  unfold outcomeOf
  cases hfound : b.backoff.find? fun r => r.problemId = q with
  | none => rfl
  | some r =>
      obtain ⟨hcount, hlast⟩ := h r (List.mem_of_find?_eq_some hfound)
      rw [Option.map_some, Option.getD_some, hcount, hlast]

theorem backoffInv_init {b : Board} (h : Uncounted b) : BackoffInv b := by
  constructor
  · intro q _
    rw [outcomeOf_uncounted h]
    exact Int.natCast_nonneg _
  · intro q t _ ht
    rw [outcomeOf_uncounted h] at ht
    cases ht

theorem BackoffInv.parked {b : Board} (h : BackoffInv b) (threshold interval : Int) :
    ParkedByCurrent threshold interval b := by
  intro q hversion hparked
  obtain ⟨r, hfound, hr⟩ := (Option.any_eq_true _ _).mp hparked
  have houtcome : outcomeOf q b.backoff = (r.snapshotFailureCount, r.lastSnapshotFailedAt) := by
    rw [outcomeOf, hfound]
    rfl
  unfold BackoffRow.parked at hr
  rw [Bool.and_eq_true, decide_eq_true_eq] at hr
  obtain ⟨hcount, hwindow⟩ := hr
  have hcovered := h.counted q hversion
  rw [houtcome] at hcovered
  refine ⟨Int.le_trans hcount hcovered, ?_⟩
  cases hlast : r.lastSnapshotFailedAt with
  | none => simp [hlast] at hwindow
  | some t =>
      obtain ⟨f, hf, hcurrent, hat⟩ := h.last q t hversion (by rw [houtcome, hlast])
      refine ⟨f, hf, hcurrent, ?_⟩
      rw [houtcome, hlast, hat]

theorem BackoffInv.keep {b b' : Board} (h : BackoffInv b) (q : String)
    (hfailures : ∃ more, b'.failures = b.failures ++ more)
    (houtcome : outcomeOf q b'.backoff = (0, none) ∨
      b'.version q = b.version q ∧ outcomeOf q b'.backoff = outcomeOf q b.backoff)
    (hsome : (b'.version q).isSome = true) :
    (outcomeOf q b'.backoff).1 ≤ b'.failures.countP (b'.current q) ∧
      ∀ t, (outcomeOf q b'.backoff).2 = some t →
        ∃ f ∈ b'.failures, b'.current q f = true ∧ f.failedAt = t := by
  rcases houtcome with hzero | ⟨hversion, hsame⟩
  · rw [hzero]
    refine ⟨Int.natCast_nonneg _, ?_⟩
    intro t ht
    cases ht
  · have hcurrent : b'.current q = b.current q := by
      funext f
      unfold Board.current
      rw [hversion]
    obtain ⟨more, hmore⟩ := hfailures
    rw [hversion] at hsome
    rw [hcurrent, hmore, hsame]
    constructor
    · have hcount := h.counted q hsome
      rw [List.countP_append, Int.natCast_add]
      omega
    · intro t ht
      obtain ⟨f, hf, hcurrent, hat⟩ := h.last q t hsome ht
      exact ⟨f, List.mem_append_left _ hf, hcurrent, hat⟩

theorem backoffInv_edit {b : Board} (h : BackoffInv b) (externalId : String) :
    BackoffInv { b with
      problems := markProblemDirty b.now externalId b.problems
      backoff := resetSnapshotBackoffOnDirty externalId b.backoff } := by
  generalize hb' : { b with
    problems := markProblemDirty b.now externalId b.problems
    backoff := resetSnapshotBackoffOnDirty externalId b.backoff } = b'
  have hfailures : ∃ more, b'.failures = b.failures ++ more := by
    rw [← hb']
    exact ⟨[], (List.append_nil _).symm⟩
  have hrow : ∀ q, outcomeOf q b'.backoff = (0, none) ∨
      b'.version q = b.version q ∧ outcomeOf q b'.backoff = outcomeOf q b.backoff := by
    intro q
    rw [← hb', outcomeOf_reset]
    by_cases hq : q = externalId
    · exact .inl (if_pos hq)
    · exact .inr ⟨version_markProblemDirty b externalId q hq, if_neg hq⟩
  exact ⟨fun q hsome => (h.keep q hfailures (hrow q) hsome).1,
    fun q t hsome => (h.keep q hfailures (hrow q) hsome).2 t⟩

theorem staleFailure_move {b : Board} {id : Uuid} {state : JobState} {result : Option JobPayload}
    {errorCode errorMessage : Option String} {old : JobRow}
    (hold : (b.jobs.find? fun j => j.id = id) = some old) :
    staleFailure b (.move id state result errorCode errorMessage) =
      (failsFor old (moved state result errorCode errorMessage old)).bind fun problemId =>
        (dispatchVersion old).bind fun version =>
          if some version ≠ b.version problemId then some problemId else none := by
  simp only [staleFailure, hold, Option.bind_eq_bind, Option.bind_some]

theorem failure_current {b : Board} {old new : JobRow} {q : String}
    (hfails : failsFor old new = some q) (hversion : (b.version q).isSome = true)
    (hfresh : ∀ v, dispatchVersion old = some v → some v = b.version q) :
    ∃ f, b.failure old new = [f] ∧ b.current q f = true ∧ f.failedAt = b.now := by
  refine ⟨_, by rw [Board.failure, hfails], ?_, rfl⟩
  simp only [Board.current, decide_true, Bool.true_and, decide_eq_true_eq]
  cases hdispatch : dispatchVersion old with
  | none =>
      obtain ⟨v, hv⟩ := Option.isSome_iff_exists.mp hversion
      rw [hv]
      rfl
  | some v => exact hfresh v hdispatch

theorem backoffInv_move {b : Board} {old new : JobRow} (h : BackoffInv b) (jobs : List JobRow)
    (hstale : ∀ q v, failsFor old new = some q → dispatchVersion old = some v →
      some v ≠ b.version q → outcomeOf q b.backoff = (maxFailureCount, some b.now)) :
    BackoffInv { b with
      jobs := jobs, backoff := trackSnapshotJobOutcome b.now old new b.backoff
      failures := b.failures ++ b.failure old new } := by
  generalize hb' : { b with
    jobs := jobs, backoff := trackSnapshotJobOutcome b.now old new b.backoff
    failures := b.failures ++ b.failure old new } = b'
  have hversion : ∀ q, b'.version q = b.version q := by
    intro q
    rw [← hb']
    rfl
  have hfailures : b'.failures = b.failures ++ b.failure old new := by rw [← hb']
  have houtcome : ∀ q, outcomeOf q b'.backoff =
      if failsFor old new = some q then
        (min ((outcomeOf q b.backoff).1 + 1) maxFailureCount, some b.now)
      else if completesFor old new = some q then (0, none)
      else outcomeOf q b.backoff := by
    intro q
    rw [← hb']
    exact outcomeOf_track b.now old new b.backoff q
  have hall : ∀ q, (b'.version q).isSome = true →
      (outcomeOf q b'.backoff).1 ≤ b'.failures.countP (b'.current q) ∧
        ∀ t, (outcomeOf q b'.backoff).2 = some t →
          ∃ f ∈ b'.failures, b'.current q f = true ∧ f.failedAt = t := by
    intro q hsome
    have hrow := houtcome q
    by_cases hfails : failsFor old new = some q
    · rw [if_pos hfails] at hrow
      by_cases hfresh : ∀ v, dispatchVersion old = some v → some v = b.version q
      · -- The failure counts once in the row and once among those of the version.
        rw [hversion] at hsome
        have hcurrent : b'.current q = b.current q := by
          funext f
          unfold Board.current
          rw [hversion]
        obtain ⟨f, hf, hfcurrent, hat⟩ := failure_current hfails hsome hfresh
        rw [hrow, hcurrent, hfailures, hf]
        constructor
        · have hcount := h.counted q hsome
          rw [List.countP_append, List.countP_singleton, if_pos hfcurrent]
          have hmin := Int.min_le_left ((outcomeOf q b.backoff).1 + 1) maxFailureCount
          dsimp only
          omega
        · rintro t ⟨⟩
          exact ⟨f, by simp, hfcurrent, hat⟩
      · simp only [not_forall] at hfresh
        obtain ⟨v, hdispatch, hv⟩ := hfresh
        have hfull := hstale q v hfails hdispatch hv
        refine h.keep q ⟨_, hfailures⟩ (.inr ⟨hversion q, ?_⟩) hsome
        rw [hrow, hfull]
        rfl
    · rw [if_neg hfails] at hrow
      refine h.keep q ⟨_, hfailures⟩ ?_ hsome
      rw [hrow]
      split
      · exact .inl rfl
      · exact .inr ⟨hversion q, rfl⟩
  exact ⟨fun q hsome => (hall q hsome).1, fun q t hsome => (hall q hsome).2 t⟩

theorem backoffInv_step {b b' : Board} {a : BoardAction} (h : BackoffInv b)
    (hstale : NoStaleFailure b a b') (hstep : boardStep b a = some b') : BackoffInv b' := by
  cases a with
  | edit externalId =>
      simp only [boardStep] at hstep
      split at hstep
      · cases hstep
        exact backoffInv_edit h externalId
      · cases hstep
  | create job =>
      simp only [boardStep] at hstep
      split at hstep
      · cases hstep
      · cases hstep
        exact ⟨h.counted, h.last⟩
  | attach id payload =>
      cases hstep
      exact ⟨h.counted, h.last⟩
  | move id state result errorCode errorMessage =>
      obtain ⟨old, hold, hstep⟩ := Option.bind_eq_some_iff.mp hstep
      cases hstep
      apply backoffInv_move h
      intro q v hfails hdispatch hv
      apply hstale q
      rw [staleFailure_move hold, hfails, Option.bind_some, hdispatch, Option.bind_some, if_pos hv]
  | wait elapsed =>
      cases hstep
      exact ⟨h.counted, h.last⟩

/-! ## The result -/

/-- A failure of another version is ignored exactly where counting it changes nothing. -/
theorem staleIgnored_iff {b b' : Board} {a : BoardAction} (hstep : boardStep b a = some b') :
    StaleIgnored b a b' ↔ NoStaleFailure b a b' := by
  refine forall_congr' fun q => imp_congr_right fun hstale => ?_
  cases a with
  | move id state result errorCode errorMessage =>
      obtain ⟨old, hold, hstep⟩ := Option.bind_eq_some_iff.mp hstep
      cases hstep
      rw [staleFailure_move hold] at hstale
      obtain ⟨problemId, hfails, hstale⟩ := Option.bind_eq_some_iff.mp hstale
      obtain ⟨v, -, hstale⟩ := Option.bind_eq_some_iff.mp hstale
      split at hstale
      · cases hstale
        dsimp only
        rw [outcomeOf_track, if_pos hfails]
        constructor
        · intro hsame
          have hcount : min ((outcomeOf q b.backoff).1 + 1) maxFailureCount =
              (outcomeOf q b.backoff).1 := congrArg Prod.fst hsame
          have hlast : some b.now = (outcomeOf q b.backoff).2 := congrArg Prod.snd hsame
          refine Prod.ext ?_ hlast.symm
          show (outcomeOf q b.backoff).1 = maxFailureCount
          omega
        · intro hfull
          rw [hfull]
          rfl
      · cases hstale
  | edit _ | create _ | attach _ _ | wait _ => cases hstale

/-- Along a run from the migration on: permanent failures of other versions are ignored and
problems are parked by failures of their current version, exactly when no permanent
failure of another version changes what is counted. -/
theorem parked_by_current_failures {b : Board} {as : List BoardAction} (huncounted : Uncounted b) :
    EveryStep boardStep (fun b a b' => StaleIgnored b a b' ∧
        ∀ threshold interval, ParkedByCurrent threshold interval b') b as ↔
      EveryStep boardStep NoStaleFailure b as := by
  constructor
  · intro h
    exact h.mono fun s a t hstep hP => (staleIgnored_iff hstep).mp hP.1
  · intro h
    refine everyStep_of_invariant (I := BackoffInv) (C := NoStaleFailure) ?_ ?_
      (backoffInv_init huncounted) h
    · exact fun s a t hinv hstale hstep => backoffInv_step hinv hstale hstep
    · intro s a t hinv hstale hstep
      exact ⟨(staleIgnored_iff hstep).mpr hstale,
        (backoffInv_step hinv hstale hstep).parked⟩

def dirtyProblem (externalId : String) : ProblemRow where
  externalId := externalId
  code := externalId
  ownerOrganization := none
  isManuallyManaged := false
  mirrorOf := none
  mirrorRoot := none
  catalogState := .present
  observedAt := 0
  stale := true
  dirty := true
  dirtyGeneration := none
  dirtyVersion := 1
  quotaBytes := none
  schemaVersion := 1

def snapshotOf (id : Uuid) (problemId : String) (version : Int) : JobRow where
  id := id
  idempotencyKey := ""
  jobType := .snapshot
  problemId := some problemId
  targetGeneration := none
  state := .pending
  leaseOwner := none
  leaseExpiresAt := none
  fencingToken := 0
  attempt := 1
  maxAttempts := 3
  result := some { dirtyVersion := some version, autoPush := some true }
  errorCode := none
  errorMessage := none
  createdAt := 0
  completedAt := none
  requestedCancelAt := none
  requestedCancelReason := none
  requestFingerprint := ""

def editedBoard : Board :=
  { now := 0, problems := [dirtyProblem "101"], jobs := [], backoff := [⟨"101", 0, none, 0⟩] }

def editAfterFailure : List BoardAction :=
  [.create (snapshotOf 1 "101" 1),
    .move 1 .running (some { dirtyVersion := some 1, autoPush := some true }) none none,
    .move 1 .failed none (some "MANIFEST_INTEGRITY") none, .edit "101", .wait 5,
    .create (snapshotOf 2 "101" 2),
    .move 2 .failed none (some "job_failed") (some "Manifest Integrity Error: 2 files")]

theorem parked_by_current_failures_edited :
    (exec boardStep editedBoard editAfterFailure).isSome ∧
      EveryStep boardStep (fun b a b' => StaleIgnored b a b' ∧
        ∀ threshold interval, ParkedByCurrent threshold interval b') editedBoard editAfterFailure :=
  ⟨by decide +kernel, (parked_by_current_failures (by decide)).mpr (by decide +kernel)⟩

/-- The edit comes while the job of the first version runs. -/
def editBeforeFailure : List BoardAction :=
  [.create (snapshotOf 1 "101" 1),
    .move 1 .running (some { dirtyVersion := some 1, autoPush := some true }) none none,
    .edit "101",
    .move 1 .failed none (some "manifest_integrity") none]

theorem stale_failure_counted :
    Uncounted editedBoard ∧
      (exec boardStep editedBoard editBeforeFailure).map (fun b => outcomeOf "101" b.backoff) =
        some (1, some 0) ∧
      ¬ EveryStep boardStep StaleIgnored editedBoard editBeforeFailure :=
  ⟨by decide, by decide +kernel, by decide +kernel⟩

end ExternalStorage.Jobs
