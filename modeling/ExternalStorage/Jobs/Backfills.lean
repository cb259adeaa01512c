import ExternalStorage.Jobs.LostLeases
import ExternalStorage.Model.Backfill
import ExternalStorage.Model.Usage
import Mathlib.Data.String.Basic

/-!
# Backfills that lose their lease

A run of `JobWorker.backfill` asks for its lease before each problem of its page, inside the
`try` that counts errors, and not before it adds the page to `backfill_state` and creates the
job that goes on.  A run that has lost its lease comes to both whenever it had entered its
page.  The cursor goes forward, and no page is added twice, while no two runs of a capability
are between the cursor and the update at a time.
-/

namespace ExternalStorage.Jobs

open ExternalStorage.Model Library.Runs Library.Table

/-! ## The machine -/

structure HeldLease where
  job : Uuid
  owner : String
  token : Int
  deriving DecidableEq, Repr

/-- What `runJob` does next with a backfill job. -/
inductive BackfillPhase where
  /-- The first check. -/
  | acquired (c : BackfillConfig)
  /-- `SELECT … FROM backfill_state`. -/
  | entered (c : BackfillConfig)
  /-- `listProblems`. -/
  | listing (c : BackfillConfig) (cursor : Option ProblemCursor)
  /-- The check before the next problem, or the update when there is none. -/
  | turn (p : BackfillPage) (todo : List ProblemRow) (t : Totals)
  /-- The check has passed: the problem is scanned, or gets its job. -/
  | working (p : BackfillPage) (item : ProblemRow) (todo : List ProblemRow) (t : Totals)
  /-- The second assertion of `upsertProblemUsageForJob`. -/
  | upserted (p : BackfillPage) (bytes : Int) (todo : List ProblemRow) (t : Totals)
  /-- The page has been added: the job that goes on, if there are more problems. -/
  | continuing (p : BackfillPage)
  /-- The last check and `completeJobWithLease`. -/
  | finishing (p : BackfillPage)
  | ended

structure BackfillRun where
  lease : HeldLease
  /-- `leaseValid`. -/
  valid : Bool := true
  phase : BackfillPhase

structure AddedPage where
  page : BackfillPage
  totals : Totals
  deriving DecidableEq, Repr

structure BackfillWorld where
  leases : Leases
  states : List BackfillStateRow := []
  /-- The executions of `runJob` for backfill jobs, in the order they acquired them. -/
  runs : List BackfillRun := []
  /-- The pages in the order they were added: history the program does not keep. -/
  added : List AddedPage := []

/-- What a statement of a run gets from outside: the response of a scan, `none` when the scan
or the upsert throws, the key of a new row and the text of an error. -/
structure Outside where
  scan : Option (ScanResult × Timestamp) := none
  newId : Uuid := 0
  message : String := ""

inductive BackfillAction where
  /-- Any statement of `LeaseAction`; an acquisition by it is one whose executor stops at once. -/
  | lease (a : LeaseAction)
  | attach (id : Uuid) (payload : JobPayload)
  | catalog (problems : List ProblemRow)
  | start (capability : String)
  | pause (capability : String)
  | acquire (worker : String) (leaseSeconds : Int) (lane : JobLane) (paused : Bool)
      (locked : List Uuid)
  /-- The timer of `runJob`; `answered` is false when the statement throws. -/
  | renew (n : Nat) (leaseSeconds : Int) (answered : Bool)
  | work (n : Nat) (e : Outside)
  | crash (n : Nat)

namespace BackfillWorld

def db (w : BackfillWorld) : Database := w.leases.ledger.db

def now (w : BackfillWorld) : Timestamp := w.leases.ledger.now

def withDb (w : BackfillWorld) (db : Database) : BackfillWorld :=
  { w with leases := w.leases.after db [] [] }

def setRun (w : BackfillWorld) (n : Nat) (r : BackfillRun) : BackfillWorld :=
  { w with runs := w.runs.set n r }

def goto (w : BackfillWorld) (n : Nat) (r : BackfillRun) (phase : BackfillPhase) : BackfillWorld :=
  w.setRun n { r with phase := phase }

def accepts (w : BackfillWorld) (l : HeldLease) (s : LeaseStatement) : Bool :=
  s.accepts w.now l.job (some l.owner) l.token w.db

/-- `assertJobLease` finds the job. -/
def holds (w : BackfillWorld) (l : HeldLease) : Bool := w.accepts l .assertJobLease

/-- `guard()`. -/
def passes (w : BackfillWorld) (r : BackfillRun) : Bool := r.valid && w.holds r.lease

def perform (w : BackfillWorld) (l : HeldLease) (s : LeaseStatement) : BackfillWorld :=
  w.withDb (s.run w.now l.job (some l.owner) l.token w.db)

/-- The `UPDATE` at the end of a page, which finds no row before the first start. -/
def addPage (w : BackfillWorld) (p : BackfillPage) (t : Totals) : BackfillWorld :=
  { w with
    states := Model.addPage p t w.states
    added :=
      if w.states.any fun s => s.capability = p.config.capability then
        w.added ++ [⟨p, { t with processed := p.page.items.length }⟩]
      else
        w.added }

end BackfillWorld

section Machine

variable {κ : Type*} [LinearOrder κ] (collate : String → κ) (encode : ProblemCursor → String)

def workItem (w : BackfillWorld) (n : Nat) (r : BackfillRun) (e : Outside) (p : BackfillPage)
    (item : ProblemRow) (todo : List ProblemRow) (t : Totals) : Option BackfillWorld :=
  if p.config.capability = "accounting" then
    match e.scan with
    | none => some (w.goto n r (.turn p todo t.failed))
    | some (scan, observedAt) =>
        if w.holds r.lease then
          some ((w.withDb { w.db with
            problemUsage := upsertProblemUsage w.now item.externalId
              (scan.accountingUpdate observedAt) w.db.problemUsage }).goto n r
                (.upserted p scan.logicalBytes todo t))
        else
          some (w.goto n r (.turn p todo t.failed))
  else if p.config.capability = "r2_snapshot" then
    if w.db.jobs.any fun j => j.id = e.newId then
      none
    else
      let (counters, generation) :=
        allocateGeneration item.externalId w.db.problemGenerationCounters
      let db := { w.db with problemGenerationCounters := counters }
      match createWithPayload w.now e.newId
          (childRequest r.lease.job p.config.capability item.externalId generation)
          { parentJobId := some r.lease.job, capability := some p.config.capability } db with
      | .error _ => some ((w.withDb db).goto n r (.turn p todo t.failed))
      | .ok db => some ((w.withDb db).goto n r (.turn p todo (t.succeeded 0)))
  else
    some (w.goto n r (.turn p todo t.passed))

/-- The job that goes on with the next page; when it cannot be created, this one fails. -/
def continueBackfill (w : BackfillWorld) (n : Nat) (r : BackfillRun) (e : Outside)
    (p : BackfillPage) : Option BackfillWorld :=
  if p.page.hasMore then
    if w.db.jobs.any fun j => j.id = e.newId then
      none
    else
      match createWithPayload w.now e.newId (continuationRequest encode r.lease.job p)
          { capability := some p.config.capability, limit := some p.config.limit } w.db with
      | .error _ => some ((w.perform r.lease (.completeJobWithLease .failed none
          (some "job_failed") (some e.message))).goto n r .ended)
      | .ok db => some ((w.withDb db).goto n r (.finishing p))
  else
    some (w.goto n r (.finishing p))

def workStep (w : BackfillWorld) (n : Nat) (r : BackfillRun) (e : Outside) :
    Option BackfillWorld :=
  match r.phase with
  | .acquired c => some (w.goto n r (if w.passes r then .entered c else .ended))
  | .entered c => some (w.goto n r (.listing c (backfillCursor c.capability w.states)))
  | .listing c cursor =>
      let page := backfillPage collate c.limit w.db.problems cursor
      some (w.goto n r (.turn ⟨c, cursor, page⟩ page.items {}))
  | .turn p [] t => some ((w.addPage p t).goto n r (.continuing p))
  | .turn p (item :: todo) t =>
      some (w.goto n r (if w.passes r then .working p item todo t else .turn p todo t.failed))
  | .working p item todo t => workItem w n r e p item todo t
  | .upserted p bytes todo t =>
      some (w.goto n r (.turn p todo
        (if w.holds r.lease then t.succeeded bytes else t.failed)))
  | .continuing p => continueBackfill encode w n r e p
  | .finishing p =>
      some ((if r.valid then w.perform r.lease (.completeJobWithLease .completed
        (some { capability := some p.config.capability }) none none) else w).goto n r .ended)
  | .ended => none

def backfillStep (w : BackfillWorld) : BackfillAction → Option BackfillWorld
  | .lease a => (leaseStep w.leases a).map fun l => { w with leases := l }
  | .attach id payload => some (w.withDb (setJobPayload id payload w.db))
  | .catalog problems => some (w.withDb { w.db with problems := problems })
  | .start capability =>
      (startBackfill capability w.states).map fun states => { w with states := states }
  | .pause capability => some { w with states := pauseBackfill capability w.states }
  | .acquire worker leaseSeconds lane paused locked =>
      match acquireJob w.now worker leaseSeconds lane paused locked w.db with
      | none => none
      | some (db, c, token) =>
          if c.jobType = .backfill then
            (backfillConfig c.result).map fun config => { w with
              leases := w.leases.after db [(c.counterKey, token)] [⟨c.id, some worker, token⟩]
              runs := w.runs ++ [{ lease := ⟨c.id, worker, token⟩, phase := .acquired config }] }
          else
            none
  | .renew n leaseSeconds answered => do
      let r ← w.runs[n]?
      if answered then
        some ((w.perform r.lease (.renewJobLease leaseSeconds)).setRun n
          { r with valid := r.valid && w.accepts r.lease (.renewJobLease leaseSeconds) })
      else
        some (w.setRun n { r with valid := false })
  | .work n e => w.runs[n]?.bind fun r => workStep collate encode w n r e
  | .crash n => w.runs[n]?.map fun r => w.goto n r .ended

/-! ## Statements -/

/-- The next statement of the run updates `backfill_state` or creates a job. -/
def BackfillPhase.writes : BackfillPhase → Bool
  | .turn _ [] _ => true
  | .working p _ _ _ => p.config.capability = "r2_snapshot"
  | .continuing p => p.page.hasMore
  | _ => false

/-- The run has such a statement before it, whatever its checks say. -/
def BackfillPhase.owes : BackfillPhase → Bool
  | .entered _ | .listing .. | .turn .. | .working .. | .upserted .. => true
  | .continuing p => p.page.hasMore
  | .acquired _ | .finishing _ | .ended => false

/-- From here on the run changes nothing. -/
def Silenced (w : BackfillWorld) (n : Nat) : Prop :=
  ∀ as w', exec (backfillStep collate encode) w as = some w' →
    ∀ r, w'.runs[n]? = some r → r.phase.writes = false

def backfillTotals (capability : String) (rows : List BackfillStateRow) : Totals :=
  ((rows.find? fun r => r.capability = capability).map BackfillStateRow.totals).getD {}

def BackfillWorld.pagesOf (w : BackfillWorld) (capability : String) : List AddedPage :=
  w.added.filter fun a => a.page.config.capability = capability

/-- The pages of a capability are added once. -/
structure AddedOnce (w : BackfillWorld) (capability : String) : Prop where
  /-- Of two pages of one pass through the catalog the later one begins further on. -/
  once : ∀ front e mid f back, w.pagesOf capability = front ++ e :: (mid ++ f :: back) →
    (∀ g ∈ e :: mid, g.page.page.hasMore = true) →
      cursorBehind collate e.page.start f.page.start
  cursor : backfillCursor capability w.states =
    (w.pagesOf capability).getLast?.bind fun a => a.page.page.nextCursor
  totals : backfillTotals capability w.states =
    (w.pagesOf capability).foldl (fun t a => t.add a.totals) {}

/-- The cursor moves on, or back to the first page when the last one has been added. -/
def CursorForward (w : BackfillWorld) (_ : BackfillAction) (w' : BackfillWorld) : Prop :=
  ∀ capability, backfillCursor capability w'.states = backfillCursor capability w.states ∨
    cursorBehind collate (backfillCursor capability w.states)
      (backfillCursor capability w'.states) ∨
    ∃ s ∈ w'.states, s.capability = capability ∧ s.status = .completed ∧ s.cursorValue = none

def BackfillPhase.reading : BackfillPhase → Option (String × Option ProblemCursor)
  | .listing c cursor => some (c.capability, cursor)
  | .turn p _ _ | .working p _ _ _ | .upserted p _ _ _ => some (p.config.capability, p.start)
  | _ => none

def BackfillWorld.reading (w : BackfillWorld) (n : Nat) : Option (String × Option ProblemCursor) :=
  w.runs[n]?.bind fun r => r.phase.reading

/-- A run reads the cursor of a capability while no other run of it is at a page. -/
def ReadsAlone (w : BackfillWorld) (a : BackfillAction) (_ : BackfillWorld) : Prop :=
  ∀ n e c, a = .work n e → w.runs[n]?.map BackfillRun.phase = some (.entered c) →
    ∀ m start, w.reading m = some (c.capability, start) → m = n

theorem reading_lt {w : BackfillWorld} {m : Nat} {s : String × Option ProblemCursor}
    (h : w.reading m = some s) : m < w.runs.length := by
  obtain ⟨r, hr, -⟩ := Option.bind_eq_some_iff.mp h
  exact (List.getElem?_eq_some_iff.mp hr).1

instance (w : BackfillWorld) (a : BackfillAction) (w' : BackfillWorld) :
    Decidable (ReadsAlone w a w') :=
  match a with
  | .work n e =>
      match hphase : w.runs[n]?.map BackfillRun.phase with
      | some (.entered c) =>
          decidable_of_iff (∀ m < w.runs.length, ∀ s ∈ w.reading m, s.1 = c.capability → m = n)
            ⟨fun h n' e' c' ha hc m start hread => by
                cases ha
                cases hphase.symm.trans hc
                exact h m (reading_lt hread) _ hread rfl,
              fun h m _ s hs hcapability =>
                h n e c rfl hphase m s.2 (by rw [← hcapability]; exact hs)⟩
      | none | some (.acquired _) | some (.listing ..) | some (.turn ..) | some (.working ..)
      | some (.upserted ..) | some (.continuing _) | some (.finishing _) | some .ended =>
          isTrue fun n' e' c' ha hc => by
            cases ha
            cases hphase.symm.trans hc
  | .lease _ | .attach .. | .catalog _ | .start _ | .pause _ | .acquire .. | .renew .. | .crash _ =>
      isTrue fun _ _ _ ha => by cases ha

/-- Before the first backfill. -/
structure NoBackfillYet (w : BackfillWorld) : Prop where
  installed : Installed w.leases
  states : w.states = []
  runs : w.runs = []
  added : w.added = []

/-! ## What a statement does to a run -/

/-- From one phase to the next; what the checks and the calls of a phase say decides only
which of its ways a run takes. -/
inductive PhaseMove (w : BackfillWorld) : BackfillPhase → BackfillPhase → Prop where
  | enter {c : BackfillConfig} : PhaseMove w (.acquired c) (.entered c)
  | turnedAway {c : BackfillConfig} : PhaseMove w (.acquired c) .ended
  | read {c : BackfillConfig} :
      PhaseMove w (.entered c) (.listing c (backfillCursor c.capability w.states))
  | list {c : BackfillConfig} {cursor : Option ProblemCursor} :
      PhaseMove w (.listing c cursor)
        (.turn ⟨c, cursor, backfillPage collate c.limit w.db.problems cursor⟩
          (backfillPage collate c.limit w.db.problems cursor).items {})
  | add {p : BackfillPage} {t : Totals} : PhaseMove w (.turn p [] t) (.continuing p)
  | take {p : BackfillPage} {item : ProblemRow} {todo : List ProblemRow} {t : Totals} :
      PhaseMove w (.turn p (item :: todo) t) (.working p item todo t)
  | skip {p : BackfillPage} {item : ProblemRow} {todo : List ProblemRow} {t : Totals} :
      PhaseMove w (.turn p (item :: todo) t) (.turn p todo t.failed)
  | done {p : BackfillPage} {item : ProblemRow} {todo : List ProblemRow} {t t' : Totals} :
      PhaseMove w (.working p item todo t) (.turn p todo t')
  | upsert {p : BackfillPage} {item : ProblemRow} {todo : List ProblemRow} {t : Totals}
      {bytes : Int} : PhaseMove w (.working p item todo t) (.upserted p bytes todo t)
  | counted {p : BackfillPage} {bytes : Int} {todo : List ProblemRow} {t t' : Totals} :
      PhaseMove w (.upserted p bytes todo t) (.turn p todo t')
  | goOn {p : BackfillPage} : PhaseMove w (.continuing p) (.finishing p)
  | giveUp {p : BackfillPage} : PhaseMove w (.continuing p) .ended
  | finish {p : BackfillPage} : PhaseMove w (.finishing p) .ended

inductive RunMove (w : BackfillWorld) (a : BackfillAction) (n : Nat) :
    Option BackfillRun → Option BackfillRun → Prop where
  | kept {r : Option BackfillRun} : RunMove w a n r r
  | born {worker : String} {leaseSeconds : Int} {lane : JobLane} {paused : Bool}
      {locked : List Uuid} {lease : HeldLease} {config : BackfillConfig} :
      a = .acquire worker leaseSeconds lane paused locked →
        RunMove w a n none (some { lease := lease, phase := .acquired config })
  | checked {r : BackfillRun} {valid : Bool} :
      RunMove w a n (some r) (some { r with valid := valid })
  | stopped {r : BackfillRun} : RunMove w a n (some r) (some { r with phase := .ended })
  | worked {r : BackfillRun} {phase : BackfillPhase} {e : Outside} : a = .work n e →
      PhaseMove collate w r.phase phase → RunMove w a n (some r) (some { r with phase := phase })

variable {collate encode}

/-- A statement of run `n` moves that run and no other. -/
def MovesTo (w : BackfillWorld) (n : Nat) (r : BackfillRun) (w' : BackfillWorld)
    (phase : BackfillPhase) : Prop :=
  w'.runs = w.runs.set n { r with phase := phase }

variable (collate) in
theorem workItem_spec {w w' : BackfillWorld} {n : Nat} {r : BackfillRun} {e : Outside}
    {p : BackfillPage} {item : ProblemRow} {todo : List ProblemRow} {t : Totals}
    (h : workItem w n r e p item todo t = some w') :
    ∃ phase, MovesTo w n r w' phase ∧ PhaseMove collate w (.working p item todo t) phase ∧
      w'.states = w.states ∧ w'.added = w.added := by
  unfold workItem at h
  split at h
  · split at h
    · cases h
      exact ⟨_, rfl, .done, rfl, rfl⟩
    · split at h
      · cases h
        exact ⟨_, rfl, .upsert, rfl, rfl⟩
      · cases h
        exact ⟨_, rfl, .done, rfl, rfl⟩
  · split at h
    · split at h
      · cases h
      · dsimp only at h
        split at h
        · cases h
          exact ⟨_, rfl, .done, rfl, rfl⟩
        · cases h
          exact ⟨_, rfl, .done, rfl, rfl⟩
    · cases h
      exact ⟨_, rfl, .done, rfl, rfl⟩

variable (collate) in
theorem continueBackfill_spec {w w' : BackfillWorld} {n : Nat} {r : BackfillRun} {e : Outside}
    {p : BackfillPage} (h : continueBackfill encode w n r e p = some w') :
    ∃ phase, MovesTo w n r w' phase ∧ PhaseMove collate w (.continuing p) phase ∧
      w'.states = w.states ∧ w'.added = w.added := by
  unfold continueBackfill at h
  split at h
  · split at h
    · cases h
    · split at h
      · cases h
        exact ⟨_, rfl, .giveUp, rfl, rfl⟩
      · cases h
        exact ⟨_, rfl, .goOn, rfl, rfl⟩
  · cases h
    exact ⟨_, rfl, .goOn, rfl, rfl⟩

/-- A run moves on; it changes `backfill_state` at the end of its page only. -/
theorem workStep_spec {w w' : BackfillWorld} {n : Nat} {r : BackfillRun} {e : Outside}
    (h : workStep collate encode w n r e = some w') :
    ∃ phase, MovesTo w n r w' phase ∧ PhaseMove collate w r.phase phase ∧
      ((w'.states = w.states ∧ w'.added = w.added) ∨
        ∃ p t, r.phase = .turn p [] t ∧ w'.states = addPage p t w.states ∧
          w'.added = (w.addPage p t).added) := by
  unfold workStep at h
  split at h
  · rename_i c hphase
    cases h
    refine ⟨_, rfl, ?_, .inl ⟨rfl, rfl⟩⟩
    rw [hphase]
    split
    · exact .enter
    · exact .turnedAway
  · rename_i c hphase
    cases h
    exact ⟨_, rfl, hphase ▸ .read, .inl ⟨rfl, rfl⟩⟩
  · rename_i c cursor hphase
    cases h
    exact ⟨_, rfl, hphase ▸ .list, .inl ⟨rfl, rfl⟩⟩
  · rename_i p t hphase
    cases h
    exact ⟨_, rfl, hphase ▸ .add, .inr ⟨p, t, hphase, rfl, rfl⟩⟩
  · rename_i p item todo t hphase
    cases h
    refine ⟨_, rfl, ?_, .inl ⟨rfl, rfl⟩⟩
    rw [hphase]
    split
    · exact .take
    · exact .skip
  · rename_i p item todo t hphase
    obtain ⟨phase, hmoves, hmove, hsame⟩ := workItem_spec collate h
    exact ⟨phase, hmoves, hphase ▸ hmove, .inl hsame⟩
  · rename_i p bytes todo t hphase
    cases h
    exact ⟨_, rfl, hphase ▸ .counted, .inl ⟨rfl, rfl⟩⟩
  · rename_i p hphase
    obtain ⟨phase, hmoves, hmove, hsame⟩ := continueBackfill_spec collate h
    exact ⟨phase, hmoves, hphase ▸ hmove, .inl hsame⟩
  · rename_i p hphase
    cases h
    refine ⟨.ended, ?_, hphase ▸ .finish, .inl ?_⟩
    · split <;> rfl
    · split <;> exact ⟨rfl, rfl⟩
  · cases h

theorem runMove_set {w : BackfillWorld} {a : BackfillAction} {m n : Nat}
    {runs : List BackfillRun} {r r' : BackfillRun} (hr : w.runs[m]? = some r)
    (hruns : runs = w.runs.set m r') (h : RunMove collate w a m (some r) (some r')) :
    RunMove collate w a n w.runs[n]? runs[n]? := by
  subst hruns
  by_cases hn : m = n
  · subst hn
    rw [List.getElem?_set_self', hr]
    exact h
  · rw [List.getElem?_set_ne hn]
    exact .kept

theorem goto_run {w : BackfillWorld} {n : Nat} {r : BackfillRun} (hr : w.runs[n]? = some r)
    (phase : BackfillPhase) : (w.goto n r phase).runs[n]? = some { r with phase := phase } := by
  rw [BackfillWorld.goto, BackfillWorld.setRun, List.getElem?_set_self', hr]
  rfl

theorem backfillStep_runs {w w' : BackfillWorld} {a : BackfillAction}
    (h : backfillStep collate encode w a = some w') (n : Nat) :
    RunMove collate w a n w.runs[n]? w'.runs[n]? := by
  cases a with
  | lease a =>
      obtain ⟨l, -, rfl⟩ := Option.map_eq_some_iff.mp h
      exact .kept
  | attach id payload =>
      cases h
      exact .kept
  | catalog problems =>
      cases h
      exact .kept
  | start capability =>
      obtain ⟨states, -, rfl⟩ := Option.map_eq_some_iff.mp h
      exact .kept
  | pause capability =>
      cases h
      exact .kept
  | acquire worker leaseSeconds lane paused locked =>
      simp only [backfillStep] at h
      split at h
      · cases h
      · split at h
        · obtain ⟨config, -, rfl⟩ := Option.map_eq_some_iff.mp h
          rw [List.getElem?_append]
          split
          · exact .kept
          · rename_i hlength
            rw [List.getElem?_eq_none (Nat.le_of_not_lt hlength)]
            cases n - w.runs.length with
            | zero => exact .born rfl
            | succ k => exact .kept
        · cases h
  | renew m leaseSeconds answered =>
      obtain ⟨r, hr, h⟩ := Option.bind_eq_some_iff.mp h
      split at h
      · cases h
        exact runMove_set hr rfl .checked
      · cases h
        exact runMove_set hr rfl .checked
  | work m e =>
      obtain ⟨r, hr, h⟩ := Option.bind_eq_some_iff.mp h
      obtain ⟨phase, hmoves, hmove, -⟩ := workStep_spec h
      exact runMove_set hr hmoves (.worked rfl hmove)
  | crash m =>
      obtain ⟨r, hr, rfl⟩ := Option.map_eq_some_iff.mp h
      exact runMove_set hr rfl .stopped

/-! ## Leases -/

theorem after_after (l : Leases) (db db' : Database) :
    (l.after db [] []).after db' [] [] = l.after db' [] [] := by
  simp only [Leases.after, Ledger.after, List.append_nil]

theorem leasesFade_createWithPayload {l : Leases} {id : Uuid} {request : JobRequest}
    {payload : JobPayload} {db db' : Database} (hinv : LeaseInv l)
    (hjobs : db.jobs = l.ledger.db.jobs)
    (hcounters : db.jobFencingCounters = l.ledger.db.jobFencingCounters)
    (hfresh : ∀ j ∈ l.ledger.db.jobs, j.id ≠ id)
    (h : createWithPayload l.ledger.now id request payload db = .ok db') :
    LeasesFade l (l.after db' [] []) := by
  have hother := leasesFade_other hinv hjobs hcounters
  unfold createWithPayload at h
  cases hcreate : createJob l.ledger.now id request db with
  | error e =>
      rw [hcreate] at h
      cases h
  | ok created =>
      rw [hcreate] at h
      cases h
      have hcreated : LeasesFade (l.after db [] []) ((l.after db [] []).after created.1 [] []) :=
        leasesFade_create hother.inv (hjobs ▸ hfresh) hcreate
      have hpaid := leasesFade_setJobPayload hcreated.inv created.2.id payload
      rw [after_after] at hcreated hpaid
      have hall := (hother.trans hcreated).trans hpaid
      rwa [after_after] at hall

theorem workItem_leases {w w' : BackfillWorld} {n : Nat} {r : BackfillRun} {e : Outside}
    {p : BackfillPage} {item : ProblemRow} {todo : List ProblemRow} {t : Totals}
    (hinv : LeaseInv w.leases) (h : workItem w n r e p item todo t = some w') :
    LeasesFade w.leases w'.leases := by
  unfold workItem at h
  split at h
  · split at h
    · cases h
      exact leasesFade_refl hinv
    · split at h
      · cases h
        exact leasesFade_other hinv rfl rfl
      · cases h
        exact leasesFade_refl hinv
  · split at h
    · split at h
      · cases h
      · rename_i hfresh
        have hnew : ∀ j ∈ w.leases.ledger.db.jobs, j.id ≠ e.newId := by
          simpa [BackfillWorld.db] using hfresh
        dsimp only at h
        split at h
        · cases h
          exact leasesFade_other hinv rfl rfl
        · rename_i hcreate
          cases h
          refine leasesFade_createWithPayload hinv ?_ ?_ hnew hcreate
          · rfl
          · rfl
    · cases h
      exact leasesFade_refl hinv

theorem continueBackfill_leases {w w' : BackfillWorld} {n : Nat} {r : BackfillRun} {e : Outside}
    {p : BackfillPage} (hinv : LeaseInv w.leases)
    (h : continueBackfill encode w n r e p = some w') : LeasesFade w.leases w'.leases := by
  unfold continueBackfill at h
  split at h
  · split at h
    · cases h
    · rename_i hfresh
      have hnew : ∀ j ∈ w.leases.ledger.db.jobs, j.id ≠ e.newId := by
        simpa [BackfillWorld.db] using hfresh
      split at h
      · cases h
        exact leasesFade_perform hinv _ _ _ _
      · rename_i hcreate
        cases h
        exact leasesFade_createWithPayload hinv rfl rfl hnew hcreate
  · cases h
    exact leasesFade_refl hinv

theorem workStep_leases {w w' : BackfillWorld} {n : Nat} {r : BackfillRun} {e : Outside}
    (hinv : LeaseInv w.leases) (h : workStep collate encode w n r e = some w') :
    LeasesFade w.leases w'.leases := by
  unfold workStep at h
  split at h
  · cases h
    exact leasesFade_refl hinv
  · cases h
    exact leasesFade_refl hinv
  · cases h
    exact leasesFade_refl hinv
  · cases h
    exact leasesFade_refl hinv
  · cases h
    exact leasesFade_refl hinv
  · exact workItem_leases hinv h
  · cases h
    exact leasesFade_refl hinv
  · exact continueBackfill_leases hinv h
  · cases h
    split
    · exact leasesFade_perform hinv _ _ _ _
    · exact leasesFade_refl hinv
  · cases h

structure BackfillInv (w : BackfillWorld) : Prop where
  leases : LeaseInv w.leases
  issued : ∀ (n : Nat) (r : BackfillRun), w.runs[n]? = some r →
    ∃ j ∈ w.db.jobs, j.id = r.lease.job ∧ r.lease.token ≤ j.fencingToken

theorem backfillStep_leases {w w' : BackfillWorld} {a : BackfillAction} (hinv : LeaseInv w.leases)
    (h : backfillStep collate encode w a = some w') : LeasesFade w.leases w'.leases := by
  cases a with
  | lease a =>
      obtain ⟨l, hlease, rfl⟩ := Option.map_eq_some_iff.mp h
      exact leasesFade_step hinv hlease
  | attach id payload =>
      cases h
      exact leasesFade_setJobPayload hinv id payload
  | catalog problems =>
      cases h
      exact leasesFade_other hinv rfl rfl
  | start capability =>
      obtain ⟨states, -, rfl⟩ := Option.map_eq_some_iff.mp h
      exact leasesFade_refl hinv
  | pause capability =>
      cases h
      exact leasesFade_refl hinv
  | acquire worker leaseSeconds lane paused locked =>
      simp only [backfillStep] at h
      split at h
      · cases h
      · rename_i hacquire
        split at h
        · obtain ⟨config, -, rfl⟩ := Option.map_eq_some_iff.mp h
          exact leasesFade_acquire hinv hacquire
        · cases h
  | renew m leaseSeconds answered =>
      obtain ⟨r, -, h⟩ := Option.bind_eq_some_iff.mp h
      split at h
      · cases h
        exact leasesFade_perform hinv _ _ _ _
      · cases h
        exact leasesFade_refl hinv
  | work m e =>
      obtain ⟨r, -, h⟩ := Option.bind_eq_some_iff.mp h
      exact workStep_leases hinv h
  | crash m =>
      obtain ⟨r, -, rfl⟩ := Option.map_eq_some_iff.mp h
      exact leasesFade_refl hinv

theorem RunMove.lease {w : BackfillWorld} {a : BackfillAction} {n : Nat}
    {r r' : Option BackfillRun} (h : RunMove collate w a n r r') {s' : BackfillRun}
    (hs : r' = some s') : (∃ s, r = some s ∧ s.lease = s'.lease) ∨
      ∃ worker leaseSeconds lane paused locked,
        a = .acquire worker leaseSeconds lane paused locked := by
  cases h with
  | kept => exact .inl ⟨s', hs, rfl⟩
  | born ha => exact .inr ⟨_, _, _, _, _, ha⟩
  | checked =>
      cases hs
      exact .inl ⟨_, rfl, rfl⟩
  | stopped =>
      cases hs
      exact .inl ⟨_, rfl, rfl⟩
  | worked =>
      cases hs
      exact .inl ⟨_, rfl, rfl⟩

theorem backfillInv_step {w w' : BackfillWorld} {a : BackfillAction} (hinv : BackfillInv w)
    (h : backfillStep collate encode w a = some w') : BackfillInv w' := by
  have hfade := backfillStep_leases hinv.leases h
  refine ⟨hfade.inv, ?_⟩
  intro n r' hr'
  have hkept : ∀ r, w.runs[n]? = some r → ∃ j ∈ w'.db.jobs, j.id = r.lease.job ∧
      r.lease.token ≤ j.fencingToken := by
    intro r hr
    obtain ⟨j, hj, hid, hle⟩ := hinv.issued n r hr
    obtain ⟨j', hj', hid', hle'⟩ := hfade.kept j hj
    exact ⟨j', hj', hid'.trans hid, Int.le_trans hle hle'⟩
  rcases (backfillStep_runs h n).lease hr' with ⟨r, hr, hlease⟩ | ⟨_, _, _, _, _, rfl⟩
  · rw [← hlease]
    exact hkept r hr
  · simp only [backfillStep] at h
    split at h
    · cases h
    · rename_i hacquire
      split at h
      · obtain ⟨config, -, rfl⟩ := Option.map_eq_some_iff.mp h
        rcases List.mem_append.mp (List.mem_of_getElem? hr') with hold | hnew
        · obtain ⟨m, hm⟩ := List.mem_iff_getElem?.mp hold
          obtain ⟨j, hj, hid, hle⟩ := hinv.issued m r' hm
          obtain ⟨j', hj', hid', hle'⟩ := hfade.kept j hj
          exact ⟨j', hj', hid'.trans hid, Int.le_trans hle hle'⟩
        · rw [List.mem_singleton.mp hnew]
          exact ((leaseMove_acquire hinv.leases hacquire).stamped _ List.mem_cons_self).1
      · cases h

/-! ## After the loss of a lease -/

theorem BackfillInv.lost {w : BackfillWorld} (hinv : BackfillInv w) {n : Nat} {r : BackfillRun}
    (hr : w.runs[n]? = some r) (h : w.holds r.lease = false) :
    LostLease w.leases r.lease.job (some r.lease.owner) r.lease.token :=
  lostLease_of_not_accepts hinv.leases.fencing.ids (hinv.issued n r hr) h

structure SilentRun (w : BackfillWorld) (r : BackfillRun) : Prop where
  owes : r.phase.owes = false
  lost : ∀ c, r.phase = .acquired c →
    LostLease w.leases r.lease.job (some r.lease.owner) r.lease.token

theorem not_writes_of_not_owes {phase : BackfillPhase} (h : phase.owes = false) :
    phase.writes = false := by
  cases phase with
  | turn p todo t => cases h
  | working p item todo t => cases h
  | continuing p => exact h
  | acquired | entered | listing | upserted | finishing | ended => rfl

/-- Without its lease a run does not pass the first check, and one that has gone on has only
the last check before it. -/
theorem silentRun_work {w w' : BackfillWorld} {n : Nat} {r : BackfillRun} {e : Outside}
    (hr : w.runs[n]? = some r) (h : SilentRun w r)
    (hstep : workStep collate encode w n r e = some w') :
    ∃ phase, w'.runs[n]? = some { r with phase := phase } ∧ phase.owes = false ∧
      ∀ c, phase ≠ .acquired c := by
  obtain ⟨phase, hmoves, hmove, -⟩ := workStep_spec hstep
  have hrun : w'.runs[n]? = some { r with phase := phase } := by
    rw [hmoves, List.getElem?_set_self', hr]
    rfl
  cases hphase : r.phase with
  | acquired c =>
      have hheld : w.holds r.lease = false := (h.lost c hphase).not_accepts
      unfold workStep at hstep
      rw [hphase] at hstep
      cases hstep
      refine ⟨.ended, ?_, rfl, fun _ => nofun⟩
      simp [BackfillWorld.goto, BackfillWorld.setRun, BackfillWorld.passes, hheld,
        List.getElem?_set_self', hr]
  | continuing p =>
      rw [hphase] at hmove
      refine ⟨phase, hrun, ?_, ?_⟩
      · cases hmove <;> rfl
      · cases hmove <;> exact fun _ => nofun
  | finishing p =>
      rw [hphase] at hmove
      cases hmove
      exact ⟨.ended, hrun, rfl, fun _ => nofun⟩
  | ended =>
      rw [hphase] at hmove
      cases hmove
  | entered | listing | turn | working | upserted =>
      have howes := h.owes
      rw [hphase] at howes
      cases howes

theorem silentRun_step {w w' : BackfillWorld} {a : BackfillAction} {n : Nat} {r : BackfillRun}
    (hinv : BackfillInv w) (hr : w.runs[n]? = some r) (h : SilentRun w r)
    (hstep : backfillStep collate encode w a = some w') :
    ∃ r', w'.runs[n]? = some r' ∧ SilentRun w' r' := by
  have hfade := backfillStep_leases hinv.leases hstep
  have hmove := backfillStep_runs hstep n
  rw [hr] at hmove
  generalize hafter : w'.runs[n]? = after at hmove
  cases hmove with
  | kept => exact ⟨r, rfl, h.owes, fun c hc => (h.lost c hc).lasts hfade⟩
  | checked => exact ⟨_, rfl, h.owes, fun c hc => (h.lost c hc).lasts hfade⟩
  | stopped => exact ⟨_, rfl, rfl, fun _ => nofun⟩
  | worked ha _ =>
      subst ha
      obtain ⟨s, hs, hwork⟩ := Option.bind_eq_some_iff.mp hstep
      rw [hr, Option.some.injEq] at hs
      subst hs
      obtain ⟨phase, hrun, howes, hacquired⟩ := silentRun_work hr h hwork
      refine ⟨_, hafter.symm.trans hrun, howes, ?_⟩
      exact fun c hc => absurd hc (hacquired c)

theorem silentRun_silenced {w : BackfillWorld} {n : Nat} {r : BackfillRun} (hinv : BackfillInv w)
    (hr : w.runs[n]? = some r) (h : SilentRun w r) : Silenced collate encode w n := by
  intro as w' hrun r' hr'
  have hquiet : BackfillInv w' ∧ ∃ s, w'.runs[n]? = some s ∧ SilentRun w' s := by
    refine exec_invariant (I := fun v => BackfillInv v ∧ ∃ s, v.runs[n]? = some s ∧ SilentRun v s)
      (C := fun _ _ _ => True) ?_ ⟨hinv, r, hr, h⟩
      (everyStep_of_forall_mem (Q := fun _ => True) fun _ _ => trivial) hrun
    rintro u a v ⟨hu, s, hs, hquiet⟩ - hstep
    exact ⟨backfillInv_step hu hstep, silentRun_step hu hs hquiet hstep⟩
  obtain ⟨-, s, hs, hquiet⟩ := hquiet
  rw [hs, Option.some.injEq] at hr'
  rw [← hr']
  exact not_writes_of_not_owes hquiet.owes

variable (collate encode)

def ComesToWrite (w : BackfillWorld) (n : Nat) : Prop :=
  ∃ as w', exec (backfillStep collate encode) w as = some w' ∧
    ∃ r, w'.runs[n]? = some r ∧ r.phase.writes = true

theorem comesToWrite_now {w : BackfillWorld} {n : Nat} {r : BackfillRun} (hr : w.runs[n]? = some r)
    (h : r.phase.writes = true) : ComesToWrite collate encode w n :=
  ⟨[], w, rfl, r, hr, h⟩

theorem comesToWrite_goto {w : BackfillWorld} {n : Nat} {r : BackfillRun} (e : Outside)
    (phase : BackfillPhase) (hr : w.runs[n]? = some r)
    (hstep : workStep collate encode w n r e = some (w.goto n r phase))
    (h : ComesToWrite collate encode (w.goto n r phase) n) : ComesToWrite collate encode w n := by
  obtain ⟨as, w', hrun, hwrites⟩ := h
  refine ⟨.work n e :: as, w', ?_, hwrites⟩
  rw [exec_cons_eq_some]
  refine ⟨_, ?_, hrun⟩
  simp only [backfillStep, hr, Option.bind_some, hstep]

theorem turn_comesToWrite {n : Nat} {p : BackfillPage} (todo : List ProblemRow) :
    ∀ {w : BackfillWorld} {r : BackfillRun} {t : Totals}, w.runs[n]? = some r →
      r.phase = .turn p todo t → w.holds r.lease = false → ComesToWrite collate encode w n := by
  induction todo with
  | nil =>
      intro w r t hr hphase _
      exact comesToWrite_now collate encode hr (by rw [hphase]; rfl)
  | cons item todo ih =>
      intro w r t hr hphase hlost
      refine comesToWrite_goto collate encode {} (.turn p todo t.failed) hr ?_ ?_
      · simp [workStep, hphase, BackfillWorld.passes, hlost]
      · refine ih (r := { r with phase := .turn p todo t.failed }) ?_ rfl hlost
        exact goto_run hr _

theorem comesToWrite_of_owes {w : BackfillWorld} {n : Nat} {r : BackfillRun}
    (hr : w.runs[n]? = some r) (hlost : w.holds r.lease = false) (howes : r.phase.owes = true) :
    ComesToWrite collate encode w n := by
  have hturn : ∀ (v : BackfillWorld) (s : BackfillRun) (p : BackfillPage)
      (todo : List ProblemRow) (t : Totals), v.runs[n]? = some s → v.holds s.lease = false →
      workStep collate encode v n s {} = some (v.goto n s (.turn p todo t)) →
        ComesToWrite collate encode v n := by
    intro v s p todo t hs hlost' hstep
    refine comesToWrite_goto collate encode {} _ hs hstep ?_
    refine turn_comesToWrite collate encode todo (r := { s with phase := .turn p todo t }) ?_ rfl
      hlost'
    exact goto_run hs _
  have hlisting : ∀ (v : BackfillWorld) (s : BackfillRun) (c : BackfillConfig)
      (cursor : Option ProblemCursor), v.runs[n]? = some s → s.phase = .listing c cursor →
      v.holds s.lease = false → ComesToWrite collate encode v n := by
    intro v s c cursor hs hphase hlost'
    refine hturn v s ⟨c, cursor, backfillPage collate c.limit v.db.problems cursor⟩
      (backfillPage collate c.limit v.db.problems cursor).items {} hs hlost' ?_
    simp only [workStep, hphase]
  cases hphase : r.phase with
  | entered c =>
      refine comesToWrite_goto collate encode {}
        (.listing c (backfillCursor c.capability w.states)) hr ?_ ?_
      · simp only [workStep, hphase]
      · refine hlisting _ { r with phase := .listing c (backfillCursor c.capability w.states) } c
          (backfillCursor c.capability w.states) ?_ rfl hlost
        exact goto_run hr _
  | listing c cursor => exact hlisting w r c cursor hr hphase hlost
  | turn p todo t => exact turn_comesToWrite collate encode todo hr hphase hlost
  | working p item todo t =>
      by_cases hsnapshot : p.config.capability = "r2_snapshot"
      · exact comesToWrite_now collate encode hr (by rw [hphase]; exact decide_eq_true hsnapshot)
      · by_cases haccounting : p.config.capability = "accounting"
        · refine hturn w r p todo t.failed hr hlost ?_
          simp only [workStep, hphase, workItem, haccounting, if_true]
        · refine hturn w r p todo t.passed hr hlost ?_
          simp only [workStep, hphase, workItem, haccounting, hsnapshot, if_false]
  | upserted p bytes todo t =>
      refine hturn w r p todo t.failed hr hlost ?_
      simp only [workStep, hphase, hlost, Bool.false_eq_true, if_false]
  | continuing p =>
      rw [hphase] at howes
      exact comesToWrite_now collate encode hr (by rw [hphase]; exact howes)
  | acquired | finishing | ended =>
      rw [hphase] at howes
      cases howes

theorem silenced_iff {w : BackfillWorld} {n : Nat} {r : BackfillRun} (hinv : BackfillInv w)
    (hr : w.runs[n]? = some r) (hlost : w.holds r.lease = false) :
    Silenced collate encode w n ↔ r.phase.owes = false := by
  constructor
  · intro h
    rw [← Bool.not_eq_true]
    intro howes
    obtain ⟨as, w', hrun, r', hr', hwrites⟩ := comesToWrite_of_owes collate encode hr hlost howes
    rw [h as w' hrun r' hr'] at hwrites
    cases hwrites
  · intro howes
    exact silentRun_silenced hinv hr ⟨howes, fun _ _ => hinv.lost hr hlost⟩

/-! ## Pages one after another -/

variable {collate encode}

/-- The pages are read one from where the other ended, from one cursor to another. -/
def Follows : Option ProblemCursor → List AddedPage → Option ProblemCursor → Prop
  | c, [], c' => c = c'
  | c, a :: as, c' => a.page.start = c ∧ Follows a.page.page.nextCursor as c'

theorem follows_append {c c' : Option ProblemCursor} {as bs : List AddedPage} :
    Follows c (as ++ bs) c' ↔ ∃ d, Follows c as d ∧ Follows d bs c' := by
  induction as generalizing c with
  | nil => simp [Follows]
  | cons a as ih => simp only [List.cons_append, Follows, ih, and_assoc, exists_and_left]

theorem Follows.last {c c' : Option ProblemCursor} {as : List AddedPage} (h : Follows c as c') :
    c' = (as.getLast?.map fun a => a.page.page.nextCursor).getD c := by
  rcases List.eq_nil_or_concat as with rfl | ⟨bs, a, rfl⟩
  · exact h.symm
  · rw [List.concat_eq_append] at h ⊢
    obtain ⟨d, -, -, hlast⟩ := follows_append.mp h
    rw [List.getLast?_concat]
    exact hlast.symm

variable (collate) in
/-- In one pass each page begins further on than those before it. -/
theorem Follows.once {mid : List AddedPage} {f : AddedPage} {back : List AddedPage}
    {c' : Option ProblemCursor} : ∀ {c : Option ProblemCursor} {e : AddedPage},
    Follows c (e :: (mid ++ f :: back)) c' →
      (∀ g ∈ e :: mid, cursorBehind collate g.page.start g.page.page.nextCursor) →
        cursorBehind collate e.page.start f.page.start := by
  induction mid with
  | nil =>
      intro c e h hforward
      obtain ⟨-, hnext, -⟩ := h
      rw [hnext]
      exact hforward e List.mem_cons_self
  | cons g mid ih =>
      intro c e h hforward
      obtain ⟨-, hrest⟩ := h
      have hstart := hrest.1
      have hfirst := hforward e List.mem_cons_self
      rw [← hstart] at hfirst
      exact cursorBehind_trans hfirst (ih hrest fun g hg => hforward g (List.mem_cons_of_mem _ hg))

variable (collate) in
structure PageForward (p : BackfillPage) : Prop where
  behind : p.page.hasMore = true → cursorBehind collate p.start p.page.nextCursor
  last : p.page.hasMore = false → p.page.nextCursor = none

theorem pageForward_read (c : BackfillConfig) (cursor : Option ProblemCursor)
    (problems : List ProblemRow) :
    PageForward collate ⟨c, cursor, backfillPage collate c.limit problems cursor⟩ := by
  refine ⟨backfillPage_next c.positive, ?_⟩
  intro hlast
  unfold backfillPage listPage at hlast ⊢
  dsimp only at hlast ⊢
  rw [if_neg (by rw [hlast]; exact Bool.false_ne_true)]

def BackfillPhase.page : BackfillPhase → Option BackfillPage
  | .turn p _ _ | .working p _ _ _ | .upserted p _ _ _ => some p
  | _ => none

theorem PhaseMove.page {w : BackfillWorld} {phase phase' : BackfillPhase} {p : BackfillPage}
    (h : PhaseMove collate w phase phase') (hp : phase'.page = some p) :
    phase.page = some p ∨ PageForward collate p := by
  cases h with
  | list =>
      cases hp
      exact .inr (pageForward_read _ _ _)
  | enter | turnedAway | read | add | goOn | giveUp | finish => cases hp
  | take | skip | done | upsert | counted => exact .inl hp

theorem PhaseMove.reading {w : BackfillWorld} {phase phase' : BackfillPhase}
    (h : PhaseMove collate w phase phase') :
    phase'.reading = phase.reading ∨ phase'.reading = none ∨
      ∃ c, phase = .entered c ∧
        phase'.reading = some (c.capability, backfillCursor c.capability w.states) := by
  cases h with
  | read => exact .inr (.inr ⟨_, rfl, rfl⟩)
  | enter | list | take | skip | done | upsert | counted => exact .inl rfl
  | turnedAway | add | goOn | giveUp | finish => exact .inr (.inl rfl)

theorem RunMove.page {w : BackfillWorld} {a : BackfillAction} {n : Nat}
    {r r' : Option BackfillRun} (h : RunMove collate w a n r r') {p : BackfillPage}
    (hp : (r'.bind fun s => s.phase.page) = some p) :
    (r.bind fun s => s.phase.page) = some p ∨ PageForward collate p := by
  cases h with
  | kept => exact .inl hp
  | born => cases hp
  | checked => exact .inl hp
  | stopped => cases hp
  | worked _ hmove => exact hmove.page hp

theorem RunMove.reading {w : BackfillWorld} {a : BackfillAction} {n : Nat}
    {r r' : Option BackfillRun} (h : RunMove collate w a n r r') :
    (r'.bind fun s => s.phase.reading) = (r.bind fun s => s.phase.reading) ∨
      (r'.bind fun s => s.phase.reading) = none ∨
      ∃ e c, a = .work n e ∧ r.map BackfillRun.phase = some (.entered c) ∧
        (r'.bind fun s => s.phase.reading) =
          some (c.capability, backfillCursor c.capability w.states) := by
  cases h with
  | kept => exact .inl rfl
  | born => exact .inl rfl
  | checked => exact .inl rfl
  | stopped => exact .inr (.inl rfl)
  | worked ha hmove =>
      rcases hmove.reading with hsame | hnone | ⟨c, hphase, hread⟩
      · exact .inl hsame
      · exact .inr (.inl hnone)
      · exact .inr (.inr ⟨_, c, ha, congrArg some hphase, hread⟩)

/-! ## `backfill_state` -/

theorem find?_addPage (capability : String) (p : BackfillPage) (t : Totals)
    (rows : List BackfillStateRow) :
    (addPage p t rows).find? (fun r => r.capability = capability) =
      (rows.find? fun r => r.capability = capability).map fun r =>
        if r.capability = p.config.capability then
          { r with
            cursorValue := p.page.nextCursor
            status := if p.page.hasMore then .running else .completed
            totals := r.totals.add { t with processed := p.page.items.length } }
        else r :=
  find?_updateWhere (by intro r; rfl) rows

theorem find?_startBackfill {capability q : String} {rows rows' : List BackfillStateRow}
    (h : startBackfill capability rows = some rows') :
    backfillCursor q rows' = backfillCursor q rows ∧
      backfillTotals q rows' = backfillTotals q rows := by
  unfold startBackfill at h
  split at h
  · cases h
  · cases h
    unfold backfillCursor backfillTotals
    rw [find?_upsertOn (by intro r; rfl)]
    split
    · cases rows.find? fun r => r.capability = q with
      | none => exact ⟨rfl, rfl⟩
      | some r => exact ⟨rfl, rfl⟩
    · exact ⟨rfl, rfl⟩

theorem find?_pauseBackfill (capability q : String) (rows : List BackfillStateRow) :
    backfillCursor q (pauseBackfill capability rows) = backfillCursor q rows ∧
      backfillTotals q (pauseBackfill capability rows) = backfillTotals q rows := by
  unfold backfillCursor backfillTotals pauseBackfill
  rw [find?_updateWhere (by intro r; rfl)]
  cases rows.find? fun r => r.capability = q with
  | none => exact ⟨rfl, rfl⟩
  | some r =>
      simp only [Option.map_some, Option.bind_some, Option.getD_some]
      split <;> exact ⟨rfl, rfl⟩

structure Adds (w w' : BackfillWorld) (n : Nat) (r : BackfillRun) (p : BackfillPage) (t : Totals) :
    Prop where
  run : w.runs[n]? = some r
  phase : r.phase = .turn p [] t
  runs : w'.runs = w.runs.set n { r with phase := .continuing p }
  states : w'.states = addPage p t w.states
  added : w'.added = (w.addPage p t).added

/-- What a step does to `backfill_state`: nothing to a cursor or a total, or it adds the page
of a run. -/
theorem backfillStep_states {w w' : BackfillWorld} {a : BackfillAction}
    (h : backfillStep collate encode w a = some w') :
    ((∀ q, backfillCursor q w'.states = backfillCursor q w.states ∧
        backfillTotals q w'.states = backfillTotals q w.states) ∧ w'.added = w.added) ∨
      ∃ n r p t, Adds w w' n r p t := by
  cases a with
  | lease a =>
      obtain ⟨l, -, rfl⟩ := Option.map_eq_some_iff.mp h
      exact .inl ⟨fun _ => ⟨rfl, rfl⟩, rfl⟩
  | attach id payload =>
      cases h
      exact .inl ⟨fun _ => ⟨rfl, rfl⟩, rfl⟩
  | catalog problems =>
      cases h
      exact .inl ⟨fun _ => ⟨rfl, rfl⟩, rfl⟩
  | start capability =>
      obtain ⟨states, hstart, rfl⟩ := Option.map_eq_some_iff.mp h
      exact .inl ⟨fun _ => find?_startBackfill hstart, rfl⟩
  | pause capability =>
      cases h
      exact .inl ⟨fun q => find?_pauseBackfill capability q w.states, rfl⟩
  | acquire worker leaseSeconds lane paused locked =>
      simp only [backfillStep] at h
      split at h
      · cases h
      · split at h
        · obtain ⟨config, -, rfl⟩ := Option.map_eq_some_iff.mp h
          exact .inl ⟨fun _ => ⟨rfl, rfl⟩, rfl⟩
        · cases h
  | renew m leaseSeconds answered =>
      obtain ⟨r, -, h⟩ := Option.bind_eq_some_iff.mp h
      split at h
      · cases h
        exact .inl ⟨fun _ => ⟨rfl, rfl⟩, rfl⟩
      · cases h
        exact .inl ⟨fun _ => ⟨rfl, rfl⟩, rfl⟩
  | work m e =>
      obtain ⟨r, hr, h⟩ := Option.bind_eq_some_iff.mp h
      obtain ⟨phase, hmoves, hmove, ⟨hstates, hadded⟩ | ⟨p, t, hphase, hstates, hadded⟩⟩ :=
        workStep_spec h
      · exact .inl ⟨fun _ => by rw [hstates]; exact ⟨rfl, rfl⟩, hadded⟩
      · rw [hphase] at hmove
        cases hmove
        exact .inr ⟨m, r, p, t, hr, hphase, hmoves, hstates, hadded⟩
  | crash m =>
      obtain ⟨r, -, rfl⟩ := Option.map_eq_some_iff.mp h
      exact .inl ⟨fun _ => ⟨rfl, rfl⟩, rfl⟩

/-! ## The invariant of runs that read alone -/

variable (collate) in
structure PagesInv (w : BackfillWorld) : Prop where
  start : ∀ n capability start, w.reading n = some (capability, start) →
    start = backfillCursor capability w.states
  alone : ∀ m n capability s t, w.reading m = some (capability, s) →
    w.reading n = some (capability, t) → m = n
  forward : ∀ (n : Nat) (p : BackfillPage),
    (w.runs[n]?.bind fun r => r.phase.page) = some p → PageForward collate p
  follows : ∀ capability,
    Follows none (w.pagesOf capability) (backfillCursor capability w.states)
  added : ∀ a ∈ w.added, PageForward collate a.page
  totals : ∀ capability, backfillTotals capability w.states =
    (w.pagesOf capability).foldl (fun t a => t.add a.totals) {}

theorem NoBackfillYet.pagesInv {w : BackfillWorld} (h : NoBackfillYet w) : PagesInv collate w := by
  have hpages : ∀ capability, w.pagesOf capability = [] := by
    intro capability
    rw [BackfillWorld.pagesOf, h.added]
    rfl
  have hreading : ∀ n, w.reading n = none := by
    intro n
    rw [BackfillWorld.reading, h.runs]
    rfl
  refine ⟨?_, ?_, ?_, ?_, ?_, ?_⟩
  · intro n capability start hread
    rw [hreading] at hread
    cases hread
  · intro m n capability s t hread
    rw [hreading] at hread
    cases hread
  · intro n p hp
    rw [h.runs] at hp
    cases hp
  · intro capability
    rw [hpages, h.states]
    rfl
  · rw [h.added]
    exact nofun
  · intro capability
    rw [hpages, h.states]
    rfl

theorem pagesInv_calm {w w' : BackfillWorld} {a : BackfillAction} (hinv : PagesInv collate w)
    (h : backfillStep collate encode w a = some w') (halone : ReadsAlone w a w')
    (hsame : ∀ q, backfillCursor q w'.states = backfillCursor q w.states ∧
      backfillTotals q w'.states = backfillTotals q w.states)
    (hadded : w'.added = w.added) : PagesInv collate w' := by
  have hpages : ∀ capability, w'.pagesOf capability = w.pagesOf capability := by
    intro capability
    rw [BackfillWorld.pagesOf, hadded]
    rfl
  -- A run that is at a page was there before, or has read the cursor alone.
  have hread : ∀ n capability start, w'.reading n = some (capability, start) →
      w.reading n = some (capability, start) ∨
        start = backfillCursor capability w.states ∧ (∃ e, a = .work n e) ∧
          ∀ m s, w.reading m = some (capability, s) → m = n := by
    intro n capability start hreading
    rcases (backfillStep_runs h n).reading with hkept | hnone | ⟨e, c, ha, hphase, hnew⟩
    · exact .inl (hkept.symm.trans hreading)
    · cases hnone.symm.trans hreading
    · cases hnew.symm.trans hreading
      exact .inr ⟨rfl, ⟨e, ha⟩, halone n e c ha hphase⟩
  refine ⟨?_, ?_, ?_, ?_, ?_, ?_⟩
  · intro n capability start hreading
    rw [(hsame capability).1]
    rcases hread n capability start hreading with hold | ⟨hnew, -⟩
    · exact hinv.start n capability start hold
    · exact hnew
  · intro m n capability s t hm hn
    rcases hread m capability s hm with hm | ⟨-, ⟨e, hm⟩, halone_m⟩
    · rcases hread n capability t hn with hn | ⟨-, -, halone_n⟩
      · exact hinv.alone m n capability s t hm hn
      · exact halone_n m s hm
    · rcases hread n capability t hn with hn | ⟨-, ⟨e', hn⟩, -⟩
      · exact (halone_m n t hn).symm
      · cases hm.symm.trans hn
        rfl
  · intro n p hp
    rcases (backfillStep_runs h n).page hp with hold | hnew
    · exact hinv.forward n p hold
    · exact hnew
  · intro capability
    rw [hpages, (hsame capability).1]
    exact hinv.follows capability
  · rw [hadded]
    exact hinv.added
  · intro capability
    rw [hpages, (hsame capability).2]
    exact hinv.totals capability

theorem backfillCursor_addPage {q : String} {p : BackfillPage} {t : Totals}
    {rows : List BackfillStateRow} (hq : q ≠ p.config.capability) :
    backfillCursor q (addPage p t rows) = backfillCursor q rows ∧
      backfillTotals q (addPage p t rows) = backfillTotals q rows := by
  unfold backfillCursor backfillTotals
  rw [find?_addPage]
  cases hfound : rows.find? fun r => r.capability = q with
  | none => exact ⟨rfl, rfl⟩
  | some r =>
      have hcapability : r.capability = q := by simpa using List.find?_some hfound
      rw [Option.map_some, if_neg (hcapability ▸ hq)]
      exact ⟨rfl, rfl⟩

theorem backfillCursor_addPage_self (p : BackfillPage) (t : Totals)
    (rows : List BackfillStateRow) :
    (rows.any (fun r => r.capability = p.config.capability) = true ∧
        backfillCursor p.config.capability (addPage p t rows) = p.page.nextCursor ∧
        backfillTotals p.config.capability (addPage p t rows) =
          (backfillTotals p.config.capability rows).add
            { t with processed := p.page.items.length } ∧
        (p.page.hasMore = false → ∃ r ∈ addPage p t rows,
          r.capability = p.config.capability ∧ r.status = .completed ∧
            r.cursorValue = p.page.nextCursor)) ∨
      (rows.any (fun r => r.capability = p.config.capability) = false ∧
        addPage p t rows = rows) := by
  cases hfound : rows.find? fun r => r.capability = p.config.capability with
  | none =>
      right
      have hnone := List.find?_eq_none.mp hfound
      refine ⟨List.any_eq_false.mpr hnone, ?_⟩
      exact updateWhere_eq_self fun r hr hp => absurd hp (hnone r hr)
  | some r =>
      left
      have hcapability : r.capability = p.config.capability := by simpa using List.find?_some hfound
      have hupdated := find?_addPage p.config.capability p t rows
      rw [hfound, Option.map_some, if_pos hcapability] at hupdated
      refine ⟨List.any_eq_true.mpr ⟨r, List.mem_of_find?_eq_some hfound,
        decide_eq_true hcapability⟩, ?_, ?_, ?_⟩
      · rw [backfillCursor, hupdated]
        rfl
      · rw [backfillTotals, backfillTotals, hupdated, hfound]
        rfl
      · intro hlast
        refine ⟨_, List.mem_of_find?_eq_some hupdated, hcapability, ?_, rfl⟩
        exact if_neg (by rw [hlast]; exact Bool.false_ne_true)

theorem Adds.reading {w w' : BackfillWorld} {n : Nat} {r : BackfillRun} {p : BackfillPage}
    {t : Totals} (h : Adds w w' n r p t) :
    w.reading n = some (p.config.capability, p.start) := by
  rw [BackfillWorld.reading, h.run, Option.bind_some, h.phase]
  rfl

theorem pagesOf_addPage (w : BackfillWorld) (p : BackfillPage) (t : Totals) (q : String) :
    (w.addPage p t).pagesOf q =
      if q = p.config.capability ∧ w.states.any (fun r => r.capability = p.config.capability) = true
      then w.pagesOf q ++ [⟨p, { t with processed := p.page.items.length }⟩] else w.pagesOf q := by
  unfold BackfillWorld.pagesOf BackfillWorld.addPage
  dsimp only
  by_cases hrow : w.states.any (fun r => r.capability = p.config.capability) = true
  · rw [if_pos hrow, List.filter_append]
    by_cases hq : q = p.config.capability
    · simp [hq, hrow]
    · simp [hq, Ne.symm hq]
  · rw [if_neg hrow, if_neg fun h => hrow h.2]

theorem pagesInv_adds {w w' : BackfillWorld} {n : Nat} {r : BackfillRun} {p : BackfillPage}
    {t : Totals} (hinv : PagesInv collate w) (h : Adds w w' n r p t) : PagesInv collate w' := by
  have hpage : PageForward collate p := by
    apply hinv.forward n
    rw [h.run, Option.bind_some, h.phase]
    rfl
  have hstart := hinv.start n _ _ h.reading
  -- The run leaves its page, and the others are at pages of other capabilities.
  have hread : ∀ m capability start, w'.reading m = some (capability, start) →
      w.reading m = some (capability, start) ∧ capability ≠ p.config.capability := by
    intro m capability start hreading
    by_cases hm : m = n
    · subst hm
      rw [BackfillWorld.reading, h.runs, List.getElem?_set_self', h.run] at hreading
      cases hreading
    · have hold : w.reading m = some (capability, start) := by
        rw [BackfillWorld.reading, h.runs, List.getElem?_set_ne (Ne.symm hm)] at hreading
        exact hreading
      refine ⟨hold, ?_⟩
      rintro rfl
      exact hm (hinv.alone m n _ _ _ hold h.reading)
  have hpagesOf : ∀ q, w'.pagesOf q = (w.addPage p t).pagesOf q := by
    intro q
    rw [BackfillWorld.pagesOf, h.added]
    rfl
  refine ⟨?_, ?_, ?_, ?_, ?_, ?_⟩
  · intro m capability start hreading
    obtain ⟨hold, hq⟩ := hread m capability start hreading
    rw [h.states, (backfillCursor_addPage hq).1]
    exact hinv.start m capability start hold
  · intro m m' capability s s' hm hm'
    exact hinv.alone m m' capability s s' (hread m _ _ hm).1 (hread m' _ _ hm').1
  · intro m p' hp'
    by_cases hm : m = n
    · subst hm
      rw [h.runs, List.getElem?_set_self', h.run] at hp'
      cases hp'
    · rw [h.runs, List.getElem?_set_ne (Ne.symm hm)] at hp'
      exact hinv.forward m p' hp'
  · intro q
    rw [hpagesOf, pagesOf_addPage, h.states]
    by_cases hq : q = p.config.capability
    · subst hq
      rcases backfillCursor_addPage_self p t w.states with ⟨hrow, hcursor, -⟩ | ⟨hrow, hsame⟩
      · rw [if_pos ⟨rfl, hrow⟩, hcursor, follows_append]
        exact ⟨_, hinv.follows _, hstart, rfl⟩
      · rw [hrow, if_neg fun h => Bool.false_ne_true h.2, hsame]
        exact hinv.follows _
    · rw [if_neg fun h => hq h.1, (backfillCursor_addPage hq).1]
      exact hinv.follows q
  · rw [h.added]
    intro a ha
    unfold BackfillWorld.addPage at ha
    dsimp only at ha
    split at ha
    · rcases List.mem_append.mp ha with hold | hnew
      · exact hinv.added a hold
      · rw [List.mem_singleton.mp hnew]
        exact hpage
    · exact hinv.added a ha
  · intro q
    rw [hpagesOf, pagesOf_addPage, h.states]
    by_cases hq : q = p.config.capability
    · subst hq
      rcases backfillCursor_addPage_self p t w.states with ⟨hrow, -, htotals, -⟩ | ⟨hrow, hsame⟩
      · rw [if_pos ⟨rfl, hrow⟩, htotals, List.foldl_append, hinv.totals]
        rfl
      · rw [hrow, if_neg fun h => Bool.false_ne_true h.2, hsame]
        exact hinv.totals _
    · rw [if_neg fun h => hq h.1, (backfillCursor_addPage hq).2]
      exact hinv.totals q

theorem cursorForward_adds {w w' : BackfillWorld} {a : BackfillAction} {n : Nat}
    {r : BackfillRun} {p : BackfillPage} {t : Totals} (hinv : PagesInv collate w)
    (h : Adds w w' n r p t) : CursorForward collate w a w' := by
  have hpage : PageForward collate p := by
    apply hinv.forward n
    rw [h.run, Option.bind_some, h.phase]
    rfl
  intro q
  rw [h.states]
  by_cases hq : q = p.config.capability
  · subst hq
    rcases backfillCursor_addPage_self p t w.states with ⟨-, hcursor, -, hlast⟩ | ⟨-, hsame⟩
    · right
      rw [hcursor, ← hinv.start n _ _ h.reading]
      cases hmore : p.page.hasMore with
      | true => exact .inl (hpage.behind hmore)
      | false =>
          right
          rw [hpage.last hmore] at hlast
          exact hlast hmore
    · rw [hsame]
      exact .inl rfl
  · exact .inl (backfillCursor_addPage hq).1

theorem pagesInv_step {w w' : BackfillWorld} {a : BackfillAction} (hinv : PagesInv collate w)
    (halone : ReadsAlone w a w') (h : backfillStep collate encode w a = some w') :
    PagesInv collate w' ∧ CursorForward collate w a w' := by
  rcases backfillStep_states h with ⟨hsame, hadded⟩ | ⟨n, r, p, t, hadds⟩
  · exact ⟨pagesInv_calm hinv h halone hsame hadded, fun q => .inl (hsame q).1⟩
  · exact ⟨pagesInv_adds hinv hadds, cursorForward_adds hinv hadds⟩

theorem PagesInv.addedOnce {w : BackfillWorld} (h : PagesInv collate w) (capability : String) :
    AddedOnce collate w capability := by
  refine ⟨?_, ?_, h.totals capability⟩
  · intro front e mid f back hpages hmore
    have hfollows := h.follows capability
    rw [hpages] at hfollows
    obtain ⟨c, -, hrest⟩ := follows_append.mp hfollows
    refine hrest.once collate fun g hg => ?_
    have hmem : g ∈ w.pagesOf capability := by
      rw [hpages]
      refine List.mem_append_right _ ?_
      rcases List.mem_cons.mp hg with rfl | hg
      · exact List.mem_cons_self
      · exact List.mem_cons_of_mem _ (List.mem_append_left _ hg)
    exact (h.added g (List.mem_filter.mp hmem).1).behind (hmore g hg)
  · rw [(h.follows capability).last]
    cases (w.pagesOf capability).getLast? <;> rfl

theorem NoBackfillYet.backfillInv {w : BackfillWorld} (h : NoBackfillYet w) : BackfillInv w := by
  refine ⟨leaseInv_installed h.installed, ?_⟩
  intro n r hr
  rw [h.runs] at hr
  cases hr

/-! ## Results -/

/-- In every reachable state a run without its lease changes nothing more exactly when it owes
no write.  In a run of the program in which the cursor of a capability is read while no other
run of it is at a page, each page is added once and the cursor goes forward. -/
theorem backfill_silenced_iff (collate : String → κ) (encode : ProblemCursor → String)
    {w₀ w : BackfillWorld} {as : List BackfillAction} (h : NoBackfillYet w₀)
    (hrun : exec (backfillStep collate encode) w₀ as = some w) :
    (∀ n r, w.runs[n]? = some r → w.holds r.lease = false →
        (Silenced collate encode w n ↔ r.phase.owes = false)) ∧
      (EveryStep (backfillStep collate encode) ReadsAlone w₀ as →
        (∀ capability, AddedOnce collate w capability) ∧
          EveryStep (backfillStep collate encode) (CursorForward collate) w₀ as) := by
  have hinv : BackfillInv w :=
    exec_invariant (C := fun _ _ _ => True) (fun _ _ _ hu _ hstep => backfillInv_step hu hstep)
      h.backfillInv (everyStep_of_forall_mem (Q := fun _ => True) fun _ _ => trivial) hrun
  refine ⟨fun n r hr hlost => silenced_iff collate encode hinv hr hlost, ?_⟩
  intro halone
  have hstep : ∀ u a v, PagesInv collate u → ReadsAlone u a v →
      backfillStep collate encode u a = some v → PagesInv collate v ∧ CursorForward collate u a v :=
    fun _ _ _ hu ha hv => pagesInv_step hu ha hv
  have hpages : PagesInv collate w :=
    exec_invariant (fun u a v hu ha hv => (hstep u a v hu ha hv).1) h.pagesInv halone hrun
  refine ⟨hpages.addedOnce, ?_⟩
  exact everyStep_of_invariant (fun u a v hu ha hv => (hstep u a v hu ha hv).1)
    (fun u a v hu ha hv => (hstep u a v hu ha hv).2) h.pagesInv halone

end Machine

/-! ## A backfill that another one overtakes -/

def accountingRequest : JobRequest where
  idempotencyKey := "backfill:accounting:1"
  jobType := .backfill
  problemId := none
  targetGeneration := none
  fingerprint := "1"

def threeProblems : BackfillWorld where
  leases := { ledger := { now := 0, db := { problems :=
    [sampleProblem "101" "aplusb" .present, sampleProblem "102" "sums" .present,
      sampleProblem "103" "trees" .present] } } }

theorem threeProblems_noBackfillYet : NoBackfillYet threeProblems :=
  ⟨⟨⟨by decide, fun _ => le_refl _, by simp [threeProblems], rfl⟩, by decide,
    by simp [threeProblems], rfl⟩, rfl, rfl, rfl⟩

def scanned (code : String) : Outside where
  scan := some (⟨code, 1, 1, 0, 0, 1, []⟩, 0)

def firstPage : List BackfillAction :=
  [.start "accounting", .lease (.create 1 accountingRequest),
    .attach 1 { capability := some "accounting", limit := some 1 },
    .acquire "worker-a" 60 .bulk false []]

/-- The lease runs out, and a second worker adds the first page. -/
def takenOver : List BackfillAction :=
  [.lease (.tick 100000000), .acquire "worker-b" 60 .bulk false [], .work 1 {}, .work 1 {},
    .work 1 {}, .work 1 {}, .work 1 (scanned "aplusb"), .work 1 {}, .work 1 {},
    .work 1 { newId := 2 }, .work 1 {}]

def secondPage : List BackfillAction :=
  [.acquire "worker-b" 60 .bulk false [], .work 2 {}, .work 2 {}, .work 2 {}, .work 2 {},
    .work 2 (scanned "sums"), .work 2 {}, .work 2 {}]

/-- The first worker had read its page; the check before its problem fails. -/
def overtaken : BackfillWorld :=
  (exec (backfillStep id ProblemCursor.value) threeProblems
    (firstPage ++ [.work 0 {}, .work 0 {}, .work 0 {}] ++ takenOver ++ secondPage ++
      [.work 0 {}])).get (by decide +kernel)

def overwritten : BackfillWorld :=
  (backfillStep id ProblemCursor.value overtaken (.work 0 {})).get (by decide +kernel)

theorem overtaken_not_silenced :
    (exec (backfillStep id ProblemCursor.value) threeProblems
        (firstPage ++ [.work 0 {}, .work 0 {}, .work 0 {}] ++ takenOver ++ secondPage ++
          [.work 0 {}]) = some overtaken ∧
      backfillStep id ProblemCursor.value overtaken (.work 0 {}) = some overwritten ∧
      ∃ r, overtaken.runs[0]? = some r ∧ overtaken.holds r.lease = false) ∧
      ¬ Silenced id ProblemCursor.value overtaken 0 ∧
      ¬ CursorForward id overtaken (.work 0 {}) overwritten ∧
      ¬ AddedOnce id overwritten "accounting" := by
  refine ⟨⟨(Option.some_get _).symm, (Option.some_get _).symm, ?_⟩, ?_, ?_, ?_⟩
  · exact ⟨overtaken.runs.get ⟨0, by decide +kernel⟩, by simp, by decide +kernel⟩
  · intro h
    have hphase := h [] overtaken rfl (overtaken.runs.get ⟨0, by decide +kernel⟩) (by simp)
    revert hphase
    decide +kernel
  · intro h
    have hcursor := h "accounting"
    revert hcursor
    decide +kernel
  · intro h
    have honce := h.once []
      ((overwritten.pagesOf "accounting").get ⟨0, by decide +kernel⟩)
      [(overwritten.pagesOf "accounting").get ⟨1, by decide +kernel⟩]
      ((overwritten.pagesOf "accounting").get ⟨2, by decide +kernel⟩) [] (by decide +kernel)
      (by decide +kernel)
    revert honce
    decide +kernel

/-- The first worker comes to its first check without its lease. -/
def turnedAway : BackfillWorld :=
  (exec (backfillStep id ProblemCursor.value) threeProblems
    (firstPage ++ takenOver ++ secondPage ++ [.work 0 {}])).get (by decide +kernel)

theorem backfill_silenced_iff_turnedAway :
    turnedAway.added.length = 2 ∧ Silenced id ProblemCursor.value turnedAway 0 ∧
      AddedOnce id turnedAway "accounting" := by
  have hrun : exec (backfillStep id ProblemCursor.value) threeProblems
      (firstPage ++ takenOver ++ secondPage ++ [.work 0 {}]) = some turnedAway :=
    (Option.some_get _).symm
  have hresult := backfill_silenced_iff id ProblemCursor.value threeProblems_noBackfillYet hrun
  refine ⟨by decide +kernel, ?_, ?_⟩
  · exact (hresult.1 0 (turnedAway.runs.get ⟨0, by decide +kernel⟩) (by simp)
      (by decide +kernel)).mpr (by decide +kernel)
  · exact (hresult.2 (by decide +kernel)).1 "accounting"

end ExternalStorage.Jobs
