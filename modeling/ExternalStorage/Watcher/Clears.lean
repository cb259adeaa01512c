import ExternalStorage.Catalog.Notifications
import ExternalStorage.Watcher.DirtyFlag

/-!
# Notifications and the dirty flag

A completed snapshot clears `dirty` if the version is still the one that its run had read.  A
snapshot job of the control plane carries the version from its creation on, so the data plane scans
after it was read; the watcher scans first, and reads the version in
`acquire_dirty_snapshot_job_by_code`.
-/

namespace ExternalStorage.Watcher

open ExternalStorage.Model ExternalStorage.Catalog Library.Runs Library.Table
open Snapshot (sampleScan)
open Sync (Write)

/-! ## The machine -/

/-- A version that a run has read of a problem.  The counts are history. -/
structure Reading where
  problemId : String
  version : Int
  /-- The notifications that had been applied. -/
  after : Nat
  /-- The versions that the watcher had raised. -/
  watched : Nat
  deriving DecidableEq, Repr

/-- The scan that a READY snapshot was made of, with the notifications applied when it began. -/
structure RecordedScan where
  problemId : String
  generation : Int
  began : Nat
  deriving DecidableEq, Repr

structure Clearing where
  notified : Notified
  /-- The notifications applied when each scan began. -/
  scans : List Nat := []
  readings : List Reading := []
  recorded : List RecordedScan := []

inductive ClearAction where
  | notice (a : NoticeAction)
  | beginScan
  /-- A snapshot job is created, with the version in its payload. -/
  | readVersion (externalId : String)
  | acquire (now : Timestamp) (code owner : String) (leaseSeconds : Int) (id : Uuid) (millis : Int)
  /-- A run that uploaded the files of a scan gets to READY. -/
  | finalize (now : Timestamp) (a : FinalizeArgs) (scan : Nat) (reading : Option Nat)
  /-- The job has seen its generation READY. -/
  | clearForJob (now : Timestamp) (externalId : String) (generation : Int) (reading : Nat)

def ofRun : NoticeAction → Bool
  | .write _ (.finalizeSnapshotCas _) | .write _ (.clearDirtyAfterSnapshotForJob ..)
  | .write _ (.acquireDirtySnapshotJobByCode ..) => true
  | _ => false

/-- `expected_dirty_version` is the version of the reading. -/
def versionRead (readings : List Reading) (a : FinalizeArgs) : Option Nat → Bool
  | none => a.expectedDirtyVersion = none
  | some i => readings[i]?.any fun r =>
      r.problemId = a.problemId && a.expectedDirtyVersion = some r.version

def Clearing.write (s : Clearing) (now : Timestamp) (w : Write) : Option Clearing :=
  (noticeStep s.notified (.write now w)).map fun n => { s with notified := n }

def Clearing.read (s : Clearing) (problemId : String) (version : Int) : Clearing :=
  { s with
    readings := s.readings ++
      [⟨problemId, version, s.notified.applied.length, s.notified.watched.length⟩] }

def clearStep (s : Clearing) : ClearAction → Option Clearing
  | .notice a =>
      if ofRun a then none else (noticeStep s.notified a).map fun n => { s with notified := n }
  | .beginScan => some { s with scans := s.scans ++ [s.notified.applied.length] }
  | .readVersion externalId =>
      (s.notified.db.problems.find? fun p => p.externalId = externalId).map fun p =>
        s.read externalId p.dirtyVersion
  | .acquire now code owner leaseSeconds id millis =>
      (s.write now (.acquireDirtySnapshotJobByCode code owner leaseSeconds id millis)).map fun t =>
        match acquireDirtySnapshotJobByCode now code owner leaseSeconds id millis s.notified.db with
        | .ok (_, _, some job) => t.read job.problemId job.dirtyVersion
        | _ => t
  | .finalize now a scan reading =>
      (s.scans[scan]?).bind fun began =>
        if versionRead s.readings a reading then
          (s.write now (.finalizeSnapshotCas a)).map fun t =>
            { t with recorded := t.recorded ++ [⟨a.problemId, a.generation, began⟩] }
        else none
  | .clearForJob now externalId generation reading =>
      (s.readings[reading]?).bind fun r =>
        if r.problemId = externalId ∧
            ∃ x ∈ s.recorded, x.problemId = externalId ∧ x.generation = generation then
          s.write now (.clearDirtyAfterSnapshotForJob externalId generation (some r.version))
        else none

/-! ## Statements -/

def upsertsOf (externalId : String) (n : Notification) : Bool :=
  n.e.externalId = externalId && !n.deleted

/-- Of the notifications applied from the first count to the second, none is an upsert of the
problem. -/
def NoUpsert (applied : List Notification) (externalId : String) (first last : Nat) : Prop :=
  ∀ n ∈ (applied.take last).drop first, upsertsOf externalId n = false

instance (applied : List Notification) (externalId : String) (first last : Nat) :
    Decidable (NoUpsert applied externalId first last) := by
  unfold NoUpsert
  infer_instance

def dirtyOf (externalId : String) (problems : List ProblemRow) : Option Bool :=
  (problems.find? fun p => p.externalId = externalId).map ProblemRow.dirty

/-- The completion of a snapshot that was made of a scan, by a run with a reading. -/
def Completes (s : Clearing) (a : ClearAction) (externalId : String) (began : Nat) (r : Reading) :
    Prop :=
  match a with
  | .finalize _ args scan (some i) =>
      args.problemId = externalId ∧ s.scans[scan]? = some began ∧ s.readings[i]? = some r
  | .clearForJob _ problemId generation i =>
      problemId = externalId ∧ ⟨externalId, generation, began⟩ ∈ s.recorded ∧
        s.readings[i]? = some r
  | _ => False

/-- A completion that clears the flag had every upsert before its scan exactly if none came between
the begin of the scan and the reading of the version: always, if the version was read first. -/
def ClearsHeard (s : Clearing) (a : ClearAction) (t : Clearing) : Prop :=
  ∀ externalId began r, Completes s a externalId began r →
    dirtyOf externalId s.notified.db.problems = some true →
    dirtyOf externalId t.notified.db.problems = some false →
      (NoUpsert t.notified.applied externalId began t.notified.applied.length ↔
        NoUpsert t.notified.applied externalId began r.after) ∧
        (r.after ≤ began →
          NoUpsert t.notified.applied externalId began t.notified.applied.length)

/-- The generation that a completion has brought to READY. -/
def ClearAction.completed : ClearAction → Option Int
  | .finalize _ a _ _ => some a.generation
  | .clearForJob _ _ generation _ => some generation
  | _ => none

def FindsDirty (problems : List ProblemRow) (externalId : String) (generation version : Int) :
    Prop :=
  ∃ p, problems.find? (fun p => p.externalId = externalId) = some p ∧
    shouldClearDirtyAfterSnapshot p.dirty p.dirtyGeneration p.dirtyVersion generation
      (some version) = true

/-- Whenever a completion takes the flag down, every upsert of the problem was applied before its
scan began. -/
def NoLostNotification (s : Clearing) (a : ClearAction) (t : Clearing) : Prop :=
  ∀ externalId began r, Completes s a externalId began r →
    dirtyOf externalId s.notified.db.problems = some true →
    dirtyOf externalId t.notified.db.problems = some false →
      NoUpsert t.notified.applied externalId began t.notified.applied.length

/-- A completion that finds the flag up, at the version read, finds no upsert of the problem applied
between the begin of its scan and that reading. -/
def HeardWhenRead (s : Clearing) (a : ClearAction) : Prop :=
  ∀ externalId began r generation, Completes s a externalId began r →
    a.completed = some generation →
    FindsDirty s.notified.db.problems externalId generation r.version →
      NoUpsert s.notified.applied externalId began r.after

/-! ## Readings -/

/-- The edits of a problem after some notifications and some readings of the watcher. -/
def editsAt (s : Notified) (after watched : Nat) (externalId : String) : Int :=
  ((s.applied.take after).countP (upsertsOf externalId) : Int) +
    (s.watched.take watched).count externalId

structure ReadingOk (start : String → Int) (s : Notified) (r : Reading) : Prop where
  after : r.after ≤ s.applied.length
  watched : r.watched ≤ s.watched.length
  version : r.version = start r.problemId + editsAt s r.after r.watched r.problemId

structure ClearInv (start : String → Int) (s : Clearing) : Prop where
  notices : NoticeInv start s.notified
  readings : ∀ r ∈ s.readings, ReadingOk start s.notified r

section Steps

variable {start : String → Int} {s t : Clearing} {n n' : Notified}

theorem edits_eq_editsAt (n : Notified) (externalId : String) :
    n.edits externalId = editsAt n n.applied.length n.watched.length externalId := by
  rw [editsAt, List.take_length, List.take_length]
  rfl

theorem noticeStep_grows {a : NoticeAction} (h : noticeStep n a = some n') :
    (∃ more, n'.applied = n.applied ++ more) ∧ ∃ more, n'.watched = n.watched ++ more := by
  cases a with
  | notify now actor m =>
      simp only [noticeStep] at h
      split at h
      · cases h
        exact ⟨⟨[], (List.append_nil _).symm⟩, ⟨[], (List.append_nil _).symm⟩⟩
      · rename_i db mutated hcall
        cases h
        refine ⟨?_, ⟨[], (List.append_nil _).symm⟩⟩
        cases mutated with
        | false => exact ⟨[], (List.append_nil _).symm⟩
        | true => exact ⟨[m], rfl⟩
  | write now w =>
      simp only [noticeStep] at h
      split at h
      · obtain ⟨db, -, h⟩ := Option.bind_eq_some_iff.mp h
        split at h
        · cases h
          exact ⟨⟨[], (List.append_nil _).symm⟩, ⟨_, rfl⟩⟩
        · cases h
      · cases h

theorem ReadingOk.grows {r : Reading} (h : ReadingOk start n r)
    (happlied : ∃ more, n'.applied = n.applied ++ more)
    (hwatched : ∃ more, n'.watched = n.watched ++ more) : ReadingOk start n' r := by
  obtain ⟨more, happlied⟩ := happlied
  obtain ⟨more', hwatched⟩ := hwatched
  refine ⟨?_, ?_, ?_⟩
  · rw [happlied, List.length_append]
    exact Nat.le_add_right_of_le h.after
  · rw [hwatched, List.length_append]
    exact Nat.le_add_right_of_le h.watched
  · rw [h.version, editsAt, editsAt, happlied, hwatched, List.take_append_of_le_length h.after,
      List.take_append_of_le_length h.watched]

theorem ClearInv.notice (h : ClearInv start s) {a : NoticeAction}
    (hstep : noticeStep s.notified a = some n) : ClearInv start { s with notified := n } := by
  obtain ⟨happlied, hwatched⟩ := noticeStep_grows hstep
  exact ⟨noticeInv_step h.notices hstep, fun r hr => (h.readings r hr).grows happlied hwatched⟩

theorem ClearInv.write (h : ClearInv start s) {now : Timestamp} {w : Write}
    (hstep : s.write now w = some t) : ClearInv start t := by
  obtain ⟨n, hn, rfl⟩ := Option.map_eq_some_iff.mp hstep
  exact h.notice hn

theorem write_eq_some {now : Timestamp} {w : Write} (h : s.write now w = some t) :
    w.run now s.notified.db = some t.notified.db ∧ t.notified.applied = s.notified.applied := by
  obtain ⟨n, hn, rfl⟩ := Option.map_eq_some_iff.mp h
  simp only [noticeStep] at hn
  split at hn
  · obtain ⟨db, hdb, hn⟩ := Option.bind_eq_some_iff.mp hn
    split at hn
    · cases hn
      exact ⟨hdb, rfl⟩
    · cases hn
  · cases hn

theorem ClearInv.read (h : ClearInv start s) {p : ProblemRow} (hp : p ∈ s.notified.db.problems) :
    ClearInv start (s.read p.externalId p.dirtyVersion) := by
  refine ⟨h.notices, fun r hr => ?_⟩
  rcases List.mem_append.mp hr with hold | hnew
  · exact h.readings r hold
  · rw [List.mem_singleton.mp hnew]
    refine ⟨Nat.le_refl _, Nat.le_refl _, ?_⟩
    have hversion := h.notices.counted.versions p hp
    rw [edits_eq_editsAt] at hversion
    exact hversion

theorem acquired_row {now : Timestamp} {code owner : String} {leaseSeconds : Int} {id : Uuid}
    {millis : Int} {db db' : Database} {tokens : Option WatcherTokens} {job : DirtySnapshotJob}
    (h : acquireDirtySnapshotJobByCode now code owner leaseSeconds id millis db =
      .ok (db', tokens, some job)) :
    ∃ p ∈ db'.problems, p.externalId = job.problemId ∧ p.dirtyVersion = job.dirtyVersion := by
  obtain ⟨p, hp, hacquired⟩ := acquiredFor_of_ok h
  refine ⟨p.watched now (allocatedGeneration db p.externalId), ?_, hacquired.problem.symm,
    hacquired.version.symm⟩
  rw [hacquired.problems]
  exact mem_updateWhere.mpr ⟨p, hp, by simp⟩

theorem clearInv_step {a : ClearAction} (h : ClearInv start s) (hstep : clearStep s a = some t) :
    ClearInv start t := by
  cases a with
  | notice a =>
      simp only [clearStep] at hstep
      split at hstep
      · cases hstep
      · obtain ⟨n, hn, rfl⟩ := Option.map_eq_some_iff.mp hstep
        exact h.notice hn
  | beginScan =>
      cases hstep
      exact ⟨h.notices, h.readings⟩
  | readVersion externalId =>
      obtain ⟨p, hp, rfl⟩ := Option.map_eq_some_iff.mp hstep
      have hid : p.externalId = externalId := by simpa using List.find?_some hp
      rw [← hid]
      exact h.read (List.mem_of_find?_eq_some hp)
  | acquire now code owner leaseSeconds id millis =>
      obtain ⟨u, hu, rfl⟩ := Option.map_eq_some_iff.mp hstep
      have hwritten := h.write hu
      split
      · rename_i db tokens job hacquire
        obtain ⟨p, hp, hid, hversion⟩ := acquired_row hacquire
        have hdb : u.notified.db = db := by
          have hrun := (write_eq_some hu).1
          rw [Write.run, hacquire] at hrun
          exact (Option.some.inj hrun).symm
        rw [← hid, ← hversion]
        exact hwritten.read (hdb ▸ hp)
      · exact hwritten
  | finalize now args scan reading =>
      obtain ⟨began, -, hstep⟩ := Option.bind_eq_some_iff.mp hstep
      split at hstep
      · obtain ⟨u, hu, rfl⟩ := Option.map_eq_some_iff.mp hstep
        have hwritten := h.write hu
        exact ⟨hwritten.notices, hwritten.readings⟩
      · cases hstep
  | clearForJob now externalId generation reading =>
      obtain ⟨r, -, hstep⟩ := Option.bind_eq_some_iff.mp hstep
      split at hstep
      · exact h.write hstep
      · cases hstep

end Steps

/-! ## The clear -/

section Clear

variable {start : String → Int} {s t : Clearing} {externalId : String}

theorem cleared_iff {now : Timestamp} {generation version : Int} {problems : List ProblemRow} :
    (dirtyOf externalId problems = some true ∧
      dirtyOf externalId
        (clearDirtyAfterSnapshot now externalId generation (some version) problems) = some false) ↔
      FindsDirty problems externalId generation version := by
  rw [FindsDirty, dirtyOf, dirtyOf, clearDirtyAfterSnapshot,
    find?_key_updateWhere (by exact fun _ => rfl)]
  cases hfound : problems.find? fun p => p.externalId = externalId with
  | none => simp
  | some p =>
      have hid : p.externalId = externalId := by simpa using List.find?_some hfound
      simp only [Option.map_some, Option.some.injEq, hid, decide_true, Bool.true_and,
        exists_eq_left']
      constructor
      · rintro ⟨hdirty, hclean⟩
        split at hclean
        · assumption
        · rw [hdirty] at hclean
          cases hclean
      · intro hclear
        rw [if_pos hclear]
        simp only [shouldClearDirtyAfterSnapshot, Bool.and_eq_true] at hclear
        exact ⟨hclear.1.1, rfl⟩

/-- A flag goes down only at the version that the statement names. -/
theorem FindsDirty.version {generation version : Int} {problems : List ProblemRow}
    (h : FindsDirty problems externalId generation version) :
    ∃ p ∈ problems, p.externalId = externalId ∧ p.dirtyVersion = version := by
  obtain ⟨p, hfound, hclear⟩ := h
  simp only [shouldClearDirtyAfterSnapshot, Bool.and_eq_true, decide_eq_true_eq,
    Option.some.injEq] at hclear
  exact ⟨p, List.mem_of_find?_eq_some hfound, by simpa using List.find?_some hfound,
    hclear.1.2.symm⟩

theorem problems_of_completion {a : ClearAction} {began : Nat} {r : Reading}
    (hstep : clearStep s a = some t) (hcompletes : Completes s a externalId began r) :
    r ∈ s.readings ∧ r.problemId = externalId ∧
      t.notified.applied = s.notified.applied ∧ ∃ now generation,
        a.completed = some generation ∧ t.notified.db.problems =
          clearDirtyAfterSnapshot now externalId generation (some r.version)
            s.notified.db.problems := by
  cases a with
  | notice | beginScan | readVersion | acquire => exact hcompletes.elim
  | finalize now args scan reading =>
      cases reading with
      | none => exact hcompletes.elim
      | some i =>
          obtain ⟨rfl, -, hr⟩ := hcompletes
          obtain ⟨b, -, hstep⟩ := Option.bind_eq_some_iff.mp hstep
          split at hstep
          · rename_i hread
            obtain ⟨u, hu, rfl⟩ := Option.map_eq_some_iff.mp hstep
            rw [versionRead, hr, Option.any_some, Bool.and_eq_true, decide_eq_true_eq,
              decide_eq_true_eq] at hread
            obtain ⟨hrun, happlied⟩ := write_eq_some hu
            obtain ⟨-, hdb⟩ := finalizeSnapshotCas_eq_ok (toOption_eq_some.mp hrun)
            refine ⟨List.mem_of_getElem? hr, hread.1, happlied, now, args.generation, rfl, ?_⟩
            have hproblems : u.notified.db.problems = (finalized now args s.notified.db).problems :=
              congrArg Database.problems hdb
            rw [hproblems]
            simp only [finalized, hread.2]
          · cases hstep
  | clearForJob now problemId generation i =>
      obtain ⟨rfl, -, hr⟩ := hcompletes
      obtain ⟨r', hr', hstep⟩ := Option.bind_eq_some_iff.mp hstep
      obtain rfl : r = r' := Option.some.inj (hr.symm.trans hr')
      split at hstep
      · rename_i hseen
        obtain ⟨hrun, happlied⟩ := write_eq_some hstep
        refine ⟨List.mem_of_getElem? hr, hseen.1, happlied, now, generation, rfl, ?_⟩
        exact (congrArg Database.problems (Option.some.inj hrun)).symm
      · cases hstep

theorem ReadingOk.noUpsert {n : Notified} {r : Reading} (h : ReadingOk start n r)
    (hcounted : Counted (fun externalId => start externalId + n.edits externalId) n.db.problems)
    {p : ProblemRow} (hp : p ∈ n.db.problems) (hid : p.externalId = r.problemId)
    (hversion : p.dirtyVersion = r.version) :
    ∀ m ∈ n.applied.drop r.after, upsertsOf r.problemId m = false := by
  have hnow := hcounted.versions p hp
  rw [hversion, h.version, hid] at hnow
  have hedits : editsAt n r.after r.watched r.problemId = n.edits r.problemId := by omega
  rw [edits_eq_editsAt] at hedits
  simp only [editsAt, List.take_length] at hedits
  have hsplit : n.applied.countP (upsertsOf r.problemId) =
      (n.applied.take r.after).countP (upsertsOf r.problemId) +
        (n.applied.drop r.after).countP (upsertsOf r.problemId) := by
    rw [← List.countP_append, List.take_append_drop]
  have hwatched : (n.watched.take r.watched).count r.problemId ≤ n.watched.count r.problemId :=
    (List.take_sublist _ _).count_le _
  have hnone : (n.applied.drop r.after).countP (upsertsOf r.problemId) = 0 := by omega
  intro m hm
  simpa using List.countP_eq_zero.mp hnone m hm

theorem noUpsert_iff {applied : List Notification} {first last : Nat}
    (h : ∀ n ∈ applied.drop last, upsertsOf externalId n = false) :
    NoUpsert applied externalId first applied.length ↔ NoUpsert applied externalId first last := by
  rw [NoUpsert, List.take_length, NoUpsert]
  have hsplit : applied.drop first =
      (applied.take last).drop first ++
        (applied.drop last).drop (first - (applied.take last).length) := by
    rw [← List.drop_append, List.take_append_drop]
  rw [hsplit]
  constructor
  · intro hall n hn
    exact hall n (List.mem_append_left _ hn)
  · intro hbefore n hn
    rcases List.mem_append.mp hn with hn | hn
    · exact hbefore n hn
    · exact h n (List.mem_of_mem_drop hn)

theorem clearsHeard_step {a : ClearAction} (h : ClearInv start s) (hstep : clearStep s a = some t) :
    ClearsHeard s a t := by
  intro externalId began r hcompletes hdirty hclean
  obtain ⟨hr, hproblem, happlied, now, generation, -, hproblems⟩ :=
    problems_of_completion hstep hcompletes
  rw [hproblems] at hclean
  obtain ⟨p, hp, hid, hversion⟩ := (cleared_iff.mp ⟨hdirty, hclean⟩).version
  have hnone := (h.readings r hr).noUpsert h.notices.counted hp (hid.trans hproblem.symm) hversion
  rw [happlied, ← hproblem]
  refine ⟨noUpsert_iff hnone, fun hfirst => (noUpsert_iff hnone).mpr ?_⟩
  intro n hn
  rw [List.drop_eq_nil_of_le ((List.length_take_le _ _).trans hfirst)] at hn
  cases hn

theorem noLostNotification_step {a : ClearAction} (h : ClearInv start s)
    (hstep : clearStep s a = some t) : NoLostNotification s a t ↔ HeardWhenRead s a := by
  have hheard := clearsHeard_step h hstep
  constructor
  · intro hlost externalId began r generation hcompletes hgeneration hfinds
    obtain ⟨-, -, happlied, now, generation', hgeneration', hproblems⟩ :=
      problems_of_completion hstep hcompletes
    obtain rfl : generation' = generation := Option.some.inj (hgeneration'.symm.trans hgeneration)
    obtain ⟨hdirty, hclean⟩ := cleared_iff.mpr hfinds
    rw [← hproblems] at hclean
    rw [← happlied]
    exact (hheard externalId began r hcompletes hdirty hclean).1.mp
      (hlost externalId began r hcompletes hdirty hclean)
  · intro hread externalId began r hcompletes hdirty hclean
    obtain ⟨-, -, happlied, now, generation, hgeneration, hproblems⟩ :=
      problems_of_completion hstep hcompletes
    have hfinds := cleared_iff.mp ⟨hdirty, hproblems ▸ hclean⟩
    refine (hheard externalId began r hcompletes hdirty hclean).1.mpr ?_
    rw [happlied]
    exact hread externalId began r generation hcompletes hgeneration hfinds

theorem clearInv_start {db : Database} (h : Unnotified db) :
    ClearInv (fun externalId => versionOf externalId db.problems) { notified := { db := db } } := by
  refine ⟨noticeInv_start h, fun r hr => ?_⟩
  cases hr

end Clear

/-- In every run, no completion that clears the flag loses an upsert, but for those that were
applied between the begin of its scan and the reading of the version. -/
theorem cleared_flag_heard_iff {db : Database} {acts : List ClearAction} (h : Unnotified db) :
    EveryStep clearStep ClearsHeard { notified := { db := db } } acts := by
  refine everyStep_of_invariant
    (I := ClearInv fun externalId => versionOf externalId db.problems) (C := fun _ _ _ => True)
    (fun s a t hs _ hstep => clearInv_step hs hstep)
    (fun s a t hs _ hstep => clearsHeard_step hs hstep) (clearInv_start h)
    (everyStep_of_forall_mem fun _ _ => trivial)

/-- A run loses no notification exactly if each of its completions that takes a flag down read the
version before any upsert that its scan may have missed. -/
theorem no_lost_notification_iff {db : Database} {acts : List ClearAction} (h : Unnotified db) :
    EveryStep clearStep NoLostNotification { notified := { db := db } } acts ↔
      EveryStep clearStep (fun s a _ => HeardWhenRead s a) { notified := { db := db } } acts := by
  constructor
  · exact everyStep_of_invariant (fun s a t hs _ hstep => clearInv_step hs hstep)
      (fun s a t hs hlost hstep => (noLostNotification_step hs hstep).mp hlost) (clearInv_start h)
  · exact everyStep_of_invariant (fun s a t hs _ hstep => clearInv_step hs hstep)
      (fun s a t hs hread hstep => (noLostNotification_step hs hstep).mpr hread) (clearInv_start h)

/-! Problem 7 is notified of, and the watcher snapshots its folder; the notifications `between` come
after its scan. -/

def editSums : Notification := ⟨"second", sampleEntry, false⟩

def sumsSnapshot (generation : Int) : SnapshotRow :=
  { freshSnapshot 7 "7" generation 4 with state := .verifying }

def finalizeSums (generation version : Int) : FinalizeArgs where
  snapshotId := 7
  problemId := "7"
  generation := generation
  fencingToken := 1
  expectedDirtyVersion := some version
  manifestFiles := []
  totalBytes := 0
  manifestKey := manifestKey "7" generation

def sumsUploaded (between : List Notification) : List ClearAction :=
  let version : Int := 2 + between.length
  [.notice (.notify 1 "clueoj" claimSums), .beginScan] ++
    between.map (fun n => .notice (.notify 2 "clueoj" n)) ++
    [.acquire 3 "sums" "rust-watcher:1" 300 1 0,
      .notice (.write 4 (.scannedUsage "7" sampleScan .present)),
      .notice (.write 5 (.elsewhere
        { jobs := [watcherJob 3 "rust-watcher:1" 300 1 0 ⟨"7", version, 1, version⟩]
          jobFencingCounters := [⟨"7", 3⟩]
          problemGenerationCounters := [⟨"7", version + 1⟩]
          snapshots := [sumsSnapshot version]
          idempotencyKeys := (claimSums :: between).map (keyRow "clueoj") }))]

def finalizesSums (between : List Notification) : ClearAction :=
  .finalize 6 (finalizeSums (2 + between.length) (2 + between.length)) 0 (some 0)

def sumsCleared (between : List Notification) : List ClearAction :=
  sumsUploaded between ++ [finalizesSums between]

/-- The flags of problem 7, and the upserts since the begin of the scan. -/
def clearedSums (acts : List ClearAction) : Option (Option Bool × Bool) :=
  (exec clearStep { notified := { db := scannedFolders } } acts).map fun s =>
    (dirtyOf "7" s.notified.db.problems,
      decide (NoUpsert s.notified.applied "7" 1 s.notified.applied.length))

theorem cleared_flag_heard_sums :
    clearedSums (sumsCleared []) = some (some false, true) ∧
      EveryStep clearStep ClearsHeard { notified := { db := scannedFolders } } (sumsCleared []) :=
  ⟨by decide +kernel, cleared_flag_heard_iff unnotified_scannedFolders⟩

theorem no_lost_notification_sums :
    clearedSums (sumsCleared []) = some (some false, true) ∧
      (EveryStep clearStep NoLostNotification { notified := { db := scannedFolders } }
          (sumsCleared []) ↔
        EveryStep clearStep (fun s a _ => HeardWhenRead s a) { notified := { db := scannedFolders } }
          (sumsCleared [])) :=
  ⟨by decide +kernel, no_lost_notification_iff unnotified_scannedFolders⟩

/-- An edit is notified of after the scan, and the flag goes down all the same. -/
theorem watcher_clears_unheard :
    clearedSums (sumsCleared [editSums]) = some (some false, false) ∧
      ¬ EveryStep clearStep NoLostNotification { notified := { db := scannedFolders } }
        (sumsCleared [editSums]) := by
  refine ⟨by decide +kernel, fun h => ?_⟩
  have hlost : (exec clearStep { notified := { db := scannedFolders } }
      (sumsUploaded [editSums])).any (fun s =>
        (clearStep s (finalizesSums [editSums])).any fun t =>
          s.scans[0]? = some 1 ∧ s.readings[0]? = some ⟨"7", 3, 2, 1⟩ ∧
            dirtyOf "7" s.notified.db.problems = some true ∧
            dirtyOf "7" t.notified.db.problems = some false ∧
            ¬ NoUpsert t.notified.applied "7" 1 t.notified.applied.length) = true := by
    decide +kernel
  obtain ⟨s, hrun, hlost⟩ := (Option.any_eq_true _ _).mp hlost
  obtain ⟨t, hlast, hlost⟩ := (Option.any_eq_true _ _).mp hlost
  obtain ⟨hscan, hreading, hdirty, hclean, hunheard⟩ := of_decide_eq_true hlost
  exact hunheard (((everyStep_append.mp h).2 s hrun t hlast).1 "7" 1 _ ⟨rfl, hscan, hreading⟩
    hdirty hclean)

end ExternalStorage.Watcher
