import ExternalStorage.Jobs.Turns
import Mathlib.Data.String.Basic

/-!
# One problem's conflict and the others

The batch goes on after an active operation and stops at a key that another request holds; the
reconcile route stops at either.  The problems behind the one that stops a call keep what
they had.
-/

namespace ExternalStorage.Jobs

open ExternalStorage.Model Library.Table Library.Batches

/-! ## The two calls -/

section Calls

variable {κ : Type*} [LinearOrder κ] (collate : String → κ)

inductive SchedulingCall where
  /-- The last loop of the reconcile route. -/
  | reconcile (problems : List ListedProblem)
  | batch (limit : Nat)

def SchedulingCall.run (c : ScheduleContext) (db : Database) :
    SchedulingCall → Database × List String
  | .reconcile problems =>
      let r := scheduleReconciled c problems db
      (r.state, r.failed.map fun f => f.1.externalId)
  | .batch limit =>
      let r := scheduleDirtySnapshotBatch collate c limit db
      (r.state, r.failed.map fun f => f.1.externalId)

def reconcileList (base : Database) : Worklist ListedProblem where
  problemId := ListedProblem.externalId
  considered a := !a.deleted &&
    (base.problemUsage.find? fun u => u.problemId = a.externalId).any fun u =>
      u.localStatus = .present

def batchList : Worklist ProblemRow where
  problemId := ProblemRow.externalId
  considered _ := true

def SchedulingCall.rows (c : ScheduleContext) (base : Database) : SchedulingCall → List ProblemRow
  | .reconcile problems => problems.filterMap ((reconcileList base).turnOf base)
  | .batch limit => (batchRows collate c limit base).filterMap (batchList.turnOf base)

/-- The rows whose turns it takes, by the tables before it: up to the first conflict in the
reconcile route, up to the first key that another request holds in the batch. -/
def SchedulingCall.reached (c : ScheduleContext) (base : Database) :
    SchedulingCall → List ProblemRow
  | .reconcile problems =>
      (attempted (turnFate c (fun _ => false) (reconcileList base) base) [] problems).filterMap
        ((reconcileList base).turnOf base)
  | .batch limit =>
      (attempted (turnFate c CreateJobError.isOperationConflict batchList base) []
        (batchRows collate c limit base)).filterMap (batchList.turnOf base)

def SchedulingCall.conflicts (c : ScheduleContext) (base : Database) :
    SchedulingCall → List String
  | .reconcile problems =>
      (failures (turnFate c (fun _ => false) (reconcileList base) base) [] problems).map
        ListedProblem.externalId
  | .batch limit =>
      (failures (turnFate c CreateJobError.isOperationConflict batchList base) []
        (batchRows collate c limit base)).map ProblemRow.externalId

/-- A present problem of the call that is dirty, or becomes so, and is not parked, without an
operation that conflicts with a backup. -/
def SchedulingCall.Eligible (c : ScheduleContext) (base : Database) (call : SchedulingCall)
    (p : ProblemRow) : Prop :=
  p ∈ call.rows collate c base ∧ wants c base p = true ∧
    ∀ j ∈ base.jobs, j.problemId = some p.externalId → j.state.active = true →
      j.jobType ≠ .restore ∧ j.jobType ≠ .evict

/-- When the turn of a problem throws, every other eligible problem has work after the call. -/
def SchedulingCall.Isolates (c : ScheduleContext) (base : Database) (call : SchedulingCall) :
    Prop :=
  ∀ q ∈ (call.run collate c base).2, ∀ p, call.Eligible collate c base p → p.externalId ≠ q →
    ActiveWork p.externalId (call.run collate c base).1.jobs

/-- When a problem runs into a conflict, every other eligible problem has work already, or is
reached and gains some. -/
def SchedulingCall.OthersServed (c : ScheduleContext) (base : Database) (call : SchedulingCall) :
    Prop :=
  ∀ q ∈ call.conflicts collate c base, ∀ p, call.Eligible collate c base p → p.externalId ≠ q →
    ActiveWork p.externalId base.jobs ∨ p ∈ call.reached collate c base ∧ GainsWork c base p

variable {collate} {c : ScheduleContext} {base : Database}

theorem rowOf_of_mem (hids : (base.problems.map ProblemRow.externalId).Nodup) {p : ProblemRow}
    (hp : p ∈ base.problems) : rowOf base p.externalId = some p := by
  cases hrow : rowOf base p.externalId with
  | none =>
      have hnone := List.find?_eq_none.mp hrow p hp
      simp at hnone
  | some q =>
      have hid : q.externalId = p.externalId := by simpa using List.find?_some hrow
      rw [List.inj_on_of_nodup_map hids (List.mem_of_find?_eq_some hrow) hp hid]

theorem mem_of_mem_batchRows {limit : Nat} {p : ProblemRow}
    (h : p ∈ batchRows collate c limit base) :
    p ∈ base.problems ∧ batchSelects c base p = true :=
  List.mem_filter.mp ((Library.Paging.perm_inOrder _).mem_iff.mp (List.mem_of_mem_take h))

variable (collate c) in
theorem nodup_batchRows (hids : (base.problems.map ProblemRow.externalId).Nodup) (limit : Nat) :
    ((batchRows collate c limit base).map ProblemRow.externalId).Nodup := by
  have hselected : ((base.problems.filter (batchSelects c base)).map
      ProblemRow.externalId).Nodup :=
    hids.sublist (List.filter_sublist.map _)
  have hperm : (Library.Paging.inOrder (batchKey collate)
      (base.problems.filter (batchSelects c base))).Perm
        (base.problems.filter (batchSelects c base)) := Library.Paging.perm_inOrder _
  have hordered := (hperm.map ProblemRow.externalId).nodup_iff.mpr hselected
  exact hordered.sublist ((List.take_sublist _ _).map _)

theorem turnOf_batch (hids : (base.problems.map ProblemRow.externalId).Nodup) {limit : Nat}
    {p : ProblemRow} (h : p ∈ batchRows collate c limit base) :
    batchList.turnOf base p = some p :=
  rowOf_of_mem hids (mem_of_mem_batchRows h).1

theorem batch_not_taken (hids : (base.problems.map ProblemRow.externalId).Nodup) {limit : Nat}
    {done rest : List ProblemRow} {p : ProblemRow}
    (hall : batchRows collate c limit base = done ++ p :: rest) :
    p.externalId ∉ batchList.taken base done := by
  intro htaken
  obtain ⟨q, hq, hid⟩ := List.mem_map.mp htaken
  obtain ⟨r, hr, hrow⟩ := List.mem_filterMap.mp hq
  have hmem : r ∈ batchRows collate c limit base := by
    rw [hall]
    exact List.mem_append_left _ hr
  rw [turnOf_batch hids hmem] at hrow
  cases hrow
  have hnodup := nodup_batchRows collate c hids limit
  rw [hall, List.map_append, List.map_cons, List.nodup_append] at hnodup
  exact hnodup.2.2 _ (List.mem_map_of_mem hr) _ List.mem_cons_self hid

variable (collate) in
theorem takesTurns_batch (hids : (base.problems.map ProblemRow.externalId).Nodup) (limit : Nat) :
    TakesTurns c CreateJobError.isOperationConflict batchList base (batchRows collate c limit base)
      fun db p => scheduleProblem c p db := by
  have hturn : ∀ done (a : ProblemRow) rest, batchRows collate c limit base = done ++ a :: rest →
      batchList.turnOf base a = some a := by
    intro done a rest hall
    have hmem : a ∈ batchRows collate c limit base := by
      rw [hall]
      exact List.mem_append_right _ List.mem_cons_self
    exact turnOf_batch hids hmem
  refine ⟨?_, ?_, ?_⟩
  · intro done a rest db hall _ hnone
    cases (hturn done a rest hall).symm.trans hnone
  · intro done a rest db p p' hall h ha hrow
    cases (hturn done a rest hall).symm.trans ha
    rw [(h.ahead _ (batch_not_taken hids hall)).row, (turnOf_externalId ha).2] at hrow
    cases hrow
    rfl
  · intro done a rest p hall ha htaken
    cases (hturn done a rest hall).symm.trans ha
    exact absurd htaken (batch_not_taken hids hall)

theorem takesTurns_reconcile (problems : List ListedProblem) :
    TakesTurns c (fun _ => false) (reconcileList base) base problems (reconcileTurn c) := by
  refine ⟨?_, ?_, fun _ _ _ _ _ _ _ _ => rfl⟩
  · intro done a rest db _ h hnone
    unfold reconcileTurn
    rw [h.usage]
    by_cases hdeleted : a.deleted = true
    · exact ⟨none, if_pos hdeleted⟩
    rw [if_neg hdeleted]
    cases husage : base.problemUsage.find? fun u => u.problemId = a.externalId with
    | none => exact ⟨none, rfl⟩
    | some usage =>
        dsimp only
        by_cases hpresent : usage.localStatus = .present
        · have hrow : rowOf base a.externalId = none := by
            unfold Worklist.turnOf at hnone
            rw [if_pos] at hnone
            · exact hnone
            · simp [reconcileList, hdeleted, husage, hpresent]
          have hahead : a.externalId ∉ (reconcileList base).taken base done := by
            intro htaken
            obtain ⟨q, hq, hid⟩ := List.mem_map.mp htaken
            obtain ⟨b, -, hb⟩ := List.mem_filterMap.mp hq
            have hq' := (turnOf_externalId hb).2
            rw [hid, hrow] at hq'
            cases hq'
          have hrow' : (db.problems.find? fun p => p.externalId = a.externalId) = none :=
            (h.ahead _ hahead).row.trans hrow
          rw [if_neg (not_not_intro hpresent), hrow']
          exact ⟨none, rfl⟩
        · exact ⟨none, if_pos hpresent⟩
  · intro done a rest db p p' _ h ha hrow
    have hid := (turnOf_externalId ha).1
    unfold Worklist.turnOf at ha
    split at ha
    · rename_i hconsidered
      simp only [reconcileList, Bool.and_eq_true, Bool.not_eq_true', Option.any_eq_true,
        decide_eq_true_eq] at hconsidered
      obtain ⟨hdeleted, usage, husage, hpresent⟩ := hconsidered
      have hrow' : (db.problems.find? fun p => p.externalId = a.externalId) = some p' := by
        rw [← hid] at hrow
        exact hrow
      unfold reconcileTurn
      rw [h.usage, hdeleted, husage, hrow']
      simp [hpresent]
    · cases ha

variable (collate) in
theorem call_spec (hdraws : DrawsNew c) (hids : (base.problems.map ProblemRow.externalId).Nodup)
    (hidx : JobIndexes base.jobs) (call : SchedulingCall) :
    (call.run collate c base).2 = call.conflicts collate c base ∧
      ∀ p, rowOf base p.externalId = some p →
        (ActiveWork p.externalId (call.run collate c base).1.jobs ↔
          ActiveWork p.externalId base.jobs ∨
            p ∈ call.reached collate c base ∧ GainsWork c base p) := by
  cases call with
  | reconcile problems =>
      obtain ⟨hserved, hfailed⟩ := call_served hdraws (takesTurns_reconcile problems) hids hidx
      refine ⟨?_, fun p hp => hserved.activeWork_iff hp⟩
      have hmap := congrArg (List.map ListedProblem.externalId) hfailed
      rwa [List.map_map] at hmap
  | batch limit =>
      obtain ⟨hserved, hfailed⟩ :=
        call_served hdraws (takesTurns_batch collate hids limit) hids hidx
      refine ⟨?_, fun p hp => hserved.activeWork_iff hp⟩
      have hmap := congrArg (List.map ProblemRow.externalId) hfailed
      rwa [List.map_map] at hmap

theorem rowOf_of_mem_rows {call : SchedulingCall} {p : ProblemRow}
    (h : p ∈ call.rows collate c base) : rowOf base p.externalId = some p := by
  cases call with
  | reconcile | batch =>
      obtain ⟨a, -, ha⟩ := List.mem_filterMap.mp h
      exact (turnOf_externalId ha).2

/-- A call keeps a conflict to its problem exactly when it has come to the others by then. -/
theorem isolates_iff (hdraws : DrawsNew c)
    (hids : (base.problems.map ProblemRow.externalId).Nodup) (hidx : JobIndexes base.jobs)
    (call : SchedulingCall) :
    call.Isolates collate c base ↔ call.OthersServed collate c base := by
  obtain ⟨hfailed, hwork⟩ := call_spec collate hdraws hids hidx call
  rw [SchedulingCall.Isolates, hfailed]
  refine forall₂_congr fun q _ => forall₂_congr fun p hp => imp_congr_right fun _ => ?_
  exact hwork p (rowOf_of_mem_rows hp.1)

end Calls

section Sample

def backupContext : ScheduleContext where
  now := 100
  permanentFailureThreshold := 3
  snapshotBackoffIntervalMs := 86400000
  backoff := []
  newId jobs := (jobs.map JobRow.id).foldr max 0 + 1

def editedProblem (externalId : String) : ProblemRow :=
  { catalogRow 0 ⟨externalId, externalId, none, false, none, none, none, 1⟩ .present with
    dirty := true, dirtyVersion := 1, dirtyGeneration := some 1 }

def presentFolder (problemId : String) : ProblemUsageRow :=
  { defaultUsage 0 problemId with localStatus := .present }

def restoringDb : Database where
  problems := [editedProblem "101", editedProblem "102"]
  problemUsage := [presentFolder "101", presentFolder "102"]
  jobs := [newJob 0 1 ⟨"restore-1", .restore, some "101", some 1, "restore"⟩]

theorem restoringDb_indexes : JobIndexes restoringDb.jobs :=
  ⟨by decide, by decide, by decide⟩

theorem backupContext_drawsNew : DrawsNew backupContext := by
  intro jobs j hj heq
  have hle : ∀ (ids : List Nat) id, id ∈ ids → id ≤ ids.foldr max 0 := by
    intro ids id hid
    induction ids with
    | nil => cases hid
    | cons i ids ih =>
        rw [List.foldr_cons]
        rcases List.mem_cons.mp hid with rfl | hid
        · exact Nat.le_max_left _ _
        · exact (ih hid).trans (Nat.le_max_right _ _)
  have hid := hle (jobs.map JobRow.id) j.id (List.mem_map_of_mem hj)
  rw [heq] at hid
  exact Nat.not_succ_le_self _ hid

instance (q : String) (jobs : List JobRow) : Decidable (ActiveWork q jobs) :=
  inferInstanceAs (Decidable (∃ j ∈ jobs, _))

/-- Behind the problem that is being restored, 102 gets no jobs. -/
theorem conflict_stops_reconcile :
    ¬ (SchedulingCall.reconcile [⟨"101", false⟩, ⟨"102", false⟩]).Isolates
      (id : String → String) backupContext restoringDb := by
  intro h
  have hwork := h "101" (by decide +kernel) (editedProblem "102")
    ⟨by decide +kernel, by decide +kernel, by decide +kernel⟩ (by decide)
  exact absurd hwork (by decide +kernel)

/-- Before it, 102 gets them. -/
theorem isolates_restored_last :
    (SchedulingCall.reconcile [⟨"102", false⟩, ⟨"101", false⟩]).Isolates
      (id : String → String) backupContext restoringDb := by
  apply (isolates_iff backupContext_drawsNew (by decide) restoringDb_indexes _).mpr
  intro q hq p hp hne
  have hq' : q = "101" := by
    have hconflicts : (SchedulingCall.reconcile [⟨"102", false⟩, ⟨"101", false⟩]).conflicts
        (id : String → String) backupContext restoringDb = ["101"] := by decide +kernel
    rw [hconflicts] at hq
    exact List.mem_singleton.mp hq
  have hrows : (SchedulingCall.reconcile [⟨"102", false⟩, ⟨"101", false⟩]).rows
      (id : String → String) backupContext restoringDb =
        [editedProblem "102", editedProblem "101"] := by decide +kernel
  obtain ⟨hp, -⟩ := hp
  rw [hrows, List.mem_cons, List.mem_singleton] at hp
  rcases hp with rfl | rfl
  · refine .inr ⟨by decide +kernel, by decide +kernel, .inl (by decide +kernel)⟩
  · exact absurd hq'.symm hne

end Sample

end ExternalStorage.Jobs
