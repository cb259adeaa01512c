import ExternalStorage.Jobs.Isolation

/-!
# Which problems a batch comes to

The batch selects by the age of `observed_at`, whether or not a problem has its jobs, and
scheduling does not change the age.  It comes to an unscheduled problem that fewer selected
problems than the limit are older than, unless one of these holds a key that stops it.
-/

namespace ExternalStorage.Jobs

open ExternalStorage.Model Library.Table Library.Batches Library.Paging

variable {κ : Type*} [LinearOrder κ] (collate : String → κ) (c : ScheduleContext) (limit : Nat)
  (base : Database)

def Unscheduled (p : ProblemRow) : Prop :=
  ∀ j ∈ base.jobs, j.problemId = some p.externalId → j.state.active = false

instance (p : ProblemRow) : Decidable (Unscheduled base p) :=
  inferInstanceAs (Decidable (∀ j ∈ base.jobs, _))

/-- A selected problem without jobs: the batch is to create some for it. -/
structure WaitsForBatch (p : ProblemRow) : Prop where
  mem : p ∈ base.problems
  selected : batchSelects c base p = true
  unscheduled : Unscheduled base p

/-- If problems wait, the batch creates a job for one of them. -/
def ReachesWaiting : Prop :=
  (∃ p, WaitsForBatch c base p) → ∃ p, WaitsForBatch c base p ∧
    CreatedFor p.externalId base (scheduleDirtySnapshotBatch collate c limit base).state

def olderThan (p q : ProblemRow) : Bool :=
  batchSelects c base q && decide (batchKey collate q < batchKey collate p)

/-- A waiting problem within the limit, with a key to insert, and no older one whose key another
request holds. -/
structure InReach (p : ProblemRow) : Prop where
  waiting : WaitsForBatch c base p
  within : base.problems.countP (olderThan collate c base p) < limit
  unblocked : ∀ q ∈ base.problems, olderThan collate c base p q = true →
    turnConflict c base q ≠ some .idempotencyConflict
  gains : GainsWork c base p

variable {collate c limit base}

section Reach

variable (hids : (base.problems.map ProblemRow.externalId).Nodup)

include hids in
omit [LinearOrder κ] in
theorem batchKeys_nodup (hcollate : Function.Injective collate) :
    ((base.problems.filter (batchSelects c base)).map (batchKey collate)).Nodup := by
  have hrows : base.problems.Nodup := hids.of_map
  refine (List.nodup_map_iff_inj_on (hrows.filter _)).mpr ?_
  intro p hp q hq hkey
  have hid : collate p.externalId = collate q.externalId := (Prod.mk.inj hkey).2
  exact List.inj_on_of_nodup_map hids (List.mem_filter.mp hp).1 (List.mem_filter.mp hq).1
    (hcollate hid)

variable (limit) in
include hids in
theorem mem_batchRows_iff (hcollate : Function.Injective collate) {p : ProblemRow}
    (hp : p ∈ base.problems) (hselected : batchSelects c base p = true) :
    p ∈ batchRows collate c limit base ↔
      base.problems.countP (olderThan collate c base p) < limit := by
  rw [batchRows, mem_take_inOrder (batchKeys_nodup hids hcollate)
    (List.mem_filter.mpr ⟨hp, hselected⟩), List.countP_filter]
  have hpred : (fun q => decide (batchKey collate q < batchKey collate p) && batchSelects c base q) =
      olderThan collate c base p := by
    funext q
    rw [olderThan, Bool.and_comm]
  rw [hpred]

theorem turnConflict_cases (q : ProblemRow) {e : CreateJobError}
    (h : turnConflict c base q = some e) :
    e = .idempotencyConflict ∨ e = .problemOperationConflict q.externalId := by
  have hanswer : ∀ (answer : CreateAnswer) e, answer.conflict q.externalId = some e →
      e = .idempotencyConflict ∨ e = .problemOperationConflict q.externalId := by
    intro answer e he
    cases answer with
    | keyTaken => exact .inl (Option.some.inj he).symm
    | refused => exact .inr (Option.some.inj he).symm
    | replayed | joined | inserted => cases he
  unfold turnConflict at h
  split at h
  · rw [autoConflict, Option.or_eq_some_iff] at h
    rcases h with h | ⟨-, h⟩
    · exact hanswer _ _ h
    · exact hanswer _ _ h
  · cases h

theorem stops_iff {done : List ProblemRow} {q : ProblemRow} (hturn : batchList.turnOf base q = some q)
    (hfirst : q.externalId ∉ batchList.taken base done) :
    turnFate c CreateJobError.isOperationConflict batchList base done q = .stops ↔
      turnConflict c base q = some .idempotencyConflict := by
  rw [turnFate, hturn]
  dsimp only
  rw [if_neg hfirst]
  cases hconflict : turnConflict c base q with
  | none => simp
  | some e =>
      rcases turnConflict_cases q hconflict with rfl | rfl <;> simp [CreateJobError.isOperationConflict]

include hids in
theorem reached_batch_iff (hcollate : Function.Injective collate) {p : ProblemRow}
    (hp : p ∈ base.problems) (hselected : batchSelects c base p = true) :
    p ∈ (SchedulingCall.batch limit).reached collate c base ↔
      base.problems.countP (olderThan collate c base p) < limit ∧
        ∀ q ∈ base.problems, olderThan collate c base p q = true →
          turnConflict c base q ≠ some .idempotencyConflict := by
  have hreached : p ∈ (SchedulingCall.batch limit).reached collate c base ↔
      p ∈ attempted (turnFate c CreateJobError.isOperationConflict batchList base) []
        (batchRows collate c limit base) := by
    rw [SchedulingCall.reached, List.mem_filterMap]
    constructor
    · rintro ⟨q, hq, hturn⟩
      rw [turnOf_batch hids (mem_of_mem_attempted hq)] at hturn
      cases hturn
      exact hq
    · intro h
      exact ⟨p, h, turnOf_batch hids (mem_of_mem_attempted h)⟩
  rw [hreached, ← mem_batchRows_iff limit hids hcollate hp hselected]
  have hnodup : (batchRows collate c limit base).Nodup :=
    (nodup_batchRows collate c hids limit).of_map
  -- The rows before `p` are the older ones.
  have hfront : ∀ {front back}, batchRows collate c limit base = front ++ p :: back →
      ∀ q, q ∈ front ↔ q ∈ base.problems ∧ olderThan collate c base p q = true := by
    intro front back hsplit q
    rw [mem_front_iff (batchKeys_nodup hids hcollate) hsplit, List.mem_filter, olderThan,
      Bool.and_eq_true, decide_eq_true_eq, and_assoc]
  have hstops : ∀ {f q g back}, batchRows collate c limit base = (f ++ q :: g) ++ p :: back →
      (turnFate c CreateJobError.isOperationConflict batchList base f q = .stops ↔
        turnConflict c base q = some .idempotencyConflict) := by
    intro f q g back hsplit
    rw [List.append_assoc, List.cons_append] at hsplit
    apply stops_iff
    · have hmem : q ∈ batchRows collate c limit base := by
        rw [hsplit]
        exact List.mem_append_right _ List.mem_cons_self
      exact turnOf_batch hids hmem
    · exact batch_not_taken hids hsplit
  constructor
  · intro h
    have hmem := mem_of_mem_attempted h
    refine ⟨hmem, ?_⟩
    obtain ⟨front, back, hsplit⟩ := List.append_of_mem hmem
    intro q hq hbefore
    obtain ⟨f, g, hf⟩ := List.append_of_mem ((hfront hsplit q).mpr ⟨hq, hbefore⟩)
    rw [hsplit] at h hnodup
    have hgo := not_stops_of_mem_attempted hnodup h hf
    rw [hf] at hsplit
    exact mt (hstops hsplit).mpr hgo
  · rintro ⟨hmem, hfree⟩
    obtain ⟨front, back, hsplit⟩ := List.append_of_mem hmem
    rw [hsplit]
    apply mem_attempted_split
    intro f q g hf
    obtain ⟨hq, hbefore⟩ := (hfront hsplit q).mp (by
      rw [hf]
      exact List.mem_append_right _ List.mem_cons_self)
    rw [hf] at hsplit
    exact mt (hstops hsplit).mp (hfree q hq hbefore)

/-- A batch creates a job for a waiting problem exactly when one is in its reach. -/
theorem batch_reaches_iff (hdraws : DrawsNew c) (hcollate : Function.Injective collate)
    (hids : (base.problems.map ProblemRow.externalId).Nodup) (hidx : JobIndexes base.jobs) :
    ReachesWaiting collate c limit base ↔
      ((∃ p, WaitsForBatch c base p) → ∃ p, InReach collate c limit base p) := by
  unfold ReachesWaiting
  refine imp_congr_right fun _ => exists_congr fun p => ?_
  obtain ⟨hserved, -⟩ :=
    call_served hdraws (takesTurns_batch collate hids limit) hids hidx
  constructor
  · rintro ⟨hwaiting, hcreated⟩
    obtain ⟨hreached, hgains⟩ :=
      (hserved.createdFor_iff (rowOf_of_mem hids hwaiting.mem)).mp hcreated
    obtain ⟨hwithin, hunblocked⟩ :=
      (reached_batch_iff hids hcollate hwaiting.mem hwaiting.selected).mp hreached
    exact ⟨hwaiting, hwithin, hunblocked, hgains⟩
  · rintro ⟨hwaiting, hwithin, hunblocked, hgains⟩
    refine ⟨hwaiting, (hserved.createdFor_iff (rowOf_of_mem hids hwaiting.mem)).mpr ⟨?_, hgains⟩⟩
    exact (reached_batch_iff hids hcollate hwaiting.mem hwaiting.selected).mpr
      ⟨hwithin, hunblocked⟩

end Reach

section Sample

def queuedDb : Database where
  problems := [editedProblem "101", { editedProblem "102" with observedAt := 1 }]
  problemUsage := [presentFolder "101", presentFolder "102"]
  jobs := [newJob 0 1 (autoScanRequest (editedProblem "101") 0),
    newJob 0 2 (autoSnapshotRequest (editedProblem "101") 1 0)]

theorem queuedDb_indexes : JobIndexes queuedDb.jobs :=
  ⟨by decide +kernel, by decide +kernel, by decide +kernel⟩

theorem waiting_queuedDb :
    WaitsForBatch backupContext queuedDb { editedProblem "102" with observedAt := 1 } where
  mem := List.mem_cons_of_mem _ List.mem_cons_self
  selected := by decide +kernel
  unscheduled := by decide +kernel

/-- A batch of one selects 101 and creates nothing. -/
theorem batch_of_one_passes_over :
    ¬ ReachesWaiting (id : String → String) backupContext 1 queuedDb := by
  intro h
  obtain ⟨p, -, j, hj, -, hnew⟩ := h ⟨_, waiting_queuedDb⟩
  have hold : ∀ j ∈ (scheduleDirtySnapshotBatch (id : String → String) backupContext 1
      queuedDb).state.jobs, ∃ k ∈ queuedDb.jobs, k.id = j.id := by decide +kernel
  obtain ⟨k, hk, hid⟩ := hold j hj
  exact hnew k hk hid

/-- A batch of two comes to 102. -/
theorem batch_of_two_reaches :
    ReachesWaiting (id : String → String) backupContext 2 queuedDb := by
  apply (batch_reaches_iff backupContext_drawsNew Function.injective_id (by decide)
    queuedDb_indexes).mpr
  intro _
  refine ⟨_, waiting_queuedDb, by decide +kernel, by decide +kernel, ?_⟩
  exact ⟨by decide +kernel, .inl (by decide +kernel)⟩

end Sample

end ExternalStorage.Jobs
