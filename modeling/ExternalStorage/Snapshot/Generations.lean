import ExternalStorage.Library.Runs
import ExternalStorage.Model.Problems
import ExternalStorage.Model.Snapshots

/-!
# The generations of a problem

Two statements take generations from `problem_generation_counters`.  The control plane's
counts on; the watcher's also goes past every generation it has seen in `snapshots` and
`problem_usage`.  A snapshot request that names its generation takes none, and its row may
be one that the counter has still to reach.
-/

namespace ExternalStorage.Snapshot

open ExternalStorage.Model Library.Runs Library.Table

/-! ## The two allocators -/

def allocateCounterValue (currentNext maxObservedGeneration : Int) : Int × Int :=
  let generation := max (max currentNext (maxObservedGeneration + 1)) 1
  (generation, generation + 1)

theorem nextGeneration_upsertOn {problemId : String} {first : Int}
    {merge : GenerationCounterRow → GenerationCounterRow}
    (hmerge : ∀ c, (merge c).problemId = c.problemId) (counters : List GenerationCounterRow) :
    nextGeneration (upsertOn GenerationCounterRow.problemId ⟨problemId, first⟩ merge counters)
        problemId =
      (((counters.find? fun c => c.problemId = problemId).map merge).getD
        ⟨problemId, first⟩).nextGeneration := by
  rw [nextGeneration, find?_upsertOn hmerge, if_pos rfl, Option.map_some, Option.getD_some]

theorem allocateGeneration_eq (problemId : String) (counters : List GenerationCounterRow) :
    (allocateGeneration problemId counters).2 = nextGeneration counters problemId ∧
      nextGeneration (allocateGeneration problemId counters).1 problemId =
        nextGeneration counters problemId + 1 := by
  have hnext : nextGeneration (allocateGeneration problemId counters).1 problemId =
      nextGeneration counters problemId + 1 := by
    rw [allocateGeneration, nextGeneration_upsertOn (by exact fun _ => rfl), nextGeneration]
    cases counters.find? fun c => c.problemId = problemId <;> rfl
  refine ⟨?_, hnext⟩
  calc (allocateGeneration problemId counters).2
      = nextGeneration (allocateGeneration problemId counters).1 problemId - 1 := rfl
    _ = nextGeneration counters problemId := by omega

theorem allocGeneration_eq (problemId : String) (seen : Int)
    (counters : List GenerationCounterRow) :
    (nextGeneration (allocGeneration problemId seen counters) problemId - 1,
        nextGeneration (allocGeneration problemId seen counters) problemId) =
      allocateCounterValue (nextGeneration counters problemId) seen := by
  have hnext : nextGeneration (allocGeneration problemId seen counters) problemId =
      max (max (nextGeneration counters problemId) (seen + 1)) 1 + 1 := by
    rw [allocGeneration, nextGeneration_upsertOn (by exact fun _ => rfl)]
    rw [nextGeneration]
    cases counters.find? fun c => decide (c.problemId = problemId) with
    | none =>
        simp only [Option.map_none, Option.getD_none]
        omega
    | some c =>
        simp only [Option.map_some, Option.getD_some]
        omega
  rw [hnext, allocateCounterValue, Int.add_sub_cancel]

/-! ## The machine -/

/-- The counter and the snapshots of one problem. -/
structure Allocations where
  db : Database
  /-- The generations handed out, in their order: history the program does not keep. -/
  allocated : List Int := []
  /-- The generations that snapshot requests have named. -/
  named : List Int := []
  /-- What the watcher's statements have read that still wait for the counter's row. -/
  reads : List Int := []

inductive AllocationAction where
  /-- `allocateGenerationOnClient`, whoever calls it. -/
  | allocate
  /-- `ACQUIRE_DIRTY_SNAPSHOT_JOB_SQL` reads `generation_seed` as its snapshot has it. -/
  | watcherRead
  | watcherAllocate (i : Nat)
  /-- `POST /problems/:externalId/snapshot` with a generation in its body. -/
  | request (generation : Int)
  /-- `claim_snapshot` for a job with that target. -/
  | claim (now : Timestamp) (id : Uuid) (generation : Int) (createdAt : Timestamp)
  /-- Any other statement. -/
  | rest (db : Database)

def handsOut (problemId : String) (a : Allocations) :
    AllocationAction → Option (List GenerationCounterRow × Int)
  | .allocate => some (allocateGeneration problemId a.db.problemGenerationCounters)
  | .watcherAllocate i => a.reads[i]?.map fun seen =>
      (allocGeneration problemId seen a.db.problemGenerationCounters,
        nextGeneration (allocGeneration problemId seen a.db.problemGenerationCounters)
          problemId - 1)
  | _ => none

/-- Snapshots of the problem go or change their state, its counter stays, and its usage names
the generation of a snapshot. -/
def keepsGenerations (problemId : String) (before after : Database) : Bool :=
  nextGeneration after.problemGenerationCounters problemId =
      nextGeneration before.problemGenerationCounters problemId &&
    after.snapshots.all (fun s => s.problemId ≠ problemId ||
      before.snapshots.any fun r => r.isFor problemId s.generation) &&
    (usageGeneration after.problemUsage problemId).all fun g =>
      usageGeneration before.problemUsage problemId = some g ||
        before.snapshots.any fun r => r.isFor problemId g

def generationStep (problemId : String) (a : Allocations) (action : AllocationAction) :
    Option Allocations :=
  match action with
  | .allocate =>
      (handsOut problemId a .allocate).map fun r => { a with
        db := { a.db with problemGenerationCounters := r.1 }, allocated := a.allocated ++ [r.2] }
  | .watcherRead => some { a with reads := a.reads ++ [maxGeneration a.db problemId] }
  | .watcherAllocate i =>
      (handsOut problemId a (.watcherAllocate i)).map fun r => { a with
        db := { a.db with problemGenerationCounters := r.1 }, allocated := a.allocated ++ [r.2]
        reads := a.reads.eraseIdx i }
  | .request generation => some { a with named := a.named ++ [generation] }
  | .claim now id generation createdAt =>
      if generation ∈ a.allocated ∨ generation ∈ a.named then
        some { a with db := { a.db with
          snapshots := (claimSnapshot now a.db.snapshots id problemId generation createdAt).1 } }
      else
        none
  | .rest db => if keepsGenerations problemId a.db db then some { a with db := db } else none

/-! ## Statements -/

def presentGenerations (problemId : String) (db : Database) : List Int :=
  (db.snapshots.filter fun s => s.problemId = problemId).map SnapshotRow.generation ++
    (usageGeneration db.problemUsage problemId).toList

/-- A generation that is handed out is above all those handed out before. -/
def AboveEarlier (problemId : String) (a : Allocations) (action : AllocationAction)
    (_ : Allocations) : Prop :=
  ∀ r ∈ handsOut problemId a action, ∀ g ∈ a.allocated, g < r.2

/-- It is above every snapshot there is too, and `finalize_snapshot_cas` finds no later one
in the usage. -/
def Fresh (problemId : String) (a : Allocations) (action : AllocationAction)
    (a' : Allocations) : Prop :=
  AboveEarlier problemId a action a' ∧
    ∀ r ∈ handsOut problemId a action, ∀ g ∈ presentGenerations problemId a.db, g < r.2

/-- At an allocation the counter has passed the snapshots there are, but for those the
watcher's statement has seen. -/
def CounterAhead (problemId : String) (a : Allocations) (action : AllocationAction)
    (_ : Allocations) : Prop :=
  match action with
  | .allocate => ∀ g ∈ presentGenerations problemId a.db,
      g < nextGeneration a.db.problemGenerationCounters problemId
  | .watcherAllocate i => ∀ seen ∈ a.reads[i]?, ∀ g ∈ presentGenerations problemId a.db,
      g < nextGeneration a.db.problemGenerationCounters problemId ∨ g ≤ seen
  | _ => True

/-- A row is made for generations that the counter has passed: a request names none that was
never handed out. -/
def ClaimsHandedOut (problemId : String) (a : Allocations) (action : AllocationAction)
    (_ : Allocations) : Prop :=
  match action with
  | .claim _ _ generation _ =>
      generation < nextGeneration a.db.problemGenerationCounters problemId
  | _ => True

instance (problemId : String) (a a' : Allocations) (action : AllocationAction) :
    Decidable (Fresh problemId a action a') :=
  inferInstanceAs (Decidable ((∀ r ∈ handsOut problemId a action, _) ∧
    ∀ r ∈ handsOut problemId a action, _))

instance (problemId : String) (a a' : Allocations) (action : AllocationAction) :
    Decidable (CounterAhead problemId a action a') := by
  unfold CounterAhead
  split <;> infer_instance

instance (problemId : String) (a a' : Allocations) (action : AllocationAction) :
    Decidable (ClaimsHandedOut problemId a action a') := by
  unfold ClaimsHandedOut
  split <;> infer_instance

/-- The counter as migration 003 leaves it, before the first action. -/
structure CounterSeeded (problemId : String) (a : Allocations) : Prop where
  positive : 1 ≤ nextGeneration a.db.problemGenerationCounters problemId
  ahead : ∀ g ∈ presentGenerations problemId a.db,
    g < nextGeneration a.db.problemGenerationCounters problemId
  allocated : a.allocated = []

/-! ## The counter -/

structure CounterInv (problemId : String) (a : Allocations) : Prop where
  positive : 1 ≤ nextGeneration a.db.problemGenerationCounters problemId
  behind : ∀ g ∈ a.allocated, g < nextGeneration a.db.problemGenerationCounters problemId

theorem handsOut_cases {problemId : String} {a : Allocations} {action : AllocationAction}
    {r : List GenerationCounterRow × Int} (hinv : CounterInv problemId a)
    (h : handsOut problemId a action = some r) :
    nextGeneration r.1 problemId = r.2 + 1 ∧
      (action = .allocate ∧ r.2 = nextGeneration a.db.problemGenerationCounters problemId ∨
        ∃ i seen, action = .watcherAllocate i ∧ a.reads[i]? = some seen ∧
          r.2 = max (nextGeneration a.db.problemGenerationCounters problemId) (seen + 1)) := by
  cases action with
  | allocate =>
      cases h
      obtain ⟨hgeneration, hnext⟩ :=
        allocateGeneration_eq problemId a.db.problemGenerationCounters
      refine ⟨?_, .inl ⟨rfl, hgeneration⟩⟩
      rw [hnext, hgeneration]
  | watcherAllocate i =>
      obtain ⟨seen, hseen, rfl⟩ := Option.map_eq_some_iff.mp h
      refine ⟨(Int.sub_add_cancel _ _).symm, .inr ⟨i, seen, rfl, hseen, ?_⟩⟩
      have heq := congrArg Prod.fst
        (allocGeneration_eq problemId seen a.db.problemGenerationCounters)
      have hpositive := hinv.positive
      rw [allocateCounterValue] at heq
      dsimp only at heq ⊢
      omega
  | watcherRead => cases h
  | request _ => cases h
  | claim _ _ _ _ => cases h
  | rest _ => cases h

theorem handsOut_ge {problemId : String} {a : Allocations} {action : AllocationAction}
    {r : List GenerationCounterRow × Int} (hinv : CounterInv problemId a)
    (h : handsOut problemId a action = some r) :
    nextGeneration a.db.problemGenerationCounters problemId ≤ r.2 := by
  rcases (handsOut_cases hinv h).2 with ⟨-, hr⟩ | ⟨i, seen, -, -, hr⟩
  · exact Int.le_of_eq hr.symm
  · rw [hr]
    exact Int.le_max_left _ _

theorem aboveEarlier_of_inv {problemId : String} {a a' : Allocations} {action : AllocationAction}
    (hinv : CounterInv problemId a) : AboveEarlier problemId a action a' := by
  intro r hr g hg
  calc g < nextGeneration a.db.problemGenerationCounters problemId := hinv.behind g hg
    _ ≤ r.2 := handsOut_ge hinv hr

theorem counter_step {problemId : String} {a a' : Allocations} {action : AllocationAction}
    (h : generationStep problemId a action = some a') :
    (∃ r, handsOut problemId a action = some r ∧
        a'.db = { a.db with problemGenerationCounters := r.1 } ∧
        a'.allocated = a.allocated ++ [r.2]) ∨
      nextGeneration a'.db.problemGenerationCounters problemId =
        nextGeneration a.db.problemGenerationCounters problemId ∧ a'.allocated = a.allocated := by
  cases action with
  | allocate =>
      simp only [generationStep] at h
      obtain ⟨r, hr, rfl⟩ := Option.map_eq_some_iff.mp h
      exact .inl ⟨r, hr, rfl, rfl⟩
  | watcherAllocate i =>
      simp only [generationStep] at h
      obtain ⟨r, hr, rfl⟩ := Option.map_eq_some_iff.mp h
      exact .inl ⟨r, hr, rfl, rfl⟩
  | watcherRead =>
      cases h
      exact .inr ⟨rfl, rfl⟩
  | request generation =>
      cases h
      exact .inr ⟨rfl, rfl⟩
  | claim now id generation createdAt =>
      simp only [generationStep] at h
      split at h
      · cases h
        exact .inr ⟨rfl, rfl⟩
      · cases h
  | rest db =>
      simp only [generationStep] at h
      split at h
      · rename_i hkeeps
        cases h
        simp only [keepsGenerations, Bool.and_eq_true, decide_eq_true_eq] at hkeeps
        exact .inr ⟨hkeeps.1.1, rfl⟩
      · cases h

theorem counterInv_step {problemId : String} {a a' : Allocations} {action : AllocationAction}
    (hinv : CounterInv problemId a) (h : generationStep problemId a action = some a') :
    CounterInv problemId a' := by
  rcases counter_step h with ⟨r, hr, hdb, hallocated⟩ | ⟨hnext, hallocated⟩
  · have hge := handsOut_ge hinv hr
    have hnext : nextGeneration a'.db.problemGenerationCounters problemId = r.2 + 1 := by
      rw [hdb]
      exact (handsOut_cases hinv hr).1
    have hpositive := hinv.positive
    refine ⟨by omega, ?_⟩
    intro g hg
    rw [hallocated, List.mem_append, List.mem_singleton] at hg
    rcases hg with hold | rfl
    · have hlt := hinv.behind g hold
      omega
    · omega
  · refine ⟨hnext ▸ hinv.positive, ?_⟩
    rw [hallocated, hnext]
    exact hinv.behind

/-- What is handed out is above the snapshots exactly when the counter is ahead of them. -/
theorem fresh_iff {problemId : String} {a a' : Allocations} {action : AllocationAction}
    (hinv : CounterInv problemId a) :
    Fresh problemId a action a' ↔ CounterAhead problemId a action a' := by
  rw [Fresh, and_iff_right (aboveEarlier_of_inv hinv)]
  cases action with
  | allocate =>
      have hgeneration := (allocateGeneration_eq problemId a.db.problemGenerationCounters).1
      constructor
      · intro h g hg
        have hlt := h _ rfl g hg
        omega
      · intro h r hr g hg
        cases hr
        have hlt := h g hg
        omega
  | watcherAllocate i =>
      constructor
      · intro h seen hseen g hg
        have hsome : handsOut problemId a (.watcherAllocate i) = some
            (allocGeneration problemId seen a.db.problemGenerationCounters,
              nextGeneration (allocGeneration problemId seen a.db.problemGenerationCounters)
                problemId - 1) := by
          rw [handsOut, Option.mem_def.mp hseen]
          rfl
        have hlt := h _ hsome g hg
        rcases (handsOut_cases hinv hsome).2 with ⟨hno, -⟩ | ⟨j, seen', hj, hseen', hr⟩
        · cases hno
        · cases hj
          obtain rfl : seen = seen' := Option.some.inj (hseen.symm.trans hseen')
          dsimp only at hlt hr
          omega
      · intro h r hr g hg
        rcases (handsOut_cases hinv hr).2 with ⟨hno, -⟩ | ⟨j, seen, hj, hseen, hr⟩
        · cases hno
        · cases hj
          rcases h seen hseen g hg with hlt | hle <;> omega
  | watcherRead => exact iff_of_true (by intro r hr; cases hr) trivial
  | request _ => exact iff_of_true (by intro r hr; cases hr) trivial
  | claim _ _ _ _ => exact iff_of_true (by intro r hr; cases hr) trivial
  | rest _ => exact iff_of_true (by intro r hr; cases hr) trivial

/-! ## The snapshots -/

theorem mem_presentGenerations {problemId : String} {db : Database} {g : Int} :
    g ∈ presentGenerations problemId db ↔
      (∃ s ∈ db.snapshots, s.isFor problemId g = true) ∨
        usageGeneration db.problemUsage problemId = some g := by
  simp only [presentGenerations, List.mem_append, List.mem_map, List.mem_filter, and_assoc,
    decide_eq_true_eq, SnapshotRow.isFor_iff, Option.mem_toList]

theorem isFor_claimSnapshot {now : Timestamp} {rows : List SnapshotRow} {id : Uuid}
    {problemId : String} {generation : Int} {createdAt : Timestamp} {s : SnapshotRow} {g : Int}
    (hs : s ∈ (claimSnapshot now rows id problemId generation createdAt).1)
    (hg : s.isFor problemId g = true) :
    (∃ r ∈ rows, r.isFor problemId g = true) ∨ g = generation := by
  unfold claimSnapshot at hs
  split at hs
  · rcases List.mem_append.mp hs with hold | hnew
    · exact .inl ⟨s, hold, hg⟩
    · obtain rfl := List.mem_singleton.mp hnew
      exact .inr (SnapshotRow.isFor_iff.mp hg).2.symm
  · split at hs
    · obtain ⟨r, hr, rfl⟩ := mem_updateWhere.mp hs
      refine .inl ⟨r, hr, ?_⟩
      split at hg <;> exact hg
    · exact .inl ⟨s, hs, hg⟩

theorem present_step {problemId : String} {a a' : Allocations} {action : AllocationAction} {g : Int}
    (h : generationStep problemId a action = some a')
    (hg : g ∈ presentGenerations problemId a'.db) :
    g ∈ presentGenerations problemId a.db ∨
      ∃ now id createdAt, action = .claim now id g createdAt := by
  cases action with
  | allocate =>
      cases h
      exact .inl hg
  | watcherAllocate i =>
      simp only [generationStep] at h
      obtain ⟨r, -, rfl⟩ := Option.map_eq_some_iff.mp h
      exact .inl hg
  | watcherRead =>
      cases h
      exact .inl hg
  | request generation =>
      cases h
      exact .inl hg
  | claim now id generation createdAt =>
      simp only [generationStep] at h
      split at h
      · cases h
        rw [mem_presentGenerations] at hg ⊢
        rcases hg with ⟨s, hs, hfor⟩ | husage
        · rcases isFor_claimSnapshot hs hfor with hold | rfl
          · exact .inl (.inl hold)
          · exact .inr ⟨now, id, createdAt, rfl⟩
        · exact .inl (.inr husage)
      · cases h
  | rest db =>
      simp only [generationStep] at h
      split at h
      · rename_i hkeeps
        cases h
        left
        simp only [keepsGenerations, Bool.and_eq_true, decide_eq_true_eq, List.all_eq_true,
          Bool.or_eq_true, List.any_eq_true, Option.all_eq_true] at hkeeps
        obtain ⟨⟨-, hsnapshots⟩, husage⟩ := hkeeps
        rw [mem_presentGenerations] at hg ⊢
        rcases hg with ⟨s, hs, hfor⟩ | hused
        · obtain ⟨hproblem, rfl⟩ := SnapshotRow.isFor_iff.mp hfor
          rcases hsnapshots s hs with hother | hold
          · exact absurd hproblem hother
          · exact .inl hold
        · rcases husage g hused with hsame | hold
          · exact .inr hsame
          · exact .inl hold
      · cases h

def Ahead (problemId : String) (a : Allocations) : Prop :=
  ∀ g ∈ presentGenerations problemId a.db,
    g < nextGeneration a.db.problemGenerationCounters problemId

theorem Ahead.counterAhead {problemId : String} {a a' : Allocations} {action : AllocationAction}
    (h : Ahead problemId a) : CounterAhead problemId a action a' := by
  cases action with
  | allocate => exact h
  | watcherAllocate i => exact fun seen _ g hg => .inl (h g hg)
  | watcherRead => trivial
  | request _ => trivial
  | claim _ _ _ _ => trivial
  | rest _ => trivial

theorem ahead_step {problemId : String} {a a' : Allocations} {action : AllocationAction}
    (hinv : CounterInv problemId a) (hahead : Ahead problemId a)
    (hclaims : ClaimsHandedOut problemId a action a')
    (h : generationStep problemId a action = some a') : Ahead problemId a' := by
  have hmono : nextGeneration a.db.problemGenerationCounters problemId ≤
      nextGeneration a'.db.problemGenerationCounters problemId := by
    rcases counter_step h with ⟨r, hr, hdb, -⟩ | ⟨hnext, -⟩
    · have hge := handsOut_ge hinv hr
      have hnext := (handsOut_cases hinv hr).1
      rw [hdb]
      dsimp only
      omega
    · exact Int.le_of_eq hnext.symm
  intro g hg
  refine Int.lt_of_lt_of_le ?_ hmono
  rcases present_step h hg with hold | ⟨now, id, createdAt, rfl⟩
  · exact hahead g hold
  · exact hclaims

/-! ## The run -/

theorem CounterSeeded.inv {problemId : String} {a : Allocations} (h : CounterSeeded problemId a) :
    CounterInv problemId a := by
  refine ⟨h.positive, ?_⟩
  rw [h.allocated]
  exact fun g hg => absurd hg List.not_mem_nil

theorem counterInv_run {problemId : String} {a : Allocations} (h : CounterSeeded problemId a)
    (actions : List AllocationAction) :
    EveryStep (generationStep problemId) (fun a _ _ => CounterInv problemId a) a actions :=
  everyStep_of_invariant (I := CounterInv problemId) (C := fun _ _ _ => True)
    (fun _ _ _ hinv _ hstep => counterInv_step hinv hstep) (fun _ _ _ hinv _ _ => hinv) h.inv
    (everyStep_of_forall_mem fun _ _ => trivial)

theorem aboveEarlier_run {problemId : String} {a : Allocations} (h : CounterSeeded problemId a)
    (actions : List AllocationAction) :
    EveryStep (generationStep problemId) (AboveEarlier problemId) a actions :=
  (counterInv_run h actions).mono fun _ _ _ _ hinv => aboveEarlier_of_inv hinv

theorem counterAhead_run {problemId : String} {a : Allocations} {actions : List AllocationAction}
    (h : CounterSeeded problemId a)
    (hclaims : EveryStep (generationStep problemId) (ClaimsHandedOut problemId) a actions) :
    EveryStep (generationStep problemId) (CounterAhead problemId) a actions :=
  everyStep_of_invariant (I := fun a => CounterInv problemId a ∧ Ahead problemId a)
    (fun _ _ _ hinv hclaim hstep =>
      ⟨counterInv_step hinv.1 hstep, ahead_step hinv.1 hinv.2 hclaim hstep⟩)
    (fun _ _ _ hinv _ _ => hinv.2.counterAhead) ⟨h.inv, h.ahead⟩ hclaims

/-- Along every run a generation is above those handed out before it.  It is above the
snapshots there are exactly when the counter is ahead of them, as it is while rows are made
for generations the counter has passed. -/
theorem generations_fresh {problemId : String} {a : Allocations} {actions : List AllocationAction}
    (h : CounterSeeded problemId a) :
    EveryStep (generationStep problemId) (AboveEarlier problemId) a actions ∧
      (EveryStep (generationStep problemId) (Fresh problemId) a actions ↔
        EveryStep (generationStep problemId) (CounterAhead problemId) a actions) ∧
      (EveryStep (generationStep problemId) (ClaimsHandedOut problemId) a actions →
        EveryStep (generationStep problemId) (Fresh problemId) a actions) := by
  have hinv := counterInv_run h actions
  have hiff : EveryStep (generationStep problemId) (Fresh problemId) a actions ↔
      EveryStep (generationStep problemId) (CounterAhead problemId) a actions := by
    constructor
    · intro hfresh
      exact (hinv.and hfresh).mono fun _ _ _ _ h => (fresh_iff h.1).mp h.2
    · intro hahead
      exact (hinv.and hahead).mono fun _ _ _ _ h => (fresh_iff h.1).mpr h.2
  exact ⟨aboveEarlier_run h actions, hiff, fun hclaims => hiff.mpr (counterAhead_run h hclaims)⟩

def noGenerations : Allocations where
  db := { problems := [presentRow "101" "aplusb"] }

theorem noGenerations_seeded : CounterSeeded "101" noGenerations :=
  ⟨by decide, by decide, rfl⟩

/-- A request names generation 5, and the watcher allocates before the control plane does. -/
def watcherCatchesUp : List AllocationAction :=
  [.allocate, .claim 0 1 1 0, .request 5, .claim 0 2 5 0, .watcherRead, .watcherAllocate 0,
    .claim 0 3 6 0, .allocate]

theorem generations_fresh_caught_up :
    (exec (generationStep "101") noGenerations watcherCatchesUp).map Allocations.allocated =
        some [1, 6, 7] ∧
      EveryStep (generationStep "101") (Fresh "101") noGenerations watcherCatchesUp :=
  ⟨by decide +kernel, (generations_fresh noGenerations_seeded).2.1.mpr (by decide +kernel)⟩

/-- A request names generation 5, and the control plane counts from 1. -/
def namedAhead : List AllocationAction := [.request 5, .claim 0 1 5 0, .allocate]

theorem allocated_below_snapshot :
    CounterSeeded "101" noGenerations ∧
      (exec (generationStep "101") noGenerations namedAhead).map (fun a =>
        (a.allocated, presentGenerations "101" a.db)) = some ([1], [5]) ∧
      ¬ EveryStep (generationStep "101") (Fresh "101") noGenerations namedAhead :=
  ⟨noGenerations_seeded, by decide +kernel, by decide +kernel⟩

end ExternalStorage.Snapshot
