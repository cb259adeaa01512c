import ExternalStorage.Model.Locking

/-!
# Deadlocks of a problem

Dirty markings and the outcomes of jobs lock the row in `problems` first and that in
`problem_usage` second; `finalize_snapshot_cas` does it the other way round.  Two
transactions wait for each other's rows only where these two orders meet.
-/

namespace ExternalStorage.Snapshot

open ExternalStorage.Model Library.Runs Library.Locks

abbrev LockState := State Database Transaction Lock
abbrev LockSession := Session Transaction Lock
abbrev LockAction := Action Database Transaction

/-! ## Statements -/

/-- Two transactions each wait for a row of one problem that the other holds. -/
def Deadlocked (s : LockState) : Prop :=
  ∃ t ∈ s.sessions, ∃ u ∈ s.sessions, ∃ l ∈ t.waiting, ∃ l' ∈ u.waiting,
    l ∈ u.held ∧ l' ∈ t.held ∧ l.row.isSome = true ∧ l.row = l'.row

def finalizes : Transaction → Bool
  | .finalize .. => true
  | _ => false

/-- `t` finalizes a snapshot, holds the usage row and goes for the problem; `u`, which does
not finalize, holds the problem and goes for the usage row. -/
def crossing (db : Database) (t u : LockSession) : Bool :=
  match t.wanted locks db with
  | some (.problems id) =>
      finalizes t.kind && !finalizes u.kind && t.held.contains (.problemUsage id) &&
        u.held.contains (.problems id) && u.wanted locks db = some (.problemUsage id)
  | _ => false

def Crossed (s : LockState) : Prop :=
  ∃ t ∈ s.sessions, ∃ u ∈ s.sessions, crossing s.committed t u = true

instance (s : LockState) : Decidable (Deadlocked s) :=
  inferInstanceAs (Decidable (∃ t ∈ s.sessions, ∃ u ∈ s.sessions, ∃ l ∈ t.waiting,
    ∃ l' ∈ u.waiting, _))

instance (s : LockState) : Decidable (Crossed s) :=
  inferInstanceAs (Decidable (∃ t ∈ s.sessions, ∃ u ∈ s.sessions, _))

theorem crossing_iff {db : Database} {t u : LockSession} :
    crossing db t u = true ↔ ∃ id, t.wanted locks db = some (.problems id) ∧
      finalizes t.kind = true ∧ finalizes u.kind = false ∧ Lock.problemUsage id ∈ t.held ∧
        Lock.problems id ∈ u.held ∧ u.wanted locks db = some (.problemUsage id) := by
  unfold crossing
  split
  · rename_i id hwanted
    simp only [Bool.and_eq_true, Bool.not_eq_true', decide_eq_true_eq, List.contains_eq_mem,
      and_assoc, hwanted, Option.some.injEq, Lock.problems.injEq, exists_eq_left']
  · rename_i hnot
    constructor
    · intro h
      cases h
    · rintro ⟨id, hwanted, -⟩
      exact absurd hwanted (hnot id)

/-! ## The order of the locks -/

theorem leads_usageLock (db : Database) (problemId id : String) (rest : List Lock)
    (hrest : Lock.problemUsage id ∉ rest) :
    Leads (.problems id) (.problemUsage id)
      (.problems problemId :: (usageLock db problemId ++ rest)) := by
  by_cases hid : problemId = id
  · subst hid
    exact leads_cons (by simp)
  · refine leads_of_not_mem ?_
    unfold usageLock
    split <;> simp [hrest, Ne.symm hid]

theorem leads_mutationLocks (db : Database) (e : CatalogEntry) (deleted : Bool) (id : String) :
    Leads (.problems id) (.problemUsage id) (mutationLocks db e deleted) := by
  unfold mutationLocks
  split
  · exact leads_of_not_mem (by simp)
  · have h := leads_usageLock db e.externalId id [] List.not_mem_nil
    rwa [List.append_nil] at h

theorem leads_notifyLocks (db : Database) (idempotencyKey : String) (e : CatalogEntry)
    (deleted : Bool) (id : String) :
    Leads (.problems id) (.problemUsage id) (notifyLocks db idempotencyKey e deleted) := by
  have hmutation : ∀ replayed : Bool, Leads (.problems id) (.problemUsage id)
      (if replayed then [] else mutationLocks db e deleted) := by
    intro replayed
    split
    · exact leads_of_not_mem List.not_mem_nil
    · exact leads_mutationLocks db e deleted id
  unfold notifyLocks
  refine Leads.cons ?_ (by simp)
  split
  · exact hmutation _
  · refine Leads.cons ?_ (by simp)
    split
    · exact hmutation _
    · exact leads_of_not_mem List.not_mem_nil

theorem leads_watchLocks (db : Database) (code id : String) :
    Leads (.problems id) (.problemUsage id) (watchLocks db code) := by
  unfold watchLocks
  split
  · exact leads_of_not_mem List.not_mem_nil
  · exact leads_usageLock db _ id _ (by simp)

theorem leads_outcomeLocks (old new : JobRow) (id : String) :
    Leads (.problems id) (.problemUsage id) (outcomeLocks old new) := by
  unfold outcomeLocks
  split
  · exact leads_of_not_mem List.not_mem_nil
  · rename_i problemId _
    split
    · by_cases hid : problemId = id
      · subst hid
        exact leads_cons (by simp)
      · exact leads_of_not_mem (by simp [Ne.symm hid])
    · exact leads_of_not_mem List.not_mem_nil

theorem problems_first {kind : Transaction} (h : finalizes kind = false) (id : String) :
    Precedes locks kind (.problems id) (.problemUsage id) := by
  intro db
  cases kind with
  | finalize problemId generation expectedDirtyVersion => cases h
  | notify idempotencyKey e deleted => exact leads_notifyLocks db idempotencyKey e deleted id
  | watch code => exact leads_watchLocks db code id
  | finish rows => exact leads_flatMap fun r _ => leads_outcomeLocks r.1 r.2 id

theorem usage_first {kind : Transaction} (h : finalizes kind = true) (id : String) :
    Precedes locks kind (.problemUsage id) (.problems id) := by
  intro db
  cases kind with
  | notify | watch | finish => cases h
  | finalize problemId generation expectedDirtyVersion =>
      change Leads _ _ (finalizeLocks db problemId generation expectedDirtyVersion)
      unfold finalizeLocks
      refine Leads.cons ?_ (by simp)
      split
      · exact leads_of_not_mem List.not_mem_nil
      · by_cases hid : problemId = id
        · subst hid
          exact leads_cons (by simp)
        · refine leads_of_not_mem ?_
          unfold dirtyClearLock
          split
          · split <;> simp [Ne.symm hid]
          · simp

/-! ## The result -/

theorem wanted_of_waiting {db : Database} {t : LockSession} {l : Lock} (h : t.waiting = some l) :
    t.wanted locks db = some l := by
  unfold Session.wanted
  rw [h]

theorem row_eq_some {l : Lock} {id : String} (h : l.row = some id) :
    l = .problems id ∨ l = .problemUsage id := by
  cases l with
  | problems problemId => exact .inl (congrArg Lock.problems (Option.some.inj h))
  | problemUsage problemId => exact .inr (congrArg Lock.problemUsage (Option.some.inj h))
  | operation | folder => cases h

theorem finalizes_of_opposed {kind : Transaction} {id : String}
    (h : ¬ Precedes locks kind (.problems id) (.problemUsage id)) : finalizes kind = true := by
  by_contra hnot
  exact h (problems_first (Bool.not_eq_true _ ▸ hnot) id)

theorem not_finalizes_of_opposed {kind : Transaction} {id : String}
    (h : ¬ Precedes locks kind (.problemUsage id) (.problems id)) : finalizes kind = false := by
  by_contra hnot
  exact h (usage_first (Bool.not_eq_false _ ▸ hnot) id)

theorem crossed_of_deadlocked {s : LockState} (hinv : Inv locks s) (h : Deadlocked s) :
    Crossed s := by
  obtain ⟨t, ht, u, hu, l, hl, l', hl', hheld, hheld', hrow, hsame⟩ := h
  obtain ⟨id, hid⟩ := Option.isSome_iff_exists.mp hrow
  have hwait : MutualWait t u l l' := ⟨hl, hheld, hl', hheld'⟩
  obtain ⟨hopposed, hopposed'⟩ := hwait.opposed locks hinv ht hu
  have hne : l ≠ l' := by
    rintro rfl
    exact hinv.waiting t ht l hl hheld'
  rcases row_eq_some hid with rfl | rfl
  · have husage : l' = .problemUsage id :=
      (row_eq_some (hsame.symm.trans hid)).resolve_left (Ne.symm hne)
    subst husage
    exact ⟨t, ht, u, hu, crossing_iff.mpr ⟨id, wanted_of_waiting hl,
      finalizes_of_opposed hopposed, not_finalizes_of_opposed hopposed', hheld', hheld,
      wanted_of_waiting hl'⟩⟩
  · have hproblem : l' = .problems id :=
      (row_eq_some (hsame.symm.trans hid)).resolve_right (Ne.symm hne)
    subst hproblem
    exact ⟨u, hu, t, ht, crossing_iff.mpr ⟨id, wanted_of_waiting hl',
      finalizes_of_opposed hopposed', not_finalizes_of_opposed hopposed, hheld, hheld',
      wanted_of_waiting hl⟩⟩

theorem deadlock_of_crossed {s : LockState} (hinv : Inv locks s) (h : Crossed s) :
    ∃ p q s', exec (step locks) s [.request p, .request q] = some s' ∧ Deadlocked s' := by
  obtain ⟨t, ht, u, hu, hcrossing⟩ := h
  obtain ⟨id, hl, -, -, hheld', hheld, hl'⟩ := crossing_iff.mp hcrossing
  obtain ⟨s', hexec, t', ht', u', hu', hwait⟩ :=
    mutualWait_of_wanted locks hinv ht hu hl hheld hl' hheld'
  exact ⟨t.pid, u.pid, s', hexec, t', ht', u', hu', _, hwait.waits, _, hwait.waits',
    hwait.holder, hwait.holder', rfl, rfl⟩

/-- Along every interleaving in which no finalize that goes for the problem meets a
transaction that holds it and goes for the usage row, no two transactions wait for rows
of each other; where they meet, asking for the two rows is all it takes. -/
theorem deadlocks_where_crossed (db : Database) (as : List LockAction) :
    (EveryStep (step locks) (fun _ _ s' => ¬ Crossed s') ⟨db, []⟩ as →
      EveryStep (step locks) (fun _ _ s' => ¬ Deadlocked s') ⟨db, []⟩ as) ∧
    EveryStep (step locks) (fun _ _ s' => Crossed s' →
      ∃ p q s'', exec (step locks) s' [.request p, .request q] = some s'' ∧ Deadlocked s'')
        ⟨db, []⟩ as := by
  have hinv := inv_run locks db as
  constructor
  · intro h
    exact (hinv.and h).mono fun _ _ _ _ h hdead => h.2 (crossed_of_deadlocked h.1 hdead)
  · exact hinv.mono fun _ _ _ _ hinv hcrossed => deadlock_of_crossed hinv hcrossed

def dirtyDatabase : Database where
  problems := [⟨"101", "aplusb", none, true, none, none, .present, 0, true, true, some 3, 5, none,
    1⟩]
  problemUsage := [⟨"101", 0, 0, 0, 0, 0, .present, .ready, some 2, 0, 0, 0, false, none⟩]

def dirtyNotification : Transaction :=
  .notify "key" ⟨"101", "aplusb", none, true, none, none, none, 1⟩ false

def oneByOne : List LockAction :=
  [.start 1 dirtyNotification, .start 2 (.finalize "101" 3 (some 5)), .request 1, .request 1,
    .request 1, .request 2, .request 2, .release 1 dirtyDatabase, .request 2, .request 2,
    .release 2 dirtyDatabase]

theorem deadlocks_where_crossed_one_by_one :
    (exec (step locks) ⟨dirtyDatabase, []⟩ oneByOne).isSome ∧
      EveryStep (step locks) (fun _ _ s' => ¬ Deadlocked s') ⟨dirtyDatabase, []⟩ oneByOne :=
  ⟨by decide +kernel, (deadlocks_where_crossed dirtyDatabase oneByOne).1 (by decide +kernel)⟩

/-- The notification comes while the finalize holds the usage row. -/
def notifiedDuringFinalize : List LockAction :=
  [.start 1 (.finalize "101" 3 (some 5)), .request 1, .request 1, .start 2 dirtyNotification,
    .request 2, .request 2, .request 1, .request 2]

theorem finalize_deadlocks :
    (exec (step locks) ⟨dirtyDatabase, []⟩ notifiedDuringFinalize).map State.sessions =
        some [⟨1, .finalize "101" 3 (some 5), [.problemUsage "101", .operation "101"],
            some (.problems "101")⟩,
          ⟨2, dirtyNotification, [.problems "101", .folder "aplusb"],
            some (.problemUsage "101")⟩] ∧
      ¬ EveryStep (step locks) (fun _ _ s' => ¬ Deadlocked s') ⟨dirtyDatabase, []⟩
        notifiedDuringFinalize := by
  constructor
  · rfl
  · decide +kernel

end ExternalStorage.Snapshot
