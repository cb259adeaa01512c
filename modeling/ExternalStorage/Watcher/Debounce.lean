import ExternalStorage.Library.Runs
import ExternalStorage.Library.Table
import Mathlib.Data.List.Pairwise
import Mathlib.Data.Nat.Basic
import Mathlib.Order.MinMax

/-!
# Debounced changes

The event loop of `spawn_watcher` keeps one `DebounceState` for each changed code and drains
the codes whose deadline has come.  Instants and durations are counted in nanoseconds.
-/

namespace ExternalStorage.Watcher.Debounce

open ExternalStorage.Library.Runs ExternalStorage.Library.Table

/-! ## The loop -/

/-- `DEBOUNCE_DELAY`, five seconds. -/
def debounceDelay : Nat := 5 * 1000000000

/-- `DEBOUNCE_MAX_DELAY`, thirty seconds. -/
def debounceMaxDelay : Nat := 30 * 1000000000

structure DebounceState where
  firstSeen : Nat
  deadline : Nat
  deriving DecidableEq, Repr

/-- The subtraction is `saturating_sub`. -/
def debounceWaitForAge (age : Nat) : Nat :=
  min debounceDelay (debounceMaxDelay - age)

def updateDebounce (debounce : List (String × DebounceState)) (code : String) (now : Nat) :
    List (String × DebounceState) :=
  upsertOn Prod.fst (code, ⟨now, now + debounceDelay⟩)
    (fun e => (e.1, { e.2 with deadline := now + debounceWaitForAge (now - e.2.firstSeen) }))
    debounce

/-- The codes that a wake-up at `now` finds. -/
def readyCodes (debounce : List (String × DebounceState)) (now : Nat) : List String :=
  (debounce.filter fun e => e.2.deadline ≤ now).map Prod.fst

/-- The loop, with a record of the changes that no drain has answered yet. -/
structure Loop where
  now : Nat
  debounce : List (String × DebounceState)
  changes : List (String × Nat)
  deriving DecidableEq, Repr

inductive Action where
  /-- A code comes out of the channel. -/
  | change (code : String)
  /-- `sleep_until_optional` ends. -/
  | drain
  | tick (elapsed : Nat)
  deriving DecidableEq, Repr

def Loop.drained (s : Loop) : Loop :=
  { s with
    debounce := deleteWhere (fun e => (readyCodes s.debounce s.now).contains e.1) s.debounce
    changes := deleteWhere (fun c => (readyCodes s.debounce s.now).contains c.1) s.changes }

def step (s : Loop) : Action → Option Loop
  | .change code =>
      some { s with
        debounce := updateDebounce s.debounce code s.now
        changes := s.changes ++ [(code, s.now)] }
  | .drain => if s.debounce.any fun e => e.2.deadline ≤ s.now then some s.drained else none
  | .tick elapsed => some { s with now := s.now + elapsed }

def start (now : Nat) : Loop := ⟨now, [], []⟩

def Loop.changedAt (s : Loop) (code : String) : List Nat :=
  (s.changes.filter fun c => c.1 = code).map Prod.snd

/-! ## Deadlines -/

/-- The deadline after a last change at `tk` of a code that first changed at `t0`. -/
def deadlineAfter (t0 tk : Nat) : Nat :=
  max tk (min (tk + debounceDelay) (t0 + debounceMaxDelay))

theorem deadlineAfter_self (t0 : Nat) : deadlineAfter t0 t0 = t0 + debounceDelay := by
  unfold deadlineAfter debounceDelay debounceMaxDelay
  omega

theorem wait_eq_deadlineAfter {t0 now : Nat} (h : t0 ≤ now) :
    now + debounceWaitForAge (now - t0) = deadlineAfter t0 now := by
  unfold deadlineAfter debounceWaitForAge
  omega

theorem le_deadlineAfter (t0 tk : Nat) : tk ≤ deadlineAfter t0 tk :=
  le_max_left _ _

theorem deadlineAfter_le (t0 tk : Nat) : deadlineAfter t0 tk ≤ max tk (t0 + debounceMaxDelay) :=
  max_le_max le_rfl (min_le_right _ _)

theorem deadlineAfter_mono (t0 : Nat) {tk now : Nat} (h : tk ≤ now) :
    deadlineAfter t0 tk ≤ deadlineAfter t0 now :=
  max_le_max h (min_le_min (Nat.add_le_add_right h _) le_rfl)

/-- Thirty seconds after the first change no deadline is in the future. -/
theorem deadlineAfter_le_of_max {t0 tk now : Nat} (hlast : tk ≤ now)
    (hmax : t0 + debounceMaxDelay ≤ now) : deadlineAfter t0 tk ≤ now :=
  calc deadlineAfter t0 tk ≤ max tk (t0 + debounceMaxDelay) := deadlineAfter_le t0 tk
    _ ≤ now := max_le hlast hmax

/-! ## The entry of a code -/

/-- The only entry that fits the changes of a code: none for no change. -/
def entryFor : List Nat → Option DebounceState
  | [] => none
  | t0 :: ts => some ⟨t0, deadlineAfter t0 (ts.getLastD t0)⟩

/-- What every step keeps. -/
structure Tracked (s : Loop) : Prop where
  entry : ∀ code state, (code, state) ∈ s.debounce ↔ entryFor (s.changedAt code) = some state
  ordered : ∀ code, (s.changedAt code).Pairwise (· ≤ ·)
  past : ∀ code, ∀ t ∈ s.changedAt code, t ≤ s.now

section

variable {s t : Loop} {code : String}

theorem entryFor_concat {ts : List Nat} {now : Nat} (hpast : ∀ t ∈ ts, t ≤ now) :
    entryFor (ts ++ [now]) =
      some (((entryFor ts).map fun e =>
        { e with deadline := now + debounceWaitForAge (now - e.firstSeen) }).getD
          ⟨now, now + debounceDelay⟩) := by
  cases ts with
  | nil =>
      simp only [List.nil_append, entryFor, List.getLastD_nil, deadlineAfter_self, Option.map_none,
        Option.getD_none]
  | cons t0 ts =>
      have hle : t0 ≤ now := hpast t0 List.mem_cons_self
      simp only [List.cons_append, entryFor, Option.map_some, Option.getD_some,
        wait_eq_deadlineAfter hle, List.getLastD_concat]

theorem changedAt_change (s : Loop) (changed : String) (debounce : List (String × DebounceState))
    (code : String) :
    Loop.changedAt ⟨s.now, debounce, s.changes ++ [(changed, s.now)]⟩ code =
      if changed = code then s.changedAt code ++ [s.now] else s.changedAt code := by
  unfold Loop.changedAt
  rw [List.filter_append, List.map_append]
  by_cases h : changed = code
  · simp [h]
  · simp [h]

theorem changedAt_drained (s : Loop) (code : String) :
    s.drained.changedAt code =
      if code ∈ readyCodes s.debounce s.now then [] else s.changedAt code := by
  unfold Loop.changedAt Loop.drained deleteWhere
  dsimp only
  rw [List.filter_filter]
  by_cases h : code ∈ readyCodes s.debounce s.now
  · rw [if_pos h, List.map_eq_nil_iff, List.filter_eq_nil_iff]
    intro c _ hc
    simp only [Bool.and_eq_true, decide_eq_true_eq, Bool.not_eq_true', List.contains_eq_mem,
      decide_eq_false_iff_not] at hc
    exact hc.2 (hc.1 ▸ h)
  · rw [if_neg h]
    congr 1
    apply List.filter_congr
    intro c _
    by_cases hc : c.1 = code
    · simp [hc, h]
    · simp [hc]

theorem mem_readyCodes (hs : Tracked s) :
    code ∈ readyCodes s.debounce s.now ↔
      ∃ state, entryFor (s.changedAt code) = some state ∧ state.deadline ≤ s.now := by
  simp only [readyCodes, List.mem_map, List.mem_filter, decide_eq_true_eq, ← hs.entry]
  constructor
  · rintro ⟨⟨c, state⟩, ⟨hmem, hready⟩, rfl⟩
    exact ⟨state, hmem, hready⟩
  · rintro ⟨state, hmem, hready⟩
    exact ⟨(code, state), ⟨hmem, hready⟩, rfl⟩

theorem mem_updateDebounce (hs : Tracked s) (changed : String) {state : DebounceState} :
    (code, state) ∈ updateDebounce s.debounce changed s.now ↔
      entryFor (if changed = code then s.changedAt code ++ [s.now] else s.changedAt code) =
        some state := by
  unfold updateDebounce
  rw [mem_upsertOn]
  by_cases h : changed = code
  · subst h
    rw [if_pos rfl, entryFor_concat (hs.past changed)]
    cases hfound : entryFor (s.changedAt changed) with
    | none =>
        have hnone : ∀ r ∈ s.debounce, r.1 ≠ changed := by
          rintro ⟨c, e⟩ hr rfl
          rw [hs.entry, hfound] at hr
          cases hr
        grind
    | some e =>
        have hone : (changed, e) ∈ s.debounce := (hs.entry changed e).mpr hfound
        have honly : ∀ r ∈ s.debounce, r.1 = changed → r = (changed, e) := by
          rintro ⟨c, e'⟩ hr rfl
          rw [hs.entry, hfound] at hr
          cases hr
          rfl
        simp only [Option.map_some, Option.getD_some, Option.some.injEq]
        constructor
        · rintro (⟨-, hne⟩ | ⟨r, hr, hkey, heq⟩ | ⟨-, hnone⟩)
          · exact absurd rfl hne
          · obtain rfl := honly r hr hkey
            exact (congrArg Prod.snd heq).symm
          · exact absurd rfl (hnone _ hone)
        · rintro rfl
          exact .inr (.inl ⟨_, hone, rfl, rfl⟩)
  · rw [if_neg h, ← hs.entry]
    grind

theorem tracked_start (now : Nat) : Tracked (start now) where
  entry _ _ := by simp [start, Loop.changedAt, entryFor]
  ordered _ := .nil
  past _ t ht := by cases ht

theorem Tracked.change (hs : Tracked s) (changed : String) :
    Tracked ⟨s.now, updateDebounce s.debounce changed s.now, s.changes ++ [(changed, s.now)]⟩ where
  entry code state := by rw [changedAt_change, mem_updateDebounce hs]
  ordered code := by
    rw [changedAt_change]
    split
    · apply List.pairwise_append.mpr ⟨hs.ordered code, List.pairwise_singleton _ _, _⟩
      intro t ht u hu
      rw [List.mem_singleton.mp hu]
      exact hs.past code t ht
    · exact hs.ordered code
  past code t ht := by
    rw [changedAt_change] at ht
    split at ht
    · rcases List.mem_append.mp ht with ht | ht
      · exact hs.past code t ht
      · exact (List.mem_singleton.mp ht).le
    · exact hs.past code t ht

theorem Tracked.drained (hs : Tracked s) : Tracked s.drained where
  entry code state := by
    rw [changedAt_drained, Loop.drained, mem_deleteWhere, hs.entry]
    by_cases h : code ∈ readyCodes s.debounce s.now
    · simp [h, entryFor]
    · simp [h]
  ordered code := by
    rw [changedAt_drained]
    split
    · exact .nil
    · exact hs.ordered code
  past code t ht := by
    rw [changedAt_drained] at ht
    split at ht
    · cases ht
    · exact hs.past code t ht

theorem Tracked.tick (hs : Tracked s) (elapsed : Nat) :
    Tracked { s with now := s.now + elapsed } where
  entry := hs.entry
  ordered := hs.ordered
  past code t ht := Nat.le_add_right_of_le (hs.past code t ht)

theorem tracked_step {action : Action} (hs : Tracked s) (h : step s action = some t) :
    Tracked t := by
  cases action with
  | change changed =>
      obtain rfl := Option.some.inj h
      exact hs.change changed
  | drain =>
      rw [step, Option.ite_none_right_eq_some] at h
      obtain rfl := Option.some.inj h.2
      exact hs.drained
  | tick elapsed =>
      obtain rfl := Option.some.inj h
      exact hs.tick elapsed

theorem tracked_run {now : Nat} {actions : List Action}
    (run : exec step (start now) actions = some s) : Tracked s :=
  exec_invariant (C := fun _ _ _ => True) (fun _ _ _ hs _ h => tracked_step hs h)
    (tracked_start now) (everyStep_of_forall_mem (Q := fun _ => True) fun _ _ => trivial) run

theorem Tracked.mem_iff (hs : Tracked s) {t0 : Nat} {ts : List Nat}
    (hchanged : s.changedAt code = t0 :: ts) (state : DebounceState) :
    (code, state) ∈ s.debounce ↔ state = ⟨t0, deadlineAfter t0 (ts.getLastD t0)⟩ := by
  rw [hs.entry, hchanged, entryFor, Option.some.injEq, eq_comm]

theorem Tracked.last_le (hs : Tracked s) {t0 : Nat} {ts : List Nat}
    (hchanged : s.changedAt code = t0 :: ts) : ts.getLastD t0 ≤ s.now := by
  apply hs.past code
  rw [hchanged]
  exact List.getLastD_mem_cons

theorem Tracked.postponed (hs : Tracked s) {t0 : Nat} {ts : List Nat}
    (hchanged : s.changedAt code = t0 :: ts) (h : step s (.change code) = some t)
    {state : DebounceState} (hstate : (code, state) ∈ t.debounce) :
    state = ⟨t0, deadlineAfter t0 s.now⟩ := by
  obtain rfl := Option.some.inj h
  have hts := changedAt_change s code (updateDebounce s.debounce code s.now) code
  rw [if_pos rfl, hchanged, List.cons_append] at hts
  have heq := ((hs.change code).mem_iff hts state).mp hstate
  rwa [List.getLastD_concat] at heq

end

/-- After the changes of a code at `t0 ≤ t1 ≤ … ≤ tk` since it was last drained, its entry is
due at `max tk (min (tk + 5 s) (t0 + 30 s))`.  A further change puts the deadline neither
before itself nor before the old deadline, nor beyond thirty seconds after `t0` if it
comes earlier than that; from then on the next wake-up drains the code. -/
theorem debounce_deadline_bounded {now : Nat} {actions : List Action} {s : Loop}
    (run : exec step (start now) actions = some s) {code : String} {t0 : Nat} {ts : List Nat}
    (hchanged : s.changedAt code = t0 :: ts) :
    (t0 :: ts).Pairwise (· ≤ ·) ∧ ts.getLastD t0 ≤ s.now ∧
    (∀ state, (code, state) ∈ s.debounce ↔
      state = ⟨t0, max (ts.getLastD t0)
        (min (ts.getLastD t0 + debounceDelay) (t0 + debounceMaxDelay))⟩) ∧
    (∀ t, step s (.change code) = some t →
      ∀ old ∈ s.debounce, ∀ new ∈ t.debounce, old.1 = code → new.1 = code →
        s.now ≤ new.2.deadline ∧ old.2.deadline ≤ new.2.deadline ∧
        new.2.deadline ≤ max s.now (t0 + debounceMaxDelay)) ∧
    (t0 + debounceMaxDelay ≤ s.now →
      ∃ t, step s .drain = some t ∧ ∀ state, (code, state) ∉ t.debounce) := by
  have hs : Tracked s := tracked_run run
  have hentry := hs.mem_iff hchanged
  have hlast := hs.last_le hchanged
  refine ⟨hchanged ▸ hs.ordered code, hlast, hentry, ?_, ?_⟩
  · rintro t h ⟨c, old⟩ hold ⟨c', new⟩ hnew rfl rfl
    obtain rfl := (hentry old).mp hold
    obtain rfl := hs.postponed hchanged h hnew
    exact ⟨le_deadlineAfter t0 s.now, deadlineAfter_mono t0 hlast, deadlineAfter_le t0 s.now⟩
  · intro hmax
    have hdue := deadlineAfter_le_of_max hlast hmax
    have hmem := (hentry _).mpr rfl
    refine ⟨s.drained, if_pos (List.any_eq_true.mpr ⟨_, hmem, decide_eq_true hdue⟩), ?_⟩
    intro state hstate
    rw [hs.drained.entry, changedAt_drained, if_pos ((mem_readyCodes hs).mpr
      ⟨_, (hs.entry code _).mp hmem, hdue⟩)] at hstate
    cases hstate

/-- A code that changes again after four seconds and after thirty-one. -/
def lateChanges : List Action :=
  [.change "sum", .tick 4000000000, .change "graph", .change "sum", .tick 27000000000,
    .change "sum"]

def lateLoop : Loop where
  now := 31000000000
  debounce := [("sum", ⟨0, 31000000000⟩), ("graph", ⟨4000000000, 9000000000⟩)]
  changes := [("sum", 0), ("graph", 4000000000), ("sum", 4000000000), ("sum", 31000000000)]

theorem debounce_deadline_bounded_late :
    exec step (start 0) lateChanges = some lateLoop ∧
      ("sum", ⟨0, 31000000000⟩) ∈ lateLoop.debounce ∧
      ∃ t, step lateLoop .drain = some t ∧ ∀ state, ("sum", state) ∉ t.debounce := by
  have hrun : exec step (start 0) lateChanges = some lateLoop := by decide +kernel
  have hchanged : lateLoop.changedAt "sum" = [0, 4000000000, 31000000000] := by decide +kernel
  obtain ⟨-, -, hentry, -, hdrain⟩ := debounce_deadline_bounded hrun hchanged
  exact ⟨hrun, (hentry _).mpr (by decide), hdrain (by decide)⟩

end ExternalStorage.Watcher.Debounce
