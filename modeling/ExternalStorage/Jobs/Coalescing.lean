import ExternalStorage.Library.Runs
import ExternalStorage.Model.Leases
import Mathlib.Data.Fintype.EquivFin

/-!
# Identical requests at the same time

`createJob` takes its lock inside the statement that looks for an active job, so a caller
that waits for the lock looks at rows as old as its statement.  It finds no active job, and
the unique index turns its row down.  Calls join one job when one of them is through before
any other starts.
-/

namespace ExternalStorage.Jobs

open ExternalStorage.Model Library.Table Library.Runs

/-! ## The calls -/

inductive CallPhase where
  | idle
  /-- The statement has started; these are the rows it reads. -/
  | reading (snapshot : List JobRow)
  | returned (answer : Except CreateJobError Uuid)

structure Call where
  request : JobRequest
  phase : CallPhase

structure Callers where
  jobs : List JobRow
  calls : List Call

inductive CallAction where
  | start (i : Nat)
  /-- The call gets the lock, runs its statement and commits; `id` is `gen_random_uuid()`. -/
  | run (i : Nat) (now : Timestamp) (id : Uuid)

def Callers.step (w : Callers) : CallAction → Option Callers
  | .start i => do
      let c ← w.calls[i]?
      match c.phase with
      | .idle => some { w with calls := w.calls.set i { c with phase := .reading w.jobs } }
      | _ => none
  | .run i now id => do
      let c ← w.calls[i]?
      match c.phase with
      | .reading snapshot =>
          if w.jobs.any fun j => j.id = id then
            none
          else
            match createJobFrom now id c.request snapshot w.jobs with
            | .ok (jobs, j) =>
                some ⟨jobs, w.calls.set i { c with phase := .returned (.ok j.id) }⟩
            | .error e => some { w with calls := w.calls.set i { c with phase := .returned (.error e) } }
      | _ => none

def Callers.initial (jobs : List JobRow) (requests : List JobRequest) : Callers :=
  ⟨jobs, requests.map fun r => ⟨r, .idle⟩⟩

def Call.done (c : Call) : Prop := ∃ answer, c.phase = .returned answer

theorem Callers.start_eq_some {w w' : Callers} {i : Nat} (h : w.step (.start i) = some w') :
    ∃ c, w.calls[i]? = some c ∧ c.phase = .idle ∧
      w' = { w with calls := w.calls.set i { c with phase := .reading w.jobs } } := by
  change (w.calls[i]?.bind _) = some w' at h
  obtain ⟨c, hc, h⟩ := Option.bind_eq_some_iff.mp h
  split at h
  · rename_i hphase
    cases h
    exact ⟨c, hc, hphase, rfl⟩
  · cases h

theorem Callers.run_eq_some {w w' : Callers} {i : Nat} {now : Timestamp} {id : Uuid}
    (h : w.step (.run i now id) = some w') :
    ∃ c snapshot, w.calls[i]? = some c ∧ c.phase = .reading snapshot ∧
      (∀ j ∈ w.jobs, j.id ≠ id) ∧
      ((∃ j, createJobFrom now id c.request snapshot w.jobs = .ok (w'.jobs, j) ∧
          w'.calls = w.calls.set i { c with phase := .returned (.ok j.id) }) ∨
        ∃ e, createJobFrom now id c.request snapshot w.jobs = .error e ∧ w'.jobs = w.jobs ∧
          w'.calls = w.calls.set i { c with phase := .returned (.error e) }) := by
  change (w.calls[i]?.bind _) = some w' at h
  obtain ⟨c, hc, h⟩ := Option.bind_eq_some_iff.mp h
  split at h
  · rename_i snapshot hphase
    split at h
    · cases h
    · rename_i hnew
      have hfresh : ∀ j ∈ w.jobs, j.id ≠ id := by
        intro j hj hid
        exact hnew (List.any_eq_true.mpr ⟨j, hj, decide_eq_true hid⟩)
      refine ⟨c, snapshot, hc, hphase, hfresh, ?_⟩
      split at h
      · rename_i jobs j hcreate
        cases h
        exact .inl ⟨j, hcreate, rfl⟩
      · rename_i e hcreate
        cases h
        exact .inr ⟨e, hcreate, rfl, rfl⟩
  · cases h

theorem Callers.progress {w : Callers} {i : Nat} {c : Call} (hc : w.calls[i]? = some c)
    (hdone : ¬ c.done) :
    (∃ t, w.step (.start i) = some t) ∨ ∃ now id t, w.step (.run i now id) = some t := by
  cases hphase : c.phase with
  | idle =>
      left
      change ∃ t, (w.calls[i]?.bind _) = some t
      rw [hc, Option.bind_some, hphase]
      exact ⟨_, rfl⟩
  | reading snapshot =>
      right
      obtain ⟨id, hid⟩ := Infinite.exists_notMem_finset (w.jobs.map JobRow.id).toFinset
      have hnew : ¬ (w.jobs.any fun j => j.id = id) = true := by
        intro hany
        obtain ⟨j, hj, hjid⟩ := List.any_eq_true.mp hany
        exact hid (List.mem_toFinset.mpr (List.mem_map.mpr ⟨j, hj, of_decide_eq_true hjid⟩))
      refine ⟨0, id, ?_⟩
      change ∃ t, (w.calls[i]?.bind _) = some t
      rw [hc, Option.bind_some, hphase]
      dsimp only
      rw [if_neg hnew]
      cases createJobFrom 0 id c.request snapshot w.jobs with
      | ok a => exact ⟨_, rfl⟩
      | error e => exact ⟨_, rfl⟩
  | returned answer => exact absurd ⟨answer, hphase⟩ hdone

/-! ## Requests for one target -/

structure Target where
  jobType : JobType
  problemId : String
  generation : Option Int
  fingerprint : String

def Target.request (t : Target) (key : String) : JobRequest :=
  ⟨key, t.jobType, some t.problemId, t.generation, t.fingerprint⟩

/-- The job types whose active jobs callers with any fingerprint join. -/
def Target.joinable (t : Target) : Bool :=
  match t.jobType with
  | .scan | .snapshot | .restore => true
  | _ => false

def Target.keyed (t : Target) (key : String) (jobs : List JobRow) : Option JobRow :=
  jobs.find? fun j => j.idempotencyKey = key && j.jobType = t.jobType

def Target.matches (t : Target) (j : JobRow) : Bool :=
  sameTarget (t.request "") j && j.requestFingerprint = t.fingerprint

/-- The rows at the outset: the schema's keys hold and no job of the problem is active. -/
structure Quiet (t : Target) (jobs : List JobRow) : Prop where
  ids : (jobs.map JobRow.id).Nodup
  guards : activeGuards jobs = true
  idle : ∀ j ∈ jobs, j.problemId = some t.problemId → j.state.active = false

section Target

variable {t : Target} {jobs : List JobRow} {now : Timestamp} {id : Uuid} {key : String}

theorem active_joined (hquiet : Quiet t jobs) {n : JobRow} {before : Timestamp} {first : Uuid}
    {key' : String} (hn : n = newJob before first (t.request key')) :
    activeFor (t.request key) (jobs ++ [n]) = some n := by
  have hold : jobs.filter (fun j => j.jobType = t.jobType && sameTarget (t.request key) j &&
      (j.requestFingerprint = t.fingerprint || t.jobType.shared) && j.state.active) = [] := by
    rw [List.filter_eq_nil_iff]
    intro j hj hactive
    simp only [Bool.and_eq_true, sameTarget, decide_eq_true_eq] at hactive
    have hinactive := hquiet.idle j hj hactive.1.1.2.1
    rw [hactive.2] at hinactive
    cases hinactive
  unfold activeFor
  have hnew : [n].filter (fun j => j.jobType = t.jobType && sameTarget (t.request key) j &&
      (j.requestFingerprint = t.fingerprint || t.jobType.shared) && j.state.active) = [n] := by
    rw [List.filter_eq_self]
    intro j hj
    rw [List.mem_singleton.mp hj, hn]
    simp [newJob, sameTarget, Target.request, JobState.active]
  show firstBy _ ((jobs ++ [n]).filter fun j => j.jobType = t.jobType &&
    sameTarget (t.request key) j && (j.requestFingerprint = t.fingerprint || t.jobType.shared) &&
    j.state.active) = some n
  rw [List.filter_append, hold, hnew]
  rfl

theorem active_none (hquiet : Quiet t jobs) : activeFor (t.request key) jobs = none := by
  unfold activeFor
  rw [firstBy_eq_none, List.filter_eq_nil_iff]
  intro j hj hactive
  simp only [Bool.and_eq_true, sameTarget, decide_eq_true_eq] at hactive
  have hinactive := hquiet.idle j hj hactive.1.1.2.1
  rw [hactive.2] at hinactive
  cases hinactive

theorem compatible (hquiet : Quiet t jobs) :
    jobs.any (incompatibleWith (t.request key)) = false := by
  rw [List.any_eq_false]
  intro j hj hincompatible
  simp only [incompatibleWith, Bool.and_eq_true, decide_eq_true_eq] at hincompatible
  have hinactive := hquiet.idle j hj hincompatible.1.1.1.2
  rw [hincompatible.1.2] at hinactive
  cases hinactive

theorem guards_new (hquiet : Quiet t jobs) :
    activeGuards (jobs ++ [newJob now id (t.request key)]) = true := by
  rw [activeGuards_append hquiet.guards]
  intro j hj _
  rw [← Bool.not_eq_true, conflicting_eq_true]
  rintro ⟨hactive, -, ⟨-, hid, -⟩ | ⟨-, hnone, -⟩⟩
  · have hinactive := hquiet.idle j hj hid
    rw [hactive] at hinactive
    cases hinactive
  · cases hnone

theorem guards_second (hjoinable : t.joinable = true) {n : JobRow} {before : Timestamp}
    {first : Uuid} {key' : String} (hn : n = newJob before first (t.request key'))
    (hne : first ≠ id) :
    ¬ activeGuards ((jobs ++ [n]) ++ [newJob now id (t.request key)]) = true := by
  intro hguards
  have hpair := activeGuards_iff.mp hguards n
    (List.mem_append_left _ (List.mem_append_right _ (List.mem_singleton_self n)))
    (newJob now id (t.request key)) (List.mem_append_right _ (List.mem_singleton_self _))
    (by rw [hn]; exact hne)
  rw [← Bool.not_eq_true, conflicting_eq_true] at hpair
  apply hpair
  have hexclusive : t.jobType.exclusive = true := by
    unfold Target.joinable at hjoinable
    split at hjoinable
    all_goals simp_all [JobType.exclusive]
  rw [hn]
  exact ⟨rfl, rfl, .inl ⟨rfl, rfl, hexclusive, hexclusive, .inl rfl⟩⟩

theorem keyed_append_new {n : JobRow} {before : Timestamp} {first : Uuid} {key' : String}
    (hn : n = newJob before first (t.request key')) (hfree : t.keyed key jobs = none) :
    t.keyed key (jobs ++ [n]) = if key' = key then some n else none := by
  unfold Target.keyed at hfree ⊢
  rw [List.find?_append, hfree, Option.none_or, hn]
  by_cases hkey : key' = key
  · rw [if_pos hkey]
    simp [newJob, Target.request, hkey]
  · rw [if_neg hkey]
    simp [newJob, Target.request, hkey]

theorem matches_new (before : Timestamp) (first : Uuid) (key' : String) :
    t.matches (newJob before first (t.request key')) = true := by
  simp [Target.matches, sameTarget, newJob, Target.request]

/-! ## One call -/

theorem create_replayed {snapshot rows : List JobRow} {j : JobRow}
    (hkeyed : t.keyed key snapshot = some j) (hrows : ∀ k ∈ snapshot, k ∈ rows) :
    createJobFrom now id (t.request key) snapshot rows =
      if t.matches j then .ok (rows, j) else .error .idempotencyConflict := by
  have hfound : snapshot.find? (fun j => j.idempotencyKey = (t.request key).idempotencyKey &&
      j.jobType = (t.request key).jobType) = some j := hkeyed
  have hmem := List.mem_of_find?_eq_some hfound
  have hkey := List.find?_some hfound
  unfold createJobFrom
  rw [hfound]
  have herror : noRowError (t.request key) rows = .idempotencyConflict := by
    unfold noRowError
    rw [if_pos (List.any_eq_true.mpr ⟨j, hrows j hmem, hkey⟩)]
  rw [herror]
  rfl

theorem create_first (hquiet : Quiet t jobs) (hfree : t.keyed key jobs = none) :
    createJobFrom now id (t.request key) jobs jobs =
      .ok (jobs ++ [newJob now id (t.request key)], newJob now id (t.request key)) := by
  have hfound : jobs.find? (fun j => j.idempotencyKey = (t.request key).idempotencyKey &&
      j.jobType = (t.request key).jobType) = none := hfree
  unfold createJobFrom
  simp only [hfound, active_none hquiet, compatible hquiet, guards_new hquiet, if_true,
    Bool.false_eq_true, if_false]

/-- The statement started after another call was through: it joins that call's job. -/
theorem create_joins (hquiet : Quiet t jobs) (hfree : t.keyed key jobs = none) {n : JobRow}
    {before : Timestamp} {first : Uuid} {key' : String}
    (hn : n = newJob before first (t.request key')) :
    createJobFrom now id (t.request key) (jobs ++ [n]) (jobs ++ [n]) = .ok (jobs ++ [n], n) := by
  by_cases hkey : key' = key
  · have hkeyed : t.keyed key (jobs ++ [n]) = some n := by
      rw [keyed_append_new hn hfree, if_pos hkey]
    rw [create_replayed hkeyed fun k hk => hk, hn, if_pos (matches_new before first key')]
  · have hkeyed : t.keyed key (jobs ++ [n]) = none := by
      rw [keyed_append_new hn hfree, if_neg hkey]
    have hfound : (jobs ++ [n]).find? (fun j =>
        j.idempotencyKey = (t.request key).idempotencyKey &&
          j.jobType = (t.request key).jobType) = none := hkeyed
    unfold createJobFrom
    simp only [hfound, active_joined hquiet hn]

theorem create_conflicts (hjoinable : t.joinable = true) (hquiet : Quiet t jobs)
    (hfree : t.keyed key jobs = none) {n : JobRow} {before : Timestamp} {first : Uuid}
    {key' : String} (hn : n = newJob before first (t.request key')) (hkey : key' ≠ key)
    (hne : first ≠ id) :
    createJobFrom now id (t.request key) jobs (jobs ++ [n]) =
      .error (.problemOperationConflict t.problemId) := by
  have hfound : jobs.find? (fun j => j.idempotencyKey = (t.request key).idempotencyKey &&
      j.jobType = (t.request key).jobType) = none := hfree
  have hkeyed : t.keyed key (jobs ++ [n]) = none := by
    rw [keyed_append_new hn hfree, if_neg hkey]
  have harbiter : (jobs ++ [n]).find? (fun j =>
      j.idempotencyKey = (t.request key).idempotencyKey &&
        j.jobType = (t.request key).jobType) = none := hkeyed
  have hguards : ¬ activeGuards ((jobs ++ [n]) ++ [newJob now id (t.request key)]) = true :=
    guards_second hjoinable hn hne
  unfold createJobFrom
  simp only [hfound, active_none hquiet, compatible hquiet, harbiter, if_neg hguards,
    Bool.false_eq_true, if_false]
  rfl

theorem create_upserts (hquiet : Quiet t jobs) (hfree : t.keyed key jobs = none) {n : JobRow}
    {before : Timestamp} {first : Uuid} (hn : n = newJob before first (t.request key)) :
    createJobFrom now id (t.request key) jobs (jobs ++ [n]) = .ok (jobs ++ [n], n) := by
  have hfound : jobs.find? (fun j => j.idempotencyKey = (t.request key).idempotencyKey &&
      j.jobType = (t.request key).jobType) = none := hfree
  have hkeyed : t.keyed key (jobs ++ [n]) = some n := by
    rw [keyed_append_new hn hfree, if_pos rfl]
  have harbiter : (jobs ++ [n]).find? (fun j =>
      j.idempotencyKey = (t.request key).idempotencyKey &&
        j.jobType = (t.request key).jobType) = some n := hkeyed
  have hmatches : (sameTarget (t.request key) n &&
      decide (n.requestFingerprint = (t.request key).fingerprint)) = true := by
    rw [hn]
    exact matches_new before first key
  unfold createJobFrom
  simp only [hfound, active_none hquiet, compatible hquiet, harbiter, Bool.false_eq_true, if_false]
  rw [if_pos hmatches]

end Target

/-! ## Runs -/

def Target.replay (t : Target) (j : JobRow) : Except CreateJobError Uuid :=
  if t.matches j then .ok j.id else .error .idempotencyConflict

def Answered (t : Target) (jobs : List JobRow) (created : Option JobRow) (key : String)
    (answer : Except CreateJobError Uuid) : Prop :=
  match t.keyed key jobs with
  | some j => answer = t.replay j
  | none => ∃ n ∈ created,
      answer = .ok n.id ∨ answer = .error (.problemOperationConflict t.problemId)

structure Tracks (t : Target) (jobs : List JobRow) (keys : List String) (w : Callers)
    (created : Option JobRow) : Prop where
  rows : w.jobs = jobs ++ created.toList
  requests : w.calls.map Call.request = keys.map t.request
  new : ∀ n ∈ created, (∃ now id key, n = newJob now id (t.request key)) ∧
    ∀ j ∈ jobs, j.id ≠ n.id
  reading : ∀ c ∈ w.calls, ∀ s, c.phase = .reading s → s = jobs ∨ s = w.jobs
  returned : ∀ c ∈ w.calls, ∀ a, c.phase = .returned a →
    Answered t jobs created c.request.idempotencyKey a

theorem Answered.mono {t : Target} {jobs : List JobRow} {created created' : Option JobRow}
    {key : String} {answer : Except CreateJobError Uuid} (h : Answered t jobs created key answer)
    (hgrows : ∀ n ∈ created, n ∈ created') : Answered t jobs created' key answer := by
  unfold Answered at h ⊢
  split
  · rename_i j hkeyed
    rw [hkeyed] at h
    exact h
  · rename_i hfree
    rw [hfree] at h
    obtain ⟨n, hn, hanswer⟩ := h
    exact ⟨n, hgrows n hn, hanswer⟩

theorem answered_of_keyed {t : Target} {jobs : List JobRow} {created : Option JobRow}
    {key : String} {answer : Except CreateJobError Uuid} {j : JobRow}
    (hkeyed : t.keyed key jobs = some j) :
    Answered t jobs created key answer ↔ answer = t.replay j := by
  unfold Answered
  rw [hkeyed]

theorem answered_of_free {t : Target} {jobs : List JobRow} {created : Option JobRow}
    {key : String} {answer : Except CreateJobError Uuid} (hfree : t.keyed key jobs = none) :
    Answered t jobs created key answer ↔ ∃ n ∈ created,
      answer = .ok n.id ∨ answer = .error (.problemOperationConflict t.problemId) := by
  unfold Answered
  rw [hfree]

section Runs

variable {t : Target} {jobs : List JobRow} {keys : List String} {w w' : Callers}
  {created : Option JobRow}

theorem Tracks.exists_key (h : Tracks t jobs keys w created) {i : Nat} {c : Call}
    (hc : w.calls[i]? = some c) : ∃ key, keys[i]? = some key ∧ c.request = t.request key := by
  have hrequest : (w.calls.map Call.request)[i]? = some c.request := by
    rw [List.getElem?_map, hc]
    rfl
  rw [h.requests, List.getElem?_map, Option.map_eq_some_iff] at hrequest
  obtain ⟨key, hkey, hrequest⟩ := hrequest
  exact ⟨key, hkey, hrequest.symm⟩

theorem Tracks.set (h : Tracks t jobs keys w created) {i : Nat} {c : Call} {phase : CallPhase}
    {created' : Option JobRow} (hc : w.calls[i]? = some c)
    (hcalls : w'.calls = w.calls.set i { c with phase := phase })
    (hrows : w'.jobs = jobs ++ created'.toList) (hgrows : ∀ n ∈ created, n ∈ created')
    (hnew : ∀ n ∈ created', (∃ now id key, n = newJob now id (t.request key)) ∧
      ∀ j ∈ jobs, j.id ≠ n.id)
    (hreading : ∀ s, phase = .reading s → s = jobs ∨ s = w'.jobs)
    (hreturned : ∀ a, phase = .returned a → Answered t jobs created' c.request.idempotencyKey a) :
    Tracks t jobs keys w' created' := by
  refine ⟨hrows, ?_, hnew, ?_, ?_⟩
  · rw [hcalls, ← h.requests, List.map_set]
    apply List.ext_getElem?
    intro m
    rw [List.getElem?_set, List.length_map]
    by_cases hm : i = m
    · subst hm
      have hi : i < w.calls.length := (List.getElem?_eq_some_iff.mp hc).1
      rw [if_pos rfl, if_pos hi, List.getElem?_map, hc]
      rfl
    · rw [if_neg hm]
  · intro d hd s hs
    rw [hcalls] at hd
    rcases List.mem_or_eq_of_mem_set hd with hd | rfl
    · rcases h.reading d hd s hs with hold | hcurrent
      · exact .inl hold
      · cases hcreated : created with
        | none =>
            left
            rw [hcurrent, h.rows, hcreated]
            exact List.append_nil jobs
        | some n =>
            right
            have hn : n ∈ created' := hgrows n hcreated
            rw [hcurrent, hrows, h.rows, hcreated, Option.mem_def.mp hn]
    · exact hreading s hs
  · intro d hd a ha
    rw [hcalls] at hd
    rcases List.mem_or_eq_of_mem_set hd with hd | rfl
    · exact (h.returned d hd a ha).mono hgrows
    · exact hreturned a ha

/-- What a call is answered, and what its statement leaves, from either reading of the rows. -/
theorem Tracks.create (hjoinable : t.joinable = true) (hquiet : Quiet t jobs)
    (h : Tracks t jobs keys w created) {key : String} {s : List JobRow} (now : Timestamp)
    {id : Uuid} (hs : s = jobs ∨ s = w.jobs) (hid : ∀ j ∈ w.jobs, j.id ≠ id) :
    (∃ j, createJobFrom now id (t.request key) s w.jobs = .ok (w.jobs, j) ∧
        Answered t jobs created key (.ok j.id)) ∨
      (∃ e, createJobFrom now id (t.request key) s w.jobs = .error e ∧
        Answered t jobs created key (.error e)) ∨
      created = none ∧ t.keyed key jobs = none ∧
        createJobFrom now id (t.request key) s w.jobs =
          .ok (jobs ++ [newJob now id (t.request key)], newJob now id (t.request key)) := by
  cases hkeyed : t.keyed key jobs with
  | some j =>
      have hold : t.keyed key s = some j ∧ ∀ k ∈ s, k ∈ w.jobs := by
        rcases hs with rfl | rfl
        · refine ⟨hkeyed, fun k hk => ?_⟩
          rw [h.rows]
          exact List.mem_append_left _ hk
        · refine ⟨?_, fun k hk => hk⟩
          unfold Target.keyed at hkeyed ⊢
          rw [h.rows, List.find?_append, hkeyed]
          rfl
      have hcreate : createJobFrom now id (t.request key) s w.jobs = _ :=
        create_replayed hold.1 hold.2
      have hanswer := @answered_of_keyed t jobs created key (t.replay j) j hkeyed
      unfold Target.replay at hanswer
      by_cases hmatches : t.matches j = true
      · rw [if_pos hmatches] at hcreate hanswer
        exact .inl ⟨j, hcreate, hanswer.mpr rfl⟩
      · rw [if_neg hmatches] at hcreate hanswer
        exact .inr (.inl ⟨_, hcreate, hanswer.mpr rfl⟩)
  | none =>
      cases hcreated : created with
      | none =>
          have hrows : w.jobs = jobs := by
            rw [h.rows, hcreated]
            exact List.append_nil jobs
          have hs : s = jobs := by
            rcases hs with hs | hs
            · exact hs
            · rw [hs, hrows]
          rw [hs, hrows]
          exact .inr (.inr ⟨rfl, rfl, create_first hquiet hkeyed⟩)
      | some n =>
          obtain ⟨⟨before, first, key', hn⟩, -⟩ := h.new n hcreated
          have hrows : w.jobs = jobs ++ [n] := by
            rw [h.rows, hcreated]
            rfl
          have hnid : first ≠ id := by
            have hnmem : n ∈ w.jobs := by
              rw [hrows]
              exact List.mem_append_right _ (List.mem_singleton_self n)
            have hne := hid n hnmem
            rw [hn] at hne
            exact hne
          by_cases hstale : s = w.jobs
          · left
            refine ⟨n, ?_, (answered_of_free hkeyed).mpr ⟨n, rfl, .inl rfl⟩⟩
            rw [hstale, hrows]
            exact create_joins hquiet hkeyed hn
          · have hs : s = jobs := hs.resolve_right hstale
            rw [hs, hrows]
            by_cases hkey : key' = key
            · left
              subst hkey
              exact ⟨n, create_upserts hquiet hkeyed hn,
                (answered_of_free hkeyed).mpr ⟨n, rfl, .inl rfl⟩⟩
            · exact .inr (.inl ⟨_, create_conflicts hjoinable hquiet hkeyed hn hkey hnid,
                (answered_of_free hkeyed).mpr ⟨n, rfl, .inr rfl⟩⟩)

theorem Tracks.step (hjoinable : t.joinable = true) (hquiet : Quiet t jobs)
    (h : Tracks t jobs keys w created) {a : CallAction} (hstep : w.step a = some w') :
    ∃ created', Tracks t jobs keys w' created' := by
  cases a with
  | start i =>
      obtain ⟨c, hc, hphase, rfl⟩ := Callers.start_eq_some hstep
      refine ⟨created, h.set hc rfl h.rows (fun n hn => hn) h.new ?_ ?_⟩
      · intro s hs
        cases hs
        exact .inr rfl
      · intro a ha
        cases ha
  | run i now id =>
      obtain ⟨c, s, hc, hphase, hid, hrun⟩ := Callers.run_eq_some hstep
      obtain ⟨key, -, hrequest⟩ := h.exists_key hc
      have hkey : c.request.idempotencyKey = key := by rw [hrequest]; rfl
      have hs := h.reading c (List.mem_of_getElem? hc) s hphase
      have hcreated := @Tracks.create t jobs keys w created hjoinable hquiet h key s now id hs hid
      rw [← hrequest] at hcreated
      rcases hcreated with
        ⟨j, hcreate, hanswer⟩ | ⟨e, hcreate, hanswer⟩ | ⟨hnone, hfree, hcreate⟩
      · rcases hrun with ⟨j', hok, hcalls⟩ | ⟨e, herror, -⟩
        · rw [hcreate] at hok
          obtain ⟨hrows, rfl⟩ := Prod.mk.inj (Except.ok.inj hok)
          refine ⟨created, h.set hc hcalls (by rw [← hrows]; exact h.rows) (fun n hn => hn) h.new
            ?_ ?_⟩
          · intro s' hs'
            cases hs'
          · intro a ha
            cases ha
            rw [hkey]
            exact hanswer
        · rw [hcreate] at herror
          cases herror
      · rcases hrun with ⟨j', hok, -⟩ | ⟨e', herror, hrows, hcalls⟩
        · rw [hcreate] at hok
          cases hok
        · rw [hcreate] at herror
          cases herror
          refine ⟨created, h.set hc hcalls (by rw [hrows]; exact h.rows) (fun n hn => hn) h.new
            ?_ ?_⟩
          · intro s' hs'
            cases hs'
          · intro a ha
            cases ha
            rw [hkey]
            exact hanswer
      · rcases hrun with ⟨j', hok, hcalls⟩ | ⟨e', herror, -⟩
        · rw [hcreate] at hok
          obtain ⟨hrows, rfl⟩ := Prod.mk.inj (Except.ok.inj hok)
          refine ⟨some (newJob now id c.request), h.set hc hcalls hrows.symm ?_ ?_ ?_ ?_⟩
          · intro n hn
            rw [hnone] at hn
            cases hn
          · intro n hn
            cases hn
            refine ⟨⟨now, id, key, by rw [hrequest]⟩, ?_⟩
            intro j hj
            apply hid
            rw [h.rows]
            exact List.mem_append_left _ hj
          · intro s' hs'
            cases hs'
          · intro a ha
            cases ha
            rw [hkey]
            exact (answered_of_free hfree).mpr ⟨_, rfl, .inl rfl⟩
        · rw [hcreate] at herror
          cases herror

theorem tracks_initial (t : Target) (jobs : List JobRow) (keys : List String) :
    Tracks t jobs keys (Callers.initial jobs (keys.map t.request)) none := by
  refine ⟨(List.append_nil jobs).symm, ?_, ?_, ?_, ?_⟩
  · simp [Callers.initial, Function.comp_def]
  · intro n hn
    cases hn
  · intro c hc s hs
    obtain ⟨r, -, rfl⟩ := List.mem_map.mp hc
    cases hs
  · intro c hc a ha
    obtain ⟨r, -, rfl⟩ := List.mem_map.mp hc
    cases ha

theorem tracks_of_run (hjoinable : t.joinable = true) (hquiet : Quiet t jobs)
    {acts : List CallAction}
    (run : exec Callers.step (Callers.initial jobs (keys.map t.request)) acts = some w) :
    ∃ created, Tracks t jobs keys w created := by
  refine exec_invariant (I := fun w => ∃ created, Tracks t jobs keys w created)
    (C := fun _ _ _ => True) ?_ ⟨none, tracks_initial t jobs keys⟩
    (everyStep_of_forall_mem fun _ _ => trivial) run
  rintro w a w' ⟨created, h⟩ - hstep
  exact h.step hjoinable hquiet hstep

/-! ## One call ahead of the others -/

structure Caught (t : Target) (jobs : List JobRow) (n : JobRow) (w : Callers) : Prop where
  rows : w.jobs = jobs ++ [n]
  new : ∃ now id key, n = newJob now id (t.request key)
  requests : ∀ c ∈ w.calls, ∃ key, c.request = t.request key ∧ t.keyed key jobs = none
  phases : ∀ c ∈ w.calls, c.phase = .idle ∨ c.phase = .reading (jobs ++ [n]) ∨
    c.phase = .returned (.ok n.id)

theorem Caught.set {n : JobRow} (h : Caught t jobs n w) {i : Nat} {c : Call} {phase : CallPhase}
    (hc : w.calls[i]? = some c) (hcalls : w'.calls = w.calls.set i { c with phase := phase })
    (hrows : w'.jobs = w.jobs)
    (hphase : phase = .reading (jobs ++ [n]) ∨ phase = .returned (.ok n.id)) :
    Caught t jobs n w' := by
  refine ⟨by rw [hrows]; exact h.rows, h.new, ?_, ?_⟩
  · intro d hd
    rw [hcalls] at hd
    rcases List.mem_or_eq_of_mem_set hd with hd | rfl
    · exact h.requests d hd
    · exact h.requests c (List.mem_of_getElem? hc)
  · intro d hd
    rw [hcalls] at hd
    rcases List.mem_or_eq_of_mem_set hd with hd | rfl
    · exact h.phases d hd
    · exact .inr hphase

theorem Caught.step (hquiet : Quiet t jobs) {n : JobRow} (h : Caught t jobs n w) {a : CallAction}
    (hstep : w.step a = some w') : Caught t jobs n w' := by
  cases a with
  | start i =>
      obtain ⟨c, hc, -, rfl⟩ := Callers.start_eq_some hstep
      refine h.set hc rfl rfl (.inl ?_)
      rw [h.rows]
  | run i now id =>
      obtain ⟨c, s, hc, hphase, -, hrun⟩ := Callers.run_eq_some hstep
      have hmem := List.mem_of_getElem? hc
      obtain ⟨key, hrequest, hfree⟩ := h.requests c hmem
      obtain ⟨before, first, key', hn⟩ := h.new
      have hs : s = jobs ++ [n] := by
        rcases h.phases c hmem with hidle | hreading | hreturned
        · rw [hidle] at hphase
          cases hphase
        · rw [hreading] at hphase
          exact (CallPhase.reading.inj hphase).symm
        · rw [hreturned] at hphase
          cases hphase
      have hcreate : createJobFrom now id c.request s w.jobs = .ok (jobs ++ [n], n) := by
        rw [hrequest, hs, h.rows]
        exact create_joins hquiet hfree hn
      rcases hrun with ⟨j, hok, hcalls⟩ | ⟨e, herror, -⟩
      · rw [hcreate] at hok
        obtain ⟨hrows, rfl⟩ := Prod.mk.inj (Except.ok.inj hok)
        exact h.set hc hcalls (by rw [← hrows, h.rows]) (.inr rfl)
      · rw [hcreate] at herror
        cases herror

theorem caught_of_first (hquiet : Quiet t jobs)
    (hfree : ∀ key ∈ keys, t.keyed key jobs = none) {i : Nat} {now : Timestamp} {id : Uuid}
    (run : exec Callers.step (Callers.initial jobs (keys.map t.request)) [.start i, .run i now id] =
      some w) : ∃ n, Caught t jobs n w := by
  obtain ⟨u, hstart, hrest⟩ := exec_cons_eq_some.mp run
  obtain ⟨u', hrun, hnil⟩ := exec_cons_eq_some.mp hrest
  obtain rfl : u' = w := Option.some.inj hnil
  have hinitial : ∀ d ∈ (Callers.initial jobs (keys.map t.request)).calls,
      (∃ key, d.request = t.request key ∧ t.keyed key jobs = none) ∧ d.phase = .idle := by
    intro d hd
    obtain ⟨r, hr, rfl⟩ := List.mem_map.mp hd
    obtain ⟨key, hkey, rfl⟩ := List.mem_map.mp hr
    exact ⟨⟨key, rfl, hfree key hkey⟩, rfl⟩
  obtain ⟨c, hc, -, rfl⟩ := Callers.start_eq_some hstart
  obtain ⟨⟨key, hrequest, hkey⟩, -⟩ := hinitial c (List.mem_of_getElem? hc)
  obtain ⟨c', s, hc', hphase, -, hrun⟩ := Callers.run_eq_some hrun
  have hi : i < (Callers.initial jobs (keys.map t.request)).calls.length :=
    (List.getElem?_eq_some_iff.mp hc).1
  rw [List.getElem?_set_self hi] at hc'
  obtain rfl := Option.some.inj hc'
  obtain rfl := CallPhase.reading.inj hphase
  have hcreate : createJobFrom now id c.request jobs jobs =
      .ok (jobs ++ [newJob now id c.request], newJob now id c.request) := by
    rw [hrequest]
    exact create_first hquiet hkey
  have hcreate : createJobFrom now id c.request (Callers.initial jobs (keys.map t.request)).jobs
      (Callers.initial jobs (keys.map t.request)).jobs = _ := hcreate
  rcases hrun with ⟨j, hok, hcalls⟩ | ⟨e, herror, -⟩
  · rw [hcreate] at hok
    obtain ⟨hrows, rfl⟩ := Prod.mk.inj (Except.ok.inj hok)
    refine ⟨newJob now id c.request, hrows.symm, ⟨now, id, key, by rw [hrequest]⟩, ?_, ?_⟩
    · intro d hd
      rw [hcalls, List.set_set] at hd
      rcases List.mem_or_eq_of_mem_set hd with hd | rfl
      · exact (hinitial d hd).1
      · exact ⟨key, hrequest, hkey⟩
    · intro d hd
      rw [hcalls, List.set_set] at hd
      rcases List.mem_or_eq_of_mem_set hd with hd | rfl
      · exact .inl (hinitial d hd).2
      · exact .inr (.inr rfl)
  · rw [hcreate] at herror
    cases herror

/-! ## Two calls abreast -/

def Waiting (jobs : List JobRow) (w : Callers) (i : Nat) (c : Call) : Prop :=
  w.calls[i]? = some c ∧ c.phase = .reading jobs

def Behind (t : Target) (jobs : List JobRow) (w : Callers) : Prop :=
  (w.jobs = jobs ∧ ∃ i k c d, i ≠ k ∧ Waiting jobs w i c ∧ Waiting jobs w k d) ∨
    ∃ n now id key i c, w.jobs = jobs ++ [n] ∧ n = newJob now id (t.request key) ∧
      c.request.idempotencyKey ≠ key ∧
      (Waiting jobs w i c ∨ w.calls[i]? = some c ∧ ∃ e, c.phase = .returned (.error e))

def CallAction.call : CallAction → Nat
  | .start i | .run i _ _ => i

theorem Callers.step_other {a : CallAction} (hstep : w.step a = some w') {i : Nat}
    (hne : a.call ≠ i) : w'.calls[i]? = w.calls[i]? := by
  cases a with
  | start k =>
      obtain ⟨c, -, -, rfl⟩ := Callers.start_eq_some hstep
      exact List.getElem?_set_ne hne
  | run k now id =>
      obtain ⟨c, s, -, -, -, ⟨j, -, hcalls⟩ | ⟨e, -, -, hcalls⟩⟩ := Callers.run_eq_some hstep
      · rw [hcalls]
        exact List.getElem?_set_ne hne
      · rw [hcalls]
        exact List.getElem?_set_ne hne

theorem Waiting.step {a : CallAction} {i : Nat} {c : Call} (h : Waiting jobs w i c)
    (hstep : w.step a = some w') (hne : a.call ≠ i) : Waiting jobs w' i c :=
  ⟨by rw [Callers.step_other hstep hne]; exact h.1, h.2⟩

theorem Waiting.ne_start {i m : Nat} {c : Call} (h : Waiting jobs w i c)
    (hstep : w.step (.start m) = some w') : m ≠ i := by
  rintro rfl
  obtain ⟨d, hd, hphase, -⟩ := Callers.start_eq_some hstep
  rw [h.1] at hd
  obtain rfl := Option.some.inj hd
  rw [h.2] at hphase
  cases hphase

theorem Tracks.key_ne (h : Tracks t jobs keys w created) (hkeys : keys.Nodup) {i k : Nat}
    {c d : Call} (hc : w.calls[i]? = some c) (hd : w.calls[k]? = some d) (hne : i ≠ k) :
    c.request.idempotencyKey ≠ d.request.idempotencyKey := by
  obtain ⟨key, hkey, hrequest⟩ := h.exists_key hc
  obtain ⟨key', hkey', hrequest'⟩ := h.exists_key hd
  rw [hrequest, hrequest']
  intro hsame
  have hsame : key = key' := hsame
  have hi : i < keys.length := (List.getElem?_eq_some_iff.mp hkey).1
  exact hne ((List.getElem?_inj hi hkeys).mp (by rw [hkey, hkey', hsame]))

theorem Tracks.step_rows (hjoinable : t.joinable = true) (hquiet : Quiet t jobs)
    (h : Tracks t jobs keys w created) {n : JobRow} (hrows : w.jobs = jobs ++ [n])
    {a : CallAction} (hstep : w.step a = some w') : w'.jobs = w.jobs := by
  cases a with
  | start i =>
      obtain ⟨c, -, -, rfl⟩ := Callers.start_eq_some hstep
      rfl
  | run i now id =>
      obtain ⟨c, s, hc, hphase, hid, hrun⟩ := Callers.run_eq_some hstep
      obtain ⟨key, -, hrequest⟩ := h.exists_key hc
      have hs := h.reading c (List.mem_of_getElem? hc) s hphase
      have hcreated := @Tracks.create t jobs keys w created hjoinable hquiet h key s now id hs hid
      rw [← hrequest] at hcreated
      rcases hrun with ⟨j, hok, -⟩ | ⟨e, -, hsame, -⟩
      · rw [hok] at hcreated
        rcases hcreated with ⟨j', hcreate, -⟩ | ⟨e, hcreate, -⟩ | ⟨hnone, -, -⟩
        · exact (Prod.mk.inj (Except.ok.inj hcreate)).1
        · cases hcreate
        · have hlength := congrArg List.length (h.rows.symm.trans hrows)
          rw [hnone] at hlength
          simp at hlength
      · exact hsame

theorem Behind.step (hjoinable : t.joinable = true) (hquiet : Quiet t jobs) (hkeys : keys.Nodup)
    (hfree : ∀ key ∈ keys, t.keyed key jobs = none) (h : Tracks t jobs keys w created)
    (hbehind : Behind t jobs w) {a : CallAction} (hstep : w.step a = some w') :
    Behind t jobs w' := by
  rcases hbehind with ⟨hrows, i, k, c, d, hne, hi, hk⟩ |
    ⟨n, before, first, key, i, c, hrows, hn, hkey, hi⟩
  · cases a with
    | start m =>
        left
        have hsame : w'.jobs = w.jobs := by
          obtain ⟨e, -, -, rfl⟩ := Callers.start_eq_some hstep
          rfl
        exact ⟨by rw [hsame, hrows], i, k, c, d, hne, hi.step hstep (hi.ne_start hstep),
          hk.step hstep (hk.ne_start hstep)⟩
    | run m now id =>
        right
        -- One of the two is not the call that goes ahead.
        obtain ⟨x, cx, hx, hmx⟩ : ∃ x cx, Waiting jobs w x cx ∧ m ≠ x := by
          by_cases hmi : m = i
          · exact ⟨k, d, hk, by rw [hmi]; exact hne⟩
          · exact ⟨i, c, hi, hmi⟩
        obtain ⟨cm, s, hcm, hphase, -, hrun⟩ := Callers.run_eq_some hstep
        obtain ⟨key, hget, hrequest⟩ := h.exists_key hcm
        have hs : s = jobs := by
          rcases h.reading cm (List.mem_of_getElem? hcm) s hphase with hs | hs
          · exact hs
          · rw [hs, hrows]
        have hcreate : createJobFrom now id cm.request s w.jobs =
            .ok (jobs ++ [newJob now id cm.request], newJob now id cm.request) := by
          rw [hrequest, hs, hrows]
          exact create_first hquiet (hfree key (List.mem_of_getElem? hget))
        rcases hrun with ⟨j, hok, -⟩ | ⟨e, herror, -⟩
        · rw [hcreate] at hok
          obtain ⟨hrows', -⟩ := Prod.mk.inj (Except.ok.inj hok)
          refine ⟨newJob now id cm.request, now, id, key, x, cx, hrows'.symm, by rw [hrequest], ?_,
            .inl (hx.step hstep hmx)⟩
          have hxkey := h.key_ne hkeys hx.1 hcm hmx.symm
          rw [hrequest] at hxkey
          exact hxkey
        · rw [hcreate] at herror
          cases herror
  · right
    have hrows' : w'.jobs = jobs ++ [n] := by rw [h.step_rows hjoinable hquiet hrows hstep, hrows]
    by_cases hai : a.call = i
    · cases a with
      | start m =>
          obtain rfl : m = i := hai
          rcases hi with hi | ⟨hc, e, he⟩
          · exact absurd rfl (hi.ne_start hstep)
          · obtain ⟨d, hd, hphase, -⟩ := Callers.start_eq_some hstep
            rw [hc] at hd
            obtain rfl := Option.some.inj hd
            rw [he] at hphase
            cases hphase
      | run m now id =>
          obtain rfl : m = i := hai
          obtain ⟨d, s, hd, hphase, hid, hrun⟩ := Callers.run_eq_some hstep
          rcases hi with hi | ⟨hc, e, he⟩
          · rw [hi.1] at hd
            obtain rfl := Option.some.inj hd
            rw [hi.2] at hphase
            obtain rfl := CallPhase.reading.inj hphase
            obtain ⟨key', hget, hrequest⟩ := h.exists_key hi.1
            have hm : m < w.calls.length := (List.getElem?_eq_some_iff.mp hi.1).1
            have hnid : first ≠ id := by
              have hnmem : n ∈ w.jobs := by
                rw [hrows]
                exact List.mem_append_right _ (List.mem_singleton_self n)
              have hne := hid n hnmem
              rw [hn] at hne
              exact hne
            have hconflict : createJobFrom now id c.request jobs w.jobs =
                .error (.problemOperationConflict t.problemId) := by
              rw [hrequest] at hkey ⊢
              rw [hrows]
              exact create_conflicts hjoinable hquiet (hfree key' (List.mem_of_getElem? hget)) hn
                (fun hsame => hkey hsame.symm) hnid
            rcases hrun with ⟨j, hok, -⟩ | ⟨e, -, -, hcalls⟩
            · rw [hconflict] at hok
              cases hok
            · refine ⟨n, before, first, key, m, { c with phase := .returned (.error e) }, hrows', hn,
                hkey, .inr ⟨?_, e, rfl⟩⟩
              rw [hcalls]
              exact List.getElem?_set_self hm
          · rw [hc] at hd
            obtain rfl := Option.some.inj hd
            rw [he] at hphase
            cases hphase
    · refine ⟨n, before, first, key, i, c, hrows', hn, hkey, ?_⟩
      rcases hi with hi | ⟨hc, he⟩
      · exact .inl (hi.step hstep hai)
      · exact .inr ⟨by rw [Callers.step_other hstep hai]; exact hc, he⟩

/-! ## The calls join one job -/

def OneAhead (acts : List CallAction) : Prop :=
  acts = [] ∨ ∃ i now id rest, acts = .start i :: .run i now id :: rest

/-- No key names a job, and one call is through before any other starts; or there is one call,
and it repeats the request of the job its key names. -/
def Undisturbed (t : Target) (jobs : List JobRow) (keys : List String)
    (acts : List CallAction) : Prop :=
  (∀ key ∈ keys, t.keyed key jobs = none) ∧ OneAhead acts ∨
    ∃ key j, keys = [key] ∧ t.keyed key jobs = some j ∧ t.matches j = true

def Callers.joined (w : Callers) (id : Uuid) : Prop :=
  ∀ c ∈ w.calls, c.phase = .returned (.ok id)

theorem initial_idle {c : Call}
    (hc : c ∈ (Callers.initial jobs (keys.map t.request)).calls) : c.phase = .idle := by
  obtain ⟨r, -, rfl⟩ := List.mem_map.mp hc
  rfl

theorem replay_eq_ok {j : JobRow} {id : Uuid} (h : t.replay j = .ok id) :
    t.matches j = true ∧ id = j.id := by
  unfold Target.replay at h
  split at h
  · rename_i hmatches
    exact ⟨hmatches, (Except.ok.inj h).symm⟩
  · cases h

theorem not_joined_of_behind (hbehind : Behind t jobs w) (hdone : ∀ c ∈ w.calls, c.done)
    (id : Uuid) : ¬ w.joined id := by
  have hwaiting : ∀ i c, ¬ Waiting jobs w i c := by
    rintro i c ⟨hc, hphase⟩
    obtain ⟨a, ha⟩ := hdone c (List.mem_of_getElem? hc)
    rw [hphase] at ha
    cases ha
  intro hjoined
  rcases hbehind with ⟨-, i, k, c, d, -, hi, -⟩ | ⟨n, now, first, key, i, c, -, -, -, hi⟩
  · exact hwaiting i c hi
  · rcases hi with hi | ⟨hc, e, he⟩
    · exact hwaiting i c hi
    · rw [hjoined c (List.mem_of_getElem? hc)] at he
      cases he

theorem oneAhead_of_joined (hjoinable : t.joinable = true) (hquiet : Quiet t jobs)
    (hkeys : keys.Nodup) (hfree : ∀ key ∈ keys, t.keyed key jobs = none)
    {acts : List CallAction}
    (run : exec Callers.step (Callers.initial jobs (keys.map t.request)) acts = some w)
    (hdone : ∀ c ∈ w.calls, c.done) {id : Uuid} (hjoined : w.joined id) : OneAhead acts := by
  match acts with
  | [] => exact .inl rfl
  | .run i now first :: rest =>
      obtain ⟨u, hstep, -⟩ := exec_cons_eq_some.mp run
      obtain ⟨c, s, hc, hphase, -⟩ := Callers.run_eq_some hstep
      rw [initial_idle (List.mem_of_getElem? hc)] at hphase
      cases hphase
  | [.start i] =>
      obtain ⟨u, hstep, hnil⟩ := exec_cons_eq_some.mp run
      obtain rfl : u = w := Option.some.inj hnil
      obtain ⟨c, hc, -, rfl⟩ := Callers.start_eq_some hstep
      have hi : i < (Callers.initial jobs (keys.map t.request)).calls.length :=
        (List.getElem?_eq_some_iff.mp hc).1
      obtain ⟨a, ha⟩ := hdone _ (List.mem_of_getElem? (List.getElem?_set_self hi))
      cases ha
  | .start i :: .run k now first :: rest =>
      obtain ⟨u, hstart, hrest⟩ := exec_cons_eq_some.mp run
      obtain ⟨v, hrun, -⟩ := exec_cons_eq_some.mp hrest
      obtain ⟨c, s, hc, hphase, -⟩ := Callers.run_eq_some hrun
      have hik : i = k := by
        by_contra hne
        have hsame : u.calls[k]? = _ := Callers.step_other hstart hne
        rw [hsame] at hc
        rw [initial_idle (List.mem_of_getElem? hc)] at hphase
        cases hphase
      subst hik
      exact .inr ⟨i, now, first, rest, rfl⟩
  | .start i :: .start k :: rest =>
      exfalso
      obtain ⟨u, hfirst, hrest⟩ := exec_cons_eq_some.mp run
      obtain ⟨v, hsecond, hrest⟩ := exec_cons_eq_some.mp hrest
      have hwaits : ∀ {x y : Callers} {m : Nat}, x.step (.start m) = some y → x.jobs = jobs →
          y.jobs = jobs ∧ ∃ c, Waiting jobs y m c := by
        intro x y m hstep hrows
        obtain ⟨c, hc, -, rfl⟩ := Callers.start_eq_some hstep
        have hm : m < x.calls.length := (List.getElem?_eq_some_iff.mp hc).1
        exact ⟨hrows, _, List.getElem?_set_self hm, by rw [hrows]⟩
      obtain ⟨hrows, c, hi⟩ := hwaits hfirst rfl
      obtain ⟨hrows', d, hk⟩ := hwaits hsecond hrows
      have hne : k ≠ i := hi.ne_start hsecond
      have hbehind : Behind t jobs v :=
        .inl ⟨hrows', i, k, c, d, hne.symm, hi.step hsecond hne, hk⟩
      obtain ⟨created, htracks⟩ : ∃ created, Tracks t jobs keys v created := by
        have hstarted : exec Callers.step (Callers.initial jobs (keys.map t.request))
            [.start i, .start k] = some v := by
          rw [exec_cons, hfirst, Option.bind_some, exec_cons, hsecond]
          rfl
        exact tracks_of_run hjoinable hquiet hstarted
      have hend : (∃ created, Tracks t jobs keys w created) ∧ Behind t jobs w := by
        refine exec_invariant
          (I := fun w => (∃ created, Tracks t jobs keys w created) ∧ Behind t jobs w)
          (C := fun _ _ _ => True) ?_ ⟨⟨created, htracks⟩, hbehind⟩
          (everyStep_of_forall_mem fun _ _ => trivial) hrest
        rintro x a y ⟨⟨created, h⟩, hb⟩ - hstep
        exact ⟨h.step hjoinable hquiet hstep, hb.step hjoinable hquiet hkeys hfree h hstep⟩
      exact not_joined_of_behind hend.2 hdone id hjoined

theorem single_of_joined (hquiet : Quiet t jobs) (hkeys : keys.Nodup)
    (h : Tracks t jobs keys w created) {id : Uuid} (hjoined : w.joined id) {key : String}
    (hkey : key ∈ keys) {j : JobRow} (hkeyed : t.keyed key jobs = some j) :
    keys = [key] ∧ t.matches j = true := by
  have hanswer : ∀ key ∈ keys, Answered t jobs created key (.ok id) := by
    intro key hkey
    have hmem : t.request key ∈ w.calls.map Call.request := by
      rw [h.requests]
      exact List.mem_map_of_mem hkey
    obtain ⟨c, hc, hrequest⟩ := List.mem_map.mp hmem
    have hreturned := h.returned c hc _ (hjoined c hc)
    rw [hrequest] at hreturned
    exact hreturned
  obtain ⟨hmatches, hid⟩ := replay_eq_ok ((answered_of_keyed hkeyed).mp (hanswer key hkey)).symm
  have hj : j ∈ jobs := List.mem_of_find?_eq_some hkeyed
  have hkeyOf : ∀ {key : String} {j : JobRow}, t.keyed key jobs = some j →
      j.idempotencyKey = key := by
    intro key j hkeyed
    have hfound := List.find?_some hkeyed
    rw [Bool.and_eq_true] at hfound
    exact of_decide_eq_true hfound.1
  have hall : ∀ key' ∈ keys, key' = key := by
    intro key' hkey'
    cases hkeyed' : t.keyed key' jobs with
    | some j' =>
        obtain ⟨-, hid'⟩ := replay_eq_ok ((answered_of_keyed hkeyed').mp (hanswer key' hkey')).symm
        have hsame : j' = j := by
          refine List.inj_on_of_nodup_map hquiet.ids (List.mem_of_find?_eq_some hkeyed') hj ?_
          rw [← hid, hid']
        rw [← hkeyOf hkeyed', hsame, hkeyOf hkeyed]
    | none =>
        obtain ⟨n, hn, hok | herror⟩ := (answered_of_free hkeyed').mp (hanswer key' hkey')
        · have hn' := (h.new n hn).2 j hj
          rw [← hid, Except.ok.inj hok] at hn'
          exact absurd rfl hn'
        · cases herror
  refine ⟨?_, hmatches⟩
  match keys with
  | [] => cases hkey
  | [x] => rw [hall x List.mem_cons_self]
  | x :: y :: rest =>
      exfalso
      have hx := hall x List.mem_cons_self
      have hy := hall y (List.mem_cons_of_mem _ List.mem_cons_self)
      rw [hx, hy] at hkeys
      exact (List.nodup_cons.mp hkeys).1 List.mem_cons_self

/-- Calls for one target under distinct keys, while no job of the problem is active: every
call that has not returned has a next step, and all calls return one job exactly when one of
them is through before any other starts. -/
theorem identical_requests_coalesce (hjoinable : t.joinable = true) (hquiet : Quiet t jobs)
    (hkeys : keys.Nodup) {acts : List CallAction}
    (run : exec Callers.step (Callers.initial jobs (keys.map t.request)) acts = some w) :
    (∀ i c, w.calls[i]? = some c → ¬ c.done →
      (∃ u, w.step (.start i) = some u) ∨ ∃ now id u, w.step (.run i now id) = some u) ∧
    ((∀ c ∈ w.calls, c.done) → ((∃ id, w.joined id) ↔ Undisturbed t jobs keys acts)) := by
  refine ⟨fun i c hc hdone => Callers.progress hc hdone, ?_⟩
  intro hdone
  obtain ⟨created, htracks⟩ := tracks_of_run hjoinable hquiet run
  constructor
  · rintro ⟨id, hjoined⟩
    by_cases hfree : ∀ key ∈ keys, t.keyed key jobs = none
    · exact .inl ⟨hfree, oneAhead_of_joined hjoinable hquiet hkeys hfree run hdone hjoined⟩
    · push Not at hfree
      obtain ⟨key, hkey, hkeyed⟩ := hfree
      obtain ⟨j, hkeyed⟩ := Option.ne_none_iff_exists'.mp hkeyed
      obtain ⟨hsingle, hmatches⟩ := single_of_joined hquiet hkeys htracks hjoined hkey hkeyed
      exact .inr ⟨key, j, hsingle, hkeyed, hmatches⟩
  · rintro (⟨hfree, rfl | ⟨i, now, id, rest, rfl⟩⟩ | ⟨key, j, rfl, hkeyed, hmatches⟩)
    · refine ⟨0, ?_⟩
      intro c hc
      obtain rfl := Option.some.inj run
      obtain ⟨a, ha⟩ := hdone c hc
      rw [initial_idle hc] at ha
      cases ha
    · have hsplit : CallAction.start i :: .run i now id :: rest =
          [CallAction.start i, .run i now id] ++ rest := rfl
      rw [hsplit] at run
      obtain ⟨u, hfirst, hrest⟩ := exec_append_eq_some.mp run
      obtain ⟨n, hcaught⟩ := caught_of_first hquiet hfree hfirst
      have hend : Caught t jobs n w :=
        exec_invariant (I := Caught t jobs n) (C := fun _ _ _ => True)
          (fun x a y h _ hstep => h.step hquiet hstep) hcaught
          (everyStep_of_forall_mem fun _ _ => trivial) hrest
      refine ⟨n.id, ?_⟩
      intro c hc
      obtain ⟨a, ha⟩ := hdone c hc
      rcases hend.phases c hc with hphase | hphase | hphase
      · rw [hphase] at ha
        cases ha
      · rw [hphase] at ha
        cases ha
      · exact hphase
    · refine ⟨j.id, ?_⟩
      intro c hc
      obtain ⟨a, ha⟩ := hdone c hc
      have hrequest : c.request ∈ [key].map t.request := by
        rw [← htracks.requests]
        exact List.mem_map_of_mem hc
      have hkey : c.request.idempotencyKey = key := by
        rw [List.mem_singleton.mp hrequest]
        rfl
      have hanswer := htracks.returned c hc a ha
      rw [hkey, answered_of_keyed hkeyed] at hanswer
      rw [ha, hanswer, Target.replay, if_pos hmatches]

end Runs

/-! ## Two restores -/

def restoreTarget : Target := ⟨.restore, "101", some 1, "restore"⟩

def restoreCalls : Callers :=
  Callers.initial [] (["first", "second"].map restoreTarget.request)

def restoreRow : JobRow := newJob 10 1 (restoreTarget.request "first")

def restoreAnswers (second : Except CreateJobError Uuid) : Callers :=
  ⟨[restoreRow], [⟨restoreTarget.request "first", .returned (.ok 1)⟩,
    ⟨restoreTarget.request "second", .returned second⟩]⟩

theorem restoreAnswers_done (second : Except CreateJobError Uuid) :
    ∀ c ∈ (restoreAnswers second).calls, c.done := by
  intro c hc
  rcases List.mem_pair.mp hc with rfl | rfl
  · exact ⟨_, rfl⟩
  · exact ⟨_, rfl⟩

theorem restoreTarget_quiet : Quiet restoreTarget [] :=
  ⟨List.nodup_nil, rfl, fun _ hj => absurd hj List.not_mem_nil⟩

theorem identical_requests_coalesce_in_turn :
    exec Callers.step restoreCalls [.start 0, .run 0 10 1, .start 1, .run 1 11 2] =
        some (restoreAnswers (.ok 1)) ∧
      ∃ id, (restoreAnswers (.ok 1)).joined id := by
  have hrun : exec Callers.step restoreCalls [.start 0, .run 0 10 1, .start 1, .run 1 11 2] =
      some (restoreAnswers (.ok 1)) := by rfl
  have hkeys : ["first", "second"].Nodup := by decide
  have hcalls := identical_requests_coalesce (t := restoreTarget) rfl restoreTarget_quiet hkeys hrun
  exact ⟨hrun, (hcalls.2 (restoreAnswers_done _)).mpr
    (.inl ⟨by decide, .inr ⟨0, 10, 1, _, rfl⟩⟩)⟩

/-- The second call starts while the first has not committed. -/
theorem identical_request_refused :
    Quiet restoreTarget [] ∧
      exec Callers.step restoreCalls [.start 0, .start 1, .run 0 10 1, .run 1 11 2] =
        some (restoreAnswers (.error (.problemOperationConflict "101"))) ∧
      ¬ ∃ id, (restoreAnswers (.error (.problemOperationConflict "101"))).joined id := by
  refine ⟨restoreTarget_quiet, by rfl, ?_⟩
  rintro ⟨id, hjoined⟩
  have hsecond := hjoined ⟨restoreTarget.request "second",
    .returned (.error (.problemOperationConflict "101"))⟩ (by simp [restoreAnswers])
  cases hsecond

end ExternalStorage.Jobs
