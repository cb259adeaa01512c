import ExternalStorage.Model.Leases

/-!
# The answers of `createJob`

A request that runs alone is answered in one of five ways: by the row of its key, with a
conflict over the key, by the oldest compatible active job, with a conflict over the problem,
or by a new row.  Two kinds of request have no such answer.  A request of a type that is not
an operation on the folder, but names a problem, is kept from its row by an operation of the
problem; and the index on garbage collections does not look at the generation that the request
and the active collection differ in.
-/

namespace ExternalStorage.Jobs

open ExternalStorage.Model Library.Table

/-! ## The answers -/

/-- The unique indexes of `jobs`. -/
structure JobIndexes (jobs : List JobRow) : Prop where
  ids : (jobs.map JobRow.id).Nodup
  /-- `UNIQUE(idempotency_key, job_type)`. -/
  keys : (jobs.map fun j => (j.idempotencyKey, j.jobType)).Nodup
  guards : activeGuards jobs = true

def keyedBy (r : JobRequest) (j : JobRow) : Prop :=
  j.idempotencyKey = r.idempotencyKey ∧ j.jobType = r.jobType

def SameRequest (r : JobRequest) (j : JobRow) : Prop :=
  j.problemId = r.problemId ∧ j.targetGeneration = r.targetGeneration ∧
    j.requestFingerprint = r.fingerprint

/-- An active job that does what is asked for; an evict and the types without a problem of
their own are shared only among equal requests. -/
def Compatible (r : JobRequest) (j : JobRow) : Prop :=
  j.jobType = r.jobType ∧ j.problemId = r.problemId ∧ j.targetGeneration = r.targetGeneration ∧
    (j.requestFingerprint = r.fingerprint ∨ r.jobType.shared = true) ∧ j.state.active = true

/-- Another scan, snapshot, restore or evict of the problem is active, other than the other
one of a scan and its snapshot. -/
def OtherOperation (r : JobRequest) (j : JobRow) : Prop :=
  j.problemId = r.problemId ∧ j.jobType.exclusive = true ∧ j.state.active = true ∧
    ¬ (r.jobType = .scan ∧ j.jobType = .snapshot) ∧ ¬ (r.jobType = .snapshot ∧ j.jobType = .scan)

instance (r : JobRequest) : DecidablePred (keyedBy r) := fun _ =>
  inferInstanceAs (Decidable (_ ∧ _))

instance (r : JobRequest) : DecidablePred (SameRequest r) := fun _ =>
  inferInstanceAs (Decidable (_ ∧ _))

instance (r : JobRequest) : DecidablePred (Compatible r) := fun _ =>
  inferInstanceAs (Decidable (_ ∧ _))

instance (r : JobRequest) : DecidablePred (OtherOperation r) := fun _ =>
  inferInstanceAs (Decidable (_ ∧ _))

inductive CreateAnswer where
  | replayed | keyTaken | joined | refused | inserted
  deriving DecidableEq, Repr

/-- The request is answered in this way; the ways stand in their precedence. -/
def CreateAnswer.Happens (now : Timestamp) (id : Uuid) (r : JobRequest) (db : Database) :
    CreateAnswer → Prop
  | .replayed =>
      ∃ j ∈ db.jobs, keyedBy r j ∧ SameRequest r j ∧ createJob now id r db = .ok (db, j)
  | .keyTaken =>
      ∃ j ∈ db.jobs, keyedBy r j ∧ ¬ SameRequest r j ∧
        createJob now id r db = .error .idempotencyConflict
  | .joined =>
      (∀ j ∈ db.jobs, ¬ keyedBy r j) ∧ ∃ j ∈ db.jobs, Compatible r j ∧
        (∀ k ∈ db.jobs, Compatible r k → j.createdAt ≤ k.createdAt) ∧
        createJob now id r db = .ok (db, j)
  | .refused =>
      (∀ j ∈ db.jobs, ¬ keyedBy r j ∧ ¬ Compatible r j) ∧ ∃ p, r.problemId = some p ∧
        (∃ j ∈ db.jobs, OtherOperation r j) ∧
        createJob now id r db = .error (.problemOperationConflict p)
  | .inserted =>
      (∀ j ∈ db.jobs, ¬ keyedBy r j ∧ ¬ Compatible r j) ∧
        (r.problemId = none ∨ ∀ j ∈ db.jobs, ¬ OtherOperation r j) ∧
        createJob now id r db =
          .ok ({ db with jobs := db.jobs ++ [newJob now id r] }, newJob now id r)

/-- Exactly one answer, and a table that the indexes accept. -/
def CreatesExactly (now : Timestamp) (id : Uuid) (r : JobRequest) (db : Database) : Prop :=
  (∃! answer : CreateAnswer, answer.Happens now id r db) ∧
    ∀ db' j, createJob now id r db = .ok (db', j) → JobIndexes db'.jobs

/-- The key or a compatible job answers the request, or no active job stands against its row:
neither an operation of its problem, if its own type is none, nor a garbage collection. -/
def Answerable (r : JobRequest) (jobs : List JobRow) : Prop :=
  (∃ j ∈ jobs, keyedBy r j ∨ Compatible r j) ∨
    (r.jobType.exclusive = true ∨ r.problemId = none ∨ ∀ j ∈ jobs, ¬ OtherOperation r j) ∧
      (r.jobType = .gcCollect → r.problemId = none →
        ∀ j ∈ jobs, ¬ (j.jobType = .gcCollect ∧ j.problemId = none ∧ j.state.active = true))

instance (r : JobRequest) (jobs : List JobRow) : Decidable (Answerable r jobs) :=
  inferInstanceAs (Decidable (_ ∨ _))

/-! ## How the statement decides -/

section Decision

variable {now : Timestamp} {id : Uuid} {r : JobRequest} {db : Database}

theorem sameRequest_iff {j : JobRow} :
    (sameTarget r j && j.requestFingerprint = r.fingerprint) = true ↔ SameRequest r j := by
  simp only [sameTarget, SameRequest, Bool.and_eq_true, decide_eq_true_eq, and_assoc]

theorem incompatibleWith_iff {j : JobRow} :
    incompatibleWith r j = true ↔ r.problemId ≠ none ∧ OtherOperation r j := by
  simp only [incompatibleWith, OtherOperation, Bool.and_eq_true, decide_eq_true_eq,
    Bool.not_eq_true', Bool.or_eq_false_iff, Option.isSome_iff_ne_none, and_assoc,
    Bool.and_eq_false_iff, decide_eq_false_iff_not, not_and_or]

variable (r db) in
theorem keyed_find :
    (∃ j, db.jobs.find? (fun j => j.idempotencyKey = r.idempotencyKey && j.jobType = r.jobType) =
        some j ∧ j ∈ db.jobs ∧ keyedBy r j) ∨
      db.jobs.find? (fun j => j.idempotencyKey = r.idempotencyKey && j.jobType = r.jobType) = none ∧
        ∀ j ∈ db.jobs, ¬ keyedBy r j := by
  cases hfound : db.jobs.find? fun j =>
      j.idempotencyKey = r.idempotencyKey && j.jobType = r.jobType with
  | some j =>
      have hkeyed := List.find?_some hfound
      rw [Bool.and_eq_true, decide_eq_true_eq, decide_eq_true_eq] at hkeyed
      exact .inl ⟨j, rfl, List.mem_of_find?_eq_some hfound, hkeyed⟩
  | none =>
      right
      refine ⟨rfl, ?_⟩
      intro j hj hkeyed
      apply List.find?_eq_none.mp hfound j hj
      rw [Bool.and_eq_true, decide_eq_true_eq, decide_eq_true_eq]
      exact hkeyed

theorem activeFor_cases (r : JobRequest) (jobs : List JobRow) :
    (∃ j, activeFor r jobs = some j ∧ j ∈ jobs ∧ Compatible r j ∧
        ∀ k ∈ jobs, Compatible r k → j.createdAt ≤ k.createdAt) ∨
      activeFor r jobs = none ∧ ∀ j ∈ jobs, ¬ Compatible r j := by
  have hselected : ∀ j, j ∈ (jobs.filter fun j => j.jobType = r.jobType && sameTarget r j &&
      (j.requestFingerprint = r.fingerprint || r.jobType.shared) && j.state.active) ↔
        j ∈ jobs ∧ Compatible r j := by
    intro j
    simp only [List.mem_filter, Compatible, sameTarget, Bool.and_eq_true, Bool.or_eq_true,
      decide_eq_true_eq, and_assoc]
  cases hfirst : activeFor r jobs with
  | some j =>
      left
      obtain ⟨hj, hcompatible⟩ := (hselected j).mp (mem_of_firstBy hfirst)
      refine ⟨j, rfl, hj, hcompatible, ?_⟩
      intro k hk hk'
      have hafter := not_before_firstBy ?_ ?_ ?_ hfirst k ((hselected k).mpr ⟨hk, hk'⟩)
      · exact Int.not_lt.mp (of_decide_eq_false hafter)
      · intro j
        exact decide_eq_false (Int.lt_irrefl _)
      · intro j k hlt
        exact decide_eq_false (Int.not_lt.mpr (Int.le_of_lt (of_decide_eq_true hlt)))
      · intro j k l hjk hkl
        have hkj := Int.not_lt.mp (of_decide_eq_false hjk)
        exact decide_eq_false (Int.not_lt.mpr
          (Int.le_trans hkj (Int.not_lt.mp (of_decide_eq_false hkl))))
  | none =>
      right
      refine ⟨rfl, ?_⟩
      intro j hj hcompatible
      have hmem := (hselected j).mpr ⟨hj, hcompatible⟩
      rw [firstBy_eq_none.mp hfirst] at hmem
      cases hmem

variable (now id) in
theorem createJob_keyed {j : JobRow} (hidx : JobIndexes db.jobs) (hj : j ∈ db.jobs)
    (hkeyed : keyedBy r j) :
    SameRequest r j ∧ createJob now id r db = .ok (db, j) ∨
      ¬ SameRequest r j ∧ createJob now id r db = .error .idempotencyConflict := by
  have hfind : db.jobs.find? (fun j =>
      j.idempotencyKey = r.idempotencyKey && j.jobType = r.jobType) = some j := by
    rcases keyed_find r db with ⟨k, hfind, hk, hkeyed'⟩ | ⟨-, hnone⟩
    · rw [hfind, List.inj_on_of_nodup_map hidx.keys hk hj]
      exact Prod.ext (hkeyed'.1.trans hkeyed.1.symm) (hkeyed'.2.trans hkeyed.2.symm)
    · exact absurd hkeyed (hnone j hj)
  have hany : (db.jobs.any fun j =>
      j.idempotencyKey = r.idempotencyKey && j.jobType = r.jobType) = true := by
    rw [List.any_eq_true]
    refine ⟨j, hj, ?_⟩
    rw [Bool.and_eq_true, decide_eq_true_eq, decide_eq_true_eq]
    exact hkeyed
  unfold createJob
  rw [hfind]
  dsimp only
  by_cases hsame : SameRequest r j
  · rw [if_pos (sameRequest_iff.mpr hsame)]
    exact .inl ⟨hsame, rfl⟩
  · rw [if_neg (mt sameRequest_iff.mp hsame), noRowError, if_pos hany]
    exact .inr ⟨hsame, rfl⟩

variable (now id) in
theorem createJob_joins {j : JobRow} (hkeys : ∀ j ∈ db.jobs, ¬ keyedBy r j)
    (hactive : activeFor r db.jobs = some j) : createJob now id r db = .ok (db, j) := by
  unfold createJob
  rw [((keyed_find r db).resolve_left fun ⟨j, _, hj, h⟩ => hkeys j hj h).1, hactive]

theorem createJob_free (hkeys : ∀ j ∈ db.jobs, ¬ keyedBy r j)
    (hactive : activeFor r db.jobs = none) :
    createJob now id r db =
      if db.jobs.any (incompatibleWith r) then .error (noRowError r db.jobs)
      else if activeGuards (db.jobs ++ [newJob now id r]) then
        .ok ({ db with jobs := db.jobs ++ [newJob now id r] }, newJob now id r)
      else
        match r.problemId, firstBy (fun j k => decide (j.createdAt < k.createdAt))
            (db.jobs.filter fun j => j.jobType = .gcCollect && j.problemId = none &&
              j.state.active) with
        | some p, _ => .error (.problemOperationConflict p)
        | none, some j => .ok (db, j)
        | none, none => .error .noResult := by
  have hfind := ((keyed_find r db).resolve_left fun ⟨j, _, hj, h⟩ => hkeys j hj h).1
  have hcreate := createJob.eq_def now id r db
  simp only [hfind, hactive] at hcreate
  exact hcreate

theorem noRowError_unkeyed (hkeys : ∀ j ∈ db.jobs, ¬ keyedBy r j) {p : String}
    (hproblem : r.problemId = some p) {j : JobRow} (hj : j ∈ db.jobs) (hother : OtherOperation r j) :
    noRowError r db.jobs =
      if r.jobType.exclusive then .problemOperationConflict p else .noResult := by
  have hkey : ¬ (db.jobs.any fun j =>
      j.idempotencyKey = r.idempotencyKey && j.jobType = r.jobType) = true := by
    rw [List.any_eq_true]
    rintro ⟨k, hk, hkeyed⟩
    rw [Bool.and_eq_true, decide_eq_true_eq, decide_eq_true_eq] at hkeyed
    exact hkeys k hk hkeyed
  have hbusy : (db.jobs.any fun j => j.problemId = some p && j.jobType.exclusive &&
      j.state.active) = true := by
    obtain ⟨hid, hexclusive, hactive, -, -⟩ := hother
    rw [List.any_eq_true]
    exact ⟨j, hj, by simp [hid, hproblem, hexclusive, hactive]⟩
  rw [noRowError, if_neg hkey, hproblem]
  dsimp only
  rw [hbusy, Bool.and_true]

/-- Of the active rows only a garbage collection stands against a new row that no operation of
its problem stands against. -/
theorem guards_new_iff (hidx : JobIndexes db.jobs) (hfresh : ∀ j ∈ db.jobs, j.id ≠ id)
    (hfree : r.problemId = none ∨ ∀ j ∈ db.jobs, ¬ OtherOperation r j) :
    activeGuards (db.jobs ++ [newJob now id r]) = true ↔
      (r.jobType = .gcCollect → r.problemId = none →
        ∀ j ∈ db.jobs, ¬ (j.jobType = .gcCollect ∧ j.problemId = none ∧ j.state.active = true)) := by
  rw [activeGuards_append hidx.guards]
  constructor
  · intro h htype hproblem j hj ⟨hgc, hnone, hactive⟩
    have hconflicting := h j hj (hfresh j hj)
    rw [← Bool.not_eq_true, conflicting_eq_true] at hconflicting
    exact hconflicting ⟨hactive, rfl, .inr ⟨hnone, hproblem, hgc, htype⟩⟩
  · intro h j hj _
    rw [← Bool.not_eq_true, conflicting_eq_true]
    rintro ⟨hactive, -, ⟨hsome, hid, hexclusive, -, hsame⟩ | ⟨hnone, hproblem, hgc, htype⟩⟩
    · have htype : j.jobType = r.jobType := hsame.resolve_right fun hrunning =>
        JobState.noConfusion hrunning.2
      rcases hfree with hproblem | hother
      · rw [hid, show (newJob now id r).problemId = r.problemId from rfl, hproblem] at hsome
        cases hsome
      · refine hother j hj ⟨hid, hexclusive, hactive, ?_, ?_⟩
        · rintro ⟨hscan, hsnapshot⟩
          cases hscan.symm.trans (htype.symm.trans hsnapshot)
        · rintro ⟨hsnapshot, hscan⟩
          cases hsnapshot.symm.trans (htype.symm.trans hscan)
    · exact h htype hproblem j hj ⟨hgc, hnone, hactive⟩

variable (now id) in
theorem createJob_other (hkeys : ∀ j ∈ db.jobs, ¬ keyedBy r j)
    (hactive : activeFor r db.jobs = none) {p : String} (hproblem : r.problemId = some p)
    {j : JobRow} (hj : j ∈ db.jobs) (hother : OtherOperation r j) :
    createJob now id r db =
      .error (if r.jobType.exclusive then .problemOperationConflict p else .noResult) := by
  have hany : db.jobs.any (incompatibleWith r) = true :=
    List.any_eq_true.mpr ⟨j, hj, incompatibleWith_iff.mpr
      ⟨hproblem ▸ Option.some_ne_none p, hother⟩⟩
  rw [createJob_free hkeys hactive, if_pos hany, noRowError_unkeyed hkeys hproblem hj hother]

theorem not_incompatible (hfree : r.problemId = none ∨ ∀ j ∈ db.jobs, ¬ OtherOperation r j) :
    ¬ db.jobs.any (incompatibleWith r) = true := by
  rw [List.any_eq_true]
  rintro ⟨j, hj, hincompatible⟩
  obtain ⟨hproblem, hother⟩ := incompatibleWith_iff.mp hincompatible
  rcases hfree with hnone | hfree
  · exact hproblem hnone
  · exact hfree j hj hother

variable (now id) in
theorem createJob_inserts (hidx : JobIndexes db.jobs) (hfresh : ∀ j ∈ db.jobs, j.id ≠ id)
    (hkeys : ∀ j ∈ db.jobs, ¬ keyedBy r j) (hactive : activeFor r db.jobs = none)
    (hfree : r.problemId = none ∨ ∀ j ∈ db.jobs, ¬ OtherOperation r j)
    (hgc : r.jobType = .gcCollect → r.problemId = none →
      ∀ j ∈ db.jobs, ¬ (j.jobType = .gcCollect ∧ j.problemId = none ∧ j.state.active = true)) :
    createJob now id r db =
      .ok ({ db with jobs := db.jobs ++ [newJob now id r] }, newJob now id r) := by
  rw [createJob_free hkeys hactive, if_neg (not_incompatible hfree),
    if_pos ((guards_new_iff hidx hfresh hfree).mpr hgc)]

variable (now) in
/-- A garbage collection of another generation is returned in place of a new one. -/
theorem createJob_collecting (hidx : JobIndexes db.jobs) (hfresh : ∀ j ∈ db.jobs, j.id ≠ id)
    (hkeys : ∀ j ∈ db.jobs, ¬ keyedBy r j) (hactive : activeFor r db.jobs = none)
    (hproblem : r.problemId = none) (htype : r.jobType = .gcCollect) {j : JobRow}
    (hj : j ∈ db.jobs)
    (hgc : j.jobType = .gcCollect ∧ j.problemId = none ∧ j.state.active = true) :
    ∃ j ∈ db.jobs, createJob now id r db = .ok (db, j) := by
  have hguards : ¬ activeGuards (db.jobs ++ [newJob now id r]) = true := by
    rw [guards_new_iff hidx hfresh (.inl hproblem)]
    intro h
    exact h htype hproblem j hj hgc
  rw [createJob_free hkeys hactive, if_neg (not_incompatible (.inl hproblem)), if_neg hguards,
    hproblem]
  cases hfirst : firstBy (fun j k => decide (j.createdAt < k.createdAt))
      (db.jobs.filter fun j => j.jobType = .gcCollect && j.problemId = none && j.state.active) with
  | none =>
      rw [firstBy_eq_none, List.filter_eq_nil_iff] at hfirst
      exact absurd (by simp [hgc]) (hfirst j hj)
  | some k => exact ⟨k, (List.mem_filter.mp (mem_of_firstBy hfirst)).1, rfl⟩

variable (now id) in
theorem createJob_answered (hidx : JobIndexes db.jobs) {j : JobRow} (hj : j ∈ db.jobs)
    (h : keyedBy r j ∨ r.problemId ≠ none ∧ OtherOperation r j) :
    (∃ k ∈ db.jobs, createJob now id r db = .ok (db, k)) ∨ ∃ e, createJob now id r db = .error e := by
  by_cases hkeyed : ∃ k ∈ db.jobs, keyedBy r k
  · obtain ⟨k, hk, hkeyed⟩ := hkeyed
    rcases createJob_keyed now id hidx hk hkeyed with ⟨-, hok⟩ | ⟨-, herror⟩
    · exact .inl ⟨k, hk, hok⟩
    · exact .inr ⟨_, herror⟩
  · have hkeys : ∀ j ∈ db.jobs, ¬ keyedBy r j := fun j hj h => hkeyed ⟨j, hj, h⟩
    obtain ⟨hproblem, hother⟩ := h.resolve_left (hkeys j hj)
    obtain ⟨p, hp⟩ := Option.ne_none_iff_exists'.mp hproblem
    rcases activeFor_cases r db.jobs with ⟨k, hactive, hk, -⟩ | ⟨hactive, -⟩
    · exact .inl ⟨k, hk, createJob_joins now id hkeys hactive⟩
    · exact .inr ⟨_, createJob_other now id hkeys hactive hp hj hother⟩

end Decision

/-! ## When there is one answer -/

section Exact

variable {now : Timestamp} {id : Uuid} {r : JobRequest} {db : Database}

def CreateAnswer.Applies (r : JobRequest) (jobs : List JobRow) : CreateAnswer → Prop
  | .replayed => ∃ j ∈ jobs, keyedBy r j ∧ SameRequest r j
  | .keyTaken => ∃ j ∈ jobs, keyedBy r j ∧ ¬ SameRequest r j
  | .joined => (∀ j ∈ jobs, ¬ keyedBy r j) ∧ ∃ j ∈ jobs, Compatible r j
  | .refused =>
      (∀ j ∈ jobs, ¬ keyedBy r j ∧ ¬ Compatible r j) ∧
        ¬ (r.problemId = none ∨ ∀ j ∈ jobs, ¬ OtherOperation r j)
  | .inserted =>
      (∀ j ∈ jobs, ¬ keyedBy r j ∧ ¬ Compatible r j) ∧
        (r.problemId = none ∨ ∀ j ∈ jobs, ¬ OtherOperation r j)

theorem CreateAnswer.Happens.applies {answer : CreateAnswer}
    (h : answer.Happens now id r db) : answer.Applies r db.jobs := by
  cases answer with
  | replayed | keyTaken =>
      obtain ⟨j, hj, hkeyed, hsame, -⟩ := h
      exact ⟨j, hj, hkeyed, hsame⟩
  | joined =>
      obtain ⟨hkeys, j, hj, hcompatible, -, -⟩ := h
      exact ⟨hkeys, j, hj, hcompatible⟩
  | refused =>
      obtain ⟨hfree, p, hproblem, ⟨j, hj, hother⟩, -⟩ := h
      refine ⟨hfree, ?_⟩
      rintro (hnone | hnone)
      · cases hproblem.symm.trans hnone
      · exact hnone j hj hother
  | inserted => exact ⟨h.1, h.2.1⟩

theorem applies_unique (hidx : JobIndexes db.jobs) {a b : CreateAnswer}
    (ha : a.Applies r db.jobs) (hb : b.Applies r db.jobs) : a = b := by
  have hkey : ∀ j ∈ db.jobs, ∀ k ∈ db.jobs, keyedBy r j → keyedBy r k → j = k := by
    intro j hj k hk hkeyed hkeyed'
    exact List.inj_on_of_nodup_map hidx.keys hj hk
      (Prod.ext (hkeyed.1.trans hkeyed'.1.symm) (hkeyed.2.trans hkeyed'.2.symm))
  cases a <;> cases b <;> first | rfl | (simp only [CreateAnswer.Applies] at ha hb; grind)

theorem CreateAnswer.Happens.exactly (answer : CreateAnswer) (hidx : JobIndexes db.jobs)
    (h : answer.Happens now id r db)
    (hafter : ∀ db' j, createJob now id r db = .ok (db', j) → JobIndexes db'.jobs) :
    CreatesExactly now id r db :=
  ⟨⟨answer, h, fun _ h' => applies_unique hidx h'.applies h.applies⟩, hafter⟩

theorem JobIndexes.insert (hidx : JobIndexes db.jobs) (hfresh : ∀ j ∈ db.jobs, j.id ≠ id)
    (hkeys : ∀ j ∈ db.jobs, ¬ keyedBy r j)
    (hguards : activeGuards (db.jobs ++ [newJob now id r]) = true) :
    JobIndexes (db.jobs ++ [newJob now id r]) := by
  refine ⟨nodup_map_concat hidx.ids hfresh, ?_, hguards⟩
  apply nodup_map_concat hidx.keys
  intro j hj hkey
  exact hkeys j hj (Prod.mk.inj hkey)

end Exact

section Sample

def waitingScan : JobRow := newJob 0 1 ⟨"scan-1", .scan, some "101", none, "scan"⟩

def waitingDb : Database :=
  { problems := [presentRow "101" "aplusb"], jobs := [waitingScan] }

theorem waitingDb_indexes : JobIndexes waitingDb.jobs :=
  ⟨by decide, by decide, by decide⟩

end Sample

end ExternalStorage.Jobs
