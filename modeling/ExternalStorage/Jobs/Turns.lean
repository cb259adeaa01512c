import ExternalStorage.Jobs.Scheduling

/-!
# Calls of the scheduler, turn by turn

How a call goes can be told from the tables before it: the first turn of a problem finds them
as they were, and a further turn finds what the first left.
-/

namespace ExternalStorage.Jobs

open ExternalStorage.Model Library.Table Library.Batches

/-! ## A second turn -/

section Second

variable {c : ScheduleContext} {p : ProblemRow} {db : Database}

theorem found_again {r : JobRequest} {jobs jobs' added : List JobRow} {problemId : String}
    (hfacts : jobs'.map jobFacts = jobs.map jobFacts ++ added)
    (hanswer : (answerOf r jobs).conflict problemId = none)
    (hadded : ∀ f ∈ added, keyedBy r f → SameRequest r f)
    (hinserted : answerOf r jobs = .inserted → ∃ f ∈ added, keyedBy r f) :
    (answerOf r jobs').found = true := by
  have hmem : ∀ f, f ∈ jobs'.map jobFacts ↔ f ∈ jobs.map jobFacts ∨ f ∈ added := by
    intro f
    rw [hfacts, List.mem_append]
  by_cases hreplay : ∃ j ∈ jobs', keyedBy r j ∧ SameRequest r j
  · rw [answerOf, if_pos hreplay]
    rfl
  have hnone : ∀ f ∈ jobs'.map jobFacts, ¬ (keyedBy r f ∧ SameRequest r f) := by
    intro f hf hsame
    apply hreplay
    rw [exists_facts_iff _ (P := fun j => keyedBy r j ∧ SameRequest r j) fun _ => Iff.rfl]
    exact ⟨f, hf, hsame⟩
  have hunkeyed : ∀ f ∈ added, ¬ keyedBy r f :=
    fun f hf hkeyed => hnone f ((hmem f).mpr (.inr hf)) ⟨hkeyed, hadded f hf hkeyed⟩
  -- So the answer was an active job that was there.
  have hbefore : ¬ (∃ j ∈ jobs, keyedBy r j) ∧ ∃ j ∈ jobs, Compatible r j := by
    unfold answerOf at hanswer hinserted
    split at hanswer
    · rename_i hsame
      rw [exists_facts_iff _ (P := fun j => keyedBy r j ∧ SameRequest r j) fun _ => Iff.rfl] at hsame
      obtain ⟨f, hf, hsame⟩ := hsame
      exact absurd hsame (hnone f ((hmem f).mpr (.inl hf)))
    · split at hanswer
      · cases hanswer
      · rename_i hkeys
        split at hanswer
        · rename_i hjoin
          exact ⟨hkeys, hjoin⟩
        · split at hanswer
          · cases hanswer
          · rename_i hsame hjoin hother
            rw [if_neg hsame, if_neg hkeys, if_neg hjoin, if_neg hother] at hinserted
            obtain ⟨f, hf, hkeyed⟩ := hinserted rfl
            exact absurd hkeyed (hunkeyed f hf)
  obtain ⟨hkeys, hjoin⟩ := hbefore
  have hkeys' : ¬ ∃ j ∈ jobs', keyedBy r j := by
    rw [exists_facts_iff _ (P := keyedBy r) fun _ => Iff.rfl] at hkeys ⊢
    rintro ⟨f, hf, hkeyed⟩
    rcases (hmem f).mp hf with hf | hf
    · exact hkeys ⟨f, hf, hkeyed⟩
    · exact hunkeyed f hf hkeyed
  have hjoin' : ∃ j ∈ jobs', Compatible r j := by
    rw [exists_facts_iff _ (P := Compatible r) fun _ => Iff.rfl] at hjoin ⊢
    obtain ⟨f, hf, hcompatible⟩ := hjoin
    exact ⟨f, (hmem f).mpr (.inl hf), hcompatible⟩
  rw [answerOf, if_neg hreplay, if_neg hkeys', if_pos hjoin']
  rfl

theorem conflict_of_other_generation {jobs : List JobRow} {generation other round : Int}
    (hidx : JobIndexes jobs) (hne : other ≠ generation)
    (hfound : (answerOf (autoSnapshotRequest p generation round) jobs).found = true) :
    (answerOf (autoSnapshotRequest p other round) jobs).conflict p.externalId ≠ none := by
  have hdiffers : ∀ j, SameRequest (autoSnapshotRequest p generation round) j →
      ¬ SameRequest (autoSnapshotRequest p other round) j :=
    fun j hj hj' => hne (Option.some.inj (hj'.2.1.symm.trans hj.2.1))
  unfold answerOf at hfound
  split at hfound
  · rename_i hsame
    obtain ⟨j, hj, hkeyed, hsame⟩ := hsame
    have hkey : ∃ j ∈ jobs, keyedBy (autoSnapshotRequest p other round) j := ⟨j, hj, hkeyed⟩
    have hunique : ¬ ∃ k ∈ jobs, keyedBy (autoSnapshotRequest p other round) k ∧
        SameRequest (autoSnapshotRequest p other round) k := by
      rintro ⟨k, hk, hkeyed', hsame'⟩
      have hjk : j = k := List.inj_on_of_nodup_map hidx.keys hj hk
        (Prod.ext (hkeyed.1.trans hkeyed'.1.symm) (hkeyed.2.trans hkeyed'.2.symm))
      exact hdiffers j hsame (hjk ▸ hsame')
    rw [answerOf, if_neg hunique, if_pos hkey]
    exact Option.some_ne_none _
  · split at hfound
    · cases hfound
    · rename_i hkeys
      split at hfound
      · rename_i hjoin
        obtain ⟨j, hj, htype, hproblem, htarget, -, hactive⟩ := hjoin
        have hkeys' : ¬ ∃ j ∈ jobs, keyedBy (autoSnapshotRequest p other round) j := hkeys
        have hreplay : ¬ ∃ k ∈ jobs, keyedBy (autoSnapshotRequest p other round) k ∧
            SameRequest (autoSnapshotRequest p other round) k :=
          fun h => h.elim fun k hk => hkeys' ⟨k, hk.1, hk.2.1⟩
        have hjoin' : ¬ ∃ k ∈ jobs, Compatible (autoSnapshotRequest p other round) k := by
          rintro ⟨k, hk, htype', hproblem', htarget', -, hactive'⟩
          by_cases hid : j.id = k.id
          · rw [List.inj_on_of_nodup_map hidx.ids hj hk hid] at htarget
            exact hne (Option.some.inj (htarget'.symm.trans htarget))
          · have hguard := activeGuards_iff.mp hidx.guards j hj k hk hid
            rw [← Bool.not_eq_true, conflicting_eq_true] at hguard
            apply hguard
            refine ⟨hactive, hactive', .inl ⟨?_, hproblem.trans hproblem'.symm, ?_, ?_, .inl ?_⟩⟩
            · rw [hproblem]
              rfl
            · rw [htype]
              rfl
            · rw [htype']
              rfl
            · exact htype.trans htype'.symm
        have hother : ∃ k ∈ jobs, OtherOperation (autoSnapshotRequest p other round) k := by
          refine ⟨j, hj, hproblem, ?_, hactive, ?_, ?_⟩
          · rw [htype]
            rfl
          · exact fun h => JobType.noConfusion h.1
          · exact fun h => JobType.noConfusion (htype.symm.trans h.2)
        rw [answerOf, if_neg hreplay, if_neg hkeys', if_neg hjoin', if_pos hother]
        exact Option.some_ne_none _
      · split at hfound <;> cases hfound

theorem dirtied_externalId : (dirtied c db p).externalId = p.externalId := by
  unfold dirtied
  split <;> rfl

theorem autoScanRequest_dirtied (round : Int) :
    autoScanRequest (dirtied c db p) round = autoScanRequest p round := by
  unfold dirtied
  split <;> rfl

theorem autoSnapshotRequest_dirtied (generation round : Int) :
    autoSnapshotRequest (dirtied c db p) generation round =
      autoSnapshotRequest p generation round := by
  unfold dirtied
  split <;> rfl

/-- A second turn of the problem draws another generation for the same key. -/
def repeats (c : ScheduleContext) (db : Database) (p : ProblemRow) : Bool :=
  wants c db p && p.dirty && p.dirtyGeneration.isNone

structure SecondTurn (c : ScheduleContext) (db : Database) (p : ProblemRow) (db' : Database) :
    Prop where
  conflict : (turnConflict c db' (dirtied c db p)).isSome = repeats c db p
  rows : ∀ scanId snapshotId, turnRows c db' (dirtied c db p) scanId snapshotId = []
  dirtied : dirtied c db' (dirtied c db p) = dirtied c db p
  draws : repeats c db p = false → draws c db' (Jobs.dirtied c db p) = false

theorem dirtied_cases (c : ScheduleContext) (db : Database) (p : ProblemRow) :
    p.dirty = true ∧ dirtied c db p = p ∨
      (p.dirty = false ∧ cleanWithoutReady db p.externalId p = true ∧
        (dirtied c db p).dirty = true ∧
        (dirtied c db p).dirtyGeneration = some (nextOf db p.externalId)) ∨
      p.dirty = false ∧ cleanWithoutReady db p.externalId p = false ∧ dirtied c db p = p := by
  unfold dirtied
  cases hdirty : p.dirty with
  | true => exact .inl ⟨rfl, rfl⟩
  | false =>
      cases hclean : cleanWithoutReady db p.externalId p with
      | true => exact .inr (.inl ⟨rfl, rfl, rfl, rfl⟩)
      | false => exact .inr (.inr ⟨rfl, rfl, rfl⟩)

variable {out : Database × Except CreateJobError (Option ScheduledJobs)}

theorem Turn.wants_again (h : Turn c p db out) :
    wants c out.1 (dirtied c db p) = wants c db p := by
  have hparked : c.parked (dirtied c db p).externalId = c.parked p.externalId := by
    rw [dirtied_externalId]
  rw [wants, hparked, wants]
  congr 1
  rcases dirtied_cases c db p with ⟨hdirty, hsame⟩ | ⟨hdirty, hclean, hdirty', -⟩ |
    ⟨hdirty, hclean, hsame⟩
  · rw [hsame, becomesDirty, hdirty, becomesDirty, hdirty]
    rfl
  · rw [becomesDirty, hdirty', becomesDirty, hclean, Bool.or_true, Bool.true_or]
  · rw [hsame, becomesDirty, becomesDirty, cleanWithoutReady, h.snapshots, cleanWithoutReady]

theorem Turn.found_again (h : Turn c p db out) (hwants : wants c db p = true)
    (hnone : turnConflict c db p = none) :
    (scanAnswer c (dirtied c db p) out.1).found = true ∧
      (answerOf (autoSnapshotRequest p (generationFor db p) (c.round p.externalId))
        out.1.jobs).found = true := by
  obtain ⟨scanId, snapshotId, -, hfacts⟩ := h.rows
  rw [turnConflict, if_pos hwants, autoConflict, Option.or_eq_none_iff] at hnone
  rw [turnRows, if_pos hwants] at hfacts
  have hrows : ∀ f ∈ autoRows c p (generationFor db p) db scanId snapshotId,
      f = newJob c.now scanId (autoScanRequest p (c.round p.externalId)) ∨
        f = newJob c.now snapshotId
          (autoSnapshotRequest p (generationFor db p) (c.round p.externalId)) := by
    intro f hf
    unfold autoRows at hf
    rcases List.mem_append.mp hf with hf | hf
    · split at hf
      · exact .inl (List.mem_singleton.mp hf)
      · cases hf
    · split at hf
      · exact .inr (List.mem_singleton.mp hf)
      · cases hf
  constructor
  · rw [scanAnswer, dirtied_externalId, autoScanRequest_dirtied]
    apply Jobs.found_again hfacts hnone.1
    · intro f hf hkeyed
      rcases hrows f hf with rfl | rfl
      · exact ⟨rfl, rfl, rfl⟩
      · exact JobType.noConfusion hkeyed.2
    · intro hinserted
      refine ⟨newJob c.now scanId (autoScanRequest p (c.round p.externalId)), ?_, rfl, rfl⟩
      rw [autoRows, if_pos (show scanAnswer c p db = .inserted from hinserted)]
      exact List.mem_append_left _ (List.mem_singleton_self _)
  · apply Jobs.found_again hfacts hnone.2
    · intro f hf hkeyed
      rcases hrows f hf with rfl | rfl
      · exact JobType.noConfusion hkeyed.2
      · exact ⟨rfl, rfl, rfl⟩
    · intro hinserted
      refine ⟨newJob c.now snapshotId
        (autoSnapshotRequest p (generationFor db p) (c.round p.externalId)), ?_, rfl, rfl⟩
      rw [autoRows, if_pos (show (scanAnswer c p db).conflict p.externalId = none ∧
        snapshotAnswer c p (generationFor db p) db = .inserted from ⟨hnone.1, hinserted⟩)]
      exact List.mem_append_right _ (List.mem_singleton_self _)

theorem CreateAnswer.not_inserted_of_found {answer : CreateAnswer} (h : answer.found = true) :
    answer ≠ .inserted := by
  rintro rfl
  cases h

theorem CreateAnswer.conflict_of_found {answer : CreateAnswer} (h : answer.found = true)
    (problemId : String) : answer.conflict problemId = none := by
  cases answer <;> first | rfl | cases h

theorem Turn.snapshot_again (h : Turn c p db out) (hwants : wants c db p = true)
    (hnone : turnConflict c db p = none) :
    snapshotAnswer c (dirtied c db p) (generationFor out.1 (dirtied c db p)) out.1 ≠ .inserted ∧
      ((snapshotAnswer c (dirtied c db p) (generationFor out.1 (dirtied c db p)) out.1).conflict
        p.externalId).isSome = repeats c db p := by
  obtain ⟨-, hfound⟩ := h.found_again hwants hnone
  have hrequest : snapshotAnswer c (dirtied c db p) (generationFor out.1 (dirtied c db p)) out.1 =
      answerOf (autoSnapshotRequest p (generationFor out.1 (dirtied c db p))
        (c.round p.externalId)) out.1.jobs := by
    rw [snapshotAnswer, dirtied_externalId, autoSnapshotRequest_dirtied]
  rw [hrequest]
  by_cases hsame : generationFor out.1 (dirtied c db p) = generationFor db p
  · rw [hsame]
    refine ⟨CreateAnswer.not_inserted_of_found hfound, ?_⟩
    rw [CreateAnswer.conflict_of_found hfound]
    cases hrepeats : repeats c db p with
    | false => rfl
    | true =>
        simp only [repeats, Bool.and_eq_true, Option.isNone_iff_eq_none] at hrepeats
        obtain ⟨⟨-, hdirty⟩, hgeneration⟩ := hrepeats
        have hkept : dirtied c db p = p := by
          rw [dirtied, hdirty]
          rfl
        have hdraws : draws c db p = true := by
          simp only [wants, Bool.and_eq_true] at hwants
          simp [draws, hdirty, hgeneration, hwants.2]
        have hnext := h.next
        rw [hkept, generationFor, generationFor, if_pos hdirty, hgeneration, Option.getD_none,
          Option.getD_none, hnext, hdraws, if_pos rfl] at hsame
        omega
  · have hconflict := conflict_of_other_generation h.indexes hsame hfound
    refine ⟨?_, ?_⟩
    · intro hinserted
      rw [hinserted] at hconflict
      exact hconflict rfl
    · rw [Option.isSome_iff_ne_none.mpr hconflict]
      symm
      rcases dirtied_cases c db p with ⟨hdirty, hkept⟩ | ⟨hdirty, -, hdirty', hgeneration'⟩ |
        ⟨hdirty, hclean, -⟩
      · cases hgeneration : p.dirtyGeneration with
        | none => simp [repeats, hwants, hdirty, hgeneration]
        | some generation =>
            rw [hkept] at hsame
            simp [generationFor, hdirty, hgeneration] at hsame
      · exact absurd (by simp [generationFor, hdirty, hdirty', hgeneration']) hsame
      · simp [wants, becomesDirty, hdirty, hclean] at hwants

theorem Turn.again (h : Turn c p db out) (hnone : turnConflict c db p = none) :
    SecondTurn c db p out.1 := by
  have hagain := h.wants_again
  have hclean : ∀ r, cleanWithoutReady out.1 p.externalId r = cleanWithoutReady db p.externalId r := by
    intro r
    rw [cleanWithoutReady, h.snapshots, cleanWithoutReady]
  have hdirtied : dirtied c out.1 (dirtied c db p) = dirtied c db p ∧
      (repeats c db p = false → draws c out.1 (dirtied c db p) = false) := by
    rcases dirtied_cases c db p with ⟨hdirty, hkept⟩ | ⟨-, -, hdirty', hgeneration⟩ |
      ⟨hdirty, hclean', hkept⟩
    · rw [hkept]
      refine ⟨by rw [dirtied, hdirty]; rfl, ?_⟩
      intro hrepeats
      rw [repeats, wants, becomesDirty, hdirty, Bool.true_or, Bool.true_and, Bool.and_true,
        Bool.and_comm] at hrepeats
      rw [draws, if_pos hdirty]
      exact hrepeats
    · refine ⟨by rw [dirtied, hdirty']; rfl, ?_⟩
      intro _
      rw [draws, if_pos hdirty', hgeneration]
      rfl
    · rw [hkept]
      refine ⟨by rw [dirtied, hclean, hclean', Bool.and_false]; rfl, ?_⟩
      intro _
      rw [draws, hdirty, hclean, hclean']
      rfl
  cases hwants : wants c db p with
  | false =>
      have hrepeats : repeats c db p = false := by rw [repeats, hwants]; rfl
      refine ⟨?_, ?_, hdirtied.1, hdirtied.2⟩
      · rw [turnConflict, hagain, hwants, hrepeats]
        rfl
      · intro scanId snapshotId
        rw [turnRows, hagain, hwants]
        rfl
  | true =>
      have hscan := (h.found_again hwants hnone).1
      obtain ⟨hne, hconflict⟩ := h.snapshot_again hwants hnone
      refine ⟨?_, ?_, hdirtied.1, hdirtied.2⟩
      · rw [turnConflict, hagain, hwants, if_pos rfl, autoConflict, dirtied_externalId,
          CreateAnswer.conflict_of_found hscan, Option.none_or, hconflict]
      · intro scanId snapshotId
        rw [turnRows, hagain, hwants, if_pos rfl, autoRows,
          if_neg (CreateAnswer.not_inserted_of_found hscan), if_neg fun h => hne h.2]
        rfl

end Second

/-! ## A call, turn by turn -/

/-- What a call works through: the problem of an element, and whether its turn is skipped. -/
structure Worklist (α : Type) where
  problemId : α → String
  considered : α → Bool

section Call

variable {α : Type} (c : ScheduleContext) (caught : CreateJobError → Bool) (w : Worklist α)
  (base : Database)

def Worklist.turnOf (a : α) : Option ProblemRow :=
  if w.considered a then rowOf base (w.problemId a) else none

def Worklist.taken (done : List α) : List String :=
  (done.filterMap (w.turnOf base)).map ProblemRow.externalId

def turnFate (done : List α) (a : α) : Fate :=
  match w.turnOf base a with
  | none => .returns
  | some p =>
      if p.externalId ∈ w.taken base done then
        if repeats c base p then .stops else .returns
      else
        match turnConflict c base p with
        | none => .returns
        | some e => if caught e then .fails else .stops

def Grown (p : ProblemRow) (db : Database) : Prop :=
  ∃ scanId snapshotId,
    (∀ j ∈ turnRows c base p scanId snapshotId, ∀ k ∈ base.jobs, k.id ≠ j.id) ∧
      ∀ f, ForProblem p.externalId f →
        (f ∈ db.jobs.map jobFacts ↔
          f ∈ base.jobs.map jobFacts ∨ f ∈ turnRows c base p scanId snapshotId)

/-- The tables once the elements `done` have been attempted. -/
structure Served (done : List α) (db : Database) : Prop where
  kept : ∀ f ∈ base.jobs.map jobFacts, f ∈ db.jobs.map jobFacts
  ahead : ∀ q, q ∉ w.taken base done → SameFor q base db
  grown : ∀ p, p ∈ done.filterMap (w.turnOf base) → Grown c base p db

def WentWell (p : ProblemRow) (db : Database) : Prop :=
  ∃ before out, SameFor p.externalId base before ∧ Turn c p before out ∧
    turnConflict c before p = none ∧ SameFor p.externalId out.1 db

structure Underway (done : List α) (db : Database) : Prop extends Served c w base done db where
  ids : (db.problems.map ProblemRow.externalId).Nodup
  indexes : JobIndexes db.jobs
  usage : db.problemUsage = base.problemUsage
  snapshots : db.snapshots = base.snapshots
  behind : (∀ e, caught e = false) →
    ∀ p, p ∈ done.filterMap (w.turnOf base) → WentWell c base p db

variable {c caught w base} {done : List α} {a : α} {p : ProblemRow} {db : Database}
  {out : Database × Except CreateJobError (Option ScheduledJobs)}

theorem turnOf_externalId (h : w.turnOf base a = some p) :
    w.problemId a = p.externalId ∧ rowOf base p.externalId = some p := by
  unfold Worklist.turnOf at h
  split at h
  · have hid : p.externalId = w.problemId a := by simpa using List.find?_some h
    rw [hid]
    exact ⟨rfl, h⟩
  · cases h

theorem rowOf_eq_of_externalId {q : ProblemRow} (hp : rowOf base p.externalId = some p)
    (hq : rowOf base q.externalId = some q) (hid : q.externalId = p.externalId) : q = p :=
  Option.some.inj (hq.symm.trans (hid ▸ hp))

theorem filterMap_append_turn (h : w.turnOf base a = some p) :
    (done ++ [a]).filterMap (w.turnOf base) = done.filterMap (w.turnOf base) ++ [p] := by
  rw [List.filterMap_append, List.filterMap_cons_some h, List.filterMap_nil]

theorem taken_append (h : w.turnOf base a = some p) :
    w.taken base (done ++ [a]) = w.taken base done ++ [p.externalId] := by
  rw [Worklist.taken, filterMap_append_turn h, List.map_append]
  rfl

variable (done) in
theorem taken_skip (h : w.turnOf base a = none) :
    w.taken base (done ++ [a]) = w.taken base done ∧
      (done ++ [a]).filterMap (w.turnOf base) = done.filterMap (w.turnOf base) := by
  have hmap : (done ++ [a]).filterMap (w.turnOf base) = done.filterMap (w.turnOf base) := by
    rw [List.filterMap_append, List.filterMap_cons_none h, List.filterMap_nil, List.append_nil]
  exact ⟨by rw [Worklist.taken, hmap, Worklist.taken], hmap⟩

theorem Grown.same {db' : Database} (h : Grown c base p db) (hsame : SameFor p.externalId db db') :
    Grown c base p db' := by
  obtain ⟨scanId, snapshotId, hfresh, hrows⟩ := h
  exact ⟨scanId, snapshotId, hfresh, fun f hf => (hsame.jobs f hf).trans (hrows f hf)⟩

theorem WentWell.same {db' : Database} (h : WentWell c base p db)
    (hsame : SameFor p.externalId db db') : WentWell c base p db' := by
  obtain ⟨before, out, hbefore, hturn, hnone, hafter⟩ := h
  exact ⟨before, out, hbefore, hturn, hnone, hafter.trans hsame⟩

/-! ### The first turn of a problem -/

theorem Turn.grown (h : Turn c p db out) (hsame : SameFor p.externalId base db)
    (hkept : ∀ f ∈ base.jobs.map jobFacts, f ∈ db.jobs.map jobFacts) : Grown c base p out.1 := by
  obtain ⟨scanId, snapshotId, hfresh, hfacts⟩ := h.rows
  rw [hsame.turnRows] at hfresh hfacts
  refine ⟨scanId, snapshotId, ?_, ?_⟩
  · intro j hj k hk
    obtain ⟨k', hk', hfact⟩ := List.mem_map.mp (hkept _ (List.mem_map_of_mem hk))
    have hid : (jobFacts k').id = (jobFacts k).id := congrArg JobRow.id hfact
    intro heq
    exact hfresh j hj k' hk' (hid.trans heq)
  · intro f hf
    rw [hfacts, List.mem_append, hsame.jobs f hf]

theorem Turn.kept (h : Turn c p db out) : ∀ f ∈ db.jobs.map jobFacts, f ∈ out.1.jobs.map jobFacts := by
  obtain ⟨scanId, snapshotId, -, hfacts⟩ := h.rows
  intro f hf
  rw [hfacts]
  exact List.mem_append_left _ hf

theorem Served.first (h : Served c w base done db) (hturn : Turn c p db out)
    (ha : w.turnOf base a = some p) (hfirst : p.externalId ∉ w.taken base done) :
    Served c w base (done ++ [a]) out.1 := by
  refine ⟨fun f hf => hturn.kept f (h.kept f hf), ?_, ?_⟩
  · intro q hq
    rw [taken_append ha, List.mem_append, not_or, List.mem_singleton] at hq
    exact (h.ahead q hq.1).trans (hturn.sameFor hq.2)
  · intro q hq
    rw [filterMap_append_turn ha, List.mem_append, List.mem_singleton] at hq
    rcases hq with hq | rfl
    · have hne : q.externalId ≠ p.externalId := by
        intro hid
        exact hfirst (hid ▸ List.mem_map_of_mem hq)
      exact (h.grown q hq).same (hturn.sameFor hne)
    · exact hturn.grown (h.ahead _ hfirst) h.kept

theorem Underway.first (h : Underway c caught w base done db) (hturn : Turn c p db out)
    (ha : w.turnOf base a = some p) (hfirst : p.externalId ∉ w.taken base done)
    (hgo : turnFate c caught w base done a ≠ .stops) :
    Underway c caught w base (done ++ [a]) out.1 := by
  refine ⟨h.toServed.first hturn ha hfirst, ?_, hturn.indexes, hturn.usage.trans h.usage,
    hturn.snapshots.trans h.snapshots, ?_⟩
  · rw [hturn.ids]
    exact h.ids
  · intro hcatch q hq
    rw [filterMap_append_turn ha, List.mem_append, List.mem_singleton] at hq
    rcases hq with hq | rfl
    · have hne : q.externalId ≠ p.externalId := by
        intro hid
        exact hfirst (hid ▸ List.mem_map_of_mem hq)
      exact (h.behind hcatch q hq).same (hturn.sameFor hne)
    · have hsame := h.ahead _ hfirst
      refine ⟨db, out, hsame, hturn, ?_, SameFor.refl _ _⟩
      rw [hsame.turnConflict]
      cases hconflict : turnConflict c base q with
      | none => rfl
      | some e =>
          apply absurd _ hgo
          rw [turnFate, ha]
          dsimp only
          rw [if_neg hfirst, hconflict]
          dsimp only
          rw [hcatch e]
          rfl

/-! ### Further turns of a problem -/

structure AnotherTurn (c : ScheduleContext) (base : Database) (p : ProblemRow) (db : Database)
    (out : Database × Except CreateJobError (Option ScheduledJobs)) : Prop where
  conflict : (conflictOf out.2).isSome = repeats c base p
  facts : out.1.jobs.map jobFacts = db.jobs.map jobFacts
  others : ∀ q, q ≠ p.externalId → SameFor q db out.1
  own : repeats c base p = false → SameFor p.externalId db out.1

theorem WentWell.row (h : WentWell c base p db) :
    ∃ p', rowOf db p.externalId = some p' ∧ p'.externalId = p.externalId ∧
      ∀ out, Turn c p' db out → AnotherTurn c base p db out := by
  obtain ⟨before, first, hbefore, hfirst, hnone, hafter⟩ := h
  have hrow : rowOf db p.externalId = some (dirtied c before p) := by
    rw [hafter.row, hfirst.row]
  have hid := @dirtied_externalId c p before
  have hrepeats : repeats c before p = repeats c base p := by
    rw [repeats, hbefore.wants, repeats]
  obtain ⟨hconflict, hrows, hdirtied, hdraws⟩ := hfirst.again hnone
  rw [← hid] at hafter
  refine ⟨dirtied c before p, hrow, hid, ?_⟩
  intro out hturn
  have hfacts : out.1.jobs.map jobFacts = db.jobs.map jobFacts := by
    obtain ⟨scanId, snapshotId, -, hfacts⟩ := hturn.rows
    rw [hfacts, hafter.turnRows, hrows, List.append_nil]
  refine ⟨?_, hfacts, ?_, ?_⟩
  · rw [hturn.conflict, hafter.turnConflict, hconflict, hrepeats]
  · intro q hq
    exact hturn.sameFor (hid.symm ▸ hq)
  · intro hnot
    rw [← hrepeats] at hnot
    refine ⟨hturn.usage, hturn.snapshots, ?_, ?_, fun f _ => by rw [hfacts]⟩
    · rw [hrow, ← hid, hturn.row, hafter.dirtied, hdirtied]
    · rw [← hid, hturn.next, hafter.draws, hdraws hnot]
      exact Int.add_zero _

theorem WentWell.of_taken (h : Underway c caught w base done db) (hcatch : ∀ e, caught e = false)
    (hp : rowOf base p.externalId = some p) (htaken : p.externalId ∈ w.taken base done) :
    p ∈ done.filterMap (w.turnOf base) ∧ WentWell c base p db := by
  obtain ⟨q, hq, hid⟩ := List.mem_map.mp htaken
  obtain ⟨b, -, hb⟩ := List.mem_filterMap.mp hq
  rw [rowOf_eq_of_externalId hp (turnOf_externalId hb).2 hid] at hq
  exact ⟨hq, h.behind hcatch p hq⟩

theorem Served.another (h : Served c w base done db) (hanother : AnotherTurn c base p db out)
    (ha : w.turnOf base a = some p) (hp : p ∈ done.filterMap (w.turnOf base)) :
    Served c w base (done ++ [a]) out.1 := by
  refine ⟨?_, ?_, ?_⟩
  · intro f hf
    rw [hanother.facts]
    exact h.kept f hf
  · intro q hq
    rw [taken_append ha, List.mem_append, not_or, List.mem_singleton] at hq
    exact (h.ahead q hq.1).trans (hanother.others q hq.2)
  · intro q hq
    have hq' : q ∈ done.filterMap (w.turnOf base) := by
      rw [filterMap_append_turn ha, List.mem_append, List.mem_singleton] at hq
      rcases hq with hq | rfl
      · exact hq
      · exact hp
    obtain ⟨scanId, snapshotId, hfresh, hrows⟩ := h.grown q hq'
    refine ⟨scanId, snapshotId, hfresh, ?_⟩
    intro f hf
    rw [hanother.facts]
    exact hrows f hf

theorem Underway.another (h : Underway c caught w base done db) {p' : ProblemRow}
    (hturn : Turn c p' db out) (hanother : AnotherTurn c base p db out)
    (ha : w.turnOf base a = some p) (hp : p ∈ done.filterMap (w.turnOf base))
    (hgo : repeats c base p = false) : Underway c caught w base (done ++ [a]) out.1 := by
  refine ⟨h.toServed.another hanother ha hp, ?_, hturn.indexes, hturn.usage.trans h.usage,
    hturn.snapshots.trans h.snapshots, ?_⟩
  · rw [hturn.ids]
    exact h.ids
  · intro hcatch q hq
    have hq' : q ∈ done.filterMap (w.turnOf base) := by
      rw [filterMap_append_turn ha, List.mem_append, List.mem_singleton] at hq
      rcases hq with hq | rfl
      · exact hq
      · exact hp
    apply (h.behind hcatch q hq').same
    by_cases hid : q.externalId = p.externalId
    · rw [hid]
      exact hanother.own hgo
    · exact hanother.others q.externalId hid

/-! ### The whole call -/

structure TakesTurns (c : ScheduleContext) (caught : CreateJobError → Bool) (w : Worklist α)
    (base : Database) (all : List α)
    (body : Database → α → Database × Except CreateJobError (Option ScheduledJobs)) : Prop where
  skip : ∀ done a rest db, all = done ++ a :: rest → Underway c caught w base done db →
    w.turnOf base a = none → ∃ jobs, body db a = (db, .ok jobs)
  turn : ∀ done a rest db p p', all = done ++ a :: rest → Underway c caught w base done db →
    w.turnOf base a = some p → rowOf db p.externalId = some p' → body db a = scheduleProblem c p' db
  /-- A problem comes back only to a loop that stops at every conflict. -/
  once : ∀ done a rest p, all = done ++ a :: rest → w.turnOf base a = some p →
    p.externalId ∈ w.taken base done → ∀ e, caught e = false

variable {body : Database → α → Database × Except CreateJobError (Option ScheduledJobs)}
  {all rest : List α}

theorem fateOf_none {x : Except CreateJobError (Option ScheduledJobs)} (h : conflictOf x = none) :
    fateOf caught x = .returns := by
  cases x with
  | ok _ => rfl
  | error e => cases h

theorem fateOf_some {x : Except CreateJobError (Option ScheduledJobs)} {e : CreateJobError}
    (h : conflictOf x = some e) : fateOf caught x = if caught e then .fails else .stops := by
  cases x with
  | ok _ => cases h
  | error e' =>
      cases h
      rfl

theorem underway_step (hdraws : DrawsNew c) (hbody : TakesTurns c caught w base all body)
    (hall : all = done ++ a :: rest) (h : Underway c caught w base done db) :
    fateOf caught (body db a).2 = turnFate c caught w base done a ∧
      (turnFate c caught w base done a ≠ .stops →
        Underway c caught w base (done ++ [a]) (body db a).1) ∧
      Served c w base (done ++ [a]) (body db a).1 := by
  cases ha : w.turnOf base a with
  | none =>
      obtain ⟨jobs, hskip⟩ := hbody.skip done a rest db hall h ha
      obtain ⟨htaken, hmap⟩ := taken_skip done ha
      have hserved : Served c w base (done ++ [a]) db :=
        ⟨h.kept, by rw [htaken]; exact h.ahead, by rw [hmap]; exact h.grown⟩
      rw [hskip, turnFate, ha]
      exact ⟨rfl, fun _ => ⟨hserved, h.ids, h.indexes, h.usage, h.snapshots,
        by rw [hmap]; exact h.behind⟩, hserved⟩
  | some p =>
      obtain ⟨-, hp⟩ := turnOf_externalId ha
      by_cases htaken : p.externalId ∈ w.taken base done
      · have hcatch := hbody.once done a rest p hall ha htaken
        obtain ⟨hmem, hwell⟩ := WentWell.of_taken h hcatch hp htaken
        obtain ⟨p', hrow, hid, hanother⟩ := hwell.row
        rw [hbody.turn done a rest db p p' hall h ha hrow]
        have hturn := scheduleProblem_turn hdraws h.indexes h.ids (hid ▸ hrow)
        have hagain := hanother _ hturn
        have hfate : turnFate c caught w base done a =
            if repeats c base p then .stops else .returns := by
          rw [turnFate, ha]
          exact if_pos htaken
        rw [hfate]
        refine ⟨?_, ?_, h.toServed.another hagain ha hmem⟩
        · cases hrepeats : repeats c base p with
          | false =>
              have hconflict := hagain.conflict
              rw [hrepeats, Option.isSome_eq_false_iff, Option.isNone_iff_eq_none] at hconflict
              exact fateOf_none hconflict
          | true =>
              have hconflict := hagain.conflict
              rw [hrepeats] at hconflict
              obtain ⟨e, he⟩ := Option.isSome_iff_exists.mp hconflict
              rw [fateOf_some he, hcatch e]
              rfl
        · intro hgo
          cases hrepeats : repeats c base p with
          | false => exact h.another hturn hagain ha hmem hrepeats
          | true =>
              rw [hrepeats] at hgo
              exact absurd rfl hgo
      · have hsame := h.ahead _ htaken
        have hrow : rowOf db p.externalId = some p := by rw [hsame.row, hp]
        rw [hbody.turn done a rest db p p hall h ha hrow]
        have hturn := scheduleProblem_turn hdraws h.indexes h.ids hrow
        refine ⟨?_, h.first hturn ha htaken, h.toServed.first hturn ha htaken⟩
        have hconflict := hturn.conflict
        rw [hsame.turnConflict] at hconflict
        rw [turnFate, ha]
        dsimp only
        rw [if_neg htaken]
        cases hbase : turnConflict c base p with
        | none =>
            rw [hbase] at hconflict
            exact fateOf_none hconflict
        | some e =>
            rw [hbase] at hconflict
            exact fateOf_some hconflict

theorem call_served (hdraws : DrawsNew c) (hbody : TakesTurns c caught w base all body)
    (hids : (base.problems.map ProblemRow.externalId).Nodup) (hidx : JobIndexes base.jobs) :
    Served c w base (attempted (turnFate c caught w base) [] all)
        (forEach caught body base all).state ∧
      (forEach caught body base all).failed.map Prod.fst =
        failures (turnFate c caught w base) [] all := by
  apply forEach_spec (I := Underway c caught w base)
  · intro done a rest db hall h
    exact (underway_step hdraws hbody hall h).1
  · intro done a rest db hall h
    exact (underway_step hdraws hbody hall h).2.1
  · exact fun done db h => h.toServed
  · intro done a rest db hall h _
    exact (underway_step hdraws hbody hall h).2.2
  · refine ⟨⟨fun f hf => hf, fun q _ => SameFor.refl q base, ?_⟩, hids, hidx, rfl, rfl, ?_⟩
    · exact fun p hp => absurd hp List.not_mem_nil
    · exact fun _ p hp => absurd hp List.not_mem_nil

/-! ### Work after a call -/

def ActiveWork (q : String) (jobs : List JobRow) : Prop :=
  ∃ j ∈ jobs, j.problemId = some q ∧ (j.jobType = .scan ∨ j.jobType = .snapshot) ∧
    j.state.active = true

/-- A turn of the problem inserts a job: the key of the scan is free, or what it names answers
the request and the key of the snapshot is free. -/
def GainsWork (c : ScheduleContext) (base : Database) (p : ProblemRow) : Prop :=
  wants c base p = true ∧ (scanAnswer c p base = .inserted ∨
    (scanAnswer c p base).conflict p.externalId = none ∧
      snapshotAnswer c p (generationFor base p) base = .inserted)

theorem turnRows_ne_nil (scanId snapshotId : Uuid) :
    turnRows c base p scanId snapshotId ≠ [] ↔ GainsWork c base p := by
  unfold turnRows autoRows GainsWork
  by_cases hwants : wants c base p = true
  · rw [if_pos hwants]
    by_cases hscan : scanAnswer c p base = .inserted
    · simp [hwants, hscan]
    · by_cases hsnapshot : (scanAnswer c p base).conflict p.externalId = none ∧
          snapshotAnswer c p (generationFor base p) base = .inserted
      · simp [hwants, hsnapshot]
      · rw [if_neg hscan, if_neg hsnapshot]
        exact iff_of_false (not_not_intro rfl) fun h => h.2.elim hscan hsnapshot
  · rw [if_neg hwants]
    simp [hwants]

theorem Grown.activeWork_iff (h : Grown c base p db) :
    ActiveWork p.externalId db.jobs ↔ ActiveWork p.externalId base.jobs ∨ GainsWork c base p := by
  obtain ⟨scanId, snapshotId, -, hrows⟩ := h
  have hfacts : ∀ jobs : List JobRow, ActiveWork p.externalId jobs ↔
      ∃ f ∈ jobs.map jobFacts, f.problemId = some p.externalId ∧
        (f.jobType = .scan ∨ f.jobType = .snapshot) ∧ f.state.active = true :=
    fun jobs => exists_facts_iff jobs fun _ => Iff.rfl
  rw [hfacts, hfacts, ← turnRows_ne_nil scanId snapshotId]
  constructor
  · rintro ⟨f, hf, hwork⟩
    rcases (hrows f (.inl hwork.1)).mp hf with hf | hf
    · exact .inl ⟨f, hf, hwork⟩
    · exact .inr (List.ne_nil_of_mem hf)
  · rintro (⟨f, hf, hwork⟩ | hgains)
    · exact ⟨f, (hrows f (.inl hwork.1)).mpr (.inl hf), hwork⟩
    · obtain ⟨f, hf⟩ := List.exists_mem_of_ne_nil _ hgains
      have hauto := autoRow_of_mem_turnRows hf
      refine ⟨f, (hrows f (.inl hauto.problem)).mpr (.inr hf), hauto.problem, hauto.kind, ?_⟩
      rw [hauto.pending]
      rfl

theorem SameFor.activeWork_iff {q : String} {db' : Database} (h : SameFor q db db') :
    ActiveWork q db'.jobs ↔ ActiveWork q db.jobs :=
  exists_iff_of_facts (fun _ => Iff.rfl) (fun _ hwork => .inl hwork.1) h.jobs

theorem not_taken_of_not_mem (hp : rowOf base p.externalId = some p)
    (hdone : p ∉ done.filterMap (w.turnOf base)) : p.externalId ∉ w.taken base done := by
  intro htaken
  obtain ⟨q, hq, hid⟩ := List.mem_map.mp htaken
  obtain ⟨b, -, hb⟩ := List.mem_filterMap.mp hq
  rw [rowOf_eq_of_externalId hp (turnOf_externalId hb).2 hid] at hq
  exact hdone hq

/-- A problem has work after a call if it had some, or if the call came to it and its turn
inserts a job. -/
theorem Served.activeWork_iff (h : Served c w base done db)
    (hp : rowOf base p.externalId = some p) :
    ActiveWork p.externalId db.jobs ↔ ActiveWork p.externalId base.jobs ∨
      p ∈ done.filterMap (w.turnOf base) ∧ GainsWork c base p := by
  by_cases hdone : p ∈ done.filterMap (w.turnOf base)
  · rw [(h.grown p hdone).activeWork_iff]
    simp only [hdone, true_and]
  · rw [(h.ahead _ (not_taken_of_not_mem hp hdone)).activeWork_iff]
    simp only [hdone, false_and, or_false]

def CreatedFor (q : String) (base db : Database) : Prop :=
  ∃ j ∈ db.jobs, j.problemId = some q ∧ ∀ k ∈ base.jobs, k.id ≠ j.id

theorem not_new_of_facts {j : JobRow} (h : jobFacts j ∈ base.jobs.map jobFacts) :
    ¬ ∀ k ∈ base.jobs, k.id ≠ j.id := by
  obtain ⟨k, hk, hfact⟩ := List.mem_map.mp h
  have hid : (jobFacts k).id = (jobFacts j).id := congrArg JobRow.id hfact
  exact fun hnew => hnew k hk hid

theorem Served.createdFor_iff (h : Served c w base done db)
    (hp : rowOf base p.externalId = some p) :
    CreatedFor p.externalId base db ↔
      p ∈ done.filterMap (w.turnOf base) ∧ GainsWork c base p := by
  by_cases hdone : p ∈ done.filterMap (w.turnOf base)
  · obtain ⟨scanId, snapshotId, hfresh, hrows⟩ := h.grown p hdone
    simp only [hdone, true_and]
    rw [← turnRows_ne_nil scanId snapshotId]
    constructor
    · rintro ⟨j, hj, hproblem, hnew⟩
      rcases (hrows (jobFacts j) (.inl hproblem)).mp (List.mem_map_of_mem hj) with hbase | hrow
      · exact absurd hnew (not_new_of_facts hbase)
      · exact List.ne_nil_of_mem hrow
    · intro hgains
      obtain ⟨f, hf⟩ := List.exists_mem_of_ne_nil _ hgains
      have hauto := autoRow_of_mem_turnRows hf
      obtain ⟨j, hj, rfl⟩ := List.mem_map.mp ((hrows f (.inl hauto.problem)).mpr (.inr hf))
      exact ⟨j, hj, hauto.problem, fun k hk => hfresh _ hf k hk⟩
  · refine iff_of_false ?_ fun hgains => hdone hgains.1
    rintro ⟨j, hj, hproblem, hnew⟩
    have hsame := h.ahead _ (not_taken_of_not_mem hp hdone)
    exact not_new_of_facts
      ((hsame.jobs (jobFacts j) (.inl hproblem)).mp (List.mem_map_of_mem hj)) hnew

end Call

end ExternalStorage.Jobs
