import ExternalStorage.Restore.Claims

/-!
# One restore for a missing folder

What a statement of `createRestoreJobIfMissing` does, and from it what every step of a run
does: a call is answered by the state it returns in, as if it had run alone.
-/

namespace ExternalStorage.Restore

open ExternalStorage.Model Library.Table Library.Runs

/-! ## Steps of the calls -/

structure Decided (q : RestoreClaim) (db db' : Database)
    (answer : Except CreateJobError RestoreAnswer) : Prop where
  /-- The key names a job. -/
  replays : ∀ j, q.replay db.jobs = some j →
    answer = if q.repeats j then .ok (.job j.id) else .error .idempotencyConflict
  /-- A restore of the generation is active. -/
  joins : q.replay db.jobs = none → ∀ j ∈ db.jobs, q.joins j = true → answer = .ok (.job j.id)
  /-- The folder has been seen since it was found missing. -/
  ready : q.replay db.jobs = none → (∀ j ∈ db.jobs, q.joins j = false) →
    presentSince q.problemId q.missingObservedAt db.problemUsage = true →
      answer = .ok .ready ∧ db'.jobs.map JobRow.id = db.jobs.map JobRow.id
  /-- Otherwise a job is created, unless another operation of the problem is active. -/
  creates : q.replay db.jobs = none → (∀ j ∈ db.jobs, q.joins j = false) →
    presentSince q.problemId q.missingObservedAt db.problemUsage = false →
      (∃ j ∈ db'.jobs, q.joins j = true ∧ (∀ k ∈ db.jobs, k.id ≠ j.id) ∧
        answer = .ok (.job j.id)) ∨ answer = .error (.problemOperationConflict q.problemId)

section Calls

variable {problemId : String} {e : Episode} {i : Nat} {c : ClaimCall}

theorem EpisodeInv.setCall (h : EpisodeInv problemId e) (hc : e.calls[i]? = some c)
    {db : Database} {phase : ClaimPhase} (hids : (db.jobs.map JobRow.id).Nodup)
    (hguards : activeGuards db.jobs = true)
    (htracked : ∀ j ∈ db.jobs, restoring problemId j = true → Tracked problemId db.problemUsage)
    (hruns : ∀ r ∈ e.runs, RunInv problemId db r)
    (hself : CallInv problemId db { c with phase := phase })
    (hothers : ∀ k d, k ≠ i → e.calls[k]? = some d → CallInv problemId db d)
    (halone : phase.holdsLock = true →
      ∀ k d, k ≠ i → e.calls[k]? = some d → d.phase.holdsLock = false) :
    EpisodeInv problemId { e with db := db, calls := e.calls.set i { c with phase := phase } } := by
  have hi : i < e.calls.length := (List.getElem?_eq_some_iff.mp hc).1
  have hget : ∀ k d, (e.calls.set i { c with phase := phase })[k]? = some d →
      k = i ∧ d = { c with phase := phase } ∨ k ≠ i ∧ e.calls[k]? = some d := by
    intro k d hd
    by_cases hk : k = i
    · subst hk
      rw [List.getElem?_set_self hi] at hd
      exact .inl ⟨rfl, (Option.some.inj hd).symm⟩
    · rw [List.getElem?_set_ne (Ne.symm hk)] at hd
      exact .inr ⟨hk, hd⟩
  refine ⟨hids, hguards, htracked, ?_, ?_, hruns⟩
  · intro d hd
    obtain ⟨k, hk⟩ := List.mem_iff_getElem?.mp hd
    rcases hget k d hk with ⟨-, rfl⟩ | ⟨hne, hold⟩
    · exact hself
    · exact hothers k d hne hold
  · intro k m d d' hd hd' hholds hholds'
    rcases hget k d hd with ⟨rfl, rfl⟩ | ⟨hk, hold⟩
    · rcases hget m d' hd' with ⟨rfl, -⟩ | ⟨hm, hold'⟩
      · rfl
      · have hnot := halone hholds m d' hm hold'
        rw [hholds'] at hnot
        cases hnot
    · rcases hget m d' hd' with ⟨rfl, rfl⟩ | ⟨hm, hold'⟩
      · have hnot := halone hholds' k d hk hold
        rw [hholds] at hnot
        cases hnot
      · exact h.alone k m d d' hold hold' hholds hholds'

theorem EpisodeInv.others (h : EpisodeInv problemId e) (hc : e.calls[i]? = some c)
    (hholds : c.phase.holdsLock = true) :
    ∀ k d, k ≠ i → e.calls[k]? = some d → d.phase.holdsLock = false := by
  intro k d hk hd
  rw [← Bool.not_eq_true]
  intro hdholds
  exact hk (h.alone k i d c hd hc hdholds hholds)

theorem EpisodeInv.reads (h : EpisodeInv problemId e) (hc : e.calls[i]? = some c)
    {phase : ClaimPhase} (hself : CallInv problemId e.db { c with phase := phase })
    (halone : phase.holdsLock = true → c.phase.holdsLock = true ∨
      ∀ d ∈ e.calls, d.phase.holdsLock = false) :
    EpisodeInv problemId { e with calls := e.calls.set i { c with phase := phase } } := by
  refine h.setCall hc h.ids h.guards h.tracked h.runs hself ?_ ?_
  · exact fun k d _ hd => h.calls d (List.mem_of_getElem? hd)
  · intro hholds k d hk hd
    rcases halone hholds with hwas | hnone
    · exact h.others hc hwas k d hk hd
    · exact hnone d (List.mem_of_getElem? hd)

theorem EpisodeInv.commits (h : EpisodeInv problemId e) (hc : e.calls[i]? = some c)
    (hholds : c.phase.holdsLock = true) {db : Database}
    {answer : Except CreateJobError RestoreAnswer} (hids : (db.jobs.map JobRow.id).Nodup)
    (hguards : activeGuards db.jobs = true)
    (htracked : ∀ j ∈ db.jobs, restoring problemId j = true → Tracked problemId db.problemUsage)
    (hruns : ∀ r ∈ e.runs, RunInv problemId db r) :
    EpisodeInv problemId
      { e with db := db, calls := e.calls.set i { c with phase := .returned answer } } := by
  have hproblem := (h.calls c (List.mem_of_getElem? hc)).problem
  refine h.setCall hc hids hguards htracked hruns (callInv_of_not_holding hproblem rfl) ?_ ?_
  · intro k d hk hd
    exact callInv_of_not_holding (h.calls d (List.mem_of_getElem? hd)).problem
      (h.others hc hholds k d hk hd)
  · intro hfalse
    cases hfalse

theorem works_superseded (now : Timestamp) (j : JobRow) : Works [] j (supersededByRestore now j) := by
  refine ⟨rfl, rfl, rfl, rfl, rfl, ?_, ?_, ?_⟩
  · intro hactive
    cases hactive
  · intro hpending
    cases hpending
  · intro hlocked
    cases hlocked

theorem worked_cancelRows (now : Timestamp) (victims : List Uuid) (db : Database) :
    Worked [] db.jobs (cancelRows now victims db).jobs :=
  worked_update fun j _ _ => works_superseded now j

theorem guards_cancelRows (now : Timestamp) (victims : List Uuid) {db : Database}
    (hguards : activeGuards db.jobs = true) :
    activeGuards (cancelRows now victims db).jobs = true := by
  exact (Jobs.calms_of_cancelled (p := fun j => victims.contains j.id)
    (f := supersededByRestore now) (by intro j; rfl) (by intro j; rfl) (by intro j; rfl)
    (by intro j; exact .inl rfl)).guards hguards

structure CallStep (problemId : String) (e : Episode) (i : Nat) (c : ClaimCall) (db : Database)
    (phase : ClaimPhase) : Prop where
  inv : EpisodeInv problemId
    { e with db := db, calls := e.calls.set i { c with phase := phase } }
  decided : ∀ answer, phase = .returned answer → Decided c.claim e.db db answer
  completed : ∀ j ∈ db.jobs, j.state = .completed → j ∈ e.db.jobs
  missing : PresentIn problemId e.db.problemUsage → ¬ PresentIn problemId db.problemUsage →
    (∃ id, phase = .returned (.ok (.job id))) ∧
      ∀ u ∈ e.db.problemUsage, u.problemId = problemId → u.localStatus = .present →
        u.observedAt / 1000 < c.claim.missingObservedAt / 1000

theorem presentSince_eq_false {usage : List ProblemUsageRow} {m : Timestamp}
    (h : presentSince problemId m usage = false) :
    ∀ u ∈ usage, u.problemId = problemId → u.localStatus = .present →
      u.observedAt / 1000 < m / 1000 := by
  intro u hu hid hpresent
  have hnot := List.any_eq_false.mp h u hu
  simp only [hid, hpresent, decide_true, Bool.true_and, decide_eq_true_eq, not_le] at hnot
  exact hnot

theorem callStep_reads (h : EpisodeInv problemId e) (hc : e.calls[i]? = some c)
    {phase : ClaimPhase} (hself : CallInv problemId e.db { c with phase := phase })
    (halone : phase.holdsLock = true → c.phase.holdsLock = true ∨
      ∀ d ∈ e.calls, d.phase.holdsLock = false)
    (hdecided : ∀ answer, phase = .returned answer → Decided c.claim e.db e.db answer) :
    CallStep problemId e i c e.db phase :=
  ⟨h.reads hc hself halone, hdecided, fun _ hj _ => hj, fun hp hn => absurd hp hn⟩

theorem EpisodeInv.single (h : EpisodeInv problemId e) {j k : JobRow} (hj : j ∈ e.db.jobs)
    (hk : k ∈ e.db.jobs) (hjr : restoring problemId j = true)
    (hkr : restoring problemId k = true) : j = k := by
  rw [restoring_iff] at hjr hkr
  by_contra hne
  have hid : j.id ≠ k.id := fun hid => hne (List.inj_on_of_nodup_map h.ids hj hk hid)
  have hfree := activeGuards_iff.mp h.guards j hj k hk hid
  rw [← Bool.not_eq_true, conflicting_eq_true] at hfree
  apply hfree
  refine ⟨hjr.2.2, hkr.2.2, .inl ⟨by rw [hjr.1]; rfl, by rw [hjr.1, hkr.1], ?_, ?_, ?_⟩⟩
  · rw [hjr.2.1]
    rfl
  · rw [hkr.2.1]
    rfl
  · exact .inl (by rw [hjr.2.1, hkr.2.1])

theorem restoring_of_joins {q : RestoreClaim} (hproblem : q.problemId = problemId) {j : JobRow}
    (h : q.joins j = true) : restoring problemId j = true := by
  obtain ⟨hid, htype, -, hactive⟩ := RestoreClaim.joins_iff.mp h
  exact restoring_iff.mpr ⟨hproblem ▸ hid, htype, hactive⟩

theorem callStep_locked (h : EpisodeInv problemId e) (hc : e.calls[i]? = some c)
    (hphase : c.phase = .locked) {db : Database} {phase : ClaimPhase} {id : Uuid}
    (hnext : nextStatement e c id = some (db, phase)) : CallStep problemId e i c db phase := by
  have hproblem := (h.calls c (List.mem_of_getElem? hc)).problem
  unfold nextStatement at hnext
  rw [hphase] at hnext
  dsimp only at hnext
  cases hreplay : c.claim.replay e.db.jobs with
  | some j =>
      rw [hreplay] at hnext
      cases hnext
      refine callStep_reads h hc (callInv_of_not_holding hproblem rfl) (fun hf => by cases hf) ?_
      intro answer hanswer
      cases hanswer
      refine ⟨?_, ?_, ?_, ?_⟩
      · intro k hk
        rw [hreplay] at hk
        rw [Option.some.inj hk]
      all_goals intro hnone
      all_goals rw [hreplay] at hnone
      all_goals cases hnone
  | none =>
      rw [hreplay] at hnext
      cases hnext
      refine callStep_reads h hc ⟨hproblem, fun _ => hreplay, ?_, ?_, ?_⟩
        (fun _ => .inl (by rw [hphase]; rfl)) ?_
      · intro hread
        cases hread
      · intro victims hvictims
        cases hvictims
      · intro hread
        cases hread
      · intro answer hanswer
        cases hanswer

theorem callStep_unkeyed (h : EpisodeInv problemId e) (hc : e.calls[i]? = some c)
    (hphase : c.phase = .unkeyed) {db : Database} {phase : ClaimPhase} {id : Uuid}
    (hnext : nextStatement e c id = some (db, phase)) : CallStep problemId e i c db phase := by
  have hcall := h.calls c (List.mem_of_getElem? hc)
  have hkey : c.claim.replay e.db.jobs = none := hcall.key (by rw [hphase]; rfl)
  unfold nextStatement at hnext
  rw [hphase] at hnext
  dsimp only at hnext
  cases hactive : c.claim.active e.db.jobs with
  | some j =>
      rw [hactive] at hnext
      cases hnext
      have hj := List.mem_filter.mp (mem_of_firstBy hactive)
      refine callStep_reads h hc (callInv_of_not_holding hcall.problem rfl)
        (fun hf => by cases hf) ?_
      intro answer hanswer
      cases hanswer
      refine ⟨?_, ?_, ?_, ?_⟩
      · intro k hk
        rw [hkey] at hk
        cases hk
      · intro _ k hk hjoins
        rw [h.single hk hj.1 (restoring_of_joins hcall.problem hjoins)
          (restoring_of_joins hcall.problem hj.2)]
      · intro _ hnone
        rw [hnone j hj.1] at hj
        cases hj.2
      · intro _ hnone
        rw [hnone j hj.1] at hj
        cases hj.2
  | none =>
      rw [hactive] at hnext
      cases hnext
      refine callStep_reads h hc
        ⟨hcall.problem, fun _ => hkey, fun _ => RestoreClaim.active_eq_none.mp hactive, ?_, ?_⟩
        (fun _ => .inl (by rw [hphase]; rfl)) ?_
      · intro victims hvictims
        cases hvictims
      · intro hread
        cases hread
      · intro answer hanswer
        cases hanswer

theorem callStep_cancelled (h : EpisodeInv problemId e) (hc : e.calls[i]? = some c)
    {victims : List Uuid} (hphase : c.phase = .cancelled victims) {db : Database}
    {phase : ClaimPhase} {id : Uuid} (hnext : nextStatement e c id = some (db, phase)) :
    CallStep problemId e i c db phase := by
  have hcall := h.calls c (List.mem_of_getElem? hc)
  have hholds : c.phase.holdsLock = true := by rw [hphase]; rfl
  have hkey : c.claim.replay e.db.jobs = none := hcall.key (by rw [hphase]; rfl)
  have hactive := hcall.active (by rw [hphase]; rfl)
  have hvictims := hcall.victims victims (by rw [hphase]; rfl)
  unfold nextStatement at hnext
  rw [hphase] at hnext
  dsimp only at hnext
  by_cases hpresent : presentSince c.claim.problemId c.claim.missingObservedAt
      e.db.problemUsage = true
  · rw [if_pos hpresent] at hnext
    cases hnext
    have hworked := worked_cancelRows c.began victims e.db
    refine ⟨h.commits hc hholds ?_ (guards_cancelRows c.began victims h.guards) ?_ ?_, ?_, ?_, ?_⟩
    · rw [hworked.ids]
      exact h.ids
    · intro j' hj' hrestoring
      obtain ⟨j, hj, hworks⟩ := hworked.from hj'
      exact h.tracked j hj (hworks.restoring hrestoring)
    · exact fun r hr => (h.runs r hr).worked hworked (fun ht => ht) (fun hp => hp)
    · intro answer hanswer
      cases hanswer
      refine ⟨?_, ?_, ?_, ?_⟩
      · intro k hk
        rw [hkey] at hk
        cases hk
      · intro _ j hj hjoins
        rw [hactive j hj] at hjoins
        cases hjoins
      · exact fun _ _ _ => ⟨rfl, hworked.ids⟩
      · intro _ _ hnot
        rw [hpresent] at hnot
        cases hnot
    · intro j' hj' hcompleted
      obtain ⟨j, hj, rfl⟩ := mem_updateWhere.mp hj'
      split at hcompleted
      · cases hcompleted
      · rename_i hp
        rw [if_neg hp]
        exact hj
    · exact fun hp hn => absurd hp hn
  · rw [if_neg hpresent] at hnext
    cases hnext
    refine callStep_reads h hc ⟨hcall.problem, fun _ => hkey, fun _ => hactive, ?_, ?_⟩
      (fun _ => .inl hholds) ?_
    · intro victims' hsame
      cases hsame
      exact hvictims
    · intro _
      rw [← hcall.problem]
      exact Bool.eq_false_iff.mpr hpresent
    · intro answer hanswer
      cases hanswer

theorem create_cases {q : RestoreClaim} {now : Timestamp} {id : Uuid} {db : Database}
    (hkey : q.replay db.jobs = none) (hactive : ∀ j ∈ db.jobs, q.joins j = false) :
    (q.create now id db = .ok ({ db with
        jobs := db.jobs ++ [newJob now id q.request]
        problemUsage := markMissingForRestore q.problemId q.missingObservedAt db.problemUsage },
        .job id) ∧
      (∀ j ∈ db.jobs, restoring q.problemId j = false) ∧
      activeGuards (db.jobs ++ [newJob now id q.request]) = true) ∨
    q.create now id db = .error (.problemOperationConflict q.problemId) := by
  have hkeys : ∀ j ∈ db.jobs, ¬ (j.idempotencyKey = q.request.idempotencyKey ∧
      j.jobType = q.request.jobType) := RestoreClaim.replay_eq_none.mp hkey
  unfold RestoreClaim.create
  rcases @createJob_new now id q.request
    { db with
      problemUsage := markMissingForRestore q.problemId q.missingObservedAt db.problemUsage }
    q.problemId rfl rfl hkeys (RestoreClaim.activeFor_eq_none hactive) with
    ⟨hok, hcompatible, hguards⟩ | herror
  · left
    rw [hok]
    refine ⟨rfl, ?_, hguards⟩
    intro j hj
    rw [← Bool.not_eq_true, restoring_iff]
    rintro ⟨hproblem, htype, hstate⟩
    have hfree := hcompatible j hj
    simp [incompatibleWith, RestoreClaim.request, hproblem, htype, hstate, JobType.exclusive]
      at hfree
  · right
    rw [herror]
    rfl

theorem tracked_markMissing (m : Timestamp) (usage : List ProblemUsageRow) :
    Tracked problemId (markMissingForRestore problemId m usage) := by
  unfold Tracked markMissingForRestore upsertOn
  split
  · rename_i hany
    obtain ⟨u, hu, hid⟩ := List.any_eq_true.mp hany
    have hid : u.problemId = problemId := of_decide_eq_true hid
    refine ⟨_, mem_updateWhere.mpr ⟨u, hu, rfl⟩, ?_⟩
    split
    · exact hid
    · exact hid
  · exact ⟨_, List.mem_append_right _ (List.mem_singleton_self _), rfl⟩

theorem callStep_marked (h : EpisodeInv problemId e) (hc : e.calls[i]? = some c)
    {victims : List Uuid} (hphase : c.phase = .marked victims) {db : Database}
    {phase : ClaimPhase} {id : Uuid} (hnext : nextStatement e c id = some (db, phase)) :
    CallStep problemId e i c db phase := by
  have hcall := h.calls c (List.mem_of_getElem? hc)
  have hholds : c.phase.holdsLock = true := by rw [hphase]; rfl
  have hkey : c.claim.replay e.db.jobs = none := hcall.key (by rw [hphase]; rfl)
  have hactive := hcall.active (by rw [hphase]; rfl)
  have hmissing := hcall.usage (by rw [hphase]; rfl)
  have hworked := worked_cancelRows c.began victims e.db
  have hundecided : ∀ {db' answer}, ((∃ j ∈ db'.jobs, c.claim.joins j = true ∧
      (∀ k ∈ e.db.jobs, k.id ≠ j.id) ∧ answer = .ok (.job j.id)) ∨
        answer = .error (.problemOperationConflict c.claim.problemId)) →
      Decided c.claim e.db db' answer := by
    intro db' answer hcreates
    refine ⟨?_, ?_, ?_, fun _ _ _ => hcreates⟩
    · intro k hk
      rw [hkey] at hk
      cases hk
    · intro _ j hj hjoins
      rw [hactive j hj] at hjoins
      cases hjoins
    · intro _ _ hpresent
      rw [hcall.problem, hmissing] at hpresent
      cases hpresent
  unfold nextStatement at hnext
  rw [hphase] at hnext
  dsimp only at hnext
  split at hnext
  · cases hnext
  · rename_i hnew
    have hfresh : ∀ j ∈ e.db.jobs, j.id ≠ id := by
      intro j hj hid
      exact hnew (List.any_eq_true.mpr ⟨j, hj, decide_eq_true hid⟩)
    rcases @create_cases c.claim c.began id (cancelRows c.began victims e.db)
      (hworked.replay_eq_none hkey) (hworked.joins hactive) with
      ⟨hok, hidle, hguards⟩ | herror
    · rw [hok] at hnext
      cases hnext
      rw [hcall.problem] at hidle ⊢
      have hids : ((cancelRows c.began victims e.db).jobs.map JobRow.id).Nodup :=
        hworked.ids ▸ h.ids
      refine ⟨h.commits hc hholds ?_ hguards ?_ ?_, ?_, ?_, ?_⟩
      · show (((cancelRows c.began victims e.db).jobs ++
          [newJob c.began id c.claim.request]).map JobRow.id).Nodup
        apply nodup_map_concat hids
        intro j hj
        obtain ⟨j₀, hj₀, hid⟩ := List.mem_map.mp (hworked.ids ▸ List.mem_map_of_mem hj)
        exact hid ▸ hfresh j₀ hj₀
      · exact fun _ _ _ => tracked_markMissing _ _
      · intro r hr
        have hrun := h.runs r hr
        have hold : ∀ j ∈ (cancelRows c.began victims e.db).jobs ++
            [newJob c.began id c.claim.request], j.id = r.jobId →
              j ∈ (cancelRows c.began victims e.db).jobs := by
          intro j hj hid
          rcases List.mem_append.mp hj with hj | hj
          · exact hj
          · obtain ⟨k, hk, hkid⟩ := List.mem_map.mp hrun.job
            rw [List.mem_singleton.mp hj] at hid
            exact absurd (hkid.trans hid.symm) (hfresh k hk)
        refine ⟨tracked_markMissing _ _, ?_, ?_, ?_⟩
        · show r.jobId ∈ ((cancelRows c.began victims e.db).jobs ++
            [newJob c.began id c.claim.request]).map JobRow.id
          rw [List.map_append, hworked.ids]
          exact List.mem_append_left _ hrun.job
        · intro j hj hid
          obtain ⟨k, hk, hworks⟩ := hworked.from (hold j hj hid)
          rw [hworks.problemId, hworks.jobType]
          exact hrun.restores k hk (hworks.id ▸ hid)
        · intro _ j hj hid hstate
          exfalso
          have hmem := hold j hj hid
          obtain ⟨k, hk, hworks⟩ := hworked.from hmem
          obtain ⟨hproblem, htype⟩ := hrun.restores k hk (hworks.id ▸ hid)
          have hnot := hidle j hmem
          rw [restoring_iff.mpr ⟨by rw [hworks.problemId, hproblem], by rw [hworks.jobType, htype],
            hstate⟩] at hnot
          cases hnot
      · intro answer hanswer
        cases hanswer
        apply hundecided
        left
        exact ⟨newJob c.began id c.claim.request, List.mem_append_right _ (List.mem_singleton_self _),
          RestoreClaim.joins_iff.mpr ⟨rfl, rfl, rfl, rfl⟩, hfresh, rfl⟩
      · intro j' hj' hcompleted
        rcases List.mem_append.mp hj' with hj' | hj'
        · obtain ⟨j, hj, rfl⟩ := mem_updateWhere.mp hj'
          split at hcompleted
          · cases hcompleted
          · rename_i hp
            rw [if_neg hp]
            exact hj
        · rw [List.mem_singleton.mp hj'] at hcompleted
          cases hcompleted
      · intro _ _
        exact ⟨⟨id, rfl⟩, presentSince_eq_false hmissing⟩
    · rw [herror] at hnext
      cases hnext
      refine callStep_reads h hc (callInv_of_not_holding hcall.problem rfl)
        (fun hf => by cases hf) ?_
      intro answer hanswer
      cases hanswer
      exact hundecided (.inr rfl)

theorem callStep (h : EpisodeInv problemId e) (hc : e.calls[i]? = some c) {db : Database}
    {phase : ClaimPhase} {id : Uuid} (hnext : nextStatement e c id = some (db, phase)) :
    CallStep problemId e i c db phase := by
  have hcall := h.calls c (List.mem_of_getElem? hc)
  cases hphase : c.phase with
  | waiting =>
      unfold nextStatement at hnext
      rw [hphase] at hnext
      dsimp only at hnext
      split at hnext
      · rename_i hfree
        cases hnext
        refine callStep_reads h hc ⟨hcall.problem, ?_, ?_, ?_, ?_⟩ (fun _ => .inr ?_) ?_
        · intro hread
          cases hread
        · intro hread
          cases hread
        · intro victims hvictims
          cases hvictims
        · intro hread
          cases hread
        · intro d hd
          exact Bool.not_eq_true' _ ▸ List.all_eq_true.mp hfree d hd
        · intro answer hanswer
          cases hanswer
      · cases hnext
  | locked => exact callStep_locked h hc hphase hnext
  | unkeyed => exact callStep_unkeyed h hc hphase hnext
  | unclaimed =>
      have hkey : c.claim.replay e.db.jobs = none := hcall.key (by rw [hphase]; rfl)
      have hactive := hcall.active (by rw [hphase]; rfl)
      unfold nextStatement at hnext
      rw [hphase] at hnext
      cases hnext
      refine callStep_reads h hc ⟨hcall.problem, fun _ => hkey, fun _ => hactive, ?_, ?_⟩
        (fun _ => .inl (by rw [hphase]; rfl)) ?_
      · intro victims hvictims j hj
        cases hvictims
        rw [Bool.eq_iff_iff, List.contains_iff_mem, List.mem_map, hcall.problem]
        constructor
        · rintro ⟨k, hk, hid⟩
          obtain ⟨hk, hpending⟩ := List.mem_filter.mp hk
          obtain rfl : k = j := List.inj_on_of_nodup_map h.ids hk hj hid
          exact hpending
        · exact fun hpending => ⟨j, List.mem_filter.mpr ⟨hj, hpending⟩, rfl⟩
      · intro hread
        cases hread
      · intro answer hanswer
        cases hanswer
  | cancelled victims => exact callStep_cancelled h hc hphase hnext
  | absent victims =>
      have hkey : c.claim.replay e.db.jobs = none := hcall.key (by rw [hphase]; rfl)
      have hactive := hcall.active (by rw [hphase]; rfl)
      have hvictims := hcall.victims victims (by rw [hphase]; rfl)
      have husage := hcall.usage (by rw [hphase]; rfl)
      unfold nextStatement at hnext
      rw [hphase] at hnext
      cases hnext
      refine callStep_reads h hc
        ⟨hcall.problem, fun _ => hkey, fun _ => hactive, ?_, fun _ => husage⟩
        (fun _ => .inl (by rw [hphase]; rfl)) ?_
      · intro victims' hsame
        cases hsame
        exact hvictims
      · intro answer hanswer
        cases hanswer
  | marked victims => exact callStep_marked h hc hphase hnext
  | returned answer =>
      unfold nextStatement at hnext
      rw [hphase] at hnext
      cases hnext

end Calls

/-! ## Every step of a run -/

def ClaimCall.returned (c : ClaimCall) : Prop := ∃ answer, c.phase = .returned answer

/-- What a step may do to the restores of the problem and to its usage row. -/
structure Episodic (problemId : String) (e e' : Episode) : Prop where
  /-- One restore is active at a time. -/
  single : ∀ j ∈ e'.db.jobs, ∀ k ∈ e'.db.jobs, restoring problemId j = true →
    restoring problemId k = true → j = k
  /-- A call that returns does so by the state it returns in. -/
  answered : ∀ (i : Nat) (c : ClaimCall) (answer : Except CreateJobError RestoreAnswer),
    e.calls[i]? = some c → ¬ c.returned →
      e'.calls[i]? = some { c with phase := .returned answer } → Decided c.claim e.db e'.db answer
  /-- When a restore completes, the row says `present`. -/
  completes : ∀ j ∈ e'.db.jobs, j.problemId = some problemId → j.jobType = .restore →
    j.state = .completed → (∃ k ∈ e.db.jobs, k.id = j.id ∧ k.state = .completed) ∨
      PresentIn problemId e'.db.problemUsage
  /-- It says `missing` again only after a call with a later observation has created a job. -/
  missing : PresentIn problemId e.db.problemUsage → ¬ PresentIn problemId e'.db.problemUsage →
    ∃ (i : Nat) (c : ClaimCall) (id : Uuid), e.calls[i]? = some c ∧
      e'.calls[i]? = some { c with phase := .returned (.ok (.job id)) } ∧
      ∀ u ∈ e.db.problemUsage, u.problemId = problemId → u.localStatus = .present →
        u.observedAt / 1000 < c.claim.missingObservedAt / 1000

section Steps

variable {problemId dest : String} {e e' : Episode}

theorem episodic_of_executor (hinv : EpisodeInv problemId e')
    (hcalls : ∀ (i : Nat) (c : ClaimCall), e.calls[i]? = some c → e'.calls[i]? = some c)
    (hcompletes : ∀ j ∈ e'.db.jobs, j.state = .completed →
      (∃ k ∈ e.db.jobs, k.id = j.id ∧ k.state = .completed) ∨
        PresentIn problemId e'.db.problemUsage)
    (hpresent : PresentIn problemId e.db.problemUsage →
      PresentIn problemId e'.db.problemUsage) : Episodic problemId e e' := by
  refine ⟨fun j hj k hk => hinv.single hj hk, ?_, fun j hj _ _ => hcompletes j hj,
    fun hp hn => absurd (hpresent hp) hn⟩
  intro i c answer hc hreturned hc'
  rw [hcalls i c hc] at hc'
  exact absurd ⟨answer, congrArg ClaimCall.phase (Option.some.inj hc')⟩ hreturned

theorem completed_update {jobs : List JobRow} {p : JobRow → Bool} {f : JobRow → JobRow}
    (hf : ∀ j ∈ jobs, p j = true → (f j).state ≠ .completed) {j' : JobRow}
    (hj' : j' ∈ updateWhere p f jobs) (hcompleted : j'.state = .completed) :
    ∃ k ∈ jobs, k.id = j'.id ∧ k.state = .completed := by
  obtain ⟨j, hj, rfl⟩ := mem_updateWhere.mp hj'
  by_cases hp : p j = true
  · rw [if_pos hp] at hcompleted
    exact absurd hcompleted (hf j hj hp)
  · rw [if_neg hp] at hcompleted ⊢
    exact ⟨j, hj, rfl, hcompleted⟩

theorem presentIn_markLocalPresent (now : Timestamp) (generation : Option Int)
    (usage : List ProblemUsageRow) :
    PresentIn problemId (markLocalPresent now problemId generation usage) := by
  unfold PresentIn markLocalPresent upsertOn
  split
  · rename_i hany
    obtain ⟨u, hu, hid⟩ := List.any_eq_true.mp hany
    refine ⟨_, mem_updateWhere.mpr ⟨u, hu, rfl⟩, ?_⟩
    rw [if_pos hid]
    exact ⟨of_decide_eq_true hid, rfl⟩
  · exact ⟨_, List.mem_append_right _ (List.mem_singleton_self _), rfl, rfl⟩

theorem presentIn_restored {began : Timestamp} {q : RestoreRequest} {db : Database}
    (hq : q.problemId = problemId) (htracked : Tracked problemId db.problemUsage) :
    PresentIn problemId (restored began q db).problemUsage := by
  obtain ⟨u, hu, hid⟩ := htracked
  refine ⟨_, mem_updateWhere.mpr ⟨u, hu, rfl⟩, ?_⟩
  rw [if_pos (decide_eq_true (by rw [hid, hq]))]
  exact ⟨hid, rfl⟩

theorem PresentIn.tracked {usage : List ProblemUsageRow} (h : PresentIn problemId usage) :
    Tracked problemId usage := by
  obtain ⟨u, hu, hid, -⟩ := h
  exact ⟨u, hu, hid⟩

theorem episodic_perform (run : RestoreRun) {s : LeaseStatement}
    (hcompleted : ∀ j : JobRow, j.state = .running → (s.set e.now j).state ≠ .completed)
    {runs : List RestoreRun}
    (hinv : EpisodeInv problemId { e with db := run.perform e.now s e.db, runs := runs }) :
    EpisodeInv problemId { e with db := run.perform e.now s e.db, runs := runs } ∧
      Episodic problemId e { e with db := run.perform e.now s e.db, runs := runs } := by
  refine ⟨hinv, episodic_of_executor hinv (fun i c hc => hc) ?_ (fun hp => hp)⟩
  intro j hj hstate
  left
  refine completed_update ?_ hj hstate
  intro k _ hguard
  exact hcompleted k (JobRow.heldAs_iff.mp (s.heldAs_of_guard hguard)).2.2.2

theorem episodic_acquire (h : EpisodeInv problemId e) {worker : String} {leaseSeconds : Int}
    {lane : JobLane} {paused : Bool} {locked : List Uuid}
    (hstep : episodeStep problemId dest e (.acquire worker leaseSeconds lane paused locked) =
      some e') : EpisodeInv problemId e' ∧ Episodic problemId e e' := by
  obtain ⟨⟨db, c, token⟩, hacquire, hstep⟩ := Option.bind_eq_some_iff.mp hstep
  obtain ⟨hinv, hc, hactive⟩ := h.acquire hacquire
  obtain ⟨-, hjobs, -⟩ := acquireJob_rows hacquire
  have husage : db.problemUsage = e.db.problemUsage := acquireJob_usage hacquire
  have hcompletes : ∀ j ∈ db.jobs, j.state = .completed →
      ∃ k ∈ e.db.jobs, k.id = j.id ∧ k.state = .completed := by
    intro j hj hstate
    rw [hjobs] at hj
    refine completed_update ?_ hj hstate
    intro k _ _ hfalse
    cases hfalse
  have hnodup := h.ids
  dsimp only at hstep
  split at hstep
  · rename_i hrestore
    cases hstep
    have hc' : ∃ c' ∈ db.jobs, c'.id = c.id ∧ c'.problemId = some problemId ∧
        c'.jobType = .restore ∧ c'.state.active = true ∧
        c'.targetGeneration = c.targetGeneration := by
      refine ⟨_, by rw [hjobs]; exact mem_updateWhere.mpr ⟨c, hc, rfl⟩, ?_⟩
      split
      · exact ⟨rfl, hrestore.1, hrestore.2, rfl, rfl⟩
      · exact ⟨rfl, hrestore.1, hrestore.2, hactive, rfl⟩
    obtain ⟨c', hmem, hid, hproblem, htype, hactive', hgeneration⟩ := hc'
    have hinv' := hinv.addRun hmem hproblem htype hactive' worker token
      (e.runs ++ [⟨c.id, worker, token, c.targetGeneration, false, .working⟩])
      (by rw [hid, hgeneration])
    exact ⟨hinv', episodic_of_executor hinv' (fun i d hd => hd)
      (fun j hj hstate => .inl (hcompletes j hj hstate))
      (fun hp => by rw [← husage] at hp; exact hp)⟩
  · cases hstep
    exact ⟨hinv, episodic_of_executor hinv (fun i d hd => hd)
      (fun j hj hstate => .inl (hcompletes j hj hstate))
      (fun hp => by rw [← husage] at hp; exact hp)⟩

theorem episodic_publish (h : EpisodeInv problemId e) {r : Nat} {began : Timestamp}
    (hstep : episodeStep problemId dest e (.publish r began) = some e') :
    EpisodeInv problemId e' ∧ Episodic problemId e e' := by
  obtain ⟨run, hrun, hstep⟩ := Option.bind_eq_some_iff.mp hstep
  dsimp only at hstep
  split at hstep
  · cases hstep
  · split at hstep
    · cases hstep
    · rename_i hguard
      cases hstep
      rw [not_or, not_or, Bool.not_eq_true, Bool.not_eq_true] at hguard
      have htracked := (h.runs run (List.mem_of_getElem? hrun)).tracked
      have hpresent : PresentIn problemId (restored began
          ⟨problemId, run.generation.getD 0, run.token, dest⟩ e.db).problemUsage :=
        presentIn_restored rfl htracked
      have hinv := h.worked (d := restored began
          ⟨problemId, run.generation.getD 0, run.token, dest⟩ e.db)
        (worked_refl _ e.db.jobs) h.guards (fun _ => hpresent.tracked) (fun _ => hpresent)
        (.inr ⟨hguard.2.2, htracked⟩)
      have hinv' := hinv.setRun hrun (w := { run with published := true }) rfl
        (fun hmarked => .inl hmarked)
      exact ⟨hinv', episodic_of_executor hinv' (fun i d hd => hd)
        (fun j hj hstate => .inl ⟨j, hj, rfl, hstate⟩) (fun _ => hpresent)⟩

theorem episodic_work (h : EpisodeInv problemId e) {r : Nat} {result : Option JobPayload}
    (hstep : episodeStep problemId dest e (.work r result) = some e') :
    EpisodeInv problemId e' ∧ Episodic problemId e e' := by
  obtain ⟨run, hrun, hstep⟩ := Option.bind_eq_some_iff.mp hstep
  obtain ⟨⟨db, phase⟩, hnext, hstep⟩ := Option.bind_eq_some_iff.mp hstep
  cases hstep
  have hruninv := h.runs run (List.mem_of_getElem? hrun)
  unfold nextWork at hnext
  cases hphase : run.phase with
  | working =>
      rw [hphase] at hnext
      dsimp only at hnext
      split at hnext
      · cases hnext
        have hinv := h.setRun hrun (w := { run with phase := .asserted }) rfl
          (fun hmarked => by cases hmarked)
        exact ⟨hinv, episodic_of_executor hinv (fun i d hd => hd)
          (fun j hj hstate => .inl ⟨j, hj, rfl, hstate⟩) (fun hp => hp)⟩
      · cases hnext
  | asserted =>
      rw [hphase] at hnext
      dsimp only at hnext
      split at hnext
      · cases hnext
      · rename_i hfree
        rw [Bool.not_eq_true] at hfree
        cases hnext
        have hpresent : PresentIn problemId
            (markLocalPresent e.now problemId run.generation e.db.problemUsage) :=
          presentIn_markLocalPresent e.now run.generation e.db.problemUsage
        have hinv := h.worked (d := { e.db with
            problemUsage := markLocalPresent e.now problemId run.generation e.db.problemUsage })
          (worked_refl _ e.db.jobs) h.guards (fun _ => hpresent.tracked) (fun _ => hpresent)
          (.inr ⟨hfree, hruninv.tracked⟩)
        have hinv' := hinv.setRun hrun (w := { run with phase := .marked }) rfl
          (fun _ => .inr hpresent)
        exact ⟨hinv', episodic_of_executor hinv' (fun i d hd => hd)
          (fun j hj hstate => .inl ⟨j, hj, rfl, hstate⟩) (fun _ => hpresent)⟩
  | marked =>
      rw [hphase] at hnext
      cases hnext
      have hinv := (h.perform run (s := .completeJobWithLease .completed result none none)
        (fun j _ hpending => by cases hpending)).setRun hrun
          (w := { run with phase := .closed }) rfl (fun hmarked => by cases hmarked)
      refine ⟨hinv, episodic_of_executor hinv (fun i d hd => hd) ?_ (fun hp => hp)⟩
      intro j' hj' hstate
      obtain ⟨j, hj, rfl⟩ := mem_updateWhere.mp hj'
      by_cases hguard : (LeaseStatement.completeJobWithLease .completed result none none).guard
          e.now run.jobId (some run.owner) run.token j = true
      · -- The job was active, and its worker has written the row.
        right
        obtain ⟨hid, -, -, hrunning⟩ := JobRow.heldAs_iff.mp
          (LeaseStatement.heldAs_of_guard hguard)
        exact hruninv.present hphase j hj hid (by rw [hrunning]; rfl)
      · rw [if_neg hguard] at hstate ⊢
        exact .inl ⟨j, hj, rfl, hstate⟩
  | closed =>
      rw [hphase] at hnext
      cases hnext

theorem episodic_call (h : EpisodeInv problemId e) {i : Nat} {id : Uuid}
    (hstep : episodeStep problemId dest e (.call i id) = some e') :
    EpisodeInv problemId e' ∧ Episodic problemId e e' := by
  obtain ⟨c, hc, hstep⟩ := Option.bind_eq_some_iff.mp hstep
  obtain ⟨⟨db, phase⟩, hnext, hstep⟩ := Option.bind_eq_some_iff.mp hstep
  cases hstep
  have hcall := callStep h hc hnext
  have hi : i < e.calls.length := (List.getElem?_eq_some_iff.mp hc).1
  refine ⟨hcall.inv, fun j hj k hk => hcall.inv.single hj hk, ?_, ?_, ?_⟩
  · intro k d answer hd hreturned hd'
    have hd' : (e.calls.set i { c with phase := phase })[k]? = _ := hd'
    by_cases hk : k = i
    · subst hk
      rw [hc] at hd
      obtain rfl := Option.some.inj hd
      rw [List.getElem?_set_self hi] at hd'
      exact hcall.decided answer (congrArg ClaimCall.phase (Option.some.inj hd'))
    · rw [List.getElem?_set_ne (Ne.symm hk), hd] at hd'
      exact absurd ⟨answer, congrArg ClaimCall.phase (Option.some.inj hd')⟩ hreturned
  · intro j hj _ _ hstate
    exact .inl ⟨j, hcall.completed j hj hstate, rfl, hstate⟩
  · intro hp hn
    obtain ⟨⟨id', hphase⟩, hlater⟩ := hcall.missing hp hn
    refine ⟨i, c, id', hc, ?_, hlater⟩
    show (e.calls.set i { c with phase := phase })[i]? = _
    rw [List.getElem?_set_self hi, hphase]

theorem episodic_step (h : EpisodeInv problemId e) {a : EpisodeAction}
    (hstep : episodeStep problemId dest e a = some e') :
    EpisodeInv problemId e' ∧ Episodic problemId e e' := by
  cases a with
  | begin q =>
      change (if q.problemId = problemId then _ else none) = some e' at hstep
      split at hstep
      · rename_i hproblem
        cases hstep
        have hinv : EpisodeInv problemId { e with calls := e.calls ++ [⟨q, e.now, .waiting⟩] } := by
          refine ⟨h.ids, h.guards, h.tracked, ?_, ?_, h.runs⟩
          · intro c hc
            rcases List.mem_append.mp hc with hc | hc
            · exact h.calls c hc
            · rw [List.mem_singleton.mp hc]
              exact callInv_of_not_holding hproblem rfl
          · have hold : ∀ {k : Nat} {c : ClaimCall},
                (e.calls ++ [⟨q, e.now, .waiting⟩])[k]? = some c → c.phase.holdsLock = true →
                  e.calls[k]? = some c := by
              intro k c hc hholds
              by_cases hk : k < e.calls.length
              · rwa [List.getElem?_append_left hk] at hc
              · rw [List.getElem?_append_right (by omega)] at hc
                rw [List.mem_singleton.mp (List.mem_of_getElem? hc)] at hholds
                cases hholds
            intro k m c d hc hd hholds hholds'
            exact h.alone k m c d (hold hc hholds) (hold hd hholds') hholds hholds'
        refine ⟨hinv, episodic_of_executor hinv ?_
          (fun j hj hstate => .inl ⟨j, hj, rfl, hstate⟩) (fun hp => hp)⟩
        intro i c hc
        show (e.calls ++ [_])[i]? = some c
        rw [List.getElem?_append_left (List.getElem?_eq_some_iff.mp hc).1]
        exact hc
      · cases hstep
  | call i id => exact episodic_call h hstep
  | acquire worker leaseSeconds lane paused locked => exact episodic_acquire h hstep
  | failExpired =>
      cases hstep
      refine ⟨h.failExpired, episodic_of_executor h.failExpired (fun i c hc => hc) ?_
        (fun hp => hp)⟩
      intro j hj hstate
      left
      refine completed_update ?_ hj hstate
      intro k _ _ hfalse
      cases hfalse
  | renew r leaseSeconds =>
      obtain ⟨run, hrun, hstep⟩ := Option.bind_eq_some_iff.mp hstep
      cases hstep
      have hstate : ∀ j : JobRow,
          ((LeaseStatement.renewJobLease leaseSeconds).set e.now j).state = j.state := fun _ => rfl
      refine episodic_perform run (s := .renewJobLease leaseSeconds) ?_ (h.perform run ?_)
      all_goals intro j hrunning
      all_goals rw [hstate j, hrunning]
      all_goals decide
  | publish r began => exact episodic_publish h hstep
  | work r result => exact episodic_work h hstep
  | fail r errorCode errorMessage =>
      obtain ⟨run, hrun, hstep⟩ := Option.bind_eq_some_iff.mp hstep
      split at hstep
      · cases hstep
      · cases hstep
        have hpending : ∀ j : JobRow, j.state = .running →
            ((LeaseStatement.completeJobWithLease .failed none (some errorCode)
              (some errorMessage)).set e.now j).state ≠ .pending := fun _ _ hfalse => by cases hfalse
        refine episodic_perform run (fun _ _ hfalse => by cases hfalse) ?_
        exact (h.perform run hpending).setRun hrun rfl (fun hmarked => by cases hmarked)
  | abandon r =>
      obtain ⟨run, hrun, hstep⟩ := Option.bind_eq_some_iff.mp hstep
      cases hstep
      have hinv := h.setRun hrun (w := { run with phase := .closed }) rfl
        (fun hmarked => by cases hmarked)
      exact ⟨hinv, episodic_of_executor hinv (fun i d hd => hd)
        (fun j hj hstate => .inl ⟨j, hj, rfl, hstate⟩) (fun hp => hp)⟩
  | tick elapsed =>
      cases hstep
      have hinv : EpisodeInv problemId { e with now := e.now + elapsed } :=
        ⟨h.ids, h.guards, h.tracked, h.calls, h.alone, h.runs⟩
      exact ⟨hinv, episodic_of_executor hinv (fun i d hd => hd)
        (fun j hj hstate => .inl ⟨j, hj, rfl, hstate⟩) (fun hp => hp)⟩

theorem episodeInv_outset (h : Outset problemId e) : EpisodeInv problemId e := by
  refine ⟨h.ids, h.guards, h.tracked, ?_, ?_, ?_⟩
  · intro c hc
    rw [h.calls] at hc
    cases hc
  · intro i k c d hc
    rw [h.calls] at hc
    cases hc
  · intro r hr
    rw [h.runs] at hr
    cases hr

/-- Whatever the interleaving, one restore of the problem is active at a time, a call is
answered by its key, by the active restore, by a folder seen since, or by a new job, in this
order and by the state it returns in, and a completed restore leaves a row that says `present`
until a call with a later observation creates the next job. -/
theorem one_restore_per_episode (dest : String) (h : Outset problemId e)
    (acts : List EpisodeAction) :
    EveryStep (episodeStep problemId dest) (fun e _ e' => Episodic problemId e e') e acts :=
  everyStep_of_invariant (I := EpisodeInv problemId) (C := fun _ _ _ => True)
    (fun _ _ _ hinv _ hstep => (episodic_step hinv hstep).1)
    (fun _ _ _ hinv _ hstep => (episodic_step hinv hstep).2)
    (episodeInv_outset h) (everyStep_of_forall_mem fun _ _ => trivial)

end Steps

/-! ## A key that named no job -/

def missingClaim (key : String) : RestoreClaim := ⟨key, "101", 1, "restore", 5000⟩

/-- The seven statements of a call that creates its job. -/
def wholeCall (i : Nat) (id : Uuid) : List EpisodeAction := List.replicate 7 (.call i id)

/-- The first call creates the job, the second joins it, the job fails, and the second call is
made again. -/
def repeatedCall : List EpisodeAction :=
  [.begin (missingClaim "first")] ++ wholeCall 0 1 ++
    [.begin (missingClaim "second"), .call 1 2, .call 1 2, .call 1 2,
      .acquire "worker" 60 .restore false [], .fail 0 "r2_error" "",
      .begin (missingClaim "second")] ++ wholeCall 2 2

def emptyEpisode : Episode where
  now := 10
  db := { problems := [presentRow "101" "aplusb"] }

theorem one_restore_per_episode_repeated :
    (exec (episodeStep "101" "aplusb") emptyEpisode repeatedCall).isSome = true ∧
      EveryStep (episodeStep "101" "aplusb") (fun e _ e' => Episodic "101" e e') emptyEpisode
        repeatedCall := by
  have houtset : Outset "101" emptyEpisode :=
    ⟨List.nodup_nil, rfl, fun _ hj => absurd hj List.not_mem_nil, rfl, rfl⟩
  exact ⟨by rfl, one_restore_per_episode "aplusb" houtset repeatedCall⟩

theorem repeated_key_creates_second_job :
    ∃ e c d, exec (episodeStep "101" "aplusb") emptyEpisode repeatedCall = some e ∧
      e.calls[1]? = some c ∧ e.calls[2]? = some d ∧ c.claim = d.claim ∧
      c.phase = .returned (.ok (.job 1)) ∧ d.phase = .returned (.ok (.job 2)) := by
  refine ⟨_, _, _, rfl, rfl, rfl, rfl, rfl, rfl⟩

end ExternalStorage.Restore
