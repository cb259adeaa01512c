import ExternalStorage.Jobs.Leases

/-!
# A lost lease is not regained

The guard that an executor is asked for looks at its owner, its token, the state and the time.
No statement makes it hold again for a token that has been handed out: a renewal asks
for it, and an acquisition takes a new token.
-/

namespace ExternalStorage.Jobs

open ExternalStorage.Model Library.Table

/-- The rows of a statement, as far as the guard of `assertJobLease` looks at them: a job has a
higher token, or is held by nobody who did not hold it. -/
def GuardsFade (now now' : Timestamp) (jobs jobs' : List JobRow) : Prop :=
  ∀ j ∈ jobs, ∀ k ∈ jobs', k.id = j.id → j.fencingToken < k.fencingToken ∨
    (k.fencingToken = j.fencingToken ∧ ∀ id owner token,
      controlPlaneGuard now' id owner token k = true → controlPlaneGuard now id owner token j = true)

/-- What every statement does to the leases that have been handed out. -/
structure LeasesFade (l l' : Leases) : Prop where
  inv : LeaseInv l'
  kept : ∀ j ∈ l.ledger.db.jobs, ∃ j' ∈ l'.ledger.db.jobs,
    j'.id = j.id ∧ j.fencingToken ≤ j'.fencingToken
  fade : GuardsFade l.ledger.now l'.ledger.now l.ledger.db.jobs l'.ledger.db.jobs

structure LostLease (l : Leases) (id : Uuid) (owner : Option String) (token : Int) : Prop where
  exists_row : ∃ j ∈ l.ledger.db.jobs, j.id = id
  row : ∀ j ∈ l.ledger.db.jobs, j.id = id →
    token ≤ j.fencingToken ∧ controlPlaneGuard l.ledger.now id owner token j = false

theorem LeasesFade.trans {l l' l'' : Leases} (h : LeasesFade l l') (h' : LeasesFade l' l'') :
    LeasesFade l l'' := by
  refine ⟨h'.inv, ?_, ?_⟩
  · intro j hj
    obtain ⟨j', hj', hid, hle⟩ := h.kept j hj
    obtain ⟨j'', hj'', hid', hle'⟩ := h'.kept j' hj'
    exact ⟨j'', hj'', hid'.trans hid, Int.le_trans hle hle'⟩
  · intro j hj k hk hid
    obtain ⟨i, hi, hij, hle⟩ := h.kept j hj
    rcases h'.fade i hi k hk (hid.trans hij.symm) with hlt | ⟨heq, hguard⟩
    · exact .inl (Int.lt_of_le_of_lt hle hlt)
    · rcases h.fade j hj i hi hij with hlt | ⟨heq', hguard'⟩
      · exact .inl (heq ▸ hlt)
      · exact .inr ⟨heq.trans heq', fun id owner token hk =>
          hguard' id owner token (hguard id owner token hk)⟩

theorem LostLease.lasts {l l' : Leases} {id : Uuid} {owner : Option String} {token : Int}
    (h : LostLease l id owner token) (hfade : LeasesFade l l') : LostLease l' id owner token := by
  obtain ⟨j, hj, hid⟩ := h.exists_row
  obtain ⟨hle, hguard⟩ := h.row j hj hid
  obtain ⟨j', hj', hid', -⟩ := hfade.kept j hj
  refine ⟨⟨j', hj', hid'.trans hid⟩, ?_⟩
  intro k hk hkid
  rcases hfade.fade j hj k hk (hkid.trans hid.symm) with hlt | ⟨heq, hback⟩
  · refine ⟨by omega, ?_⟩
    rw [← Bool.not_eq_true]
    intro hheld
    rw [controlPlaneGuard, Bool.and_eq_true, Bool.and_eq_true] at hheld
    have htoken := (JobRow.heldAs_iff.mp hheld.1.1).2.2.1
    omega
  · refine ⟨heq ▸ hle, ?_⟩
    rw [← Bool.not_eq_true] at hguard ⊢
    exact fun hheld => hguard (hback _ _ _ hheld)

theorem lostLease_of_not_accepts {l : Leases} {id : Uuid} {owner : Option String} {token : Int}
    (hids : (l.ledger.db.jobs.map JobRow.id).Nodup)
    (hissued : ∃ j ∈ l.ledger.db.jobs, j.id = id ∧ token ≤ j.fencingToken)
    (h : LeaseStatement.assertJobLease.accepts l.ledger.now id owner token l.ledger.db = false) :
    LostLease l id owner token := by
  obtain ⟨j, hj, hid, hle⟩ := hissued
  refine ⟨⟨j, hj, hid⟩, ?_⟩
  intro k hk hkid
  rw [row_eq_of_id hids hk hj (hkid.trans hid.symm)]
  exact ⟨hle, Bool.eq_false_iff.mpr (List.any_eq_false.mp h j hj)⟩

theorem LostLease.not_accepts {l : Leases} {id : Uuid} {owner : Option String} {token : Int}
    (h : LostLease l id owner token) :
    LeaseStatement.assertJobLease.accepts l.ledger.now id owner token l.ledger.db = false := by
  refine List.any_eq_false.mpr fun j hj hheld => ?_
  have hid := (JobRow.heldAs_iff.mp (LeaseStatement.heldAs_of_guard hheld)).1
  exact Bool.eq_false_iff.mp (h.row j hj hid).2 hheld

/-! ## The statements -/

theorem guard_of_not_running {now : Timestamp} {id : Uuid} {owner : Option String} {token : Int}
    {j : JobRow} (h : j.state ≠ .running) : ¬ controlPlaneGuard now id owner token j = true := by
  intro hheld
  rw [controlPlaneGuard, Bool.and_eq_true, Bool.and_eq_true] at hheld
  exact h (JobRow.heldAs_iff.mp hheld.1.1).2.2.2

theorem guardsFade_update {now : Timestamp} {jobs : List JobRow} {p : JobRow → Bool}
    {f : JobRow → JobRow} (hids : (jobs.map JobRow.id).Nodup) (hid : ∀ j, (f j).id = j.id)
    (h : ∀ j ∈ jobs, p j = true → j.fencingToken < (f j).fencingToken ∨
      ((f j).fencingToken = j.fencingToken ∧ ∀ id owner token,
        controlPlaneGuard now id owner token (f j) = true →
          controlPlaneGuard now id owner token j = true)) :
    GuardsFade now now jobs (updateWhere p f jobs) := by
  intro j hj k hk hkid
  obtain ⟨i, hi, rfl⟩ := mem_updateWhere.mp hk
  have hij : i.id = j.id := by
    split at hkid
    · exact (hid i).symm.trans hkid
    · exact hkid
  rw [row_eq_of_id hids hi hj hij]
  split
  · rename_i hp
    exact h j hj hp
  · exact .inr ⟨rfl, fun _ _ _ hheld => hheld⟩

theorem guardsFade_stopped {now : Timestamp} {jobs : List JobRow} {p : JobRow → Bool}
    {f : JobRow → JobRow} (hids : (jobs.map JobRow.id).Nodup) (hid : ∀ j, (f j).id = j.id)
    (htoken : ∀ j ∈ jobs, p j = true → j.fencingToken < (f j).fencingToken ∨
      (f j).fencingToken = j.fencingToken)
    (hstate : ∀ j, (f j).state ≠ .running) : GuardsFade now now jobs (updateWhere p f jobs) := by
  refine guardsFade_update hids hid fun j hj hp => ?_
  refine (htoken j hj hp).imp_right fun heq => ⟨heq, ?_⟩
  intro id owner token hheld
  exact absurd hheld (guard_of_not_running (hstate j))

theorem guardsFade_concat {now : Timestamp} {jobs : List JobRow} {row : JobRow}
    (hids : (jobs.map JobRow.id).Nodup) (hfresh : ∀ j ∈ jobs, j.id ≠ row.id) :
    GuardsFade now now jobs (jobs ++ [row]) := by
  intro j hj k hk hkid
  rcases List.mem_append.mp hk with hold | hnew
  · rw [row_eq_of_id hids hold hj hkid]
    exact .inr ⟨rfl, fun _ _ _ hheld => hheld⟩
  · rw [List.mem_singleton.mp hnew] at hkid
    exact absurd hkid.symm (hfresh j hj)

theorem guardsFade_refl {now now' : Timestamp} {jobs : List JobRow}
    (hids : (jobs.map JobRow.id).Nodup) (hnow : now ≤ now') : GuardsFade now now' jobs jobs := by
  intro j hj k hk hkid
  rw [row_eq_of_id hids hk hj hkid]
  refine .inr ⟨rfl, fun id owner token hheld => ?_⟩
  rw [controlPlaneGuard, Bool.and_eq_true, Bool.and_eq_true] at hheld ⊢
  refine ⟨⟨hheld.1.1, ?_⟩, hheld.2⟩
  have hcurrent := hheld.1.2
  unfold JobRow.leaseCurrent at hcurrent ⊢
  cases hlease : j.leaseExpiresAt with
  | none => simp [hlease] at hcurrent
  | some t =>
      rw [hlease] at hcurrent
      exact decide_eq_true (Int.le_trans hnow (of_decide_eq_true hcurrent))

theorem leasesFade_of_move {l : Leases} {db : Database} {tokens : List (String × Int)}
    {events : List LeaseEvent} (hinv : LeaseInv l) (h : LeaseMove l db tokens events)
    (hfade : GuardsFade l.ledger.now l.ledger.now l.ledger.db.jobs db.jobs) :
    LeasesFade l (l.after db tokens events) :=
  ⟨leaseInv_move hinv h, h.kept, hfade⟩

theorem leasesFade_other {l : Leases} {db : Database} (hinv : LeaseInv l)
    (hjobs : db.jobs = l.ledger.db.jobs)
    (hcounters : db.jobFencingCounters = l.ledger.db.jobFencingCounters) :
    LeasesFade l (l.after db [] []) := by
  have hissues : Issues l.ledger.db db [] :=
    issues_none hcounters fun j hj => ⟨j, hjobs ▸ hj, rfl, rfl⟩
  refine leasesFade_of_move hinv ⟨hissues.fencingInv hinv.fencing (hjobs ▸ hinv.fencing.ids),
    hjobs ▸ hinv.guards, hjobs ▸ hinv.uncancelled, ?_, by simp, List.nodup_nil⟩ ?_
  · rw [hjobs]
    exact fun j hj => ⟨j, hj, rfl, le_refl _⟩
  · rw [hjobs]
    exact guardsFade_refl hinv.fencing.ids (le_refl _)

theorem leasesFade_refl {l : Leases} (hinv : LeaseInv l) : LeasesFade l l :=
  ⟨hinv, fun j hj => ⟨j, hj, rfl, le_refl _⟩, guardsFade_refl hinv.fencing.ids (le_refl _)⟩

/-- A renewal asks for the lease, and the other statements of an executor end it or only read. -/
theorem leasesFade_perform {l : Leases} (hinv : LeaseInv l) (s : LeaseStatement) (id : Uuid)
    (owner : Option String) (token : Int) :
    LeasesFade l (l.after (s.run l.ledger.now id owner token l.ledger.db) [] []) := by
  refine leasesFade_of_move hinv (leaseMove_perform hinv s id owner token) ?_
  have hids := hinv.fencing.ids
  have hid := (calms_set l.ledger.now id owner token s).id
  have hsame := set_fencingToken l.ledger.now s
  have hrenewed : ∀ (leaseSeconds : Int), ∀ j ∈ l.ledger.db.jobs, ∀ id' owner' token',
      j.leaseCurrent l.ledger.now = true →
        controlPlaneGuard l.ledger.now id' owner' token'
            (renewed (l.ledger.now + seconds leaseSeconds) j) = true →
          controlPlaneGuard l.ledger.now id' owner' token' j = true := by
    intro leaseSeconds j _ id' owner' token' hcurrent hheld
    rw [controlPlaneGuard, Bool.and_eq_true, Bool.and_eq_true] at hheld ⊢
    exact ⟨⟨hheld.1.1, hcurrent⟩, hheld.2⟩
  have hcurrent : ∀ j, dataPlaneGuard l.ledger.now id owner token j = true →
      j.leaseCurrent l.ledger.now = true :=
    fun j h => ((Bool.and_eq_true _ _).mp h).2
  cases s with
  | renewJobLease leaseSeconds =>
      refine guardsFade_update hids hid fun j hj hp => .inr ⟨hsame j, fun id' owner' token' => ?_⟩
      exact hrenewed leaseSeconds j hj id' owner' token'
        (hcurrent j ((Bool.and_eq_true _ _).mp hp).1)
  | dataPlaneRenew leaseSeconds =>
      refine guardsFade_update hids hid fun j hj hp => .inr ⟨hsame j, fun id' owner' token' => ?_⟩
      exact hrenewed leaseSeconds j hj id' owner' token' (hcurrent j hp)
  | assertJobLease =>
      exact guardsFade_update hids hid fun j _ _ => .inr ⟨hsame j, fun _ _ _ hheld => hheld⟩
  | dataPlaneAssert =>
      exact guardsFade_update hids hid fun j _ _ => .inr ⟨hsame j, fun _ _ _ hheld => hheld⟩
  | completeJobWithLease state result errorCode errorMessage =>
      refine guardsFade_stopped hids hid (fun j _ _ => .inr (hsame j)) fun j => ?_
      show state.toJobState ≠ .running
      intro h
      cases state <;> cases h
  | completeJob result =>
      exact guardsFade_stopped hids hid (fun j _ _ => .inr (hsame j)) fun _ h => by cases h
  | failJob errorCode errorMessage =>
      refine guardsFade_stopped hids hid (fun j _ _ => .inr (hsame j)) fun j => ?_
      show (if j.attempt < j.maxAttempts then JobState.pending else JobState.failed) ≠ .running
      intro h
      split at h <;> cases h

theorem leasesFade_create {l : Leases} {id : Uuid} {r : JobRequest} {db : Database} {j : JobRow}
    (hinv : LeaseInv l) (hfresh : ∀ k ∈ l.ledger.db.jobs, k.id ≠ id)
    (h : createJob l.ledger.now id r l.ledger.db = .ok (db, j)) :
    LeasesFade l (l.after db [] []) := by
  refine leasesFade_of_move hinv (leaseMove_create hinv hfresh h) ?_
  rcases createJob_eq_ok h with ⟨rfl, -⟩ | ⟨rfl, rfl, -⟩
  · exact guardsFade_refl hinv.fencing.ids (le_refl _)
  · exact guardsFade_concat hinv.fencing.ids hfresh

theorem leasesFade_setJobPayload {l : Leases} (hinv : LeaseInv l) (id : Uuid)
    (payload : JobPayload) :
    LeasesFade l (l.after (setJobPayload id payload l.ledger.db) [] []) := by
  have hcalms : Calms (fun j => j.id = id && j.state = .pending)
      (fun j => { j with result := some payload }) := by
    refine ⟨fun _ => rfl, fun _ => rfl, fun _ => rfl, ?_, ?_⟩
    · exact fun j _ hactive => ⟨hactive, rfl⟩
    · exact fun j _ hrunning => hrunning
  refine leasesFade_of_move hinv (hcalms.move hinv rfl rfl fun _ => rfl) ?_
  exact guardsFade_update hinv.fencing.ids (fun _ => rfl) fun _ _ _ =>
    .inr ⟨rfl, fun _ _ _ hheld => hheld⟩

theorem leasesFade_watch {l : Leases} {code owner : String} {leaseSeconds : Int} {id : Uuid}
    {millis : Int} {db : Database} {tokens : Option WatcherTokens}
    {job : Option DirtySnapshotJob} (hinv : LeaseInv l) (hfresh : ∀ j ∈ l.ledger.db.jobs, j.id ≠ id)
    (h : acquireDirtySnapshotJobByCode l.ledger.now code owner leaseSeconds id millis
      l.ledger.db = .ok (db, tokens, job)) :
    LeasesFade l (l.after db ((tokens.map WatcherTokens.toList).getD [])
      (job.toList.map fun d => ⟨d.jobId, some owner, d.fencingToken⟩)) := by
  refine leasesFade_of_move hinv (leaseMove_watch hinv hfresh h) ?_
  have hissues := (watcher_issues hinv.fencing.ids hfresh h).1
  rcases acquireDirtySnapshotJob_grants h with ⟨rfl, -, -⟩ | ⟨t, rfl, -, hcases⟩
  · exact guardsFade_refl hinv.fencing.ids (le_refl _)
  · rcases hcases with ⟨d, j, -, -, -, -, -, hjobs⟩ | ⟨-, hjobs⟩ | ⟨d, target, -, -, -, hjobs⟩
    · rw [hjobs]
      refine guardsFade_update hinv.fencing.ids (fun _ => rfl) fun k hk hp => .inl ?_
      have hclaim : (k.counterKey, t.claim) ∈ WatcherTokens.toList t := by
        simp only [pendingSnapshotOf, Bool.and_eq_true, decide_eq_true_eq] at hp
        rw [JobRow.counterKey, hp.1.1, WatcherTokens.toList]
        exact List.mem_cons_of_mem _ List.mem_cons_self
      exact Int.lt_of_lt_of_le (hinv.fencing.ahead k hk) (hissues.range _ hclaim).1
    · rw [hjobs]
      exact guardsFade_refl hinv.fencing.ids (le_refl _)
    · rw [hjobs]
      exact guardsFade_concat hinv.fencing.ids hfresh

theorem leasesFade_acquire {l : Leases} {worker : String} {leaseSeconds : Int} {lane : JobLane}
    {paused : Bool} {locked : List Uuid} {db : Database} {c : JobRow} {token : Int}
    (hinv : LeaseInv l)
    (h : acquireJob l.ledger.now worker leaseSeconds lane paused locked l.ledger.db =
      some (db, c, token)) :
    LeasesFade l (l.after db [(c.counterKey, token)] [⟨c.id, some worker, token⟩]) := by
  have hmove := leaseMove_acquire hinv h
  refine leasesFade_of_move hinv hmove ?_
  rw [(acquireJob_rows h).2.1]
  refine guardsFade_update hinv.fencing.ids (fun _ => rfl) fun j hj hp => .inl ?_
  rw [Bool.and_eq_true, decide_eq_true_eq] at hp
  exact (hmove.stamped _ List.mem_cons_self).2 j hj hp.1

theorem leasesFade_step {l l' : Leases} {a : LeaseAction} (hinv : LeaseInv l)
    (h : leaseStep l a = some l') : LeasesFade l l' := by
  have hids := hinv.fencing.ids
  cases a with
  | acquire worker leaseSeconds lane paused locked =>
      obtain ⟨⟨db, c, token⟩, hacquire, rfl⟩ := Option.map_eq_some_iff.mp h
      exact leasesFade_acquire hinv hacquire
  | watch code owner leaseSeconds id millis =>
      simp only [leaseStep] at h
      split at h
      · cases h
      · rename_i hfresh
        split at h
        · cases h
        · rename_i hwatch
          cases h
          exact leasesFade_watch hinv (by simpa using hfresh) hwatch
  | perform s id owner token =>
      cases h
      exact leasesFade_perform hinv s id owner token
  | cancel id reason =>
      obtain ⟨⟨db, c, token⟩, hcancel, rfl⟩ := Option.map_eq_some_iff.mp h
      have hmove := leaseMove_cancel hinv hcancel
      refine leasesFade_of_move hinv hmove ?_
      rw [(cancelJob_rows hcancel).2.2]
      refine guardsFade_stopped hids (fun _ => rfl) (fun j hj hp => .inl ?_) fun _ h => by cases h
      exact (hmove.stamped _ List.mem_cons_self).2 j hj (of_decide_eq_true hp)
  | retry id =>
      obtain ⟨db, hretry, rfl⟩ := Option.map_eq_some_iff.mp h
      refine leasesFade_of_move hinv (leaseMove_retry hinv hretry) ?_
      obtain ⟨-, rfl⟩ := retryJob_eq_some hretry
      exact guardsFade_stopped hids (fun _ => rfl) (fun _ _ _ => .inr rfl) fun _ h => by cases h
  | touch problemId =>
      cases h
      exact leasesFade_of_move hinv (leaseMove_touch hinv problemId)
        (guardsFade_stopped hids (fun _ => rfl) (fun _ _ _ => .inr rfl) fun _ h => by cases h)
  | cancelPending externalId =>
      cases h
      exact leasesFade_of_move hinv (leaseMove_cancelPending hinv externalId)
        (guardsFade_stopped hids (fun _ => rfl) (fun _ _ _ => .inr rfl) fun _ h => by cases h)
  | failExpired =>
      cases h
      have hmove := leaseMove_failExpired hinv
      refine leasesFade_of_move hinv hmove ?_
      refine guardsFade_stopped hids (fun _ => rfl) (fun j hj hp => .inl ?_) fun _ h => by cases h
      obtain ⟨r, hr, hid⟩ := List.any_eq_true.mp hp
      obtain rfl := row_eq_of_id hids (List.mem_filter.mp hr).1 hj (of_decide_eq_true hid)
      exact (hmove.stamped _ (List.mem_map_of_mem hr)).2 r hj rfl
  | create id r =>
      simp only [leaseStep] at h
      split at h
      · cases h
      · rename_i hfresh
        split at h
        · cases h
        · rename_i hcreate
          cases h
          exact leasesFade_create hinv (by simpa using hfresh) hcreate
  | tick elapsed =>
      have hinv' := leaseInv_step hinv h
      cases h
      refine ⟨hinv', fun j hj => ⟨j, hj, rfl, le_refl _⟩, guardsFade_refl hids ?_⟩
      exact Int.le_add_of_nonneg_right (Int.natCast_nonneg elapsed)

end ExternalStorage.Jobs
