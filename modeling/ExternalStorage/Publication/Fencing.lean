import ExternalStorage.Publication.Moves

/-!
# Fencing at the commit

A transaction of the data plane compares its token with those on the jobs of its problem
when it begins.  Those who hand out tokens do not take its advisory lock, so the comparison
still holds at the commit where nobody has handed out a larger one in between.
-/

namespace ExternalStorage.Publication

open ExternalStorage.Model Library.Runs Library.Table

variable {Bytes : Type} {site : Site Bytes}

/-! ## Statements -/

def Fenced (jobs : List JobRow) (t : String × Int) : Prop :=
  ∀ j ∈ jobs, j.problemId = some t.1 → j.fencingToken ≤ t.2

def Operation.committing : Operation Bytes → Option (String × Int)
  | .evict ⟨q, _, .renamed _⟩ => some (q.problemId, q.fencingToken)
  | .restore ⟨q, _, _, .published⟩ => some (q.problemId, q.fencingToken)
  | .finalize a => some (a.problemId, a.fencingToken)
  | _ => none

/-- What the step commits is fenced. -/
def CommitsFenced (w : World Bytes) (a : Action Bytes) (_ : World Bytes) : Prop :=
  match a with
  | .advance i => ∀ o ∈ w.operations[i]?, ∀ t ∈ o.committing, Fenced w.db.jobs t
  | _ => True

/-- A statement puts no token above that of a transaction on a job of its problem: none that it
hands out, not that of an orphan's job, and not the 0 of a new job. -/
structure SparesTransaction (l : Jobs.Ledger) (a : Jobs.Action) (l' : Jobs.Ledger)
    (t : String × Int) : Prop where
  issued : ∀ i ∈ l'.latest, i.1 = t.1 →
    (∃ j ∈ l'.db.jobs, j.counterKey = i.1 ∧ j.fencingToken = i.2) → i.2 ≤ t.2
  rekeyed : ∀ e, (a = .upsert e ∨ ∃ key actor fingerprint deleted,
      a = .notify key actor fingerprint e deleted) →
    Jobs.claimsOrphan e l.db = true → e.externalId = t.1 →
      ∀ j ∈ l.db.jobs, j.problemId = some (orphanId e.code) → j.fencingToken ≤ t.2
  created : ∀ jobs, a = .rest jobs → 0 ≤ t.2

/-- So does every statement that commits while transactions are open. -/
def SparesTransactions (w : World Bytes) (a : Action Bytes) (w' : World Bytes) : Prop :=
  match a with
  | .statement a => ∀ o ∈ w.operations, ∀ t ∈ o.transaction,
      SparesTransaction w.ledger a w'.ledger t
  | _ => True

def rekeySpares (l : Jobs.Ledger) (t : String × Int) : Jobs.Action → Bool
  | .upsert e | .notify _ _ _ e _ => !Jobs.claimsOrphan e l.db || e.externalId ≠ t.1 ||
      l.db.jobs.all fun j => j.problemId ≠ some (orphanId e.code) || j.fencingToken ≤ t.2
  | .rest _ => 0 ≤ t.2
  | _ => true

theorem sparesTransaction_iff {l l' : Jobs.Ledger} {a : Jobs.Action} {t : String × Int} :
    (∀ i ∈ l'.latest, i.1 = t.1 →
        (∃ j ∈ l'.db.jobs, j.counterKey = i.1 ∧ j.fencingToken = i.2) → i.2 ≤ t.2) ∧
      rekeySpares l t a = true ↔ SparesTransaction l a l' t := by
  constructor
  · rintro ⟨hissued, hspares⟩
    refine ⟨hissued, ?_, ?_⟩
    · intro e ha hclaims hid j hj hproblem
      have hall : rekeySpares l t (.upsert e) = true := by
        rcases ha with rfl | ⟨key, actor, fingerprint, deleted, rfl⟩
        · exact hspares
        · exact hspares
      simp only [rekeySpares, hclaims, hid, Bool.not_true, ne_eq, not_true_eq_false, decide_false,
        Bool.false_or, List.all_eq_true, Bool.or_eq_true, decide_eq_true_eq] at hall
      exact (hall j hj).resolve_left fun h => h hproblem
    · rintro jobs rfl
      exact of_decide_eq_true hspares
  · intro h
    refine ⟨h.issued, ?_⟩
    have hcatalog : ∀ e, (a = .upsert e ∨ ∃ key actor fingerprint deleted,
        a = .notify key actor fingerprint e deleted) → rekeySpares l t (.upsert e) = true := by
      intro e ha
      have hrekeyed := h.rekeyed e ha
      simp only [rekeySpares, Bool.or_eq_true, Bool.not_eq_true', decide_eq_true_eq,
        List.all_eq_true]
      by_cases hclaims : Jobs.claimsOrphan e l.db = true
      · by_cases hid : e.externalId = t.1
        · right
          intro j hj
          by_cases hproblem : j.problemId = some (orphanId e.code)
          · exact .inr (hrekeyed hclaims hid j hj hproblem)
          · exact .inl hproblem
        · exact .inl (.inr hid)
      · exact .inl (.inl (Bool.eq_false_iff.mpr hclaims))
    cases a with
    | upsert e => exact hcatalog e (.inl rfl)
    | notify key actor fingerprint e deleted =>
        exact hcatalog e (.inr ⟨key, actor, fingerprint, deleted, rfl⟩)
    | rest jobs => exact decide_eq_true (h.created jobs rfl)
    | acquire | cancel | failExpired | retry | watch | tick => rfl

instance (l : Jobs.Ledger) (a : Jobs.Action) (l' : Jobs.Ledger) (t : String × Int) :
    Decidable (SparesTransaction l a l' t) :=
  decidable_of_iff _ sparesTransaction_iff

instance : ∀ (w : World Bytes) (a : Action Bytes) (w' : World Bytes),
    Decidable (SparesTransactions w a w')
  | w, .statement a, w' => inferInstanceAs (Decidable (∀ o ∈ w.operations, ∀ t ∈ o.transaction,
      SparesTransaction w.ledger a w'.ledger t))
  | _, .startEvict _, _ | _, .startRestore .., _ | _, .startFinalize _, _ | _, .advance _, _
  | _, .publish .., _ | _, .giveUp _, _ | _, .upload _, _ | _, .touch _, _ => isTrue trivial

instance (jobs : List JobRow) (t : String × Int) : Decidable (Fenced jobs t) :=
  inferInstanceAs (Decidable (∀ j ∈ jobs, j.problemId = some t.1 → j.fencingToken ≤ t.2))

instance : ∀ (w : World Bytes) (a : Action Bytes) (w' : World Bytes),
    Decidable (CommitsFenced w a w')
  | w, .advance i, _ =>
      inferInstanceAs (Decidable (∀ o ∈ w.operations[i]?, ∀ t ∈ o.committing, Fenced w.db.jobs t))
  | _, .startEvict _, _ | _, .startRestore .., _ | _, .startFinalize _, _ | _, .publish .., _
  | _, .giveUp _, _ | _, .upload _, _ | _, .statement _, _ | _, .touch _, _ => isTrue trivial

/-! ## The tokens on the jobs -/

def CarriesTokens (db db' : Database) (tokens : List (String × Int)) : Prop :=
  ∀ j ∈ db'.jobs, (j.counterKey, j.fencingToken) ∈ tokens ∨
    ∃ k ∈ db.jobs, k.problemId = j.problemId ∧ k.fencingToken = j.fencingToken

section Tokens

variable {now : Timestamp} {db db' : Database}

theorem carriesTokens_of_jobs_eq (h : db'.jobs = db.jobs) (tokens : List (String × Int)) :
    CarriesTokens db db' tokens := by
  intro j hj
  rw [h] at hj
  exact .inr ⟨j, hj, rfl, rfl⟩

theorem carriesTokens_updateWhere {p : JobRow → Bool} {f : JobRow → JobRow}
    {tokens : List (String × Int)} (hjobs : db'.jobs = updateWhere p f db.jobs)
    (hproblem : ∀ j, (f j).problemId = j.problemId)
    (htoken : ∀ j ∈ db.jobs, p j = true → (j.counterKey, (f j).fencingToken) ∈ tokens ∨
      (f j).fencingToken = j.fencingToken) :
    CarriesTokens db db' tokens := by
  intro j hj
  rw [hjobs] at hj
  obtain ⟨k, hk, rfl⟩ := mem_updateWhere.mp hj
  split
  · rename_i hp
    rcases htoken k hk hp with hnew | hold
    · left
      rw [JobRow.counterKey, hproblem]
      exact hnew
    · exact .inr ⟨k, hk, (hproblem k).symm, hold.symm⟩
  · exact .inr ⟨k, hk, rfl, rfl⟩

theorem carriesTokens_acquire {worker : String} {leaseSeconds : Int} {lane : JobLane}
    {paused : Bool} {locked : List Uuid} {c : JobRow} {token : Int}
    (hids : (db.jobs.map JobRow.id).Nodup)
    (h : acquireJob now worker leaseSeconds lane paused locked db = some (db', c, token)) :
    CarriesTokens db db' [(c.counterKey, token)] := by
  obtain ⟨hcandidate, hjobs, -⟩ := acquireJob_rows h
  apply carriesTokens_updateWhere hjobs
  · intro j
    rfl
  · intro j hj hp
    simp only [Bool.and_eq_true, decide_eq_true_eq] at hp
    left
    rw [Jobs.row_eq_of_id hids hj (acquireCandidate_mem hcandidate).1 hp.1]
    exact List.mem_singleton.mpr rfl

theorem carriesTokens_cancel {id : Uuid} {reason : Option String} {c : JobRow} {token : Int}
    (hids : (db.jobs.map JobRow.id).Nodup)
    (h : cancelJob now id reason db = some (db', c, token)) :
    CarriesTokens db db' [(c.counterKey, token)] := by
  obtain ⟨hmem, -, hjobs⟩ := cancelJob_rows h
  apply carriesTokens_updateWhere hjobs
  · intro j
    rfl
  · intro j hj hp
    left
    rw [Jobs.row_eq_of_id hids hj hmem (of_decide_eq_true hp)]
    exact List.mem_singleton.mpr rfl

theorem carriesTokens_failExpired (hids : (db.jobs.map JobRow.id).Nodup) :
    CarriesTokens db (failExpiredRunningJobs now db) (Jobs.revokedTokens now db) := by
  refine carriesTokens_updateWhere rfl (by intro j; rfl) ?_
  intro j hj hp
  left
  simp only [List.any_eq_true, decide_eq_true_eq] at hp
  obtain ⟨r, hr, hid⟩ := hp
  obtain rfl := Jobs.row_eq_of_id hids (List.mem_filter.mp hr).1 hj hid
  exact List.mem_map.mpr ⟨r, hr, rfl⟩

theorem carriesTokens_retry {id : Uuid} (h : retryJob id db = some db') :
    CarriesTokens db db' [] := by
  obtain ⟨-, rfl⟩ := retryJob_eq_some h
  refine carriesTokens_updateWhere rfl (by intro j; rfl) ?_
  exact fun j _ _ => .inr rfl

theorem carriesTokens_watch {code owner : String} {leaseSeconds : Int} {id : Uuid} {millis : Int}
    {tokens : Option WatcherTokens} {job : Option DirtySnapshotJob}
    (h : acquireDirtySnapshotJobByCode now code owner leaseSeconds id millis db =
      .ok (db', tokens, job)) :
    CarriesTokens db db' ((tokens.map Jobs.WatcherTokens.toList).getD []) := by
  rcases acquireDirtySnapshotJob_cases h with ⟨rfl, rfl, -⟩ | ⟨target, marked, htarget, rfl, hdb⟩
  · exact carriesTokens_of_jobs_eq rfl _
  · have hjobs := (Jobs.acquireDirtySnapshotTarget_counters htarget).1
    have hclaimed : CarriesTokens db
        (claimPendingSnapshot now owner leaseSeconds target.externalId marked).1
        [(target.externalId, target.fencingToken), (target.externalId,
          (claimPendingSnapshot now owner leaseSeconds target.externalId marked).2.1)] := by
      apply carriesTokens_updateWhere (p := pendingSnapshotOf target.externalId)
      · rw [← hjobs]
        rfl
      · intro j
        rfl
      · intro j _ hp
        left
        simp only [pendingSnapshotOf, Bool.and_eq_true, decide_eq_true_eq] at hp
        rw [JobRow.counterKey, hp.1.1]
        exact List.mem_cons_of_mem _ (List.mem_singleton.mpr rfl)
    rcases hdb with rfl | rfl
    · exact hclaimed
    · intro j hj
      rcases List.mem_append.mp hj with hold | hnew
      · exact hclaimed j hold
      · left
        rw [List.mem_singleton.mp hnew]
        exact List.mem_cons_self

theorem carriesTokens_touch (problemId : String) :
    CarriesTokens db (touchProblemAccess now problemId db) [] := by
  refine carriesTokens_updateWhere rfl (by intro j; rfl) ?_
  exact fun j _ _ => .inr rfl

end Tokens

/-! ## The step -/

structure FencedInv (w : World Bytes) : Prop where
  ids : (w.db.jobs.map JobRow.id).Nodup
  transactions : ∀ o ∈ w.operations, ∀ t ∈ o.transaction, Fenced w.db.jobs t

theorem fenced_of_ensureLatestFencing {jobs : List JobRow} {problemId : String} {token : Int}
    (h : ensureLatestFencing jobs problemId token = .ok ()) : Fenced jobs (problemId, token) := by
  obtain ⟨newest, hnewest, hle⟩ := checkToken_eq_ok_iff.mp h
  intro j hj hproblem
  have hselected : j.fencingToken ∈
      (jobs.filter fun j => j.problemId = some problemId).map JobRow.fencingToken :=
    List.mem_map.mpr ⟨j, List.mem_filter.mpr ⟨hj, by simpa using hproblem⟩, rfl⟩
  exact ((List.max?_le_iff hnewest).mp (le_refl newest) _ hselected).trans hle

theorem mem_operations_set {w : World Bytes} {i : Nat} {o o' : Operation Bytes}
    (h : o ∈ (w.setOperation i o').operations) : o = o' ∨ o ∈ w.operations := by
  rcases List.mem_or_eq_of_mem_set h with hold | hnew
  · exact .inr hold
  · exact .inl hnew

/-- What an operation does by itself leaves the jobs alone, and it begins its transaction with
the comparison. -/
structure Advances (w : World Bytes) (o : Operation Bytes) (w' : World Bytes)
    (o' : Operation Bytes) : Prop where
  operations : w'.operations = w.operations
  jobs : w'.db.jobs = w.db.jobs
  transaction : ∀ t ∈ o'.transaction, t ∈ o.transaction ∨ Fenced w.db.jobs t

section Advance

variable {w w' : World Bytes} {o o' : Operation Bytes}

theorem advances_silent (h : ∀ t ∈ o'.transaction, t ∈ o.transaction ∨ Fenced w.db.jobs t) :
    Advances w o w o' :=
  ⟨rfl, rfl, h⟩

theorem advances_write {db : Database} (hwrite : w.write db = some w')
    (hjobs : db.jobs = w.db.jobs) : Advances w o w' .done := by
  obtain ⟨-, rfl⟩ := commit_eq_some hwrite
  exact ⟨rfl, hjobs, nofun⟩

theorem Moves.advances (h : Moves site w o w' o') : Advances w o w' o' := by
  cases h with
  | quit => exact advances_silent nofun
  | evicted hwrite | restored hwrite => exact advances_write hwrite rfl
  | finalized _ hwrite => exact advances_write hwrite rfl
  | evict h =>
      cases h with
      | lock | scan | matching => exact advances_silent nofun
      | fence _ hfenced =>
          apply advances_silent
          intro t ht
          cases ht
          exact .inr (fenced_of_ensureLatestFencing hfenced)
      | check => exact advances_silent fun _ ht => .inl ht
      | rename => exact ⟨rfl, rfl, fun _ ht => .inl ht⟩
  | restore h =>
      cases h with
      | lock => exact advances_silent nofun
      | fence _ hfenced =>
          apply advances_silent
          intro t ht
          cases ht
          exact .inr (fenced_of_ensureLatestFencing hfenced)
      | ready | vacant | clean | scan | matching => exact advances_silent fun _ ht => .inl ht
      | clear hphase =>
          rcases hphase with rfl | rfl
          · exact ⟨rfl, rfl, fun _ ht => .inl ht⟩
          · exact ⟨rfl, rfl, fun _ ht => .inl ht⟩

end Advance

theorem Fenced.carried {db db' : Database} {tokens : List (String × Int)} {t : String × Int}
    (h : Fenced db.jobs t) (hcarries : CarriesTokens db db' tokens)
    (hissued : ∀ i ∈ tokens, i.1 = t.1 →
      (∃ j ∈ db'.jobs, j.counterKey = i.1 ∧ j.fencingToken = i.2) → i.2 ≤ t.2) :
    Fenced db'.jobs t := by
  intro j hj hproblem
  rcases hcarries j hj with hnew | ⟨k, hk, hsame, htoken⟩
  · refine hissued _ hnew ?_ ⟨j, hj, rfl, rfl⟩
    rw [JobRow.counterKey, hproblem]
    rfl
  · rw [← htoken]
    exact h k hk (hsame.trans hproblem)

theorem Fenced.rekeyed {e : CatalogEntry} {db db' : Database} {t : String × Int}
    (h : Fenced db.jobs t) (hrekeys : Jobs.Rekeys e db db')
    (horphan : Jobs.claimsOrphan e db = true → e.externalId = t.1 →
      ∀ j ∈ db.jobs, j.problemId = some (orphanId e.code) → j.fencingToken ≤ t.2) :
    Fenced db'.jobs t := by
  intro j hj hproblem
  rw [hrekeys.2] at hj
  split at hj
  · rename_i hclaims
    obtain ⟨k, hk, rfl⟩ := List.mem_map.mp hj
    obtain ⟨p, hp, hrenamed⟩ := Option.map_eq_some_iff.mp hproblem
    unfold renamed at hrenamed
    split at hrenamed
    · rename_i hold
      exact horphan hclaims hrenamed k hk (by rw [hp, hold])
    · exact h k hk (by rw [hp, hrenamed])
  · exact h j hj hproblem

theorem fenced_statement {l l' : Jobs.Ledger} {a : Jobs.Action} {t : String × Int}
    (hids : (l.db.jobs.map JobRow.id).Nodup) (hfenced : Fenced l.db.jobs t)
    (hspares : SparesTransaction l a l' t) (h : Jobs.step l a = some l') :
    Fenced l'.db.jobs t := by
  cases a with
  | acquire worker leaseSeconds lane paused locked =>
      obtain ⟨⟨db, c, token⟩, hacquire, rfl⟩ := Option.map_eq_some_iff.mp h
      exact hfenced.carried (carriesTokens_acquire hids hacquire) hspares.issued
  | cancel id reason =>
      obtain ⟨⟨db, c, token⟩, hcancel, rfl⟩ := Option.map_eq_some_iff.mp h
      exact hfenced.carried (carriesTokens_cancel hids hcancel) hspares.issued
  | failExpired =>
      cases h
      exact hfenced.carried (carriesTokens_failExpired hids) hspares.issued
  | retry id =>
      obtain ⟨db, hretry, rfl⟩ := Option.map_eq_some_iff.mp h
      exact hfenced.carried (carriesTokens_retry hretry) hspares.issued
  | watch code owner leaseSeconds id millis =>
      simp only [Jobs.step] at h
      split at h
      · cases h
      · split at h
        · cases h
        · rename_i db tokens job hwatch
          cases h
          exact hfenced.carried (carriesTokens_watch hwatch) hspares.issued
  | upsert e =>
      simp only [Jobs.step] at h
      split at h
      · cases h
      · rename_i db hupsert
        cases h
        exact hfenced.rekeyed (Jobs.upsertProblem_rekeys hupsert) (hspares.rekeyed e (.inl rfl))
  | notify key actor fingerprint e deleted =>
      simp only [Jobs.step] at h
      split at h
      · cases h
      · rename_i db mutated hnotify
        cases h
        exact hfenced.rekeyed (Jobs.markProblemDirty_rekeys hnotify)
          (hspares.rekeyed e (.inr ⟨key, actor, fingerprint, deleted, rfl⟩))
  | rest jobs =>
      simp only [Jobs.step] at h
      split at h
      · rename_i hkeeps
        cases h
        simp only [Jobs.keepsTokens, Bool.and_eq_true, decide_eq_true_eq, List.all_eq_true,
          Bool.or_eq_true, List.any_eq_true] at hkeeps
        intro j hj hproblem
        rcases hkeeps.2 j hj with hzero | ⟨k, hk, hsame, htoken⟩
        · rw [hzero]
          exact hspares.created jobs rfl
        · rw [← htoken]
          exact hfenced k hk (hsame.trans hproblem)
      · cases h
  | tick elapsed =>
      cases h
      exact hfenced

/-- Where the list of operations goes, and where no job changes, the comparison goes too. -/
theorem fencedInv_of_operations {w w' : World Bytes} (hinv : FencedInv w)
    (hjobs : w'.db.jobs = w.db.jobs)
    (h : ∀ o ∈ w'.operations, o ∈ w.operations ∨ ∀ t ∈ o.transaction, Fenced w.db.jobs t) :
    FencedInv w' := by
  refine ⟨hjobs ▸ hinv.ids, ?_⟩
  intro o ho t ht
  rw [hjobs]
  rcases h o ho with hold | hnew
  · exact hinv.transactions o hold t ht
  · exact hnew t ht

theorem fencedInv_start {w : World Bytes} {o : Operation Bytes} (hinv : FencedInv w)
    (h : ∀ t ∈ o.transaction, Fenced w.db.jobs t) : FencedInv (w.start o) := by
  refine fencedInv_of_operations hinv rfl ?_
  intro o' ho'
  rcases List.mem_append.mp ho' with hold | hnew
  · exact .inl hold
  · obtain rfl := List.mem_singleton.mp hnew
    exact .inr h

theorem fencedInv_set {w w' : World Bytes} {i : Nat} {o : Operation Bytes} (hinv : FencedInv w)
    (hoperations : w'.operations = w.operations) (hjobs : w'.db.jobs = w.db.jobs)
    (h : ∀ t ∈ o.transaction, Fenced w.db.jobs t) : FencedInv (w'.setOperation i o) := by
  refine fencedInv_of_operations hinv hjobs ?_
  intro o' ho'
  rcases mem_operations_set ho' with rfl | hold
  · exact .inr h
  · rw [hoperations] at hold
    exact .inl hold

theorem fencedInv_step [DecidableEq Bytes] {w w' : World Bytes} {a : Action Bytes} (hinv : FencedInv w)
    (hspares : SparesTransactions w a w') (h : step site w a = some w') : FencedInv w' := by
  cases steps_of_step h with
  | startEvict | startRestore => exact fencedInv_start hinv nofun
  | startFinalize _ hfenced =>
      apply fencedInv_start hinv
      intro t ht
      cases ht
      exact fenced_of_ensureLatestFencing hfenced
  | advance ho hmove =>
      have hadvances := hmove.advances
      apply fencedInv_set hinv hadvances.operations hadvances.jobs
      intro t ht
      rcases hadvances.transaction t ht with hold | hnew
      · exact hinv.transactions _ (List.mem_of_getElem? ho) t hold
      · exact hnew
  | @publish i q generation staging old folder ho =>
      have hkept : ∀ t ∈ (Operation.restore
          ⟨q, generation, staging, .published⟩ : Operation Bytes).transaction,
          Fenced w.db.jobs t :=
        fun t ht => hinv.transactions _ (List.mem_of_getElem? ho) t ht
      exact fencedInv_set hinv rfl rfl hkept
  | @giveUp i o ho =>
      have hjobs : (w.putBack o).db.jobs = w.db.jobs :=
        congrArg (fun l => l.db.jobs) (w.putBack_ledger o)
      exact fencedInv_set hinv (w.putBack_operations o) hjobs nofun
  | upload => exact ⟨hinv.ids, hinv.transactions⟩
  | statement hledger _ hconstraints =>
      refine ⟨hconstraints.jobIds, ?_⟩
      intro o ho t ht
      exact fenced_statement hinv.ids (hinv.transactions o ho t ht) (hspares o ho t ht) hledger
  | @touch problemId _ _ hconstraints =>
      refine ⟨hconstraints.jobIds, ?_⟩
      intro o ho t ht
      exact (hinv.transactions o ho t ht).carried (carriesTokens_touch problemId) (by simp)

/-! ## The run -/

theorem committing_transaction {o : Operation Bytes} {t : String × Int}
    (h : t ∈ o.committing) : t ∈ o.transaction := by
  unfold Operation.committing at h
  split at h
  · exact h
  · exact h
  · exact h
  · cases h

theorem commitsFenced_of_inv {w w' : World Bytes} {a : Action Bytes} (hinv : FencedInv w) :
    CommitsFenced w a w' := by
  cases a with
  | advance i =>
      intro o ho t ht
      exact hinv.transactions o (List.mem_of_getElem? ho) t (committing_transaction ht)
  | startEvict | startRestore | startFinalize | publish | giveUp | upload | statement | touch =>
      trivial

/-- Along every run in which no statement puts a larger token on a job of a problem with an
open transaction, what the data plane commits is fenced. -/
theorem commits_fenced [DecidableEq Bytes] {w : World Bytes} {as : List (Action Bytes)}
    (hids : (w.db.jobs.map JobRow.id).Nodup) (hidle : w.operations = [])
    (hspares : EveryStep (step site) SparesTransactions w as) :
    EveryStep (step site) CommitsFenced w as := by
  have hinit : FencedInv w := by
    refine ⟨hids, ?_⟩
    rw [hidle]
    intro o ho
    cases ho
  exact everyStep_of_invariant (I := FencedInv) (C := SparesTransactions) (P := CommitsFenced)
    (fun _ _ _ hinv hspares h => fencedInv_step hinv hspares h)
    (fun _ _ _ hinv _ _ => commitsFenced_of_inv hinv) hinit hspares

/-! Job 1 takes the first snapshot of problem 7, and its run has uploaded everything. -/

def sampleSite : Site String where
  contents := ⟨id, id, String.length⟩
  fromSlice := fun _ => .error "expected value"
  root := "/problems"
  problemId := "7"
  code := "sums"

def verifyingRow : SnapshotRow where
  id := 1
  problemId := "7"
  generation := 1
  state := .verifying
  fileCount := 0
  totalBytes := 0
  manifestKey := some (manifestKey "7" 1)
  errorCode := none
  errorMessage := none
  createdAt := 0
  completedAt := none
  supersededAt := none

def unbackedUsage : ProblemUsageRow where
  problemId := "7"
  logicalBytes := 0
  allocatedBytes := 0
  archiveBytes := 0
  auxiliaryBytes := 0
  fileCount := 0
  localStatus := .present
  r2Status := .uploading
  snapshotGeneration := none
  orphanBytes := 0
  referencedBytes := 0
  observedAt := 0
  stale := false
  lastAccessedAt := none

def verifyingWorld : World String where
  ledger := {
    now := 10
    db := {
      problems := [Jobs.sampleProblem "7" "sums" .present]
      problemUsage := [unbackedUsage]
      snapshots := [verifyingRow]
      jobs := [Jobs.sampleJob 1 "7" .running 1]
      jobFencingCounters := [⟨"7", 2⟩] } }
  folder := none

def finalizeFirst : FinalizeArgs := ⟨1, "7", 1, 1, none, [], 0, manifestKey "7" 1⟩

/-- The leases are swept while the transaction is open. -/
theorem commits_fenced_swept :
    (exec (step sampleSite) verifyingWorld
        [.startFinalize finalizeFirst, .statement .failExpired, .advance 0]).isSome ∧
      EveryStep (step sampleSite) CommitsFenced verifyingWorld
        [.startFinalize finalizeFirst, .statement .failExpired, .advance 0] :=
  ⟨by decide +kernel, commits_fenced (by decide) rfl (by decide +kernel)⟩

/-- The job is cancelled while the transaction is open, and its snapshot becomes READY. -/
theorem cancelled_run_commits :
    (exec (step sampleSite) verifyingWorld
        [.startFinalize finalizeFirst, .statement (.cancel 1 none), .advance 0]).any
      (fun w => w.db.jobs.any (fun j => j.state = .cancelled && j.fencingToken = 2) &&
        w.db.snapshots.any fun s => s.state = .ready) ∧
      ¬ EveryStep (step sampleSite) CommitsFenced verifyingWorld
        [.startFinalize finalizeFirst, .statement (.cancel 1 none), .advance 0] :=
  ⟨by decide +kernel, by decide +kernel⟩

end ExternalStorage.Publication
