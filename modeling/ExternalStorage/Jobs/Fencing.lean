import ExternalStorage.Library.Runs
import ExternalStorage.Catalog.Claims
import ExternalStorage.Model.Jobs
import Mathlib.Data.Int.Order.Basic
import Mathlib.Data.List.Dedup

/-!
# Fencing tokens are fresh

Every statement that hands out tokens takes them from the range its counter passes
over, so tokens are fresh while each counter stays ahead of the jobs of its problem.
A rekey moves jobs to another counter: it is the one step that has to be watched.
-/

namespace ExternalStorage.Jobs

open ExternalStorage.Model Library.Runs Library.Table

/-! ## The machine -/

structure Ledger where
  now : Timestamp
  db : Database
  /-- The tokens handed out so far, each under the problem it was handed out for, and
  those of the last step: history the program does not keep. -/
  issued : List (String × Int) := []
  latest : List (String × Int) := []

inductive Action where
  | acquire (worker : String) (leaseSeconds : Int) (lane : JobLane) (paused : Bool)
      (locked : List Uuid)
  | cancel (id : Uuid) (reason : Option String)
  | failExpired
  | retry (id : Uuid)
  | watch (code owner : String) (leaseSeconds : Int) (id : Uuid) (millis : Int)
  | upsert (e : CatalogEntry)
  | notify (idempotencyKey actor fingerprint : String) (e : CatalogEntry) (deleted : Bool)
  /-- The rest of the program creates, finishes and purges jobs. -/
  | rest (jobs : List JobRow)
  | tick (elapsed : Nat)

/-- The statement hands out `tokens`. -/
def Ledger.after (l : Ledger) (db : Database) (tokens : List (String × Int)) : Ledger :=
  { l with db := db, issued := l.issued ++ tokens, latest := tokens }

def claimsOrphan (e : CatalogEntry) (db : Database) : Bool :=
  match db.problems.find? fun p => p.code = e.code with
  | none => false
  | some owner => owner.externalId ≠ e.externalId && owner.catalogState = .orphan &&
      owner.externalId = orphanId e.code && db.problems.all fun p => p.externalId ≠ e.externalId

/-- A catalog write hands out no token; what an orphan got is its new id's from then on. -/
def Ledger.cataloged (l : Ledger) (e : CatalogEntry) (db : Database) : Ledger :=
  { l with
    db := db, latest := []
    issued := if claimsOrphan e l.db then
        l.issued.map fun i => (renamed (orphanId e.code) e.externalId i.1, i.2)
      else l.issued }

/-- Statements that hand out no token keep the token of each job, and create jobs with
token 0. -/
def keepsTokens (before after : List JobRow) : Bool :=
  (after.map JobRow.id).Nodup && after.all fun j =>
    j.fencingToken = 0 || before.any fun k =>
      k.problemId = j.problemId && k.fencingToken = j.fencingToken

def revokedTokens (now : Timestamp) (db : Database) : List (String × Int) :=
  let revoked := expiredRunning now db.jobs
  revoked.map fun j =>
    (j.counterKey, revokedToken revoked (bumpRevoked revoked db.jobFencingCounters) j)

def WatcherTokens.toList (t : WatcherTokens) : List (String × Int) :=
  [(t.problemId, t.first), (t.problemId, t.claim)]

def step (l : Ledger) : Action → Option Ledger
  | .acquire worker leaseSeconds lane paused locked =>
      (acquireJob l.now worker leaseSeconds lane paused locked l.db).map fun r =>
        l.after r.1 [(r.2.1.counterKey, r.2.2)]
  | .cancel id reason =>
      (cancelJob l.now id reason l.db).map fun r => l.after r.1 [(r.2.1.counterKey, r.2.2)]
  | .failExpired => some (l.after (failExpiredRunningJobs l.now l.db) (revokedTokens l.now l.db))
  | .retry id => (retryJob id l.db).map fun db => l.after db []
  | .watch code owner leaseSeconds id millis =>
      if l.db.jobs.any fun j => j.id = id then
        none
      else
        match acquireDirtySnapshotJobByCode l.now code owner leaseSeconds id millis l.db with
        | .error _ => none
        | .ok (db, tokens, _) => some (l.after db ((tokens.map WatcherTokens.toList).getD []))
  | .upsert e =>
      match upsertProblem l.now e l.db with
      | .error _ => none
      | .ok db => some (l.cataloged e db)
  | .notify key actor fingerprint e deleted =>
      match markProblemDirtyIdempotent l.now key actor fingerprint e deleted l.db with
      | .error _ => none
      | .ok (db, _) => some (l.cataloged e db)
  | .rest jobs =>
      if keepsTokens l.db.jobs jobs then some (l.after { l.db with jobs := jobs } []) else none
  | .tick elapsed => some { l with now := l.now + elapsed, latest := [] }

/-! ## Statements -/

/-- Each token of the step exceeds the tokens on the jobs of its problem, and no token
has been handed out twice for a problem. -/
structure Fresh (l : Ledger) (_ : Action) (l' : Ledger) : Prop where
  above : ∀ i ∈ l'.latest, ∀ j ∈ l.db.jobs, j.counterKey = i.1 → j.fencingToken < i.2
  nodup : l'.issued.Nodup

/-- The tokens of an orphan, on its jobs or handed out, are below the counter of the id
that takes it over, and none of them was handed out for that id. -/
structure TokensBehind (l : Ledger) (orphan externalId : String) : Prop where
  jobs : ∀ j ∈ l.db.jobs, j.problemId = some orphan →
    j.fencingToken < nextToken l.db.jobFencingCounters externalId
  issued : ∀ i ∈ l.issued, i.1 = orphan →
    i.2 < nextToken l.db.jobFencingCounters externalId ∧ (externalId, i.2) ∉ l.issued

instance (l : Ledger) (a : Action) (l' : Ledger) : Decidable (Fresh l a l') :=
  decidable_of_iff ((∀ i ∈ l'.latest, ∀ j ∈ l.db.jobs, j.counterKey = i.1 →
    j.fencingToken < i.2) ∧ l'.issued.Nodup) ⟨fun h => ⟨h.1, h.2⟩, fun h => ⟨h.above, h.nodup⟩⟩

instance (l : Ledger) (orphan externalId : String) :
    Decidable (TokensBehind l orphan externalId) :=
  decidable_of_iff ((∀ j ∈ l.db.jobs, j.problemId = some orphan →
      j.fencingToken < nextToken l.db.jobFencingCounters externalId) ∧
    ∀ i ∈ l.issued, i.1 = orphan → i.2 < nextToken l.db.jobFencingCounters externalId ∧
      ∀ k ∈ l.issued, k ≠ (externalId, i.2))
    ⟨fun h => ⟨h.1, fun i hi hid => ⟨(h.2 i hi hid).1, fun hk => (h.2 i hi hid).2 _ hk rfl⟩⟩,
      fun h => ⟨h.jobs, fun i hi hid => ⟨(h.issued i hi hid).1, by
        rintro k hk rfl
        exact (h.issued i hi hid).2 hk⟩⟩⟩

/-- A rekey takes over an orphan whose tokens are behind. -/
def RekeyBehind (l : Ledger) (a : Action) (_ : Ledger) : Prop :=
  match a with
  | .upsert e | .notify _ _ _ e _ =>
      claimsOrphan e l.db = true → TokensBehind l (orphanId e.code) e.externalId
  | _ => True

instance : ∀ (l : Ledger) (a : Action) (l' : Ledger), Decidable (RekeyBehind l a l')
  | l, .upsert e, _ | l, .notify _ _ _ e _, _ =>
      inferInstanceAs (Decidable (claimsOrphan e l.db = true →
        TokensBehind l (orphanId e.code) e.externalId))
  | _, .acquire .., _ | _, .cancel .., _ | _, .failExpired, _ | _, .retry _, _
  | _, .watch .., _ | _, .rest _, _ | _, .tick _, _ => isTrue trivial

/-- Each counter is ahead of the jobs of its problem, as migration 003 installs them. -/
structure Seeded (l : Ledger) : Prop where
  ids : (l.db.jobs.map JobRow.id).Nodup
  positive : ∀ key, 1 ≤ nextToken l.db.jobFencingCounters key
  ahead : ∀ j ∈ l.db.jobs, j.fencingToken < nextToken l.db.jobFencingCounters j.counterKey
  issued : l.issued = []

/-! ## The invariant -/

structure FencingInv (l : Ledger) : Prop where
  ids : (l.db.jobs.map JobRow.id).Nodup
  positive : ∀ key, 1 ≤ nextToken l.db.jobFencingCounters key
  ahead : ∀ j ∈ l.db.jobs, j.fencingToken < nextToken l.db.jobFencingCounters j.counterKey
  behind : ∀ i ∈ l.issued, i.2 < nextToken l.db.jobFencingCounters i.1
  nodup : l.issued.Nodup

/-- A statement hands out tokens that its counter passes over, each once, and puts no
other token on a job. -/
structure Issues (db db' : Database) (tokens : List (String × Int)) : Prop where
  mono : ∀ key, nextToken db.jobFencingCounters key ≤ nextToken db'.jobFencingCounters key
  range : ∀ i ∈ tokens, nextToken db.jobFencingCounters i.1 ≤ i.2 ∧
    i.2 < nextToken db'.jobFencingCounters i.1
  jobs : ∀ j ∈ db'.jobs, (j.counterKey, j.fencingToken) ∈ tokens ∨
    ∃ k ∈ db.jobs, k.counterKey = j.counterKey ∧ k.fencingToken = j.fencingToken
  nodup : tokens.Nodup

theorem Issues.fencingInv {l : Ledger} {db : Database} {tokens : List (String × Int)}
    (h : Issues l.db db tokens) (hinv : FencingInv l) (hids : (db.jobs.map JobRow.id).Nodup) :
    FencingInv (l.after db tokens) := by
  refine ⟨hids, ?_, ?_, ?_, ?_⟩
  · exact fun key => Int.le_trans (hinv.positive key) (h.mono key)
  · intro j hj
    rcases h.jobs j hj with htoken | ⟨k, hk, hkey, htoken⟩
    · exact (h.range _ htoken).2
    · have hk' := hinv.ahead k hk
      rw [hkey, htoken] at hk'
      exact Int.lt_of_lt_of_le hk' (h.mono _)
  · intro i hi
    rcases List.mem_append.mp hi with hold | hnew
    · exact Int.lt_of_lt_of_le (hinv.behind i hold) (h.mono _)
    · exact (h.range i hnew).2
  · refine List.nodup_append.mpr ⟨hinv.nodup, h.nodup, ?_⟩
    rintro i hold i' hnew rfl
    have hlt := hinv.behind i hold
    have hle := (h.range i hnew).1
    omega

theorem Issues.fresh {l : Ledger} {a : Action} {db : Database} {tokens : List (String × Int)}
    (h : Issues l.db db tokens) (hinv : FencingInv l) (hids : (db.jobs.map JobRow.id).Nodup) :
    Fresh l a (l.after db tokens) := by
  refine ⟨?_, (h.fencingInv hinv hids).nodup⟩
  intro i hi j hj hkey
  have hlt := hinv.ahead j hj
  rw [hkey] at hlt
  exact Int.lt_of_lt_of_le hlt (h.range i hi).1

/-- A statement that takes one token and puts it on rows of that problem. -/
theorem issues_one {db db' : Database} {key : String} {token : Int}
    (hcounters : db'.jobFencingCounters = bumpCounter key 2 (· + 1) db.jobFencingCounters)
    (htoken : token = nextToken db'.jobFencingCounters key - 1)
    (hjobs : ∀ j ∈ db'.jobs, (j.counterKey = key ∧ j.fencingToken = token) ∨
      ∃ k ∈ db.jobs, k.counterKey = j.counterKey ∧ k.fencingToken = j.fencingToken) :
    Issues db db' [(key, token)] := by
  have hnext : ∀ k, nextToken db'.jobFencingCounters k =
      if k = key then nextToken db.jobFencingCounters k + 1
      else nextToken db.jobFencingCounters k := by
    intro k
    rw [hcounters]
    exact nextToken_bumpCounter key (· + 1) rfl _ k
  have hself := hnext key
  rw [if_pos rfl] at hself
  refine ⟨?_, ?_, ?_, List.nodup_singleton _⟩
  · intro k
    rw [hnext]
    split <;> omega
  · intro i hi
    rw [List.mem_singleton.mp hi]
    dsimp only
    omega
  · intro j hj
    refine (hjobs j hj).imp_left ?_
    rintro ⟨hkey, htok⟩
    rw [hkey, htok]
    exact List.mem_singleton.mpr rfl

theorem issues_none {db db' : Database} (hcounters : db'.jobFencingCounters = db.jobFencingCounters)
    (hjobs : ∀ j ∈ db'.jobs,
      ∃ k ∈ db.jobs, k.counterKey = j.counterKey ∧ k.fencingToken = j.fencingToken) :
    Issues db db' [] := by
  refine ⟨?_, by simp, fun j hj => .inr (hjobs j hj), List.nodup_nil⟩
  rw [hcounters]
  exact fun _ => le_refl _

theorem jobs_of_update {p : JobRow → Bool} {f : JobRow → JobRow} {jobs : List JobRow}
    {key : String} {token : Int} (hp : ∀ j ∈ jobs, p j = true → j.counterKey = key)
    (hf : ∀ j, (f j).counterKey = j.counterKey ∧ (f j).fencingToken = token) :
    ∀ j ∈ updateWhere p f jobs, (j.counterKey = key ∧ j.fencingToken = token) ∨
      ∃ k ∈ jobs, k.counterKey = j.counterKey ∧ k.fencingToken = j.fencingToken := by
  intro j hj
  obtain ⟨k, hk, rfl⟩ := mem_updateWhere.mp hj
  split
  · rename_i hpk
    exact .inl ⟨(hf k).1.trans (hp k hk hpk), (hf k).2⟩
  · exact .inr ⟨k, hk, rfl, rfl⟩

theorem ids_update {p : JobRow → Bool} {f : JobRow → JobRow} {jobs : List JobRow}
    (hids : (jobs.map JobRow.id).Nodup) (hf : ∀ j, (f j).id = j.id) :
    ((updateWhere p f jobs).map JobRow.id).Nodup := by
  rw [map_updateWhere hf]
  exact hids

theorem row_eq_of_id {jobs : List JobRow} (hids : (jobs.map JobRow.id).Nodup) {j k : JobRow}
    (hj : j ∈ jobs) (hk : k ∈ jobs) (h : j.id = k.id) : j = k :=
  List.inj_on_of_nodup_map hids hj hk h

/-! ## The statements -/

theorem acquireJob_issues {now : Timestamp} {worker : String} {leaseSeconds : Int}
    {lane : JobLane} {paused : Bool} {locked : List Uuid} {db db' : Database} {c : JobRow}
    {token : Int} (hids : (db.jobs.map JobRow.id).Nodup)
    (h : acquireJob now worker leaseSeconds lane paused locked db = some (db', c, token)) :
    Issues db db' [(c.counterKey, token)] ∧ (db'.jobs.map JobRow.id).Nodup := by
  unfold acquireJob at h
  obtain ⟨c', hc, h⟩ := Option.bind_eq_some_iff.mp h
  have hmem : c' ∈ db.jobs := (List.mem_filter.mp (mem_of_firstBy hc)).1
  dsimp only at h
  split at h
  · cases h
    refine ⟨issues_one rfl rfl (jobs_of_update ?_ (by intro j; exact ⟨rfl, rfl⟩)),
      ids_update hids (by intro j; rfl)⟩
    intro j hj hp
    simp only [Bool.and_eq_true, decide_eq_true_eq] at hp
    rw [row_eq_of_id hids hj hmem hp.1]
  · cases h

theorem cancelJob_issues {now : Timestamp} {id : Uuid} {reason : Option String}
    {db db' : Database} {j : JobRow} {token : Int} (hids : (db.jobs.map JobRow.id).Nodup)
    (h : cancelJob now id reason db = some (db', j, token)) :
    Issues db db' [(j.counterKey, token)] ∧ (db'.jobs.map JobRow.id).Nodup := by
  unfold cancelJob at h
  obtain ⟨l, hl, h⟩ := Option.bind_eq_some_iff.mp h
  cases h
  refine ⟨issues_one rfl rfl (jobs_of_update ?_ (by intro j; exact ⟨rfl, rfl⟩)),
    ids_update hids (by intro j; rfl)⟩
  intro k hk hp
  rw [row_eq_of_id hids hk (List.mem_of_find?_eq_some hl) (of_decide_eq_true hp)]

theorem retryJob_issues {id : Uuid} {db db' : Database} (hids : (db.jobs.map JobRow.id).Nodup)
    (h : retryJob id db = some db') : Issues db db' [] ∧ (db'.jobs.map JobRow.id).Nodup := by
  unfold retryJob at h
  dsimp only at h
  split at h
  · cases h
    refine ⟨issues_none rfl ?_, ids_update hids (by intro j; rfl)⟩
    intro j hj
    obtain ⟨k, hk, rfl⟩ := mem_updateWhere.mp hj
    refine ⟨k, hk, ?_⟩
    split <;> exact ⟨rfl, rfl⟩
  · cases h

/-! ### `failExpiredRunningJobs` -/

theorem nextToken_bumpRevoked (revoked : List JobRow) (counters : List FencingCounterRow)
    (key : String) :
    nextToken (bumpRevoked revoked counters) key =
      nextToken counters key + revokedCount revoked key := by
  have hfold : ∀ (keys : List String) (counters : List FencingCounterRow), keys.Nodup →
      nextToken (keys.foldl (fun counters key =>
        bumpCounter key (revokedCount revoked key + 1)
          (fun next => next + (revokedCount revoked key + 1) - 1) counters) counters) key =
        nextToken counters key + if key ∈ keys then (revokedCount revoked key : Int) else 0 := by
    intro keys
    induction keys with
    | nil =>
        intro counters _
        simp
    | cons k keys ih =>
        intro counters hnodup
        obtain ⟨hk, hnodup⟩ := List.nodup_cons.mp hnodup
        rw [List.foldl_cons, ih _ hnodup, nextToken_bumpCounter k _ (by omega)]
        by_cases hkey : key = k
        · subst hkey
          simp only [if_true, hk, if_false, List.mem_cons, true_or]
          omega
        · simp only [hkey, if_false, List.mem_cons, false_or]
  rw [bumpRevoked, hfold _ _ (List.nodup_dedup _)]
  split
  · rfl
  · rename_i hnotMem
    have hzero : revokedCount revoked key = 0 := by
      rw [revokedCount, List.countP_eq_zero]
      intro j hj hkey
      refine hnotMem (List.mem_dedup.mpr (List.mem_map.mpr ⟨j, hj, ?_⟩))
      exact of_decide_eq_true hkey
    rw [hzero]
    rfl

theorem revokedRank_range {revoked : List JobRow} {j : JobRow} (hj : j ∈ revoked) :
    1 ≤ revokedRank revoked j ∧ revokedRank revoked j ≤ revokedCount revoked j.counterKey := by
  constructor
  · exact List.countP_pos_iff.mpr ⟨j, hj, by simp⟩
  · apply List.countP_mono_left
    intro k _ hk
    simp only [Bool.and_eq_true, decide_eq_true_eq] at hk
    exact decide_eq_true hk.1

theorem revokedRank_lt {revoked : List JobRow} {j k : JobRow} (hk : k ∈ revoked)
    (hkey : j.counterKey = k.counterKey) (hid : j.id < k.id) :
    revokedRank revoked j < revokedRank revoked k := by
  induction revoked with
  | nil => cases hk
  | cons r revoked ih =>
      have hmono : revokedRank revoked j ≤ revokedRank revoked k := by
        apply List.countP_mono_left
        intro l _ hl
        simp only [Bool.and_eq_true, decide_eq_true_eq] at hl ⊢
        exact ⟨hl.1.trans hkey, Nat.le_trans hl.2 (Nat.le_of_lt hid)⟩
      simp only [revokedRank, List.countP_cons] at hmono ih ⊢
      rcases List.mem_cons.mp hk with rfl | hk
      · have hself : (decide (k.counterKey = k.counterKey) && decide (k.id ≤ k.id)) = true := by
          simp
        have hnot : (decide (k.counterKey = j.counterKey) && decide (k.id ≤ j.id)) = false := by
          simp [hid]
        rw [hself, hnot]
        simp only [if_true, Bool.false_eq_true, if_false]
        omega
      · have hlt := ih hk
        by_cases hr : r.counterKey = j.counterKey ∧ r.id ≤ j.id
        · have hboth : (decide (r.counterKey = k.counterKey) && decide (r.id ≤ k.id)) = true := by
            simp only [Bool.and_eq_true, decide_eq_true_eq]
            exact ⟨hr.1.trans hkey, Nat.le_trans hr.2 (Nat.le_of_lt hid)⟩
          rw [hboth]
          simp only [if_true]
          split <;> omega
        · have hnot : (decide (r.counterKey = j.counterKey) && decide (r.id ≤ j.id)) = false := by
            rw [Bool.eq_false_iff]
            simpa using hr
          rw [hnot]
          simp only [Bool.false_eq_true, if_false]
          omega

theorem failExpired_issues {now : Timestamp} {db : Database}
    (hids : (db.jobs.map JobRow.id).Nodup) :
    Issues db (failExpiredRunningJobs now db) (revokedTokens now db) ∧
      ((failExpiredRunningJobs now db).jobs.map JobRow.id).Nodup := by
  have hsub : ∀ j ∈ expiredRunning now db.jobs, j ∈ db.jobs :=
    fun j hj => (List.mem_filter.mp hj).1
  have hnodup : (expiredRunning now db.jobs).Nodup :=
    (List.Nodup.of_map _ hids).sublist List.filter_sublist
  have hnext := nextToken_bumpRevoked (expiredRunning now db.jobs) db.jobFencingCounters
  -- The token of a row is its rank above where the counter stood.
  have htoken : ∀ j, revokedToken (expiredRunning now db.jobs)
      (bumpRevoked (expiredRunning now db.jobs) db.jobFencingCounters) j =
        nextToken db.jobFencingCounters j.counterKey +
          revokedRank (expiredRunning now db.jobs) j - 1 := by
    intro j
    rw [revokedToken, hnext]
    omega
  refine ⟨⟨?_, ?_, ?_, ?_⟩, ids_update hids (by intro j; rfl)⟩
  · intro key
    change _ ≤ nextToken (bumpRevoked _ _) key
    rw [hnext]
    omega
  · intro i hi
    obtain ⟨j, hj, rfl⟩ := List.mem_map.mp hi
    change _ ∧ _ < nextToken (bumpRevoked _ _) _
    rw [hnext]
    dsimp only
    rw [htoken]
    have hrank := revokedRank_range hj
    omega
  · intro j hj
    obtain ⟨k, hk, rfl⟩ := mem_updateWhere.mp hj
    split
    · rename_i hany
      left
      simp only [List.any_eq_true, decide_eq_true_eq] at hany
      obtain ⟨r, hr, hid⟩ := hany
      obtain rfl := row_eq_of_id hids (hsub r hr) hk hid
      exact List.mem_map.mpr ⟨r, hr, rfl⟩
    · exact .inr ⟨k, hk, rfl, rfl⟩
  · refine List.Nodup.map_on ?_ hnodup
    intro j hj k hk heq
    obtain ⟨hkey, htok⟩ := Prod.mk.inj heq
    rw [htoken, htoken, hkey] at htok
    by_contra hne
    rcases Nat.lt_or_gt_of_ne fun hid => hne (row_eq_of_id hids (hsub j hj) (hsub k hk) hid) with
      hlt | hlt
    · have := revokedRank_lt hk hkey hlt
      omega
    · have := revokedRank_lt hj hkey.symm hlt
      omega

/-! ### The watcher -/

theorem acquireDirtySnapshotTarget_counters {now : Timestamp} {code : String} {db db' : Database}
    {target : DirtySnapshotTarget} (h : acquireDirtySnapshotTarget now code db = some (target, db')) :
    db'.jobs = db.jobs ∧
      target.fencingToken = nextToken db'.jobFencingCounters target.externalId - 1 ∧
      ∀ key, nextToken db'.jobFencingCounters key =
        if key = target.externalId then
          max (nextToken db.jobFencingCounters key)
            ((latestFencingToken db.jobs target.externalId).getD 0 + 1) + 1
        else nextToken db.jobFencingCounters key := by
  unfold acquireDirtySnapshotTarget at h
  obtain ⟨p, -, h⟩ := Option.bind_eq_some_iff.mp h
  cases h
  refine ⟨rfl, rfl, ?_⟩
  intro key
  exact nextToken_bumpCounter p.externalId
    (fun next => max next ((latestFencingToken db.jobs p.externalId).getD 0 + 1) + 1)
    (by omega) _ key

theorem watcher_issues {now : Timestamp} {code owner : String} {leaseSeconds : Int} {id : Uuid}
    {millis : Int} {db db' : Database} {tokens : Option WatcherTokens}
    {job : Option DirtySnapshotJob} (hids : (db.jobs.map JobRow.id).Nodup)
    (hfresh : ∀ j ∈ db.jobs, j.id ≠ id)
    (h : acquireDirtySnapshotJobByCode now code owner leaseSeconds id millis db =
      .ok (db', tokens, job)) :
    Issues db db' ((tokens.map WatcherTokens.toList).getD []) ∧
      (db'.jobs.map JobRow.id).Nodup := by
  rcases acquireDirtySnapshotJob_cases h with ⟨rfl, rfl, -⟩ | ⟨target, marked, htarget, rfl, hdb⟩
  · exact ⟨issues_none rfl fun j hj => ⟨j, hj, rfl, rfl⟩, hids⟩
  · obtain ⟨hjobs, hfirst, hmarked⟩ := acquireDirtySnapshotTarget_counters htarget
    have hself := hmarked target.externalId
    rw [if_pos rfl] at hself
    have hclaimed : ∀ key, nextToken (claimPendingSnapshot now owner leaseSeconds
        target.externalId marked).1.jobFencingCounters key =
          if key = target.externalId then nextToken marked.jobFencingCounters key + 1
          else nextToken marked.jobFencingCounters key := by
      intro key
      change nextToken (bumpCounter target.externalId 2 (· + 1) marked.jobFencingCounters) key = _
      exact nextToken_bumpCounter target.externalId (· + 1) rfl _ key
    have htoken : (claimPendingSnapshot now owner leaseSeconds target.externalId marked).2.1 =
        nextToken marked.jobFencingCounters target.externalId := by
      change nextToken (claimPendingSnapshot now owner leaseSeconds
        target.externalId marked).1.jobFencingCounters target.externalId - 1 = _
      rw [hclaimed, if_pos rfl]
      omega
    have hcounters : db'.jobFencingCounters = (claimPendingSnapshot now owner leaseSeconds
        target.externalId marked).1.jobFencingCounters := by
      rcases hdb with rfl | rfl <;> rfl
    have hrows : ∀ j ∈ (claimPendingSnapshot now owner leaseSeconds
        target.externalId marked).1.jobs,
        (j.counterKey = target.externalId ∧ j.fencingToken = (claimPendingSnapshot now owner
          leaseSeconds target.externalId marked).2.1) ∨
        ∃ k ∈ db.jobs, k.counterKey = j.counterKey ∧ k.fencingToken = j.fencingToken := by
      rw [← hjobs]
      refine jobs_of_update ?_ (by intro j; exact ⟨rfl, rfl⟩)
      intro j _ hp
      simp only [pendingSnapshotOf, Bool.and_eq_true, decide_eq_true_eq] at hp
      rw [JobRow.counterKey, hp.1.1]
      rfl
    have hclaimedIds : ((claimPendingSnapshot now owner leaseSeconds
        target.externalId marked).1.jobs.map JobRow.id) = db.jobs.map JobRow.id := by
      rw [← hjobs]
      exact map_updateWhere (by intro j; rfl) _
    simp only [Option.map_some, Option.getD_some, WatcherTokens.toList, htoken]
    rw [htoken] at hrows
    refine ⟨⟨?_, ?_, ?_, ?_⟩, ?_⟩
    · intro key
      rw [hcounters, hclaimed, hmarked]
      split <;> omega
    · intro i hi
      simp only [List.mem_cons, List.not_mem_nil, or_false] at hi
      rcases hi with rfl | rfl
      · rw [hcounters, hclaimed, if_pos rfl]
        dsimp only
        omega
      · rw [hcounters, hclaimed, if_pos rfl]
        dsimp only
        omega
    · have hnew : ∀ j ∈ (claimPendingSnapshot now owner leaseSeconds
          target.externalId marked).1.jobs, (j.counterKey, j.fencingToken) ∈
            [(target.externalId, target.fencingToken),
              (target.externalId, nextToken marked.jobFencingCounters target.externalId)] ∨
          ∃ k ∈ db.jobs, k.counterKey = j.counterKey ∧ k.fencingToken = j.fencingToken := by
        intro j hj
        refine (hrows j hj).imp_left ?_
        rintro ⟨hkey, htok⟩
        rw [hkey, htok]
        exact List.mem_cons_of_mem _ List.mem_cons_self
      rcases hdb with rfl | rfl
      · exact hnew
      · intro j hj
        rcases List.mem_append.mp hj with hold | hrow
        · exact hnew j hold
        · rw [List.mem_singleton.mp hrow]
          exact .inl List.mem_cons_self
    · simp only [List.nodup_cons, List.mem_singleton, Prod.mk.injEq, true_and,
        List.not_mem_nil, not_false_iff, List.nodup_nil, and_true]
      omega
    · rcases hdb with rfl | rfl
      · rw [hclaimedIds]
        exact hids
      · rw [List.map_append, hclaimedIds]
        refine List.nodup_append.mpr ⟨hids, List.nodup_singleton _, ?_⟩
        rintro i hi i' hi' rfl
        obtain ⟨j, hj, rfl⟩ := List.mem_map.mp hi
        exact hfresh j hj (List.mem_singleton.mp hi')

/-! ### Catalog writes -/

def Rekeys (e : CatalogEntry) (db db' : Database) : Prop :=
  db'.jobFencingCounters = db.jobFencingCounters ∧
    db'.jobs = if claimsOrphan e db then
        (rekeyProblem (orphanId e.code) e.externalId db).jobs
      else db.jobs

theorem rekeys_of_unclaimed {e : CatalogEntry} {db db' : Database}
    (hclaims : claimsOrphan e db = false) (hcounters : db'.jobFencingCounters = db.jobFencingCounters)
    (hjobs : db'.jobs = db.jobs) : Rekeys e db db' :=
  ⟨hcounters, by rw [hclaims]; exact hjobs⟩

theorem claimOrphan_rekeys {e : CatalogEntry} {db db' : Database} {owner : ProblemRow}
    (howner : (db.problems.find? fun p => p.code = e.code) = some owner)
    (hother : owner.externalId ≠ e.externalId) (hstate : owner.catalogState = .orphan)
    (hid : owner.externalId = orphanId e.code)
    (h : claimOrphan e.code e.externalId db = .ok db') : Rekeys e db db' := by
  have hcode : owner.code = e.code := by simpa using List.find?_some howner
  have hany : (db.problems.any fun p => p.externalId = orphanId e.code && p.code = e.code &&
      p.catalogState = .orphan) = true := by
    refine List.any_eq_true.mpr ⟨owner, List.mem_of_find?_eq_some howner, ?_⟩
    simp only [hid, hcode, hstate, decide_true, Bool.and_self]
  unfold claimOrphan at h
  rw [if_pos hany] at h
  split at h
  · cases h
  · rename_i hfree
    cases h
    have hclaims : claimsOrphan e db = true := by
      simp only [claimsOrphan, howner, Bool.and_eq_true, decide_eq_true_eq]
      exact ⟨⟨⟨hother, hstate⟩, hid⟩, by simpa using hfree⟩
    refine ⟨rfl, ?_⟩
    rw [if_pos hclaims]

theorem claimCode_rekeys {e : CatalogEntry} {db db' : Database} (h : claimCode e db = .ok db') :
    Rekeys e db db' := by
  unfold claimCode at h
  split at h
  · rename_i hnone
    cases h
    exact rekeys_of_unclaimed (by simp only [claimsOrphan, hnone]) rfl rfl
  · rename_i owner howner
    split at h
    · rename_i hsame
      cases h
      exact rekeys_of_unclaimed (by simp [claimsOrphan, howner, hsame]) rfl rfl
    · rename_i hother
      split at h
      · cases h
      · rename_i horphan
        simp only [Bool.or_eq_true, decide_eq_true_eq, not_or, not_not] at horphan
        exact claimOrphan_rekeys howner hother horphan.1 horphan.2 h

theorem resolveCode_rekeys {e : CatalogEntry} {db db' : Database}
    (h : resolveCode e db = .ok db') : Rekeys e db db' := by
  unfold resolveCode at h
  split at h
  · rename_i hnone
    cases h
    exact rekeys_of_unclaimed (by simp only [claimsOrphan, hnone]) rfl rfl
  · rename_i owner howner
    split at h
    · rename_i hsame
      cases h
      exact rekeys_of_unclaimed (by simp [claimsOrphan, howner, hsame]) rfl rfl
    · rename_i hother
      split at h
      · cases h
      · rename_i horphan
        simp only [Bool.or_eq_true, decide_eq_true_eq, not_or, not_not] at horphan
        split at h
        · rename_i htarget
          split at h
          · cases h
          · obtain ⟨-, rfl⟩ := deleteOrphan_eq_ok.mp h
            refine rekeys_of_unclaimed ?_ rfl rfl
            simp only [claimsOrphan, howner, Bool.and_eq_false_iff]
            right
            rw [List.all_eq_false]
            obtain ⟨p, hp, hid⟩ := List.any_eq_true.mp htarget
            exact ⟨p, hp, by simpa using hid⟩
        · exact claimOrphan_rekeys howner hother horphan.1 horphan.2 h

theorem upsertProblem_rekeys {now : Timestamp} {e : CatalogEntry} {db db' : Database}
    (h : upsertProblem now e db = .ok db') : Rekeys e db db' := by
  unfold upsertProblem at h
  cases hresolved : resolveCode e db with
  | error err =>
      rw [hresolved] at h
      cases h
  | ok resolved =>
      rw [hresolved] at h
      have hrekeys := resolveCode_rekeys hresolved
      simp only [bind, Except.bind] at h
      split at h
      · cases h
      · cases h
        exact hrekeys

theorem notifyProblem_jobs (now : Timestamp) (e : CatalogEntry) (deleted : Bool) (db : Database) :
    (notifyProblem now e deleted db).jobs = db.jobs ∧
      (notifyProblem now e deleted db).jobFencingCounters = db.jobFencingCounters := by
  unfold notifyProblem
  split <;> exact ⟨rfl, rfl⟩

theorem markProblemDirty_rekeys {now : Timestamp} {key actor fingerprint : String}
    {e : CatalogEntry} {deleted mutated : Bool} {db db' : Database}
    (h : markProblemDirtyIdempotent now key actor fingerprint e deleted db = .ok (db', mutated)) :
    Rekeys e db db' := by
  obtain ⟨claimed, hclaimed, hcases⟩ := Catalog.markProblemDirtyIdempotent_cases h
  have hrekeys := claimCode_rekeys hclaimed
  rcases hcases with ⟨-, rfl⟩ | ⟨-, rfl⟩
  · exact hrekeys
  · obtain ⟨hjobs, hcounters⟩ := notifyProblem_jobs now e deleted claimed
    exact ⟨hcounters.trans hrekeys.1, hjobs.trans hrekeys.2⟩

/-! ## The step and the run -/

theorem fencingInv_cataloged {l : Ledger} {e : CatalogEntry} {db : Database}
    (hinv : FencingInv l) (hrekeys : Rekeys e l.db db)
    (hbehind : claimsOrphan e l.db = true → TokensBehind l (orphanId e.code) e.externalId) :
    FencingInv (l.cataloged e db) := by
  obtain ⟨hcounters, hjobs⟩ := hrekeys
  by_cases hclaims : claimsOrphan e l.db = true
  · rw [if_pos hclaims] at hjobs
    have htokens := hbehind hclaims
    have hissued : (l.cataloged e db).issued =
        l.issued.map fun i => (renamed (orphanId e.code) e.externalId i.1, i.2) := by
      simp only [Ledger.cataloged, hclaims, if_true]
    refine ⟨?_, ?_, ?_, ?_, ?_⟩
    · change (db.jobs.map JobRow.id).Nodup
      rw [hjobs, rekeyProblem, List.map_map]
      exact hinv.ids
    · change ∀ key, 1 ≤ nextToken db.jobFencingCounters key
      rw [hcounters]
      exact hinv.positive
    · intro j hj
      change j ∈ db.jobs at hj
      change _ < nextToken db.jobFencingCounters _
      rw [hjobs] at hj
      rw [hcounters]
      obtain ⟨k, hk, rfl⟩ := List.mem_map.mp hj
      have hahead := hinv.ahead k hk
      have horphan := htokens.jobs k hk
      cases hproblem : k.problemId with
      | none => simpa [JobRow.counterKey, hproblem] using hahead
      | some p =>
          by_cases hp : p = orphanId e.code
          · simpa [JobRow.counterKey, hproblem, renamed, hp] using horphan (by rw [hproblem, hp])
          · simpa [JobRow.counterKey, hproblem, renamed, hp] using hahead
    · intro i hi
      rw [hissued] at hi
      change _ < nextToken db.jobFencingCounters _
      rw [hcounters]
      obtain ⟨k, hk, rfl⟩ := List.mem_map.mp hi
      by_cases hp : k.1 = orphanId e.code
      · simpa [renamed, hp] using (htokens.issued k hk hp).1
      · simpa [renamed, hp] using hinv.behind k hk
    · rw [hissued]
      refine List.Nodup.map_on ?_ hinv.nodup
      intro i hi k hk heq
      obtain ⟨hkey, htoken⟩ := Prod.mk.inj heq
      -- Only a token of the orphan could meet one of the id that takes it over.
      have hmeet : ∀ a ∈ l.issued, ∀ b ∈ l.issued, a.1 = orphanId e.code → b.1 = e.externalId →
          a.2 = b.2 → False := by
        intro a ha b hb ha' hb' hab
        refine (htokens.issued a ha ha').2 ?_
        rw [hab, ← hb']
        exact hb
      by_cases hi' : i.1 = orphanId e.code <;> by_cases hk' : k.1 = orphanId e.code
      · exact Prod.ext (hi'.trans hk'.symm) htoken
      · simp only [renamed, hi', hk', if_true, if_false] at hkey
        exact (hmeet i hi k hk hi' hkey.symm htoken).elim
      · simp only [renamed, hi', hk', if_true, if_false] at hkey
        exact (hmeet k hk i hi hk' hkey htoken.symm).elim
      · simp only [renamed, hi', hk', if_false] at hkey
        exact Prod.ext hkey htoken
  · rw [if_neg hclaims] at hjobs
    have hissued : (l.cataloged e db).issued = l.issued := by
      simp only [Ledger.cataloged, hclaims, Bool.false_eq_true, if_false]
    refine ⟨?_, ?_, ?_, ?_, ?_⟩
    · change (db.jobs.map JobRow.id).Nodup
      rw [hjobs]
      exact hinv.ids
    · change ∀ key, 1 ≤ nextToken db.jobFencingCounters key
      rw [hcounters]
      exact hinv.positive
    · change ∀ j ∈ db.jobs, _ < nextToken db.jobFencingCounters _
      rw [hjobs, hcounters]
      exact hinv.ahead
    · rw [hissued]
      change ∀ i ∈ l.issued, _ < nextToken db.jobFencingCounters _
      rw [hcounters]
      exact hinv.behind
    · rw [hissued]
      exact hinv.nodup

theorem fencingInv_rest {l : Ledger} {jobs : List JobRow} (hinv : FencingInv l)
    (h : keepsTokens l.db.jobs jobs = true) :
    FencingInv (l.after { l.db with jobs := jobs } []) := by
  simp only [keepsTokens, Bool.and_eq_true, decide_eq_true_eq, List.all_eq_true, Bool.or_eq_true,
    List.any_eq_true] at h
  refine ⟨h.1, hinv.positive, ?_, ?_, ?_⟩
  · intro j hj
    rcases h.2 j hj with hzero | ⟨k, hk, hproblem, htoken⟩
    · rw [hzero]
      exact hinv.positive _
    · have hahead := hinv.ahead k hk
      rw [htoken, JobRow.counterKey, hproblem] at hahead
      exact hahead
  · intro i hi
    rw [Ledger.after, List.append_nil] at hi
    exact hinv.behind i hi
  · rw [Ledger.after, List.append_nil]
    exact hinv.nodup

/-- What one step does: it keeps the invariant and hands out fresh tokens. -/
theorem fencing_step {l l' : Ledger} {a : Action} (hinv : FencingInv l)
    (hrekey : RekeyBehind l a l') (h : step l a = some l') : FencingInv l' ∧ Fresh l a l' := by
  -- The statements that hand out tokens, if only none of them.
  have hissues : ∀ {db : Database} {tokens : List (String × Int)},
      Issues l.db db tokens ∧ (db.jobs.map JobRow.id).Nodup →
        FencingInv (l.after db tokens) ∧ Fresh l a (l.after db tokens) :=
    fun h => ⟨h.1.fencingInv hinv h.2, h.1.fresh hinv h.2⟩
  have hsilent : ∀ l'', FencingInv l'' → l''.latest = [] → FencingInv l'' ∧ Fresh l a l'' :=
    fun l'' hinv' hnone => ⟨hinv', ⟨by simp [hnone], hinv'.nodup⟩⟩
  cases a with
  | acquire worker leaseSeconds lane paused locked =>
      obtain ⟨⟨db, c, token⟩, hacquire, rfl⟩ := Option.map_eq_some_iff.mp h
      exact hissues (acquireJob_issues hinv.ids hacquire)
  | cancel id reason =>
      obtain ⟨⟨db, j, token⟩, hcancel, rfl⟩ := Option.map_eq_some_iff.mp h
      exact hissues (cancelJob_issues hinv.ids hcancel)
  | failExpired =>
      cases h
      exact hissues (failExpired_issues hinv.ids)
  | retry id =>
      obtain ⟨db, hretry, rfl⟩ := Option.map_eq_some_iff.mp h
      exact hissues (retryJob_issues hinv.ids hretry)
  | watch code owner leaseSeconds id millis =>
      simp only [step] at h
      split at h
      · cases h
      · rename_i hfresh
        split at h
        · cases h
        · rename_i db tokens job hwatch
          cases h
          exact hissues (watcher_issues hinv.ids (by simpa using hfresh) hwatch)
  | upsert e =>
      simp only [step] at h
      split at h
      · cases h
      · rename_i db hupsert
        cases h
        exact hsilent _ (fencingInv_cataloged hinv (upsertProblem_rekeys hupsert) hrekey) rfl
  | notify key actor fingerprint e deleted =>
      simp only [step] at h
      split at h
      · cases h
      · rename_i db mutated hnotify
        cases h
        exact hsilent _ (fencingInv_cataloged hinv (markProblemDirty_rekeys hnotify) hrekey) rfl
  | rest jobs =>
      simp only [step] at h
      split at h
      · rename_i hkeeps
        cases h
        exact hsilent _ (fencingInv_rest hinv hkeeps) rfl
      · cases h
  | tick elapsed =>
      cases h
      exact hsilent _ ⟨hinv.ids, hinv.positive, hinv.ahead, hinv.behind, hinv.nodup⟩ rfl

/-- Along every run whose rekeys take over orphans with tokens that are behind, each token
exceeds those on the jobs of its problem and none is handed out twice. -/
theorem fencing_tokens_fresh {l : Ledger} {as : List Action} (hseeded : Seeded l)
    (hrekey : EveryStep step RekeyBehind l as) : EveryStep step Fresh l as := by
  have hinit : FencingInv l := by
    refine ⟨hseeded.ids, hseeded.positive, hseeded.ahead, ?_, ?_⟩
    · rw [hseeded.issued]
      simp
    · rw [hseeded.issued]
      exact List.nodup_nil
  exact everyStep_of_invariant (I := FencingInv) (C := RekeyBehind) (P := Fresh)
    (fun _ _ _ hinv hbehind h => (fencing_step hinv hbehind h).1)
    (fun _ _ _ hinv hbehind h => (fencing_step hinv hbehind h).2) hinit hrekey

def sampleProblem (externalId code : String) (state : CatalogState) : ProblemRow :=
  ⟨externalId, code, none, true, none, none, state, 0, false, false, none, 0, none, 1⟩

def sampleJob (id : Uuid) (problemId : String) (state : JobState) (token : Int) : JobRow where
  id := id
  idempotencyKey := ""
  jobType := .snapshot
  problemId := some problemId
  targetGeneration := none
  state := state
  leaseOwner := none
  leaseExpiresAt := none
  fencingToken := token
  attempt := 0
  maxAttempts := 3
  result := none
  errorCode := none
  errorMessage := none
  createdAt := 0
  completedAt := none
  requestedCancelAt := none
  requestedCancelReason := none
  requestFingerprint := ""

/-- A scan has found the folder `aplusb`, and its snapshot waits; so does that of a
problem of the catalog. -/
def orphanLedger : Ledger where
  now := 0
  db := {
    problems := [sampleProblem (orphanId "aplusb") "aplusb" .orphan,
      sampleProblem "202" "blist" .present]
    jobs := [sampleJob 1 "202" .pending 0, sampleJob 2 (orphanId "aplusb") .pending 0] }

def aplusb : CatalogEntry := ⟨"101", "aplusb", none, true, none, none, none, 1⟩

theorem orphanLedger_seeded : Seeded orphanLedger := by
  refine ⟨by decide, ?_, ?_, rfl⟩
  · exact fun _ => le_refl _
  · intro j hj
    change j.fencingToken < 1
    revert j
    decide

def acquireBulk : Action := .acquire "worker" 60 .bulk false []

def orphanClaimedFirst : List Action :=
  [acquireBulk, .cancel 1 none, .watch "blist" "watcher" 60 3 0, .upsert aplusb, acquireBulk,
    .tick 100000000, .failExpired, acquireBulk]

theorem fencing_tokens_fresh_claimed_first :
    (exec step orphanLedger orphanClaimedFirst).isSome ∧
      EveryStep step Fresh orphanLedger orphanClaimedFirst :=
  ⟨by decide +kernel, fencing_tokens_fresh orphanLedger_seeded (by decide +kernel)⟩

/-- The orphan's snapshot is taken before the claim; the next one of the problem gets its
token again. -/
def orphanClaimedLast : List Action :=
  [.cancel 1 none, acquireBulk, .upsert aplusb,
    .rest [sampleJob 2 "101" .completed 1, sampleJob 3 "101" .pending 0], acquireBulk]

theorem claimed_token_reissued :
    Seeded orphanLedger ∧ (exec step orphanLedger orphanClaimedLast).isSome ∧
      ¬ EveryStep step Fresh orphanLedger orphanClaimedLast :=
  ⟨orphanLedger_seeded, by decide +kernel, by decide +kernel⟩

end ExternalStorage.Jobs
