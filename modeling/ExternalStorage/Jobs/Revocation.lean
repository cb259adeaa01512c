import ExternalStorage.Jobs.Fencing
import ExternalStorage.Jobs.Queue
import Mathlib.Data.List.Perm.Subperm

/-!
# Revoking the tokens of a batch

`failExpiredRunningJobs` passes each counter over the whole group in one upsert and works out
afterwards which part of the range is whose, from where the counter then stands, the size of
the group and the row number.
-/

namespace ExternalStorage.Jobs

open ExternalStorage.Model Library.Table

def revokedRows (now : Timestamp) (db : Database) (key : String) : List JobRow :=
  (failExpiredRunningJobs now db).jobs.filter fun j =>
    j.counterKey = key && (expiredRunning now db.jobs).any fun r => r.id = j.id

def assignedTokens (now : Timestamp) (db : Database) (key : String) : List Int :=
  (revokedRows now db key).map JobRow.fencingToken

section

variable {now : Timestamp} {db : Database} {key : String}

theorem mem_expiredRunning_iff (hids : (db.jobs.map JobRow.id).Nodup) {j : JobRow}
    (hj : j ∈ db.jobs) :
    ((expiredRunning now db.jobs).any fun r => r.id = j.id) = true ↔
      j ∈ expiredRunning now db.jobs := by
  rw [List.any_eq_true]
  constructor
  · rintro ⟨r, hr, hid⟩
    have hmem := (List.mem_filter.mp hr).1
    rwa [← row_eq_of_id hids hmem hj (of_decide_eq_true hid)]
  · exact fun hmem => ⟨j, hmem, decide_eq_true rfl⟩

theorem assignedTokens_eq (hids : (db.jobs.map JobRow.id).Nodup) :
    assignedTokens now db key =
      ((expiredRunning now db.jobs).filter fun j => j.counterKey = key).map fun j =>
        nextToken db.jobFencingCounters key + revokedRank (expiredRunning now db.jobs) j - 1 := by
  have hselect : (db.jobs.filter fun j => j.counterKey = key &&
      (expiredRunning now db.jobs).any fun r => r.id = j.id) =
      (expiredRunning now db.jobs).filter fun j => j.counterKey = key := by
    unfold expiredRunning
    rw [List.filter_filter]
    apply List.filter_congr
    intro j hj
    have hmem := @mem_expiredRunning_iff now db hids j hj
    rw [expiredRunning, List.mem_filter] at hmem
    rw [Bool.eq_iff_iff, Bool.and_eq_true, Bool.and_eq_true, hmem]
    simp only [hj, true_and]
  unfold assignedTokens revokedRows failExpiredRunningJobs updateWhere
  dsimp only
  rw [List.filter_map, List.map_map]
  -- the statement keeps the columns by which the rows are selected
  rw [List.filter_congr (q := fun j => j.counterKey = key &&
    (expiredRunning now db.jobs).any fun r => r.id = j.id), hselect]
  · apply List.map_congr_left
    intro j hj
    obtain ⟨hexpired, hkey⟩ := List.mem_filter.mp hj
    have hrevoked : ((expiredRunning now db.jobs).any fun r => r.id = j.id) = true :=
      List.any_eq_true.mpr ⟨j, hexpired, decide_eq_true rfl⟩
    simp only [Function.comp_apply, hrevoked, if_true]
    rw [revokedToken, nextToken_bumpRevoked, of_decide_eq_true hkey]
    omega
  · intro j _
    dsimp only [Function.comp_apply]
    split <;> rfl

/-- They are the numbers from where the counter stood, as many as the group has rows. -/
theorem assignedTokens_perm (hids : (db.jobs.map JobRow.id).Nodup) :
    (assignedTokens now db key).Perm
      ((List.range (revokedCount (expiredRunning now db.jobs) key)).map fun (i : Nat) =>
        nextToken db.jobFencingCounters key + i) := by
  have hexpired : ((expiredRunning now db.jobs).map JobRow.id).Nodup :=
    hids.sublist (List.filter_sublist.map JobRow.id)
  have hgroup : ((expiredRunning now db.jobs).filter fun j => j.counterKey = key).Nodup :=
    (List.Nodup.of_map _ hexpired).sublist List.filter_sublist
  rw [assignedTokens_eq hids]
  apply List.Subperm.perm_of_length_le
  · apply List.subperm_of_subset
    · refine List.Nodup.map_on ?_ hgroup
      intro j hj k hk htoken
      obtain ⟨hj, hjkey⟩ := List.mem_filter.mp hj
      obtain ⟨hk, hkkey⟩ := List.mem_filter.mp hk
      have hkey : j.counterKey = k.counterKey :=
        (of_decide_eq_true hjkey).trans (of_decide_eq_true hkkey).symm
      have hrank : revokedRank (expiredRunning now db.jobs) j =
          revokedRank (expiredRunning now db.jobs) k := by
        omega
      by_contra hne
      rcases Nat.lt_or_gt_of_ne fun hid => hne (row_eq_of_id hexpired hj hk hid) with hlt | hgt
      · exact absurd hrank (Nat.ne_of_lt (revokedRank_lt hk hkey hlt))
      · exact absurd hrank (Nat.ne_of_gt (revokedRank_lt hj hkey.symm hgt))
    · intro token htoken
      obtain ⟨j, hj, rfl⟩ := List.mem_map.mp htoken
      obtain ⟨hj, hkey⟩ := List.mem_filter.mp hj
      have hrank := revokedRank_range hj
      rw [of_decide_eq_true hkey] at hrank
      refine List.mem_map.mpr ⟨revokedRank (expiredRunning now db.jobs) j - 1, ?_, ?_⟩
      · rw [List.mem_range]
        omega
      · omega
  · rw [List.length_map, List.length_map, List.length_range, ← List.countP_eq_length_filter]
    exact Nat.le_refl _

theorem nextToken_failExpired :
    nextToken (failExpiredRunningJobs now db).jobFencingCounters key =
      nextToken db.jobFencingCounters key + revokedCount (expiredRunning now db.jobs) key :=
  nextToken_bumpRevoked _ _ _

theorem mem_assignedTokens (hids : (db.jobs.map JobRow.id).Nodup) {token : Int} :
    token ∈ assignedTokens now db key ↔ nextToken db.jobFencingCounters key ≤ token ∧
      token < nextToken (failExpiredRunningJobs now db).jobFencingCounters key := by
  rw [(assignedTokens_perm hids).mem_iff, nextToken_failExpired, List.mem_map]
  constructor
  · rintro ⟨i, hi, rfl⟩
    rw [List.mem_range] at hi
    omega
  · rintro ⟨hfirst, hnext⟩
    refine ⟨(token - nextToken db.jobFencingCounters key).toNat, ?_, ?_⟩
    · rw [List.mem_range]
      omega
    · omega

/-! ## The next token -/

theorem acquireJob_token {worker : String} {leaseSeconds : Int} {lane : JobLane} {paused : Bool}
    {locked : List Uuid} {db' : Database} {c : JobRow} {token : Int}
    (h : acquireJob now worker leaseSeconds lane paused locked db = some (db', c, token)) :
    token = nextToken db.jobFencingCounters c.counterKey := by
  unfold acquireJob at h
  obtain ⟨c', -, h⟩ := Option.bind_eq_some_iff.mp h
  dsimp only at h
  split at h
  · cases h
    rw [nextToken_bumpCounter _ _ (by omega), if_pos rfl]
    omega
  · cases h

theorem cancelJob_token {id : Uuid} {reason : Option String} {db' : Database} {j : JobRow}
    {token : Int} (h : cancelJob now id reason db = some (db', j, token)) :
    token = nextToken db.jobFencingCounters j.counterKey := by
  unfold cancelJob at h
  obtain ⟨l, -, h⟩ := Option.bind_eq_some_iff.mp h
  cases h
  rw [nextToken_bumpCounter _ _ (by omega), if_pos rfl]
  omega

end

/-- Under each key the statement hands out the tokens from where the counter stood up to where
it leaves it, one to each row of the group; the next cancellation gets the token behind them,
and the next acquisition, which first revokes what has expired by then, none before that. -/
theorem batch_revocation_exact {now : Timestamp} {db : Database}
    (hids : (db.jobs.map JobRow.id).Nodup) (key : String) :
    let after := failExpiredRunningJobs now db
    let first := nextToken db.jobFencingCounters key
    let next := nextToken after.jobFencingCounters key
    let tokens := assignedTokens now db key
    (revokedRows now db key).length = revokedCount (expiredRunning now db.jobs) key ∧
      tokens.Nodup ∧ (∀ token ∈ tokens, first ≤ token) ∧
      (∀ token, first ≤ token → token < next → token ∈ tokens) ∧
      (tokens = [] → next = first) ∧
      (tokens ≠ [] → next - 1 ∈ tokens ∧ ∀ token ∈ tokens, token ≤ next - 1) ∧
      (∀ id reason db' j token, cancelJob now id reason after = some (db', j, token) →
        j.counterKey = key → token = next) ∧
      ∀ later worker leaseSeconds lane paused locked db' c token,
        acquireNextJob later worker leaseSeconds lane paused locked after =
          some (db', c, token) → c.counterKey = key → next ≤ token := by
  intro after first next tokens
  have hperm := @assignedTokens_perm now db key hids
  have hmem : ∀ token, token ∈ tokens ↔ first ≤ token ∧ token < next :=
    fun token => mem_assignedTokens hids
  have hnext : next = first + revokedCount (expiredRunning now db.jobs) key :=
    nextToken_failExpired
  refine ⟨?_, ?_, ?_, ?_, ?_, ?_, ?_, ?_⟩
  · have hlength := hperm.length_eq
    rwa [assignedTokens, List.length_map, List.length_map, List.length_range] at hlength
  · apply hperm.nodup_iff.mpr
    apply List.Nodup.map_on _ List.nodup_range
    intro i _ i' _ heq
    omega
  · exact fun token htoken => ((hmem token).mp htoken).1
  · exact fun token hfirst hlast => (hmem token).mpr ⟨hfirst, hlast⟩
  · intro hnone
    have hfirst : first ∉ tokens := by
      rw [hnone]
      exact List.not_mem_nil
    rw [hmem] at hfirst
    omega
  · intro hsome
    obtain ⟨token, htoken⟩ := List.exists_mem_of_ne_nil tokens hsome
    rw [hmem] at htoken
    refine ⟨(hmem _).mpr (by omega), ?_⟩
    intro token' htoken'
    rw [hmem] at htoken'
    omega
  · intro id reason db' j token hcancel hkey
    rw [cancelJob_token hcancel, hkey]
  · intro later worker leaseSeconds lane paused locked db' c token hacquire hkey
    rw [acquireJob_token hacquire, hkey, nextToken_failExpired]
    omega

/-! Two jobs of problem 7, which has no counter yet, and one without a problem. -/

def lapsedJob (id : Uuid) (problemId : Option String) : JobRow where
  id := id
  idempotencyKey := "snapshot:" ++ toString id
  jobType := .snapshot
  problemId := problemId
  targetGeneration := none
  state := .running
  leaseOwner := some "ts-worker-1"
  leaseExpiresAt := some 100
  fencingToken := 0
  attempt := 3
  maxAttempts := 3
  result := none
  errorCode := none
  errorMessage := none
  createdAt := 0
  completedAt := none
  requestedCancelAt := none
  requestedCancelReason := none
  requestFingerprint := ""

def lapsedBatch : Database where
  problems := [presentRow "7" "sums"]
  jobs := [lapsedJob 5 (some "7"), lapsedJob 2 none, lapsedJob 3 (some "7")]
  jobFencingCounters := [⟨"__global__", 4⟩]

theorem batch_revocation_exact_lapsed :
    (revokedRows 200 lapsedBatch "7").length = 2 ∧
      (assignedTokens 200 lapsedBatch "7").Nodup ∧
      nextToken (failExpiredRunningJobs 200 lapsedBatch).jobFencingCounters "7" - 1 ∈
        assignedTokens 200 lapsedBatch "7" ∧
      4 ∈ assignedTokens 200 lapsedBatch "__global__" := by
  have hids : (lapsedBatch.jobs.map JobRow.id).Nodup := by decide
  obtain ⟨hlength, hnodup, -, -, -, hlast, -⟩ := @batch_revocation_exact 200 lapsedBatch hids "7"
  obtain ⟨-, -, -, hrange, -⟩ := @batch_revocation_exact 200 lapsedBatch hids "__global__"
  refine ⟨hlength, hnodup, (hlast ?_).1, hrange 4 (by decide) (by decide)⟩
  decide

end ExternalStorage.Jobs
