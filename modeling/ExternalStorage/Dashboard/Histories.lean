import ExternalStorage.Model.Leases
import ExternalStorage.Model.Lists

/-!
# Reading a history list to its end

The lists of jobs, snapshots and audit events go from the latest row back.  Their cursor keeps
the milliseconds of the last row of a page, so the rows of the same millisecond that follow it
are not before the cursor, and are passed over.
-/

namespace ExternalStorage.Dashboard

open ExternalStorage.Model Library.Paging Library.Cursors

/-- The row after the last one of a page lies in an earlier millisecond, or at the very start
of the same one with a smaller id. -/
def FollowsCursor {ρ : Type} (createdAt : ρ → Timestamp) (id : ρ → Uuid) (r s : ρ) : Prop :=
  createdAt s < toRfc3339 (createdAt r) ∨
    createdAt s = toRfc3339 (createdAt r) ∧ id s < id r

instance {ρ : Type} (createdAt : ρ → Timestamp) (id : ρ → Uuid) (r s : ρ) :
    Decidable (FollowsCursor createdAt id r s) :=
  inferInstanceAs (Decidable (_ ∨ _))

section Histories

variable {ρ : Type} (createdAt : ρ → Timestamp) (id : ρ → Uuid)

def ListsHistory (limit : Nat) (rows : List ρ) : Prop :=
  ∃ fuel, followList (fun cursor => some (listHistory createdAt id limit rows cursor)) fuel none =
    some (inOrder (historyKey createdAt id) rows)

variable {createdAt id} {rows : List ρ} {limit : Nat}

theorem earlierThan_iff {c : HistoryCursor} {r : ρ} :
    earlierThan createdAt id c r = true ↔
      toLex (createdAt r, id r) < toLex (c.createdAt, c.id) := by
  rw [Prod.Lex.toLex_lt_toLex]
  simp only [earlierThan, Bool.or_eq_true, Bool.and_eq_true, decide_eq_true_eq]

theorem historyKey_lt {r s : ρ} :
    historyKey createdAt id r < historyKey createdAt id s ↔
      toLex (createdAt s, id s) < toLex (createdAt r, id r) := Iff.rfl

theorem historyKeys_nodup (hids : (rows.map id).Nodup) :
    (rows.map (historyKey createdAt id)).Nodup := by
  refine List.Nodup.map_on ?_ (List.Nodup.of_map _ hids)
  intro r hr s hs hkey
  have hpair := congrArg (fun k => (ofLex (OrderDual.ofDual k)).2) hkey
  exact List.inj_on_of_nodup_map hids hr hs hpair

theorem closed_history :
    Closed (historyKey createdAt id) (earlierThan createdAt id)
      (fun r => some (historyCursor createdAt id r)) rows := by
  intro r _ c _ s _ t _ hlt hselected
  rw [earlierThan_iff] at hselected ⊢
  exact (historyKey_lt.mp hlt).trans hselected

theorem followList_listHistory (fuel : Nat) :
    followList (fun cursor => some (listHistory createdAt id limit rows cursor)) fuel none =
      readPages (historyKey createdAt id) (earlierThan createdAt id)
        (fun r => some (historyCursor createdAt id r)) (min limit 200) rows fuel none := by
  apply followList_eq_readPages (historyCursor createdAt id) some
  · rfl
  · intro c
    rfl

theorem goesOn_history {r s : ρ} :
    GoesOn (earlierThan createdAt id) (fun r => some (historyCursor createdAt id r)) r s ↔
      FollowsCursor createdAt id r s := by
  have hself : earlierThan createdAt id (historyCursor createdAt id r) r = false := by
    rw [← Bool.not_eq_true, earlierThan_iff, historyCursor, Prod.Lex.toLex_lt_toLex]
    rintro (hlt | ⟨-, hlt⟩)
    · exact absurd hlt (not_lt.mpr (toRfc3339_le _))
    · exact lt_irrefl _ hlt
  have hnext : earlierThan createdAt id (historyCursor createdAt id r) s = true ↔
      FollowsCursor createdAt id r s := by
    rw [earlierThan_iff, historyCursor, Prod.Lex.toLex_lt_toLex]
    exact Iff.rfl
  constructor
  · rintro ⟨c, hc, -, hs⟩
    obtain rfl := Option.some.inj hc
    exact hnext.mp hs
  · intro h
    exact ⟨_, rfl, hself, hnext.mpr h⟩

theorem listsHistory_iff (hids : (rows.map id).Nodup) (hlimit : 0 < limit) :
    ListsHistory createdAt id limit rows ↔
      AtPageEnds (FollowsCursor createdAt id) (min limit 200)
        (inOrder (historyKey createdAt id) rows) := by
  have hpositive : 0 < min limit 200 := by omega
  unfold ListsHistory
  simp only [followList_listHistory]
  refine (readsInOrder_iff (historyKeys_nodup hids) hpositive closed_history).trans ?_
  unfold AtPageEnds
  simp only [goesOn_history]

end Histories

/-- The rows that a history list reads. -/
structure HistoryTables where
  jobs : List JobRow
  snapshots : List SnapshotRow
  auditEvents : List AuditEventRow

/-- Each of the three lists gives the rows that its filter leaves once and in order exactly when
no page ends within the milliseconds of the row after it. -/
theorem histories_read_all (t : HistoryTables) (hjobs : (t.jobs.map JobRow.id).Nodup)
    (hsnapshots : (t.snapshots.map SnapshotRow.id).Nodup)
    (hevents : (t.auditEvents.map AuditEventRow.id).Nodup) {limit : Nat} (hlimit : 0 < limit)
    (state problemId : Option String) (f : AuditFilter) :
    ((∃ fuel, followList (fun c => some (listJobs state problemId limit t.jobs c)) fuel none =
        some (inOrder (historyKey JobRow.createdAt JobRow.id) (jobsOf state problemId t.jobs))) ↔
      AtPageEnds (FollowsCursor JobRow.createdAt JobRow.id) (min limit 200)
        (inOrder (historyKey JobRow.createdAt JobRow.id) (jobsOf state problemId t.jobs))) ∧
    ((∃ fuel, followList (fun c => some (listSnapshots problemId limit t.snapshots c)) fuel none =
        some (inOrder (historyKey SnapshotRow.createdAt SnapshotRow.id)
          (snapshotsOf problemId t.snapshots))) ↔
      AtPageEnds (FollowsCursor SnapshotRow.createdAt SnapshotRow.id) (min limit 200)
        (inOrder (historyKey SnapshotRow.createdAt SnapshotRow.id)
          (snapshotsOf problemId t.snapshots))) ∧
    ((∃ fuel, followList (fun c => some (listAuditEvents f limit t.auditEvents c)) fuel none =
        some (inOrder (historyKey AuditEventRow.createdAt AuditEventRow.id)
          (auditEventsOf f t.auditEvents))) ↔
      AtPageEnds (FollowsCursor AuditEventRow.createdAt AuditEventRow.id) (min limit 200)
        (inOrder (historyKey AuditEventRow.createdAt AuditEventRow.id)
          (auditEventsOf f t.auditEvents))) := by
  refine ⟨?_, ?_, ?_⟩
  · exact listsHistory_iff (hjobs.sublist (List.Sublist.map _ List.filter_sublist)) hlimit
  · exact listsHistory_iff (hsnapshots.sublist (List.Sublist.map _ List.filter_sublist)) hlimit
  · exact listsHistory_iff (hevents.sublist (List.Sublist.map _ List.filter_sublist)) hlimit

section Sample

def twoJobs (first second : Timestamp) : HistoryTables where
  jobs :=
    [newJob (1000000 + first) 1 ⟨"scan-1", .scan, some "101", none, "scan"⟩,
      newJob (1000000 + second) 2 ⟨"scan-2", .scan, some "102", none, "scan"⟩]
  snapshots := []
  auditEvents := []

theorem histories_read_all_apart :
    ∃ fuel, followList (fun c => some (listJobs none none 1 (twoJobs 100 2900).jobs c)) fuel none =
      some (inOrder (historyKey JobRow.createdAt JobRow.id)
        (jobsOf none none (twoJobs 100 2900).jobs)) :=
  (histories_read_all (twoJobs 100 2900) (by decide) (by decide) (by decide) (by decide)
    none none {}).1.mpr (by decide +kernel)

/-- Two jobs of one millisecond on pages of one: the earlier is never listed. -/
theorem same_millisecond_job_skipped :
    (followList (fun c => some (listJobs none none 1 (twoJobs 100 900).jobs c)) 3 none).map
        (fun items => items.map JobRow.id) = some [2] ∧
      ¬ ∃ fuel, followList (fun c => some (listJobs none none 1 (twoJobs 100 900).jobs c)) fuel none =
        some (inOrder (historyKey JobRow.createdAt JobRow.id)
          (jobsOf none none (twoJobs 100 900).jobs)) := by
  constructor
  · decide +kernel
  · rw [show listJobs none none 1 (twoJobs 100 900).jobs = listHistory JobRow.createdAt JobRow.id 1
      (jobsOf none none (twoJobs 100 900).jobs) from rfl]
    change ¬ ListsHistory JobRow.createdAt JobRow.id 1 (jobsOf none none (twoJobs 100 900).jobs)
    rw [listsHistory_iff (by decide) (by decide)]
    decide +kernel

end Sample

end ExternalStorage.Dashboard
