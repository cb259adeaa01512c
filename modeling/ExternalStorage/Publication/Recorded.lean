import ExternalStorage.Publication.Moves
import ExternalStorage.Snapshot.Projection

/-!
# The recorded backup of a problem

What the database holds of the backup of a problem: its snapshots with their objects, and the
generation in `problem_usage`.  Beside an operation on the folder, a snapshot completion moves
both to a larger generation, a rekey takes both away, and every other commit leaves both.
-/

namespace ExternalStorage.Publication

open ExternalStorage.Catalog ExternalStorage.Model Library.Table

/-! ## Moves of the backup -/

def snapshotRows (db : Database) (problemId : String) : List SnapshotRow :=
  db.snapshots.filter fun s => s.problemId = problemId

structure BackupKept (problemId : String) (db db' : Database) : Prop where
  snapshots : snapshotRows db' problemId = snapshotRows db problemId
  contents : ∀ s ∈ snapshotRows db problemId, s.state = .ready →
    recordedContents db' s.id = recordedContents db s.id
  generation : usageGeneration db'.problemUsage problemId =
    usageGeneration db.problemUsage problemId

structure BackupGone (problemId : String) (db : Database) : Prop where
  snapshots : snapshotRows db problemId = []
  generation : usageGeneration db.problemUsage problemId = none

inductive BackupMove (problemId : String) (db db' : Database) : Prop
  | kept (kept : BackupKept problemId db db')
  | gone (gone : BackupGone problemId db')
      (row : snapshotRows db problemId = [] ∨ problemRows db' problemId = [])

def Clean (problemId : String) (db : Database) : Prop :=
  ∃ p ∈ problemRows db problemId, p.dirty = false

def Matches (problemId : String) (generation : Int) (files : List FileEntry) (db : Database) :
    Prop :=
  ∃ s, latestReady problemId db.snapshots = some s ∧ s.generation = generation ∧
    scanMatchesSnapshotObjects files (recordedContents db s.id) = true

/-- The files still match, or the generation is no more that of `problem_usage`. -/
inductive Guarded (problemId : String) (generation : Int) (files : List FileEntry)
    (db : Database) : Prop
  | matching (matching : Matches problemId generation files db)
  | overtaken (newer : Int) (larger : generation < newer)
      (shown : usageGeneration db.problemUsage problemId = some newer)
  | gone (gone : BackupGone problemId db)

section Moves

variable {problemId : String} {generation : Int} {files : List FileEntry} {db db' : Database}

theorem backupKept_of_eq (hsnapshots : db'.snapshots = db.snapshots)
    (hobjects : db'.snapshotObjects = db.snapshotObjects)
    (hgeneration : usageGeneration db'.problemUsage problemId =
      usageGeneration db.problemUsage problemId) : BackupKept problemId db db' := by
  refine ⟨by rw [snapshotRows, hsnapshots, snapshotRows], ?_, hgeneration⟩
  intro s _ _
  rw [recordedContents, hobjects, recordedContents]

theorem readySnapshotMatchesScan_eq {scan : ScanResult}
    (h : readySnapshotMatchesScan db problemId scan = some generation) :
    Clean problemId db ∧ Matches problemId generation scan.files db := by
  obtain ⟨⟨p, hp, hid, hclean⟩, hmatches⟩ := readySnapshotMatchesScan_eq_some.mp h
  exact ⟨⟨p, List.mem_filter.mpr ⟨hp, decide_eq_true hid⟩, hclean⟩, hmatches⟩

theorem latestReady_eq_firstBy (problemId : String) (db : Database) :
    latestReady problemId db.snapshots =
      firstBy (fun s t => decide (t.generation < s.generation))
        ((snapshotRows db problemId).filter fun s => s.state = .ready) := by
  rw [latestReady, snapshotRows, List.filter_filter]
  congr 2
  funext s
  exact Bool.and_comm _ _

theorem mem_of_latestReady {s : SnapshotRow} (h : latestReady problemId db.snapshots = some s) :
    s ∈ snapshotRows db problemId ∧ s.state = .ready := by
  rw [latestReady_eq_firstBy] at h
  obtain ⟨hmem, hready⟩ := List.mem_filter.mp (mem_of_firstBy h)
  exact ⟨hmem, of_decide_eq_true hready⟩

theorem mem_snapshotRows {s : SnapshotRow} :
    s ∈ snapshotRows db problemId ↔ s ∈ db.snapshots ∧ s.problemId = problemId := by
  rw [snapshotRows, List.mem_filter, decide_eq_true_eq]

theorem Matches.rows (h : Matches problemId generation files db) :
    snapshotRows db problemId ≠ [] := by
  obtain ⟨s, hs, -⟩ := h
  exact List.ne_nil_of_mem (mem_of_latestReady hs).1

theorem Matches.kept (h : Matches problemId generation files db)
    (hkept : BackupKept problemId db db') : Matches problemId generation files db' := by
  obtain ⟨s, hs, hgeneration, hmatches⟩ := h
  obtain ⟨hmem, hready⟩ := mem_of_latestReady hs
  refine ⟨s, ?_, hgeneration, ?_⟩
  · rw [latestReady_eq_firstBy, hkept.snapshots, ← latestReady_eq_firstBy, hs]
  · rw [hkept.contents s hmem hready]
    exact hmatches

theorem Matches.move (h : Matches problemId generation files db)
    (hmove : BackupMove problemId db db') (hrow : problemRows db' problemId ≠ []) :
    Matches problemId generation files db' := by
  cases hmove with
  | kept hkept => exact h.kept hkept
  | gone _ hgone =>
      rcases hgone with hnone | hnone
      · exact absurd hnone h.rows
      · exact absurd hnone hrow

theorem Guarded.move (h : Guarded problemId generation files db)
    (hmove : BackupMove problemId db db') : Guarded problemId generation files db' := by
  cases hmove with
  | gone hgone _ => exact .gone hgone
  | kept hkept =>
      cases h with
      | matching hmatching => exact .matching (hmatching.kept hkept)
      | overtaken newer hlarger hshown => exact .overtaken newer hlarger (hkept.generation.trans hshown)
      | gone hgone =>
          exact .gone ⟨hkept.snapshots.trans hgone.snapshots, hkept.generation.trans hgone.generation⟩

theorem Guarded.matches (h : Guarded problemId generation files db)
    (hshown : usageGeneration db.problemUsage problemId = some generation) :
    Matches problemId generation files db := by
  cases h with
  | matching hmatching => exact hmatching
  | overtaken newer hlarger hnewer =>
      obtain rfl : newer = generation := Option.some.inj (hnewer.symm.trans hshown)
      exact absurd hlarger (Int.lt_irrefl newer)
  | gone hgone =>
      rw [hgone.generation] at hshown
      cases hshown

end Moves

/-! ## Commits of the data plane -/

section Commits

variable {problemId : String} {now : Timestamp} {db : Database}

theorem usageGeneration_eq (usage : List ProblemUsageRow) (problemId : String) :
    usageGeneration usage problemId = (Snapshot.projection usage problemId).bind Prod.snd := by
  rw [usageGeneration, Snapshot.projection, Option.bind_map]
  rfl

theorem usageGeneration_updateWhere {q : ProblemUsageRow → Bool}
    {f : ProblemUsageRow → ProblemUsageRow} (hid : ∀ u, (f u).problemId = u.problemId)
    (hgeneration : ∀ u, (f u).snapshotGeneration = u.snapshotGeneration)
    (usage : List ProblemUsageRow) :
    usageGeneration (updateWhere q f usage) problemId = usageGeneration usage problemId := by
  rw [usageGeneration, find?_key_updateWhere hid, Option.bind_map, usageGeneration]
  congr 1
  funext u
  rw [Function.comp_apply]
  split
  · exact hgeneration u
  · rfl

theorem backupKept_evicted (q : EvictRequest) (generation : Int) :
    BackupKept problemId db (evicted now q generation db) :=
  backupKept_of_eq rfl rfl (usageGeneration_updateWhere (by intro u; rfl) (by intro u; rfl) _)

theorem backupKept_restored (q : RestoreRequest) : BackupKept problemId db (restored now q db) :=
  backupKept_of_eq rfl rfl (usageGeneration_updateWhere (by intro u; rfl) (by intro u; rfl) _)

theorem backupKept_touch (touched : String) :
    BackupKept problemId db (touchProblemAccess now touched db) :=
  backupKept_of_eq rfl rfl (usageGeneration_updateWhere (by intro u; rfl) (by intro u; rfl) _)

variable {a : FinalizeArgs}

theorem finalizable_source (hadmitted : FinalizeAdmitted now a db) :
    ∃ s ∈ db.snapshots, s.id = a.snapshotId ∧ s.problemId = a.problemId := by
  have hpositive : 0 < (supersedeReady now a.problemId a.generation db.snapshots).countP
      (finalizable a.snapshotId a.problemId a.generation) := by
    rw [hadmitted.verifying]
    decide
  obtain ⟨t, ht, hfinal⟩ := List.countP_pos_iff.mp hpositive
  obtain ⟨hid, hproblem, -, -⟩ := finalizable_iff.mp hfinal
  obtain ⟨s, hs, rfl⟩ := mem_updateWhere.mp ht
  refine ⟨s, hs, ?_⟩
  split at hid
  · rename_i hsuperseded
    rw [if_pos hsuperseded] at hproblem
    exact ⟨hid, hproblem⟩
  · rename_i hkept
    rw [if_neg hkept] at hproblem
    exact ⟨hid, hproblem⟩

theorem backupKept_finalized (hids : (db.snapshots.map SnapshotRow.id).Nodup)
    (hadmitted : FinalizeAdmitted now a db) (hother : a.problemId ≠ problemId) :
    BackupKept problemId db (finalized now a db) := by
  refine ⟨?_, ?_, ?_⟩
  · rw [snapshotRows, finalized_snapshots, filter_updateWhere_of_apart, supersedeReady,
      filter_updateWhere_of_apart, snapshotRows]
    · intro s _ hs
      simp only [Bool.and_eq_true, decide_eq_true_eq] at hs
      simp [hs.1.1, hother]
    · intro s _ hs
      obtain ⟨-, hproblem, -, -⟩ := finalizable_iff.mp hs
      simp [SnapshotRow.published, hproblem, hother]
  · intro s hs _
    obtain ⟨hs, hproblem⟩ := mem_snapshotRows.mp hs
    obtain ⟨t, ht, hid, htproblem⟩ := finalizable_source hadmitted
    have hne : s.id ≠ a.snapshotId := by
      intro heq
      have hst : s = t := List.inj_on_of_nodup_map hids hs ht (heq.trans hid.symm)
      exact hother (htproblem.symm.trans ((congrArg SnapshotRow.problemId hst).symm.trans hproblem))
    show ((upsertObjects _ _).filter _).map _ = _
    rw [upsertObjects, filter_upsertAll_of_apart, recordedContents]
    intro n hn
    obtain ⟨f, -, rfl⟩ := List.mem_map.mp hn
    refine ⟨decide_eq_false (Ne.symm hne), ?_⟩
    intro o hkey
    have hrow : o.snapshotId = a.snapshotId := (Prod.mk.inj hkey).1
    exact ⟨decide_eq_false fun h => hne (h.symm.trans hrow),
      decide_eq_false fun h => hne (h.symm.trans hrow)⟩
  · rw [usageGeneration_eq, Snapshot.projection_finalized hadmitted, if_neg (Ne.symm hother),
      ← usageGeneration_eq]

theorem guarded_finalized {generation : Int} {files : List FileEntry}
    (h : Guarded a.problemId generation files db) (hadmitted : FinalizeAdmitted now a db) :
    Guarded a.problemId generation files (finalized now a db) := by
  have hshown : usageGeneration (finalized now a db).problemUsage a.problemId =
      some a.generation := by
    rw [usageGeneration_eq, Snapshot.projection_finalized hadmitted, if_pos rfl]
    rfl
  have hlarger : generation < a.generation := by
    cases h with
    | matching hmatching =>
        obtain ⟨s, hs, rfl, -⟩ := hmatching
        obtain ⟨hmem, hready⟩ := mem_of_latestReady hs
        obtain ⟨hmem, hproblem⟩ := mem_snapshotRows.mp hmem
        -- A READY row that is not older turns the completion down.
        by_contra hle
        refine hadmitted.noReady s (mem_updateWhere.mpr ⟨s, hmem, (if_neg ?_).symm⟩) hproblem hready
        simp only [Bool.and_eq_true, decide_eq_true_eq]
        exact fun hstale => hle hstale.2
    | overtaken newer hnewer hold =>
        exact Int.lt_trans hnewer (hadmitted.newer newer hold)
    | gone hgone =>
        obtain ⟨s, hs, -, hproblem⟩ := finalizable_source hadmitted
        have hmem : s ∈ snapshotRows db a.problemId := mem_snapshotRows.mpr ⟨hs, hproblem⟩
        rw [hgone.snapshots] at hmem
        cases hmem
  exact .overtaken a.generation hlarger hshown

end Commits

/-! ## Statements -/

def takesOver (problemId : String) (db : Database) : Jobs.Action → Bool
  | .upsert e | .notify _ _ _ e _ => Jobs.claimsOrphan e db && e.externalId = problemId
  | _ => false

/-- What a catalog write makes of the database before it writes its row. -/
inductive Settled (e : CatalogEntry) (db : Database) : Database → Prop
  | unchanged : Settled e db db
  | merged : hasHistory (orphanId e.code) db = false → Settled e db (merged e db)
  | rekeyed : Jobs.claimsOrphan e db = true →
      Settled e db (rekeyProblem (orphanId e.code) e.externalId db)

/-- A write of one row of `problems`. -/
structure WritesRow (externalId : String) (db db' : Database) : Prop where
  snapshots : db'.snapshots = db.snapshots
  objects : db'.snapshotObjects = db.snapshotObjects
  usage : db'.problemUsage = db.problemUsage
  others : ∀ id, id ≠ externalId → problemRows db' id = problemRows db id

section Settle

variable {e : CatalogEntry} {db settled : Database}

theorem claimsOrphan_eq_true (hunique : UniqueProblems db.problems) {orphan : ProblemRow}
    (hmem : orphan ∈ db.problems) (horphan : isOrphanOf e.code orphan = true)
    (hfresh : ¬ Stored e.externalId db.problems) : Jobs.claimsOrphan e db = true := by
  obtain ⟨hcode, hid, hstate⟩ := isOrphanOf_eq_true.mp horphan
  have hother : orphan.externalId ≠ e.externalId := fun h => hfresh ⟨orphan, hmem, h⟩
  simp only [Jobs.claimsOrphan, find_owner hunique hmem hcode, Bool.and_eq_true, decide_eq_true_eq,
    List.all_eq_true]
  exact ⟨⟨⟨hother, hstate⟩, hid⟩, fun p hp heq => hfresh ⟨p, hp, heq⟩⟩

theorem settled_of_resolveCode (hunique : UniqueProblems db.problems)
    (h : resolveCode e db = .ok settled) : Settled e db settled := by
  cases finds e db.problems with
  | free hown =>
      rw [resolveCode_free hown] at h
      cases h
      exact .unchanged
  | merge orphan hmem horphan hother hstored =>
      obtain ⟨⟨hhistory, -⟩, rfl⟩ :=
        (resolveCode_merge_eq_ok hunique hmem horphan hother hstored).mp h
      exact .merged hhistory
  | rekey orphan hmem horphan hfresh =>
      rw [resolveCode_rekey hunique hmem horphan hfresh] at h
      cases h
      exact .rekeyed (claimsOrphan_eq_true hunique hmem horphan hfresh)
  | foreign owner hmem hcode hother hforeign =>
      rw [resolveCode_foreign hunique hmem hcode hother hforeign] at h
      cases h

theorem settled_of_claimCode (hunique : UniqueProblems db.problems)
    (h : claimCode e db = .ok settled) : Settled e db settled := by
  cases finds e db.problems with
  | free hown =>
      rw [claimCode_free hown] at h
      cases h
      exact .unchanged
  | merge orphan hmem horphan hother hstored =>
      rw [claimCode_merge hunique hmem horphan hother hstored] at h
      cases h
  | rekey orphan hmem horphan hfresh =>
      rw [claimCode_rekey hunique hmem horphan hfresh] at h
      cases h
      exact .rekeyed (claimsOrphan_eq_true hunique hmem horphan hfresh)
  | foreign owner hmem hcode hother hforeign =>
      rw [claimCode_foreign hunique hmem hcode hother hforeign] at h
      cases h

theorem writesRow_refl (externalId : String) (db : Database) : WritesRow externalId db db :=
  ⟨rfl, rfl, rfl, fun _ _ => rfl⟩

theorem problemRows_upsertOn {new : ProblemRow} {merge : ProblemRow → ProblemRow}
    (hmerge : ∀ p, (merge p).externalId = p.externalId) {id : String} (hid : id ≠ new.externalId)
    (problems : List ProblemRow) :
    (upsertOn ProblemRow.externalId new merge problems).filter (fun p => p.externalId = id) =
      problems.filter fun p => p.externalId = id := by
  apply filter_upsertOn_of_apart
  · exact decide_eq_false (Ne.symm hid)
  · intro p hkey
    rw [hmerge, hkey]
    exact ⟨decide_eq_false (Ne.symm hid), decide_eq_false (Ne.symm hid)⟩

theorem writesRow_upsert (now : Timestamp) (e : CatalogEntry) (db : Database) :
    WritesRow e.externalId db { db with problems := cataloged now e db.problems } :=
  ⟨rfl, rfl, rfl, fun _ hid => problemRows_upsertOn (by intro p; rfl) hid _⟩

theorem writesRow_notify (now : Timestamp) (e : CatalogEntry) (deleted : Bool) (db : Database)
    (keys : List IdempotencyKeyRow) : WritesRow e.externalId db
      { notifyProblem now e deleted db with idempotencyKeys := keys } := by
  cases deleted with
  | true => exact ⟨rfl, rfl, rfl, fun _ hid => problemRows_upsertOn (by intro p; rfl) hid _⟩
  | false =>
      refine ⟨rfl, rfl, rfl, ?_⟩
      intro id hid
      show (updateWhere _ _ _).filter _ = _
      rw [filter_updateWhere_of_apart, problemRows_upsertOn (by intro p; rfl) hid, problemRows]
      intro p _ hp
      rw [Bool.and_eq_true, decide_eq_true_eq] at hp
      rw [hp.1]
      exact ⟨decide_eq_false (Ne.symm hid), decide_eq_false (Ne.symm hid)⟩

end Settle

section Catalog

variable {problemId old new : String} {e : CatalogEntry} {db db' settled : Database}

theorem BackupKept.write (h : BackupKept problemId db settled) {externalId : String}
    (hwrites : WritesRow externalId settled db') : BackupKept problemId db db' := by
  refine ⟨?_, ?_, ?_⟩
  · rw [snapshotRows, hwrites.snapshots]
    exact h.snapshots
  · intro s hs hready
    rw [recordedContents, hwrites.objects]
    exact h.contents s hs hready
  · rw [hwrites.usage]
    exact h.generation

theorem BackupGone.write (h : BackupGone problemId settled) {externalId : String}
    (hwrites : WritesRow externalId settled db') : BackupGone problemId db' := by
  refine ⟨?_, ?_⟩
  · rw [snapshotRows, hwrites.snapshots]
    exact h.snapshots
  · rw [hwrites.usage]
    exact h.generation

theorem renamed_ne (hne : old ≠ new) (id : String) : renamed old new id ≠ old := by
  unfold renamed
  split
  · exact Ne.symm hne
  · assumption

theorem renamed_eq_iff (hold : old ≠ problemId) (hnew : new ≠ problemId) (id : String) :
    renamed old new id = problemId ↔ id = problemId :=
  ⟨fun h => eq_of_renamed h (Ne.symm hnew), fun h => h ▸ renamed_of_ne (h ▸ Ne.symm hold)⟩

theorem backupGone_rekey (hne : problemId ≠ new) (db : Database) :
    BackupGone problemId (rekeyProblem problemId new db) ∧
      problemRows (rekeyProblem problemId new db) problemId = [] := by
  refine ⟨⟨?_, ?_⟩, ?_⟩
  · rw [snapshotRows, List.filter_eq_nil_iff]
    intro s hs
    obtain ⟨s, -, rfl⟩ := List.mem_map.mp hs
    simpa using renamed_ne hne s.problemId
  · rw [usageGeneration, Option.bind_eq_none_iff]
    intro u hu
    obtain ⟨u₀, -, rfl⟩ := List.mem_map.mp (List.mem_of_find?_eq_some hu)
    have hid : renamed problemId new u₀.problemId = problemId := by simpa using List.find?_some hu
    exact absurd hid (renamed_ne hne u₀.problemId)
  · rw [problemRows, List.filter_eq_nil_iff]
    intro p hp
    obtain ⟨p, -, rfl⟩ := List.mem_map.mp hp
    simpa using renamed_ne hne p.externalId

theorem backupKept_rekey (hold : old ≠ problemId) (hnew : new ≠ problemId) (db : Database) :
    BackupKept problemId db (rekeyProblem old new db) := by
  refine ⟨?_, fun _ _ _ => rfl, ?_⟩
  · show (db.snapshots.map _).filter _ = _
    rw [filter_map_congr (p := fun s => s.problemId = problemId)]
    · calc
        _ = (snapshotRows db problemId).map id := by
          apply List.map_congr_left
          intro s hs
          rw [(mem_snapshotRows.mp hs).2, renamed_of_ne (Ne.symm hold), ← (mem_snapshotRows.mp hs).2]
          rfl
        _ = snapshotRows db problemId := List.map_id _
    · intro s _
      exact decide_eq_decide.mpr (renamed_eq_iff hold hnew s.problemId)
  · have hsame : (fun u : ProblemUsageRow => decide (renamed old new u.problemId = problemId)) =
        fun u => decide (u.problemId = problemId) := by
      funext u
      exact decide_eq_decide.mpr (renamed_eq_iff hold hnew u.problemId)
    show Option.bind ((db.problemUsage.map _).find? _) _ = _
    rw [List.find?_map, Option.bind_map]
    exact congrArg
      (fun q => (db.problemUsage.find? q).bind ProblemUsageRow.snapshotGeneration) hsame

theorem usageGeneration_mergeUsage (orphan externalId : String) (usage : List ProblemUsageRow) :
    usageGeneration (mergeUsage orphan externalId usage) problemId =
      usageGeneration usage problemId := by
  unfold mergeUsage
  split
  · rfl
  · rw [usageGeneration, find?_upsertOn (by intro u; rfl), usageGeneration]
    split
    · rename_i hid
      cases usage.find? fun u => u.problemId = problemId with
      | none => rfl
      | some u => rfl
    · rfl

theorem backupMove_merged (hhistory : hasHistory (orphanId e.code) db = false) :
    BackupKept problemId db (merged e db) ∨
      BackupGone problemId (merged e db) ∧ snapshotRows db problemId = [] := by
  by_cases horphan : orphanId e.code = problemId
  · right
    have hnone : snapshotRows db problemId = [] := by
      rw [snapshotRows, List.filter_eq_nil_iff]
      simp only [hasHistory, Bool.or_eq_false_iff, List.any_eq_false, horphan] at hhistory
      exact hhistory.1
    refine ⟨⟨hnone, ?_⟩, hnone⟩
    show usageGeneration (deleteWhere _ _) problemId = none
    rw [usageGeneration, Option.bind_eq_none_iff]
    intro u hu
    have hid : u.problemId = problemId := by simpa using List.find?_some hu
    have hkept := (mem_deleteWhere.mp (List.mem_of_find?_eq_some hu)).2
    simp [hid, horphan] at hkept
  · left
    refine backupKept_of_eq rfl rfl ?_
    show usageGeneration (deleteWhere _ _) problemId = _
    rw [usageGeneration, find?_deleteWhere (Ne.symm horphan), ← usageGeneration,
      usageGeneration_mergeUsage]

theorem backupMove_settled (hsettled : Settled e db settled)
    (hother : Jobs.claimsOrphan e db = true → e.externalId ≠ problemId)
    (hwrites : WritesRow e.externalId settled db') : BackupMove problemId db db' := by
  cases hsettled with
  | unchanged => exact .kept (BackupKept.write ⟨rfl, fun _ _ _ => rfl, rfl⟩ hwrites)
  | merged hhistory =>
      rcases backupMove_merged hhistory with hkept | ⟨hgone, hnone⟩
      · exact .kept (hkept.write hwrites)
      · exact .gone (hgone.write hwrites) (.inl hnone)
  | rekeyed hclaims =>
      have hnew := hother hclaims
      by_cases hold : orphanId e.code = problemId
      · rw [hold] at hwrites
        obtain ⟨hgone, hrow⟩ := backupGone_rekey (Ne.symm hnew) db
        refine .gone (hgone.write hwrites) (.inr ?_)
        rw [hwrites.others problemId (Ne.symm hnew)]
        exact hrow
      · exact .kept ((backupKept_rekey hold hnew db).write hwrites)

end Catalog

theorem acquireDirtySnapshotJob_kept {now : Timestamp} {code owner : String} {leaseSeconds : Int}
    {id : Uuid} {millis : Int} {problemId : String} {db db' : Database}
    {tokens : Option WatcherTokens} {job : Option DirtySnapshotJob}
    (h : acquireDirtySnapshotJobByCode now code owner leaseSeconds id millis db =
      .ok (db', tokens, job)) : BackupKept problemId db db' := by
  rcases acquireDirtySnapshotJob_cases h with ⟨rfl, -⟩ | ⟨target, marked, htarget, -, hdb⟩
  · exact backupKept_of_eq rfl rfl rfl
  · obtain ⟨p, -, htarget⟩ := Option.bind_eq_some_iff.mp htarget
    cases htarget
    rcases hdb with rfl | rfl
    · exact backupKept_of_eq rfl rfl rfl
    · exact backupKept_of_eq rfl rfl rfl

/-- Only a catalog write moves the backup of a problem among the statements, and it moves none
to the problem unless it takes an orphan over. -/
theorem backupMove_statement {l l' : Jobs.Ledger} {a : Jobs.Action} {problemId : String}
    (hunique : UniqueProblems l.db.problems) (hother : takesOver problemId l.db a = false)
    (h : Jobs.step l a = some l') : BackupMove problemId l.db l'.db := by
  have hclaims : ∀ {e : CatalogEntry},
      (Jobs.claimsOrphan e l.db && decide (e.externalId = problemId)) = false →
      Jobs.claimsOrphan e l.db = true → e.externalId ≠ problemId := by
    intro e he hclaims hid
    simp [hclaims, hid] at he
  cases a with
  | acquire worker leaseSeconds lane paused locked =>
      obtain ⟨⟨db, c, token⟩, hacquire, rfl⟩ := Option.map_eq_some_iff.mp h
      unfold acquireJob at hacquire
      obtain ⟨c', -, hacquire⟩ := Option.bind_eq_some_iff.mp hacquire
      dsimp only at hacquire
      split at hacquire
      · cases hacquire
        exact .kept (backupKept_of_eq rfl rfl rfl)
      · cases hacquire
  | cancel id reason =>
      obtain ⟨⟨db, c, token⟩, hcancel, rfl⟩ := Option.map_eq_some_iff.mp h
      obtain ⟨j, -, hcancel⟩ := Option.bind_eq_some_iff.mp hcancel
      cases hcancel
      exact .kept (backupKept_of_eq rfl rfl rfl)
  | failExpired =>
      cases h
      exact .kept (backupKept_of_eq rfl rfl rfl)
  | retry id =>
      obtain ⟨db, hretry, rfl⟩ := Option.map_eq_some_iff.mp h
      obtain ⟨-, rfl⟩ := retryJob_eq_some hretry
      exact .kept (backupKept_of_eq rfl rfl rfl)
  | watch code owner leaseSeconds id millis =>
      simp only [Jobs.step] at h
      split at h
      · cases h
      · split at h
        · cases h
        · rename_i db tokens job hwatch
          cases h
          exact .kept (acquireDirtySnapshotJob_kept hwatch)
  | upsert e =>
      simp only [Jobs.step] at h
      split at h
      · cases h
      · rename_i db hupsert
        cases h
        obtain ⟨settled, hsettled, -, rfl⟩ := upsertProblem_eq_ok.mp hupsert
        exact backupMove_settled (settled_of_resolveCode hunique hsettled) (hclaims hother)
          (writesRow_upsert l.now e settled)
  | notify key actor fingerprint e deleted =>
      simp only [Jobs.step] at h
      split at h
      · cases h
      · rename_i db mutated hnotify
        cases h
        obtain ⟨settled, hsettled, hcases⟩ := markProblemDirtyIdempotent_cases hnotify
        have hsettled := settled_of_claimCode hunique hsettled
        rcases hcases with ⟨-, rfl⟩ | ⟨-, rfl⟩
        · exact backupMove_settled hsettled (hclaims hother) (writesRow_refl _ _)
        · exact backupMove_settled hsettled (hclaims hother)
            (writesRow_notify l.now e deleted settled _)
  | rest jobs =>
      simp only [Jobs.step] at h
      split at h
      · cases h
        exact .kept (backupKept_of_eq rfl rfl rfl)
      · cases h
  | tick elapsed =>
      cases h
      exact .kept (backupKept_of_eq rfl rfl rfl)

end ExternalStorage.Publication
