import ExternalStorage.Snapshot.Steps
import Mathlib.Data.List.Perm.Basic

/-!
# Consistency

What holds in every reachable world whatever the interleaving: ids and generations
name one row each, a run that has not claimed yet names nothing, a run that has
keeps to its problem and generation, and a manifest lists the files of its scan.
-/

namespace ExternalStorage.Snapshot

open ExternalStorage.Model Library.Runs Library.Table

variable {Bytes : Type}

/-! ## The identity of a row -/

def rowId (s : SnapshotRow) : Uuid × String × Int := (s.id, s.problemId, s.generation)

def rowIds (rows : List SnapshotRow) : List (Uuid × String × Int) := rows.map rowId

theorem rowIds_updateWhere {p : SnapshotRow → Bool} {f : SnapshotRow → SnapshotRow}
    (hf : ∀ s, rowId (f s) = rowId s) (rows : List SnapshotRow) :
    rowIds (updateWhere p f rows) = rowIds rows :=
  map_updateWhere hf rows

@[simp] theorem rowIds_setHashing (id : Uuid) (rows : List SnapshotRow) :
    rowIds (setHashing id rows) = rowIds rows :=
  rowIds_updateWhere (by intro s; rfl) rows

@[simp] theorem rowIds_setUploading (id : Uuid) (mkey : String) (rows : List SnapshotRow) :
    rowIds (setUploading id mkey rows) = rowIds rows :=
  rowIds_updateWhere (by intro s; rfl) rows

@[simp] theorem rowIds_setVerifying (id : Uuid) (rows : List SnapshotRow) :
    rowIds (setVerifying id rows) = rowIds rows :=
  rowIds_updateWhere (by intro s; rfl) rows

@[simp] theorem rowIds_markSnapshotError (now : Timestamp) (id : Uuid) (e : AppError)
    (rows : List SnapshotRow) : rowIds (markSnapshotError now id e rows) = rowIds rows :=
  rowIds_updateWhere (by intro s; rfl) rows

@[simp] theorem rowIds_failStalledSnapshots (now : Timestamp) (rows : List SnapshotRow) :
    rowIds (failStalledSnapshots now rows) = rowIds rows :=
  rowIds_updateWhere (by intro s; rfl) rows

@[simp] theorem rowIds_finalized (now : Timestamp) (a : FinalizeArgs) (db : Database) :
    rowIds (finalized now a db).snapshots = rowIds db.snapshots := by
  rw [finalized_snapshots]
  calc
    _ = rowIds (supersedeReady now a.problemId a.generation db.snapshots) :=
      rowIds_updateWhere (by intro s; rfl) _
    _ = rowIds db.snapshots := rowIds_updateWhere (by intro s; rfl) _

theorem mem_rowIds {rows : List SnapshotRow} {s : SnapshotRow} (h : s ∈ rows) :
    (s.id, s.problemId, s.generation) ∈ rowIds rows :=
  List.mem_map_of_mem h

theorem exists_of_mem_rowIds {rows : List SnapshotRow} {id : Uuid} {problemId : String}
    {generation : Int} (h : (id, problemId, generation) ∈ rowIds rows) :
    ∃ s ∈ rows, s.id = id ∧ s.problemId = problemId ∧ s.generation = generation := by
  obtain ⟨s, hs, heq⟩ := List.mem_map.mp h
  simp only [rowId, Prod.mk.injEq] at heq
  exact ⟨s, hs, heq⟩

/-- The primary key and the unique key of `snapshots`. -/
structure KeysUnique (ids : List (Uuid × String × Int)) : Prop where
  nodup : (ids.map Prod.fst).Nodup
  generation : ∀ a ∈ ids, ∀ b ∈ ids, a.2 = b.2 → a.1 = b.1

theorem KeysUnique.primary {ids : List (Uuid × String × Int)} (h : KeysUnique ids) :
    ∀ a ∈ ids, ∀ b ∈ ids, a.1 = b.1 → a.2 = b.2 :=
  fun _ ha _ hb hab => congrArg Prod.snd (List.inj_on_of_nodup_map h.nodup ha hb hab)

theorem KeysUnique.row_eq {rows : List SnapshotRow} (h : KeysUnique (rowIds rows))
    {s t : SnapshotRow} (hs : s ∈ rows) (ht : t ∈ rows) (hid : s.id = t.id) : s = t := by
  have hnodup := h.nodup
  rw [rowIds, List.map_map] at hnodup
  exact List.inj_on_of_nodup_map hnodup hs ht hid

theorem KeysUnique.sublist {ids ids' : List (Uuid × String × Int)} (h : KeysUnique ids)
    (hsub : ids'.Sublist ids) : KeysUnique ids' :=
  ⟨h.nodup.sublist (hsub.map Prod.fst), fun a ha b hb =>
    h.generation a (hsub.subset ha) b (hsub.subset hb)⟩

/-! ## Runs -/

def Run.accounted (run : Run) : Prop :=
  match run.phase with
  | .uploading _ pending inFlight uploaded =>
      (uploaded ++ (inFlight.map fun t => t.file.toManifestFile) ++
        pending.map FileEntry.toManifestFile).Perm (run.scan.files.map FileEntry.toManifestFile)
  | .verifying m | .published m | .finalizing m | .checked m | .committed m =>
      m.files.Perm (run.scan.files.map FileEntry.toManifestFile)
  | _ => True

theorem map_file_set {inFlight : List Task} {i : Nat} {t t' : Task}
    (hat : inFlight[i]? = some t) (hfile : t'.file = t.file) :
    (inFlight.set i t').map (fun t => t.file.toManifestFile) =
      inFlight.map fun t => t.file.toManifestFile := by
  obtain ⟨hi, rfl⟩ := List.getElem?_eq_some_iff.mp hat
  rw [List.map_set, hfile]
  conv_rhs => rw [← List.set_getElem_self hi, List.map_set]

theorem RunStep.accounted {d : DataPlane Bytes} {now : Timestamp} {db : Database}
    {store : Store Bytes} {run : Run} {op : RunOp Bytes} {e : Effect Bytes}
    (h : RunStep d now db store run op e) (hrun : run.accounted) : e.run.accounted := by
  unfold Run.accounted at hrun
  cases h with
  | prepared phase prepare => exact .refl _
  | started phase =>
      rw [phase] at hrun
      simpa [Run.accounted, Run.at] using hrun
  | task phase inFlightAt taken =>
      rw [phase] at hrun
      simp only [Run.accounted, Run.at]
      rw [map_file_set inFlightAt (taskStep_cases taken).file_eq]
      exact hrun
  | @recorded canonical pending inFlight uploaded i t objects phase inFlightAt stored record =>
      rw [phase] at hrun
      simp only [Run.accounted, Run.at]
      refine List.Perm.trans ?_ hrun
      apply List.Perm.append_right
      rw [List.append_assoc]
      apply List.Perm.append_left
      obtain ⟨hi, rfl⟩ := List.getElem?_eq_some_iff.mp inFlightAt
      exact (List.getElem_cons_eraseIdx_perm hi).map fun t => t.file.toManifestFile
  | @verifying canonical uploaded phase =>
      rw [phase] at hrun
      simp only [List.map_nil, List.append_nil] at hrun
      exact (List.perm_insertionSort _ _).trans hrun
  | published phase | verified phase _ | checked phase _ | committed phase _ =>
      rw [phase] at hrun
      exact hrun
  | _ => trivial

/-! ## What a step of a run touches -/

theorem RunStep.kept {d : DataPlane Bytes} {now : Timestamp} {db : Database}
    {store : Store Bytes} {run : Run} {op : RunOp Bytes} {e : Effect Bytes}
    (h : RunStep d now db store run op e) :
    e.run.problemId = run.problemId ∧ e.run.generation = run.generation ∧
      e.run.scan = run.scan ∧ e.run.phase ≠ .fenced := by
  cases h <;> exact ⟨rfl, rfl, rfl, by simp [Run.at]⟩

theorem RunStep.rowIds_eq {d : DataPlane Bytes} {now : Timestamp} {db : Database}
    {store : Store Bytes} {run : Run} {op : RunOp Bytes} {e : Effect Bytes}
    (h : RunStep d now db store run op e) (hphase : run.phase ≠ .fenced) :
    rowIds e.db.snapshots = rowIds db.snapshots ∧ e.run.snapshotId = run.snapshotId := by
  cases h with
  | claimed phase claim => exact absurd phase hphase
  | hashing phase => exact ⟨rowIds_setHashing _ _, rfl⟩
  | prepared phase prepare =>
      unfold prepareSnapshotUpload at prepare
      split at prepare
      · cases prepare
        exact ⟨rowIds_setUploading _ _ _, rfl⟩
      · cases prepare
  | verifying phase => exact ⟨rowIds_setVerifying _ _, rfl⟩
  | committed phase finalize =>
      obtain ⟨-, rfl⟩ := finalizeBody_eq_ok_iff.mp finalize
      exact ⟨rowIds_finalized _ _ _, rfl⟩
  | marked phase => exact ⟨rowIds_markSnapshotError _ _ _ _, rfl⟩
  | _ => exact ⟨rfl, rfl⟩

theorem RunStep.of_fenced {d : DataPlane Bytes} {now : Timestamp} {db : Database}
    {store : Store Bytes} {run : Run} {op : RunOp Bytes} {e : Effect Bytes}
    (h : RunStep d now db store run op e) (hphase : run.phase = .fenced) :
    (∃ rows id, claimSnapshot now db.snapshots run.snapshotId run.problemId run.generation
        run.createdAt = (rows, some id) ∧
      e = ⟨{ db with snapshots := rows }, store,
        { run with snapshotId := id, phase := .claimed }⟩) ∨
    e = ⟨db, store, run.at .ended⟩ ∨ ∃ err, e = ⟨db, store, run.at (.rejected err)⟩ := by
  cases h with
  | claimed phase claim => exact .inl ⟨_, _, claim, rfl⟩
  | stopped stopping live => exact .inr (.inl rfl)
  | rejected phase claim load => exact .inr (.inr ⟨_, rfl⟩)
  | failed fallible live =>
      rw [hphase] at live
      cases live
  | _ => cases hphase.symm.trans ‹run.phase = _›

theorem RunStep.executing {d : DataPlane Bytes} {now : Timestamp} {db : Database}
    {store : Store Bytes} {run : Run} {op : RunOp Bytes} {e : Effect Bytes}
    (h : RunStep d now db store run op e) (hphase : run.phase ≠ .fenced) :
    run.phase.executing = true := by
  cases h with
  | claimed phase claim | rejected phase claim load => exact absurd phase hphase
  | failed fallible live =>
      revert live
      cases run.phase <;> simp [RunPhase.uploadStarted, RunPhase.executing]
  | stopped stopping live => exact live.resolve_right hphase
  | _ => rw [‹run.phase = _›]; rfl

theorem RunStep.rowIds_subset {d : DataPlane Bytes} {now : Timestamp} {db : Database}
    {store : Store Bytes} {run : Run} {op : RunOp Bytes} {e : Effect Bytes}
    (h : RunStep d now db store run op e) :
    ∀ a ∈ rowIds e.db.snapshots, a ∈ rowIds db.snapshots ∨
      run.phase = .fenced ∧ a = (run.snapshotId, run.problemId, run.generation) := by
  intro a ha
  by_cases hphase : run.phase = .fenced
  · rcases h.of_fenced hphase with ⟨rows, id, claim, rfl⟩ | rfl | ⟨err, rfl⟩
    · rcases claimSnapshot_cases claim with ⟨-, -, rfl⟩ | ⟨-, -, -, -, -, rfl⟩
      · rw [rowIds, List.map_append, List.mem_append] at ha
        rcases ha with ha | ha
        · exact .inl ha
        · exact .inr ⟨hphase, List.mem_singleton.mp ha⟩
      · rw [rowIds_updateWhere (by intro s; rfl)] at ha
        exact .inl ha
    · exact .inl ha
    · exact .inl ha
  · rw [(h.rowIds_eq hphase).1] at ha
    exact .inl ha

theorem RunStep.subset_rowIds {d : DataPlane Bytes} {now : Timestamp} {db : Database}
    {store : Store Bytes} {run : Run} {op : RunOp Bytes} {e : Effect Bytes}
    (h : RunStep d now db store run op e) :
    ∀ a ∈ rowIds db.snapshots, a ∈ rowIds e.db.snapshots := by
  intro a ha
  by_cases hphase : run.phase = .fenced
  · rcases h.of_fenced hphase with ⟨rows, id, claim, rfl⟩ | rfl | ⟨err, rfl⟩
    · rcases claimSnapshot_cases claim with ⟨-, -, rfl⟩ | ⟨-, -, -, -, -, rfl⟩
      · rw [rowIds, List.map_append]
        exact List.mem_append_left _ ha
      · rw [rowIds_updateWhere (by intro s; rfl)]
        exact ha
    · exact ha
    · exact ha
  · rw [(h.rowIds_eq hphase).1]
    exact ha

theorem claimSnapshot_mem_rowIds {now : Timestamp} {rows rows' : List SnapshotRow}
    {requestedId id : Uuid} {problemId : String} {generation : Int} {createdAt : Timestamp}
    (h : claimSnapshot now rows requestedId problemId generation createdAt = (rows', some id)) :
    (id, problemId, generation) ∈ rowIds rows' := by
  rcases claimSnapshot_cases h with ⟨rfl, -, rfl⟩ | ⟨s, hs, hfor, -, rfl, rfl⟩
  · rw [rowIds, List.map_append]
    exact List.mem_append_right _ List.mem_cons_self
  · obtain ⟨hproblem, hgeneration⟩ := SnapshotRow.isFor_iff.mp hfor
    rw [rowIds_updateWhere (by intro s; rfl), ← hproblem, ← hgeneration]
    exact mem_rowIds hs

def RunPhase.named : RunPhase → Bool
  | .fenced | .unowned _ | .rejected _ | .ended => false
  | _ => true

theorem RunPhase.named_of_executing {phase : RunPhase} (h : phase.executing = true) :
    phase.named = true := by
  cases phase <;> first | rfl | cases h

/-- A run keeps its id, or has claimed a row of its problem and generation that was
there. -/
theorem RunStep.snapshotId_cases {d : DataPlane Bytes} {now : Timestamp} {db : Database}
    {store : Store Bytes} {run : Run} {op : RunOp Bytes} {e : Effect Bytes}
    (h : RunStep d now db store run op e) :
    e.run.snapshotId = run.snapshotId ∨
      (e.run.snapshotId, run.problemId, run.generation) ∈ rowIds db.snapshots := by
  by_cases hphase : run.phase = .fenced
  · rcases h.of_fenced hphase with ⟨rows, id, claim, rfl⟩ | rfl | ⟨err, rfl⟩
    · rcases claimSnapshot_cases claim with ⟨rfl, -, -⟩ | ⟨s, hs, hfor, -, rfl, -⟩
      · exact .inl rfl
      · obtain ⟨hproblem, hgeneration⟩ := SnapshotRow.isFor_iff.mp hfor
        have hmem := mem_rowIds hs
        rw [hproblem, hgeneration] at hmem
        exact .inr hmem
    · exact .inl rfl
    · exact .inl rfl
  · exact .inl (h.rowIds_eq hphase).2

theorem RunStep.objects {d : DataPlane Bytes} {now : Timestamp} {db : Database}
    {store : Store Bytes} {run : Run} {op : RunOp Bytes} {e : Effect Bytes}
    (h : RunStep d now db store run op e) :
    ∀ o ∈ e.db.snapshotObjects, (run.phase ≠ .fenced ∧ o.snapshotId = run.snapshotId) ∨
      ∃ o₀ ∈ db.snapshotObjects, o₀.snapshotId = o.snapshotId := by
  intro o ho
  cases h with
  | cleaned phase => exact .inr ⟨o, (mem_deleteWhere.mp ho).1, rfl⟩
  | prepared phase prepare =>
      unfold prepareSnapshotUpload at prepare
      split at prepare
      · cases prepare
        rcases mem_upsertObjects ho with ⟨hold, -⟩ | hnew
        · exact .inr ⟨o, hold, rfl⟩
        · obtain ⟨f, -, rfl⟩ := List.mem_map.mp hnew
          exact .inl ⟨by simp [phase], rfl⟩
      · cases prepare
  | recorded phase inFlightAt stored record =>
      unfold recordUploaded at record
      split at record
      · cases record
        obtain ⟨o₀, ho₀, rfl⟩ := mem_updateWhere.mp ho
        refine .inr ⟨o₀, ho₀, ?_⟩
        split <;> rfl
      · cases record
  | committed phase finalize =>
      obtain ⟨-, rfl⟩ := finalizeBody_eq_ok_iff.mp finalize
      rcases mem_upsertObjects ho with ⟨hold, -⟩ | hnew
      · exact .inr ⟨o, hold, rfl⟩
      · obtain ⟨f, -, rfl⟩ := List.mem_map.mp hnew
        exact .inl ⟨by simp [phase], rfl⟩
  | _ => exact .inr ⟨o, ho, rfl⟩

/-! ## The invariant -/

structure Unnamed (w : World Bytes) (r : Nat) (id : Uuid) : Prop where
  rows : ∀ s ∈ w.db.snapshots, s.id ≠ id
  objects : ∀ o ∈ w.db.snapshotObjects, o.snapshotId ≠ id
  runs : ∀ (r' : Nat) (run' : Run), w.runs[r']? = some run' → r' ≠ r → run'.snapshotId ≠ id

structure Consistent (w : World Bytes) : Prop where
  keys : KeysUnique (rowIds w.db.snapshots)
  unclaimed : ∀ (r : Nat) (run : Run), w.runs[r]? = some run → run.phase = .fenced →
    Unnamed w r run.snapshotId
  named : ∀ (r : Nat) (run : Run), w.runs[r]? = some run → run.phase.named = true →
    ∀ s ∈ w.db.snapshots, s.id = run.snapshotId →
      s.problemId = run.problemId ∧ s.generation = run.generation
  accounted : ∀ (r : Nat) (run : Run), w.runs[r]? = some run → run.accounted
  owner : ∀ id o, w.owner id = some o →
    ∃ run : Run, w.runs[o]? = some run ∧ run.snapshotId = id ∧ run.phase ≠ .fenced

theorem getElem?_afterRun {w : World Bytes} {r i : Nat} {run : Run} {e : Effect Bytes}
    (hr : w.runs[r]? = some run) :
    (w.afterRun r run e).runs[i]? = if r = i then some e.run else w.runs[i]? := by
  obtain ⟨hlt, -⟩ := List.getElem?_eq_some_iff.mp hr
  simp only [World.afterRun, List.getElem?_set, hlt, if_true]

theorem keysUnique_claim {now : Timestamp} {rows rows' : List SnapshotRow}
    {requestedId id : Uuid} {problemId : String} {generation : Int} {createdAt : Timestamp}
    (hkeys : KeysUnique (rowIds rows)) (hfresh : ∀ s ∈ rows, s.id ≠ requestedId)
    (h : claimSnapshot now rows requestedId problemId generation createdAt = (rows', some id)) :
    KeysUnique (rowIds rows') := by
  rcases claimSnapshot_cases h with ⟨-, hnone, rfl⟩ | ⟨-, -, -, -, -, rfl⟩
  · have hold : ∀ a ∈ rowIds rows, a.1 ≠ requestedId ∧ a.2 ≠ (problemId, generation) := by
      intro a ha
      obtain ⟨s, hs, rfl⟩ := List.mem_map.mp ha
      refine ⟨hfresh s hs, ?_⟩
      intro heq
      have hfor : s.isFor problemId generation = true := by
        simpa [SnapshotRow.isFor_iff, rowId] using heq
      rw [hnone s hs] at hfor
      cases hfor
    have hids : rowIds (rows ++ [freshSnapshot requestedId problemId generation createdAt]) =
        rowIds rows ++ [(requestedId, problemId, generation)] := by
      rw [rowIds, List.map_append]
      rfl
    rw [hids]
    constructor
    · rw [List.map_append, List.map_singleton, ← List.concat_eq_append, List.nodup_concat]
      refine ⟨?_, hkeys.nodup⟩
      intro hmem
      obtain ⟨a, ha, heq⟩ := List.mem_map.mp hmem
      exact (hold a ha).1 heq
    · intro a ha b hb hab
      rcases List.mem_append.mp ha with ha | ha <;> rcases List.mem_append.mp hb with hb | hb
      · exact hkeys.generation a ha b hb hab
      · rw [List.mem_singleton.mp hb] at hab
        exact absurd hab (hold a ha).2
      · rw [List.mem_singleton.mp ha] at hab
        exact absurd hab.symm (hold b hb).2
      · rw [List.mem_singleton.mp ha, List.mem_singleton.mp hb]
  · rw [rowIds_updateWhere (by intro s; rfl)]
    exact hkeys

theorem consistent_run {d : DataPlane Bytes} {w : World Bytes} {r : Nat} {run : Run}
    {op : RunOp Bytes} {e : Effect Bytes} (hw : Consistent w) (hr : w.runs[r]? = some run)
    (h : RunStep d w.now w.db w.store run op e) : Consistent (w.afterRun r run e) := by
  obtain ⟨hproblem, hgeneration, -, hclaimed⟩ := h.kept
  -- The ids of runs that have not claimed are met by no statement of this run.
  have hother : ∀ i run', w.runs[i]? = some run' → r ≠ i → run.phase = .fenced →
      run'.snapshotId ≠ run.snapshotId := fun i run' hi hne hphase =>
    (hw.unclaimed r run hr hphase).runs i run' hi (Ne.symm hne)
  refine ⟨?_, ?_, ?_, ?_, ?_⟩
  · by_cases hphase : run.phase = .fenced
    · rcases h.of_fenced hphase with ⟨rows, id, claim, rfl⟩ | rfl | ⟨err, rfl⟩
      · exact keysUnique_claim hw.keys (hw.unclaimed r run hr hphase).rows claim
      · exact hw.keys
      · exact hw.keys
    · change KeysUnique (rowIds e.db.snapshots)
      rw [(h.rowIds_eq hphase).1]
      exact hw.keys
  · intro i run' hi hphase
    rw [getElem?_afterRun hr] at hi
    split at hi
    · cases hi
      exact absurd hphase hclaimed
    · rename_i hne
      have hunnamed := hw.unclaimed i run' hi hphase
      have hrun : run.snapshotId ≠ run'.snapshotId := hunnamed.runs r run hr hne
      refine ⟨?_, ?_, ?_⟩
      · intro s hs hid
        rcases h.rowIds_subset _ (mem_rowIds hs) with hold | ⟨-, heq⟩
        · obtain ⟨s₀, hs₀, hid₀, -⟩ := exists_of_mem_rowIds hold
          exact hunnamed.rows s₀ hs₀ (hid₀.trans hid)
        · exact hrun ((congrArg Prod.fst heq).symm.trans hid)
      · intro o ho hid
        rcases h.objects o ho with ⟨-, heq⟩ | ⟨o₀, ho₀, heq⟩
        · exact hrun (heq.symm.trans hid)
        · exact hunnamed.objects o₀ ho₀ (heq.trans hid)
      · intro j run'' hj hji
        rw [getElem?_afterRun hr] at hj
        split at hj
        · cases hj
          rcases h.snapshotId_cases with heq | hmem
          · rw [heq]
            exact hrun
          · obtain ⟨s, hs, hid, -⟩ := exists_of_mem_rowIds hmem
            rw [← hid]
            exact hunnamed.rows s hs
        · exact hunnamed.runs j run'' hj hji
  · intro i run' hi hnamed s hs hid
    rw [getElem?_afterRun hr] at hi
    have hold := h.rowIds_subset _ (mem_rowIds hs)
    split at hi
    · cases hi
      rw [hproblem, hgeneration]
      rcases hold with hold | ⟨-, heq⟩
      · rcases h.snapshotId_cases with heq | hmem
        · by_cases hphase : run.phase = .fenced
          · obtain ⟨s₀, hs₀, hid₀, -⟩ := exists_of_mem_rowIds hold
            exact absurd (hid₀.trans (hid.trans heq))
              ((hw.unclaimed r run hr hphase).rows s₀ hs₀)
          · obtain ⟨s₀, hs₀, hid₀, hp₀, hg₀⟩ := exists_of_mem_rowIds hold
            rw [← hp₀, ← hg₀]
            exact hw.named r run hr (RunPhase.named_of_executing (h.executing hphase)) s₀ hs₀
              (hid₀.trans (hid.trans heq))
        · have hkey := hw.keys.primary _ hold _ hmem hid
          exact Prod.mk.inj hkey
      · exact Prod.mk.inj (congrArg Prod.snd heq)
    · rename_i hne
      rcases hold with hold | ⟨hphase, heq⟩
      · obtain ⟨s₀, hs₀, hid₀, hp₀, hg₀⟩ := exists_of_mem_rowIds hold
        rw [← hp₀, ← hg₀]
        exact hw.named i run' hi hnamed s₀ hs₀ (hid₀.trans hid)
      · exact absurd (hid.symm.trans (congrArg Prod.fst heq)) (hother i run' hi hne hphase)
  · intro i run' hi
    rw [getElem?_afterRun hr] at hi
    split at hi
    · cases hi
      exact h.accounted (hw.accounted r run hr)
    · exact hw.accounted i run' hi
  · intro id o ho
    rw [getElem?_afterRun hr]
    change ownerAfter w.owner r run e.run id = some o at ho
    unfold ownerAfter at ho
    have hold : w.owner id = some o → ∃ run', (if r = o then some e.run else w.runs[o]?) =
        some run' ∧ run'.snapshotId = id ∧ run'.phase ≠ .fenced := by
      intro ho
      obtain ⟨run', ho', hid, hphase⟩ := hw.owner id o ho
      split
      · rename_i heq
        subst heq
        obtain rfl : run = run' := Option.some.inj (hr.symm.trans ho')
        exact ⟨e.run, rfl, (h.rowIds_eq hphase).2.trans hid, hclaimed⟩
      · exact ⟨run', ho', hid, hphase⟩
    split at ho
    · by_cases hid : id = e.run.snapshotId
      · subst hid
        rw [Function.update_self] at ho
        obtain rfl : r = o := Option.some.inj ho
        exact ⟨e.run, if_pos rfl, rfl, hclaimed⟩
      · rw [Function.update_of_ne hid] at ho
        exact hold ho
    · exact hold ho

theorem consistent_of_sublist {w w' : World Bytes} (hw : Consistent w)
    (hids : (rowIds w'.db.snapshots).Sublist (rowIds w.db.snapshots))
    (hobjects : ∀ o ∈ w'.db.snapshotObjects, o ∈ w.db.snapshotObjects)
    (hruns : w'.runs = w.runs) (howner : w'.owner = w.owner) : Consistent w' := by
  have hrow : ∀ s ∈ w'.db.snapshots, ∃ s₀ ∈ w.db.snapshots,
      s₀.id = s.id ∧ s₀.problemId = s.problemId ∧ s₀.generation = s.generation :=
    fun s hs => exists_of_mem_rowIds (hids.subset (mem_rowIds hs))
  refine ⟨hw.keys.sublist hids, ?_, ?_, ?_, ?_⟩
  · intro r run hr hphase
    rw [hruns] at hr
    have hunnamed := hw.unclaimed r run hr hphase
    refine ⟨?_, ?_, ?_⟩
    · intro s hs
      obtain ⟨s₀, hs₀, hid, -⟩ := hrow s hs
      rw [← hid]
      exact hunnamed.rows s₀ hs₀
    · exact fun o ho => hunnamed.objects o (hobjects o ho)
    · rw [hruns]
      exact hunnamed.runs
  · intro r run hr hnamed s hs hid
    rw [hruns] at hr
    obtain ⟨s₀, hs₀, hid₀, hp, hg⟩ := hrow s hs
    rw [← hp, ← hg]
    exact hw.named r run hr hnamed s₀ hs₀ (hid₀.trans hid)
  · intro r run hr
    rw [hruns] at hr
    exact hw.accounted r run hr
  · intro id o ho
    rw [howner] at ho
    rw [hruns]
    exact hw.owner id o ho

theorem getElem?_begin {runs : List Run} {run run' : Run} {i : Nat}
    (hi : (runs ++ [run])[i]? = some run') :
    runs[i]? = some run' ∨ i = runs.length ∧ run' = run := by
  by_cases hlt : i < runs.length
  · rw [List.getElem?_append_left hlt] at hi
    exact .inl hi
  · rw [List.getElem?_append_right (by omega), List.getElem?_singleton] at hi
    split at hi
    · exact .inr ⟨by omega, (Option.some.inj hi).symm⟩
    · cases hi

theorem consistent_begin {w : World Bytes} {run : Run} (hw : Consistent w)
    (hfresh : w.freshId run.snapshotId = true) (hphase : run.phase = .fenced) :
    Consistent { w with runs := w.runs ++ [run] } := by
  simp only [World.freshId, Bool.and_eq_true, List.all_eq_true, decide_eq_true_eq] at hfresh
  obtain ⟨⟨hrows, hobjects⟩, hruns⟩ := hfresh
  refine ⟨hw.keys, ?_, ?_, ?_, ?_⟩
  · intro i run' hi hphase'
    rcases getElem?_begin hi with hi | ⟨rfl, rfl⟩
    · have hunnamed := hw.unclaimed i run' hi hphase'
      refine ⟨hunnamed.rows, hunnamed.objects, ?_⟩
      intro j run'' hj hji
      rcases getElem?_begin hj with hj | ⟨-, heq⟩
      · exact hunnamed.runs j run'' hj hji
      · rw [heq]
        exact Ne.symm (hruns run' (List.mem_of_getElem? hi))
    · refine ⟨hrows, hobjects, ?_⟩
      intro j run'' hj hji
      rcases getElem?_begin hj with hj | ⟨hj, -⟩
      · exact hruns run'' (List.mem_of_getElem? hj)
      · exact absurd hj hji
  · intro i run' hi hnamed
    rcases getElem?_begin hi with hi | ⟨-, rfl⟩
    · exact hw.named i run' hi hnamed
    · rw [hphase] at hnamed
      cases hnamed
  · intro i run' hi
    rcases getElem?_begin hi with hi | ⟨-, rfl⟩
    · exact hw.accounted i run' hi
    · simp only [Run.accounted, hphase]
  · intro id o ho
    obtain ⟨run', hi, hid, hphase'⟩ := hw.owner id o ho
    refine ⟨run', ?_, hid, hphase'⟩
    rw [List.getElem?_append_left (List.getElem?_eq_some_iff.mp hi).1]
    exact hi

theorem consistent_step {d : DataPlane Bytes} {w w' : World Bytes} {a : Action Bytes}
    (hw : Consistent w) (h : step d w a = some w') : Consistent w' := by
  cases a with
  | begin id problemId generation token version scan =>
      obtain ⟨hfresh, -, rfl⟩ := step_begin h
      exact consistent_begin hw hfresh rfl
  | run r op =>
      obtain ⟨run, e, hr, -, hstep, rfl⟩ := step_run h
      exact consistent_run hw hr hstep
  | gcList id token =>
      obtain ⟨m, -, rfl⟩ := step_gcList h
      exact consistent_of_sublist hw (List.Sublist.refl _) (fun _ ho => ho) rfl rfl
  | gc g op =>
      obtain ⟨worker, e, -, -, hgc, rfl⟩ := step_gc h
      obtain ⟨hrows, hobjects, -⟩ := gcStep_rows hgc
      exact consistent_of_sublist hw (by simp [hrows]) (by simp [hobjects]) rfl rfl
  | retention ids =>
      cases h
      exact consistent_of_sublist hw (List.filter_sublist.map _)
        (fun o ho => (mem_deleteWhere.mp ho).1) rfl rfl
  | failStalled =>
      cases h
      exact consistent_of_sublist hw (by simp) (fun _ ho => ho) rfl rfl
  | tick elapsed =>
      cases h
      exact consistent_of_sublist hw (List.Sublist.refl _) (fun _ ho => ho) rfl rfl
  | external tables =>
      cases h
      exact consistent_of_sublist hw (List.Sublist.refl _) (fun _ ho => ho) rfl rfl

/-- A world in which no run has begun, over a database that meets its unique keys. -/
structure Initial (w : World Bytes) : Prop where
  keys : KeysUnique (rowIds w.db.snapshots)
  runs : w.runs = []
  workers : w.workers = []
  owner : ∀ id, w.owner id = none

theorem consistent_initial {w : World Bytes} (hw : Initial w) : Consistent w := by
  refine ⟨hw.keys, ?_, ?_, ?_, ?_⟩
  · intro r run hr
    simp [hw.runs] at hr
  · intro r run hr
    simp [hw.runs] at hr
  · intro r run hr
    simp [hw.runs] at hr
  · intro id o ho
    simp [hw.owner] at ho

end ExternalStorage.Snapshot
