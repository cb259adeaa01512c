import ExternalStorage.Snapshot.Consistency
import ExternalStorage.Snapshot.Lifecycle

/-!
# What a step of a run leaves alone

A run writes the objects of its own row, content objects and its own manifest, and
makes no row READY but its own.
-/

namespace ExternalStorage.Snapshot

open ExternalStorage.Model Library.Runs Library.Table

variable {Bytes : Type}

theorem mem_readyRows_of_update {p : SnapshotRow → Bool} {f : SnapshotRow → SnapshotRow}
    {rows : List SnapshotRow} (hf : ∀ s, (f s).state ≠ .ready) {s : SnapshotRow}
    (hs : s ∈ readyRows (updateWhere p f rows)) : s ∈ readyRows rows := by
  obtain ⟨hmem, hready⟩ := mem_readyRows.mp hs
  obtain ⟨s₀, hs₀, rfl⟩ := mem_updateWhere.mp hmem
  split at hready
  · exact absurd hready (hf s₀)
  · rename_i hp
    rw [if_neg hp]
    exact mem_readyRows.mpr ⟨hs₀, hready⟩

theorem mem_readyRows_finalized {now : Timestamp} {a : FinalizeArgs} {db : Database}
    {s : SnapshotRow} (hs : s ∈ readyRows (finalized now a db).snapshots) :
    s ∈ readyRows db.snapshots ∨ s.id = a.snapshotId := by
  obtain ⟨hmem, hready⟩ := mem_readyRows.mp hs
  rw [finalized_snapshots] at hmem
  obtain ⟨s₀, hs₀, rfl⟩ := mem_updateWhere.mp hmem
  split
  · rename_i hfinal
    exact .inr (finalizable_iff.mp hfinal).1
  · rename_i hfinal
    rw [if_neg hfinal] at hready
    left
    refine mem_readyRows_of_update ?_ (mem_readyRows.mpr ⟨hs₀, hready⟩)
    intro t
    simp

theorem RunStep.ready {d : DataPlane Bytes} {now : Timestamp} {db : Database}
    {store : Store Bytes} {run : Run} {op : RunOp Bytes} {e : Effect Bytes}
    (h : RunStep d now db store run op e) {s : SnapshotRow} (hs : s ∈ readyRows e.db.snapshots) :
    s ∈ readyRows db.snapshots ∨
      s.id = run.snapshotId ∧ ∃ m, op = .commit ∧ run.phase = .checked m ∧
        FinalizeAdmitted now (run.finalizeArgs m) db := by
  cases h with
  | hashing phase => exact .inl (mem_readyRows_of_update (by intro t; simp) hs)
  | committed phase finalize =>
      obtain ⟨hadm, rfl⟩ := finalizeBody_eq_ok_iff.mp finalize
      rcases mem_readyRows_finalized hs with hold | hid
      · exact .inl hold
      · exact .inr ⟨hid, _, rfl, phase, hadm⟩
  | claimed phase claim =>
      rw [readyRows_claimSnapshot claim] at hs
      exact .inl hs
  | prepared phase prepare =>
      rw [readyRows_prepare prepare] at hs
      exact .inl hs
  | verifying phase =>
      rw [readyRows_setVerifying] at hs
      exact .inl hs
  | marked phase =>
      rw [readyRows_markSnapshotError] at hs
      exact .inl hs
  | _ => exact .inl hs

theorem RunStep.objects_other {d : DataPlane Bytes} {now : Timestamp} {db : Database}
    {store : Store Bytes} {run : Run} {op : RunOp Bytes} {e : Effect Bytes}
    (h : RunStep d now db store run op e) {o : SnapshotObjectRow}
    (hid : o.snapshotId ≠ run.snapshotId) :
    o ∈ e.db.snapshotObjects ↔ o ∈ db.snapshotObjects := by
  have hupsert : ∀ news : List SnapshotObjectRow, (∀ new ∈ news, new.snapshotId = run.snapshotId) →
      (o ∈ upsertObjects news db.snapshotObjects ↔ o ∈ db.snapshotObjects) := by
    intro news hnews
    constructor
    · intro ho
      rcases mem_upsertObjects ho with ⟨hold, -⟩ | hnew
      · exact hold
      · exact absurd (hnews o hnew) hid
    · intro ho
      refine mem_upsertAll_of_untouched ho fun new hnew hkey => hid ?_
      rw [← hnews new hnew]
      exact congrArg Prod.fst hkey
  cases h with
  | cleaned phase =>
      change o ∈ deleteSnapshotObjects _ _ ↔ _
      rw [deleteSnapshotObjects, mem_deleteWhere]
      exact and_iff_left (decide_eq_false hid)
  | prepared phase prepare =>
      unfold prepareSnapshotUpload at prepare
      split at prepare
      · cases prepare
        exact hupsert _ (by simp [FileEntry.claimRow])
      · cases prepare
  | recorded phase inFlightAt stored record =>
      unfold recordUploaded at record
      split at record
      · cases record
        have hnot : ∀ o' : SnapshotObjectRow, ∀ path, o'.snapshotId ≠ run.snapshotId →
            ¬ o'.isAt run.snapshotId path = true := by
          intro o' path hne
          simp [SnapshotObjectRow.isAt, hne]
        change o ∈ updateWhere _ _ _ ↔ _
        rw [mem_updateWhere]
        constructor
        · rintro ⟨o₀, ho₀, rfl⟩
          split at hid
          · rename_i hat
            simp only [SnapshotObjectRow.isAt, Bool.and_eq_true, decide_eq_true_eq] at hat
            exact absurd hat.1 hid
          · rename_i hat
            rw [if_neg hat]
            exact ho₀
        · intro ho
          exact ⟨o, ho, (if_neg (hnot o _ hid)).symm⟩
      · cases record
  | committed phase finalize =>
      obtain ⟨-, rfl⟩ := finalizeBody_eq_ok_iff.mp finalize
      exact hupsert _ (by simp [ManifestFile.verifiedRow, Run.finalizeArgs])
  | _ => rfl

/-- The manifest at a key changes only when a run of its problem and generation
overwrites it. -/
theorem RunStep.manifest {d : DataPlane Bytes} {now : Timestamp} {db : Database}
    {store : Store Bytes} {run : Run} {op : RunOp Bytes} {e : Effect Bytes}
    (h : RunStep d now db store run op e) (problemId : String) (generation : Int) :
    e.store (manifestKey problemId generation) = store (manifestKey problemId generation) ∨
      op = .putManifest ∧ run.problemId = problemId ∧ run.generation = generation := by
  cases h with
  | @task canonical pending inFlight uploaded i op t t' store' phase inFlightAt taken =>
      left
      have hne : manifestKey problemId generation ≠ t.objectKey := manifestKey_ne_objectKey _ _ _
      cases taskStep_cases taken with
      | @put bytes phase => exact Function.update_of_ne hne (some bytes) store
      | _ => rfl
  | published phase =>
      by_cases hkey : manifestKey problemId generation = run.manifestKey
      · obtain ⟨hp, hg⟩ := manifestKey_injective hkey
        exact .inr ⟨rfl, hp.symm, hg.symm⟩
      · exact .inl (Function.update_of_ne hkey (some _) store)
  | _ => exact .inl rfl

theorem RunStep.store_mono {d : DataPlane Bytes} {now : Timestamp} {db : Database}
    {store : Store Bytes} {run : Run} {op : RunOp Bytes} {e : Effect Bytes}
    (h : RunStep d now db store run op e) {key : String} (hkey : (store key).isSome = true) :
    (e.store key).isSome = true := by
  have hupdate : ∀ (other : String) (bytes : Bytes),
      (Function.update store other (some bytes) key).isSome = true := by
    intro other bytes
    by_cases heq : key = other
    · rw [heq, Function.update_self]
      rfl
    · rw [Function.update_of_ne heq]
      exact hkey
  cases h with
  | task phase inFlightAt taken =>
      cases taskStep_cases taken with
      | put phase => exact hupdate _ _
      | _ => exact hkey
  | published phase => exact hupdate _ _
  | _ => exact hkey

theorem RunStep.rows_other {d : DataPlane Bytes} {now : Timestamp} {db : Database}
    {store : Store Bytes} {run : Run} {op : RunOp Bytes} {e : Effect Bytes}
    (h : RunStep d now db store run op e) (hkeys : KeysUnique (rowIds db.snapshots))
    {s : SnapshotRow} (hs : s ∈ e.db.snapshots) (hid : s.id ≠ e.run.snapshotId) :
    s ∈ db.snapshots ∨ s.state = .superseded ∧
      ∃ s₀ ∈ db.snapshots, s₀.id = s.id ∧ s₀.state = .ready := by
  have hupdate : ∀ {p : SnapshotRow → Bool} {f : SnapshotRow → SnapshotRow},
      (∀ t, p t = true → t.id = run.snapshotId) → (∀ t, (f t).id = t.id) →
        e.run.snapshotId = run.snapshotId → s ∈ updateWhere p f db.snapshots →
          s ∈ db.snapshots := by
    intro p f hp hf hsame hmem
    obtain ⟨t, ht, rfl⟩ := mem_updateWhere.mp hmem
    split
    · rename_i hpt
      rw [if_pos hpt, hsame] at hid
      exact absurd ((hf t).trans (hp t hpt)) hid
    · exact ht
  cases h with
  | @claimed rows id phase claim =>
      left
      rcases claimSnapshot_cases claim with ⟨rfl, -, rfl⟩ | ⟨t, ht, hfor, -, rfl, rfl⟩
      · rcases List.mem_append.mp hs with hold | hnew
        · exact hold
        · rw [List.mem_singleton.mp hnew] at hid
          exact absurd rfl hid
      · obtain ⟨u, hu, rfl⟩ := mem_updateWhere.mp hs
        split
        · rename_i hupdated
          simp only [Bool.and_eq_true] at hupdated
          rw [if_pos (by simpa using hupdated)] at hid
          refine absurd (hkeys.generation _ (mem_rowIds hu) _ (mem_rowIds ht) ?_) hid
          rw [(SnapshotRow.isFor_iff.mp hupdated.1).1, (SnapshotRow.isFor_iff.mp hupdated.1).2,
            (SnapshotRow.isFor_iff.mp hfor).1, (SnapshotRow.isFor_iff.mp hfor).2]
        · exact hu
  | hashing phase =>
      exact .inl (hupdate (fun t ht => of_decide_eq_true ht) (by intro t; rfl) rfl hs)
  | prepared phase prepare =>
      unfold prepareSnapshotUpload at prepare
      split at prepare
      · cases prepare
        refine .inl (hupdate ?_ (by intro t; rfl) rfl hs)
        intro t ht
        simp only [Bool.and_eq_true, decide_eq_true_eq] at ht
        exact ht.1
      · cases prepare
  | verifying phase =>
      refine .inl (hupdate ?_ (by intro t; rfl) rfl hs)
      intro t ht
      simp only [Bool.and_eq_true, decide_eq_true_eq] at ht
      exact ht.1
  | marked phase =>
      refine .inl (hupdate ?_ (by intro t; rfl) rfl hs)
      intro t ht
      simp only [Bool.and_eq_true, decide_eq_true_eq] at ht
      exact ht.1
  | committed phase finalize =>
      obtain ⟨-, rfl⟩ := finalizeBody_eq_ok_iff.mp finalize
      obtain ⟨t, ht, rfl⟩ := mem_updateWhere.mp hs
      split
      · rename_i hfinal
        rw [if_pos hfinal] at hid
        exact absurd (finalizable_iff.mp hfinal).1 hid
      · obtain ⟨u, hu, rfl⟩ := mem_updateWhere.mp ht
        split
        · rename_i hstale
          simp only [Bool.and_eq_true, decide_eq_true_eq] at hstale
          exact .inr ⟨rfl, u, hu, rfl, hstale.1.2⟩
        · exact .inl hu
  | _ => exact .inl hs

end ExternalStorage.Snapshot
