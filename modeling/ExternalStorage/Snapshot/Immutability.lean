import ExternalStorage.Snapshot.Frames
import ExternalStorage.Snapshot.Supersession

/-!
# READY snapshots are immutable

The manifest of a READY row stays the one its run wrote, and lists the objects of
the row, as long as runs that have lost the row to a newer claim stay away from it.
The invariant follows the owner of each row through its phases.
-/

namespace ExternalStorage.Snapshot

open ExternalStorage.Model Library.Runs Library.Table

variable {Bytes : Type}

/-! ## Statements -/

def Action.runsOnly : Action Bytes → Bool
  | .retention _ | .gcList .. | .gc .. => false
  | _ => true

def World.rowReady (w : World Bytes) (id : Uuid) : Prop :=
  ∃ s ∈ w.db.snapshots, s.id = id ∧ s.state = .ready

/-- What a manifest and `snapshot_objects` both say of a file. -/
def objectTriple (o : SnapshotObjectRow) : String × String × String :=
  (o.relPath, o.sha256, o.objectKey)

def fileTriple (f : ManifestFile) : String × String × String := (f.path, f.sha256, f.objectKey)

/-- The manifest lists exactly the triples of the row's objects. -/
def Lists (m : Manifest) (id : Uuid) (objects : List SnapshotObjectRow) : Prop :=
  ∀ t, (∃ f ∈ m.files, fileTriple f = t) ↔
    ∃ o ∈ objects, o.snapshotId = id ∧ objectTriple o = t

def PathsAgree (files : List FileEntry) : Prop :=
  ∀ f ∈ files, ∀ g ∈ files, f.path = g.path → f.sha256 = g.sha256

def RunPhase.manifestOut : RunPhase → Option Manifest
  | .published m | .finalizing m | .checked m => some m
  | _ => none

/-- A statement of a superseded run keeps off the row: it does not pass the CAS of
`prepare_snapshot_upload` or `finalize_snapshot_cas`, does not overwrite the manifest
after the owner has, and leaves the objects of a READY row alone. -/
def KeepsOff (w : World Bytes) (run : Run) (op : RunOp Bytes) : Prop :=
  match op, run.phase with
  | .prepare initYml, _ => canonicalDownloadPath initYml run.scan.files = none ∨
      w.db.snapshots.countP (fun s => s.id = run.snapshotId && s.state = .hashing) ≠ 1
  | .commit, .checked m => ¬ FinalizeAdmitted w.now (run.finalizeArgs m) w.db
  | .putManifest, _ => ¬ w.rowReady run.snapshotId ∧ ∀ o ∈ w.owner run.snapshotId,
      ∀ owner ∈ w.runs[o]?, owner.phase.manifestOut = none
  | .cleanup, _ => ¬ w.rowReady run.snapshotId
  | .record i, .uploading _ _ inFlight _ => w.rowReady run.snapshotId → ∀ t ∈ inFlight[i]?,
      ∀ o ∈ w.db.snapshotObjects, o.isAt run.snapshotId t.file.path = true →
        objectTriple (t.file.storedRow o) = objectTriple o
  | _, _ => True

/-- Scans name each path once, and superseded runs keep off the row. -/
def Undisputed (w : World Bytes) (a : Action Bytes) (_ : World Bytes) : Prop :=
  match a with
  | .begin _ _ _ _ _ scan => PathsAgree scan.files
  | .run r op => ∀ run ∈ w.runs[r]?, w.superseded r run → KeepsOff w run op
  | _ => True

instance (w : World Bytes) (id : Uuid) : Decidable (w.rowReady id) :=
  inferInstanceAs (Decidable (∃ s ∈ w.db.snapshots, s.id = id ∧ s.state = .ready))

instance (w : World Bytes) (r : Nat) (run : Run) : Decidable (w.superseded r run) :=
  inferInstanceAs (Decidable (_ ∧ ∃ o ∈ w.owner run.snapshotId, o ≠ r))

instance (files : List FileEntry) : Decidable (PathsAgree files) :=
  inferInstanceAs (Decidable (∀ f ∈ files, ∀ g ∈ files, f.path = g.path → f.sha256 = g.sha256))

instance (w : World Bytes) (run : Run) (op : RunOp Bytes) : Decidable (KeepsOff w run op) := by
  unfold KeepsOff
  generalize run.phase = phase
  obtain _ | _ := op <;> obtain _ | _ := phase <;> infer_instance

instance (w : World Bytes) (a : Action Bytes) (w' : World Bytes) :
    Decidable (Undisputed w a w') := by
  unfold Undisputed
  obtain _ | _ := a <;> infer_instance

/-! ## The invariant -/

/-- The claims of the run are in `snapshot_objects`. -/
def RunPhase.prepared : RunPhase → Bool
  | .uploading .. | .verifying _ | .published _ | .finalizing _ | .checked _ => true
  | _ => false

structure OwnerInv (d : DataPlane Bytes) (w : World Bytes) (run : Run) : Prop where
  bare : run.phase = .cleaned ∨ run.phase = .hashing →
    ∀ o ∈ w.db.snapshotObjects, o.snapshotId ≠ run.snapshotId
  covered : run.phase.prepared = true →
    ∀ o ∈ w.db.snapshotObjects, o.snapshotId = run.snapshotId →
      ∃ f ∈ run.scan.files, f.path = o.relPath
  stored : ∀ m, run.phase.manifestOut = some m →
    w.store run.manifestKey = some (d.manifestToVec m)
  committed : ∀ m, run.phase = .committed m → w.rowReady run.snapshotId →
    w.store run.manifestKey = some (d.manifestToVec m) ∧
      Lists m run.snapshotId w.db.snapshotObjects

structure ImmutabilityInv (d : DataPlane Bytes) (w : World Bytes) : Prop where
  consistent : Consistent w
  /-- No row of a run has gone. -/
  rooted : ∀ (r : Nat) (run : Run), w.runs[r]? = some run → run.phase.named = true →
    (run.snapshotId, run.problemId, run.generation) ∈ rowIds w.db.snapshots
  hasOwner : ∀ (r : Nat) (run : Run), w.runs[r]? = some run → run.phase.named = true →
    ∃ o, w.owner run.snapshotId = some o
  agree : ∀ (r : Nat) (run : Run), w.runs[r]? = some run → PathsAgree run.scan.files
  owner : ∀ (r : Nat) (run : Run), w.runs[r]? = some run → w.owner run.snapshotId = some r →
    OwnerInv d w run

/-! ## Publication -/

/-- After the upserts of `finalize_snapshot_cas` the row's objects are those of the
manifest. -/
theorem lists_finalized {m : Manifest} {files : List FileEntry} {snapshotId : Uuid}
    {objects : List SnapshotObjectRow} (hagree : PathsAgree files)
    (hfiles : m.files.Perm (files.map FileEntry.toManifestFile))
    (hcovered : ∀ o ∈ objects, o.snapshotId = snapshotId → ∃ f ∈ files, f.path = o.relPath) :
    Lists m snapshotId (upsertObjects (m.files.map (ManifestFile.verifiedRow snapshotId)) objects) := by
  have hmem : ∀ g, g ∈ m.files ↔ ∃ f ∈ files, f.toManifestFile = g := by
    intro g
    rw [hfiles.mem_iff, List.mem_map]
  intro t
  constructor
  · rintro ⟨g, hg, rfl⟩
    have hmerge : MergesTo SnapshotObjectRow.key objectTriple id SnapshotObjectRow.overwrite := by
      intro new o hkey
      obtain ⟨hkey', hrow⟩ := overwrite_mergesTo new o hkey
      exact ⟨hkey', congrArg objectTriple hrow⟩
    have hview : ∀ a ∈ m.files.map (ManifestFile.verifiedRow snapshotId),
        ∀ b ∈ m.files.map (ManifestFile.verifiedRow snapshotId),
          a.key = b.key → objectTriple a = objectTriple b := by
      intro a ha b hb hkey
      obtain ⟨ga, hga, rfl⟩ := List.mem_map.mp ha
      obtain ⟨gb, hgb, rfl⟩ := List.mem_map.mp hb
      obtain ⟨fa, hfa, rfl⟩ := (hmem ga).mp hga
      obtain ⟨fb, hfb, rfl⟩ := (hmem gb).mp hgb
      have hpath : fa.path = fb.path := congrArg Prod.snd hkey
      have hsha := hagree fa hfa fb hfb hpath
      simp only [objectTriple, ManifestFile.verifiedRow, FileEntry.toManifestFile, hpath, hsha]
    obtain ⟨o, ho, hkey, htriple⟩ :=
      exists_mem_upsertAll hmerge hview (List.mem_map_of_mem hg)
    exact ⟨o, ho, congrArg Prod.fst hkey, htriple⟩
  · rintro ⟨o, ho, hid, rfl⟩
    rcases mem_upsertObjects ho with ⟨hold, huntouched⟩ | hnew
    · obtain ⟨f, hf, hpath⟩ := hcovered o hold hid
      have hg : f.toManifestFile ∈ m.files := (hmem _).mpr ⟨f, hf, rfl⟩
      refine absurd ?_ (huntouched _ (List.mem_map_of_mem hg))
      simp only [SnapshotObjectRow.key, hid, ← hpath]
      rfl
    · obtain ⟨g, hg, rfl⟩ := List.mem_map.mp hnew
      exact ⟨g, hg, rfl⟩

/-! ## The owner's own steps -/

/-- A run that has not reached its cleanup, or has failed, relies on nothing. -/
theorem ownerInv_idle {d : DataPlane Bytes} {w : World Bytes} {run : Run}
    (h : run.phase.named = false ∨ run.phase = .claimed ∨ ∃ e, run.phase = .failing e) :
    OwnerInv d w run := by
  cases hphase : run.phase
  all_goals
    constructor
    all_goals simp_all [RunPhase.named, RunPhase.prepared, RunPhase.manifestOut]

/-- The owner's claims cover the table while only its own paths are there. -/
theorem ownerInv_uploading {d : DataPlane Bytes} {w : World Bytes} {run : Run}
    (hprepared : run.phase.prepared = true) (hout : run.phase.manifestOut = none)
    (hcovered : ∀ o ∈ w.db.snapshotObjects, o.snapshotId = run.snapshotId →
      ∃ f ∈ run.scan.files, f.path = o.relPath) : OwnerInv d w run := by
  refine ⟨?_, fun _ => hcovered, ?_, ?_⟩
  · rintro (hphase | hphase) <;> simp [hphase, RunPhase.prepared] at hprepared
  · intro m hm
    rw [hout] at hm
    cases hm
  · intro m hphase
    simp [hphase, RunPhase.prepared] at hprepared

theorem ownerInv_out {d : DataPlane Bytes} {w : World Bytes} {run : Run} {m : Manifest}
    (hprepared : run.phase.prepared = true) (hout : run.phase.manifestOut = some m)
    (hcovered : ∀ o ∈ w.db.snapshotObjects, o.snapshotId = run.snapshotId →
      ∃ f ∈ run.scan.files, f.path = o.relPath)
    (hstored : w.store run.manifestKey = some (d.manifestToVec m)) : OwnerInv d w run := by
  refine ⟨?_, fun _ => hcovered, ?_, ?_⟩
  · rintro (hphase | hphase) <;> simp [hphase, RunPhase.prepared] at hprepared
  · intro m' hm'
    obtain rfl : m = m' := Option.some.inj (hout.symm.trans hm')
    exact hstored
  · intro m' hphase
    simp [hphase, RunPhase.prepared] at hprepared

theorem ownerInv_own {d : DataPlane Bytes} {w : World Bytes} {r : Nat} {run : Run}
    {op : RunOp Bytes} {e : Effect Bytes} (hagree : PathsAgree run.scan.files)
    (haccounted : run.accounted) (hinv : OwnerInv d w run)
    (h : RunStep d w.now w.db w.store run op e) :
    OwnerInv d (w.afterRun r run e) e.run := by
  cases h with
  | claimed phase claim => exact ownerInv_idle (.inr (.inl rfl))
  | cleaned phase =>
      refine ⟨?_, by simp [Run.at, RunPhase.prepared], by simp [Run.at, RunPhase.manifestOut],
        by simp [Run.at]⟩
      intro _ o ho
      exact of_decide_eq_false (mem_deleteWhere.mp ho).2
  | hashing phase =>
      refine ⟨?_, by simp [Run.at, RunPhase.prepared], by simp [Run.at, RunPhase.manifestOut],
        by simp [Run.at]⟩
      exact fun _ => hinv.bare (.inl phase)
  | prepared phase prepare =>
      refine ownerInv_uploading rfl rfl ?_
      intro o ho hid
      unfold prepareSnapshotUpload at prepare
      split at prepare
      · cases prepare
        rcases mem_upsertObjects ho with ⟨hold, -⟩ | hnew
        · exact absurd hid (hinv.bare (.inr phase) o hold)
        · obtain ⟨f, hf, rfl⟩ := List.mem_map.mp hnew
          exact ⟨f, hf, rfl⟩
      · cases prepare
  | started phase | task phase _ _ =>
      exact ownerInv_uploading rfl rfl (hinv.covered (by rw [phase]; rfl))
  | recorded phase inFlightAt stored record =>
      refine ownerInv_uploading rfl rfl ?_
      intro o ho hid
      obtain ⟨g, rfl, hg⟩ := recordUploaded_eq_ok record
      obtain ⟨o₀, ho₀, rfl⟩ := List.mem_map.mp ho
      rw [(hg o₀).1] at hid
      rw [(hg o₀).2.1]
      exact hinv.covered (by rw [phase]; rfl) o₀ ho₀ hid
  | verifying phase =>
      exact ownerInv_uploading rfl rfl (hinv.covered (by rw [phase]; rfl))
  | published phase =>
      exact ownerInv_out rfl rfl (hinv.covered (by rw [phase]; rfl)) (Function.update_self ..)
  | verified phase _ | checked phase _ =>
      exact ownerInv_out rfl rfl (hinv.covered (by rw [phase]; rfl))
        (hinv.stored _ (by rw [phase]; rfl))
  | @committed m db' phase finalize =>
      obtain ⟨-, rfl⟩ := finalizeBody_eq_ok_iff.mp finalize
      refine ⟨by simp [Run.at], by simp [Run.at, RunPhase.prepared],
        by simp [Run.at, RunPhase.manifestOut], ?_⟩
      intro m' hm' _
      obtain rfl : m = m' := by simpa [Run.at] using hm'
      refine ⟨hinv.stored m (by rw [phase]; rfl), ?_⟩
      rw [Run.accounted, phase] at haccounted
      exact lists_finalized hagree haccounted (hinv.covered (by rw [phase]; rfl))
  | marked | rejected | stopped => exact ownerInv_idle (.inl rfl)
  | prepareFailed | archiveless | recordFailed | commitFailed | failed =>
      exact ownerInv_idle (.inr (.inr ⟨_, rfl⟩))

/-! ## Steps of other runs -/

/-- Nothing an owner relies on changes: its objects, its manifest and, if it has
committed, whether its row is READY. -/
theorem ownerInv_frame {d : DataPlane Bytes} {w w' : World Bytes} {run : Run}
    (hinv : OwnerInv d w run)
    (hobjects : ∀ o, o.snapshotId = run.snapshotId →
      (o ∈ w'.db.snapshotObjects ↔ o ∈ w.db.snapshotObjects))
    (hstore : w'.store run.manifestKey = w.store run.manifestKey)
    (hready : w'.rowReady run.snapshotId → w.rowReady run.snapshotId) : OwnerInv d w' run := by
  refine ⟨?_, ?_, ?_, ?_⟩
  · intro hphase o ho hid
    exact hinv.bare hphase o ((hobjects o hid).mp ho) hid
  · intro hphase o ho hid
    exact hinv.covered hphase o ((hobjects o hid).mp ho) hid
  · intro m hm
    rw [hstore]
    exact hinv.stored m hm
  · intro m hm hr
    obtain ⟨hstored, hlists⟩ := hinv.committed m hm (hready hr)
    refine ⟨hstore.trans hstored, ?_⟩
    intro t
    rw [hlists t]
    constructor
    · rintro ⟨o, ho, hid, ht⟩
      exact ⟨o, (hobjects o hid).mpr ho, hid, ht⟩
    · rintro ⟨o, ho, hid, ht⟩
      exact ⟨o, (hobjects o hid).mp ho, hid, ht⟩

theorem rowReady_of_step {d : DataPlane Bytes} {w : World Bytes} {r : Nat} {run : Run}
    {op : RunOp Bytes} {e : Effect Bytes} {id : Uuid}
    (h : RunStep d w.now w.db w.store run op e) (hready : (w.afterRun r run e).rowReady id) :
    w.rowReady id ∨ id = run.snapshotId ∧ ∃ m, op = .commit ∧ run.phase = .checked m ∧
      FinalizeAdmitted w.now (run.finalizeArgs m) w.db := by
  obtain ⟨s, hs, rfl, hstate⟩ := hready
  rcases h.ready (mem_readyRows.mpr ⟨hs, hstate⟩) with hold | ⟨hid, hcommit⟩
  · exact .inl ⟨s, (mem_readyRows.mp hold).1, rfl, hstate⟩
  · exact .inr ⟨hid, hcommit⟩

theorem ownerInv_superseded {d : DataPlane Bytes} {w : World Bytes} {r o : Nat}
    {run owner : Run} {op : RunOp Bytes} {e : Effect Bytes} (hsuperseded : w.superseded r run)
    (hkeeps : KeepsOff w run op) (ho : w.owner run.snapshotId = some o)
    (howner : w.runs[o]? = some owner) (hid : owner.snapshotId = run.snapshotId)
    (hinv : OwnerInv d w owner) (h : RunStep d w.now w.db w.store run op e) :
    OwnerInv d (w.afterRun r run e) owner := by
  have hready : op ≠ .commit → (w.afterRun r run e).rowReady owner.snapshotId →
      w.rowReady owner.snapshotId := by
    intro hop hr
    rcases rowReady_of_step h hr with hold | ⟨-, m, hcommit, -⟩
    · exact hold
    · exact absurd hcommit hop
  have hmanifest := h.manifest
  cases h with
  | claimed phase claim =>
      rw [World.superseded, phase] at hsuperseded
      cases hsuperseded.1
  | cleaned phase =>
      have hmem : ∀ o ∈ deleteSnapshotObjects run.snapshotId w.db.snapshotObjects,
          o ∈ w.db.snapshotObjects := fun o ho => (mem_deleteWhere.mp ho).1
      refine ⟨?_, ?_, hinv.stored, ?_⟩
      · exact fun hphase o ho => hinv.bare hphase o (hmem o ho)
      · exact fun hphase o ho => hinv.covered hphase o (hmem o ho)
      · intro m _ hr
        rw [hid] at hready hr
        exact absurd (hready (by simp) hr) hkeeps
  | prepared phase prepare archive =>
      unfold prepareSnapshotUpload at prepare
      split at prepare
      · rename_i hcount
        rcases hkeeps with hnone | hkept
        · cases archive.symm.trans hnone
        · exact absurd hcount hkept
      · cases prepare
  | @recorded canonical pending inFlight uploaded i t objects phase inFlightAt stored record =>
      obtain ⟨g, rfl, hg⟩ := recordUploaded_eq_ok record
      simp only [KeepsOff, phase, inFlightAt, Option.mem_some_iff, forall_eq'] at hkeeps
      refine ⟨?_, ?_, hinv.stored, ?_⟩
      · intro hphase o ho
        obtain ⟨o₀, ho₀, rfl⟩ := List.mem_map.mp ho
        rw [(hg o₀).1]
        exact hinv.bare hphase o₀ ho₀
      · intro hphase o ho hoid
        obtain ⟨o₀, ho₀, rfl⟩ := List.mem_map.mp ho
        rw [(hg o₀).1] at hoid
        rw [(hg o₀).2.1]
        exact hinv.covered hphase o₀ ho₀ hoid
      · intro m hm hr
        have hr' := hready (by simp) hr
        obtain ⟨hstored, hlists⟩ := hinv.committed m hm hr'
        have htriple : ∀ o₀ ∈ w.db.snapshotObjects, objectTriple (g o₀) = objectTriple o₀ := by
          intro o₀ ho₀
          rcases (hg o₀).2.2 with hsame | ⟨hat, hstoredRow⟩
          · rw [hsame]
          · rw [hstoredRow]
            exact hkeeps (hid ▸ hr') o₀ ho₀ hat
        refine ⟨hstored, ?_⟩
        intro v
        rw [hlists v]
        constructor
        · rintro ⟨o₀, ho₀, hoid, rfl⟩
          exact ⟨g o₀, List.mem_map_of_mem ho₀, (hg o₀).1.trans hoid, htriple o₀ ho₀⟩
        · rintro ⟨o, ho, hoid, rfl⟩
          obtain ⟨o₀, ho₀, rfl⟩ := List.mem_map.mp ho
          exact ⟨o₀, ho₀, (hg o₀).1.symm.trans hoid, (htriple o₀ ho₀).symm⟩
  | published phase =>
      obtain ⟨hnot, hout⟩ := hkeeps
      have hnone := hout o ho owner howner
      refine ⟨hinv.bare, hinv.covered, ?_, ?_⟩
      · intro m hm
        rw [hnone] at hm
        cases hm
      · intro m _ hr
        rw [hid] at hready hr
        exact absurd (hready (by simp) hr) hnot
  | @committed m db' phase finalize =>
      simp only [KeepsOff, phase] at hkeeps
      exact absurd (finalizeBody_eq_ok_iff.mp finalize).1 hkeeps
  | task phase inFlightAt taken =>
      refine ownerInv_frame hinv (fun _ _ => Iff.rfl) ?_ (hready (by simp))
      exact (hmanifest owner.problemId owner.generation).resolve_right (by simp)
  | commitFailed phase finalize =>
      exact ownerInv_frame hinv (fun _ _ => Iff.rfl) rfl fun hr => hr
  | failed | stopped =>
      exact ownerInv_frame hinv (fun _ _ => Iff.rfl) rfl fun hr => hr
  | _ => exact ownerInv_frame hinv (fun _ _ => Iff.rfl) rfl (hready (by simp))

/-! ## Steps of the machine -/

theorem ownerInv_other {d : DataPlane Bytes} {w : World Bytes} {r o : Nat} {run owner : Run}
    {op : RunOp Bytes} {e : Effect Bytes} (hw : ImmutabilityInv d w)
    (hr : w.runs[r]? = some run) (hkeeps : w.superseded r run → KeepsOff w run op)
    (ho : w.owner owner.snapshotId = some o) (howner : w.runs[o]? = some owner) (hne : o ≠ r)
    (h : RunStep d w.now w.db w.store run op e) : OwnerInv d (w.afterRun r run e) owner := by
  have hinv := hw.owner o owner howner ho
  by_cases hphase : run.phase = .fenced
  · have hready : (w.afterRun r run e).rowReady owner.snapshotId →
        w.rowReady owner.snapshotId := by
      intro hready
      rcases rowReady_of_step h hready with hold | ⟨-, m, -, hchecked, -⟩
      · exact hold
      · rw [hphase] at hchecked
        cases hchecked
    rcases h.of_fenced hphase with ⟨rows, id, claim, rfl⟩ | rfl | ⟨err, rfl⟩
    · exact ownerInv_frame hinv (fun _ _ => Iff.rfl) rfl hready
    · exact ownerInv_frame hinv (fun _ _ => Iff.rfl) rfl hready
    · exact ownerInv_frame hinv (fun _ _ => Iff.rfl) rfl hready
  · have hexecuting := h.executing hphase
    by_cases hid : owner.snapshotId = run.snapshotId
    · have hsuperseded : w.superseded r run := ⟨hexecuting, o, hid ▸ ho, hne⟩
      exact ownerInv_superseded hsuperseded (hkeeps hsuperseded) (hid ▸ ho) howner hid hinv h
    · by_cases hnamed : owner.phase.named = true
      · refine ownerInv_frame hinv (fun o' ho' => h.objects_other (ho' ▸ hid)) ?_ ?_
        · refine (h.manifest owner.problemId owner.generation).resolve_right ?_
          -- One generation has one row, so the other run would have this id.
          rintro ⟨-, hproblem, hgeneration⟩
          have hrun := hw.rooted r run hr (RunPhase.named_of_executing hexecuting)
          have hrow := hw.rooted o owner howner hnamed
          refine hid (hw.consistent.keys.generation _ hrow _ hrun ?_)
          rw [hproblem, hgeneration]
        · intro hready
          rcases rowReady_of_step h hready with hold | ⟨heq, -⟩
          · exact hold
          · exact absurd heq hid
      · exact ownerInv_idle (.inl (Bool.eq_false_iff.mpr hnamed))

theorem immutabilityInv_run {d : DataPlane Bytes} {w : World Bytes} {r : Nat} {run : Run}
    {op : RunOp Bytes} {e : Effect Bytes} (hw : ImmutabilityInv d w)
    (hr : w.runs[r]? = some run) (hkeeps : w.superseded r run → KeepsOff w run op)
    (h : RunStep d w.now w.db w.store run op e) : ImmutabilityInv d (w.afterRun r run e) := by
  obtain ⟨hproblem, hgeneration, hscan, hclaimed⟩ := h.kept
  have howner : ∀ id o, w.owner id = some o → ∃ o', (w.afterRun r run e).owner id = some o' := by
    intro id o ho
    change ∃ o', ownerAfter w.owner r run e.run id = some o'
    unfold ownerAfter
    split
    · by_cases hid : id = e.run.snapshotId
      · exact ⟨r, by rw [hid, Function.update_self]⟩
      · exact ⟨o, by rw [Function.update_of_ne hid, ho]⟩
    · exact ⟨o, ho⟩
  refine ⟨consistent_run hw.consistent hr h, ?_, ?_, ?_, ?_⟩
  · intro i run' hi hnamed
    rw [getElem?_afterRun hr] at hi
    split at hi
    · cases hi
      rw [hproblem, hgeneration]
      by_cases hphase : run.phase = .fenced
      · rcases h.of_fenced hphase with ⟨rows, id, claim, rfl⟩ | rfl | ⟨err, rfl⟩
        · exact claimSnapshot_mem_rowIds claim
        · cases hnamed
        · cases hnamed
      · rw [(h.rowIds_eq hphase).2]
        exact h.subset_rowIds _
          (hw.rooted r run hr (RunPhase.named_of_executing (h.executing hphase)))
    · exact h.subset_rowIds _ (hw.rooted i run' hi hnamed)
  · intro i run' hi hnamed
    rw [getElem?_afterRun hr] at hi
    split at hi
    · cases hi
      by_cases hphase : run.phase = .fenced
      · rcases h.of_fenced hphase with ⟨rows, id, claim, rfl⟩ | rfl | ⟨err, rfl⟩
        · refine ⟨r, ?_⟩
          change ownerAfter w.owner r run _ id = some r
          rw [ownerAfter, if_pos ⟨hphase, rfl⟩, Function.update_self]
        · cases hnamed
        · cases hnamed
      · rw [(h.rowIds_eq hphase).2]
        obtain ⟨o, ho⟩ := hw.hasOwner r run hr (RunPhase.named_of_executing (h.executing hphase))
        exact howner _ o ho
    · obtain ⟨o, ho⟩ := hw.hasOwner i run' hi hnamed
      exact howner _ o ho
  · intro i run' hi
    rw [getElem?_afterRun hr] at hi
    split at hi
    · cases hi
      rw [hscan]
      exact hw.agree r run hr
    · exact hw.agree i run' hi
  · intro i run' hi ho
    rw [getElem?_afterRun hr] at hi
    change ownerAfter w.owner r run e.run run'.snapshotId = some i at ho
    unfold ownerAfter at ho
    split at hi
    · rename_i hri
      subst hri
      cases hi
      by_cases hphase : run.phase = .fenced
      · rcases h.of_fenced hphase with ⟨rows, id, claim, rfl⟩ | rfl | ⟨err, rfl⟩
        · exact ownerInv_idle (.inr (.inl rfl))
        · exact ownerInv_idle (.inl rfl)
        · exact ownerInv_idle (.inl rfl)
      · rw [if_neg (by simp [hphase]), (h.rowIds_eq hphase).2] at ho
        exact ownerInv_own (r := r) (hw.agree r run hr) (hw.consistent.accounted r run hr)
          (hw.owner r run hr ho) h
    · rename_i hne
      have hold : w.owner run'.snapshotId = some i := by
        split at ho
        · by_cases hid : run'.snapshotId = e.run.snapshotId
          · rw [hid, Function.update_self] at ho
            exact absurd (Option.some.inj ho) hne
          · rwa [Function.update_of_ne hid] at ho
        · exact ho
      exact ownerInv_other hw hr hkeeps hold hi (Ne.symm hne) h

theorem immutabilityInv_frame {d : DataPlane Bytes} {w w' : World Bytes}
    (hw : ImmutabilityInv d w) (hconsistent : Consistent w')
    (hids : rowIds w'.db.snapshots = rowIds w.db.snapshots)
    (hready : readyRows w'.db.snapshots = readyRows w.db.snapshots)
    (hobjects : w'.db.snapshotObjects = w.db.snapshotObjects) (hstore : w'.store = w.store)
    (hruns : w'.runs = w.runs) (howner : w'.owner = w.owner) : ImmutabilityInv d w' := by
  refine ⟨hconsistent, ?_, ?_, ?_, ?_⟩
  · rw [hids, hruns]
    exact hw.rooted
  · rw [howner, hruns]
    exact hw.hasOwner
  · rw [hruns]
    exact hw.agree
  · intro r run hr ho
    rw [hruns] at hr
    rw [howner] at ho
    refine ownerInv_frame (hw.owner r run hr ho) ?_ ?_ ?_
    · intro o _
      rw [hobjects]
    · rw [hstore]
    · rintro ⟨s, hs, hid, hstate⟩
      have hmem : s ∈ readyRows w.db.snapshots := hready ▸ mem_readyRows.mpr ⟨hs, hstate⟩
      exact ⟨s, (mem_readyRows.mp hmem).1, hid, hstate⟩

theorem immutabilityInv_begin {d : DataPlane Bytes} {w : World Bytes} {run : Run}
    (hw : ImmutabilityInv d w) (hconsistent : Consistent { w with runs := w.runs ++ [run] })
    (hphase : run.phase = .fenced) (hagree : PathsAgree run.scan.files) :
    ImmutabilityInv d { w with runs := w.runs ++ [run] } := by
  refine ⟨hconsistent, ?_, ?_, ?_, ?_⟩
  · intro i run' hi hnamed
    rcases getElem?_begin hi with hi | ⟨-, rfl⟩
    · exact hw.rooted i run' hi hnamed
    · rw [hphase] at hnamed
      cases hnamed
  · intro i run' hi hnamed
    rcases getElem?_begin hi with hi | ⟨-, rfl⟩
    · exact hw.hasOwner i run' hi hnamed
    · rw [hphase] at hnamed
      cases hnamed
  · intro i run' hi
    rcases getElem?_begin hi with hi | ⟨-, rfl⟩
    · exact hw.agree i run' hi
    · exact hagree
  · intro i run' hi ho
    rcases getElem?_begin hi with hi | ⟨-, rfl⟩
    · exact ownerInv_frame (hw.owner i run' hi ho) (fun _ _ => Iff.rfl) rfl fun h => h
    · obtain ⟨run'', hi', -, hclaimed⟩ := hconsistent.owner _ _ ho
      obtain rfl := Option.some.inj (hi.symm.trans hi')
      exact absurd hphase hclaimed

theorem immutabilityInv_step {d : DataPlane Bytes} {w w' : World Bytes} {a : Action Bytes}
    (hw : ImmutabilityInv d w) (hscope : a.runsOnly = true) (hundisputed : Undisputed w a w')
    (h : step d w a = some w') : ImmutabilityInv d w' := by
  have hconsistent := consistent_step hw.consistent h
  cases a with
  | begin id problemId generation token version scan =>
      obtain ⟨-, -, rfl⟩ := step_begin h
      exact immutabilityInv_begin hw hconsistent rfl hundisputed
  | run r op =>
      obtain ⟨run, e, hr, -, hstep, rfl⟩ := step_run h
      exact immutabilityInv_run hw hr (hundisputed run hr) hstep
  | retention | gcList | gc => cases hscope
  | failStalled =>
      cases h
      exact immutabilityInv_frame hw hconsistent (rowIds_failStalledSnapshots _ _)
        (readyRows_failStalledSnapshots _ _) rfl rfl rfl rfl
  | tick elapsed =>
      cases h
      exact immutabilityInv_frame hw hconsistent rfl rfl rfl rfl rfl rfl
  | external tables =>
      cases h
      exact immutabilityInv_frame hw hconsistent rfl rfl rfl rfl rfl rfl

theorem immutabilityInv_initial {d : DataPlane Bytes} {w : World Bytes} (hw : Initial w) :
    ImmutabilityInv d w := by
  refine ⟨consistent_initial hw, ?_, ?_, ?_, ?_⟩
  all_goals
    intro r run hr
    simp [hw.runs] at hr

/-! ## Runs -/

structure Settled (d : DataPlane Bytes) (r : Nat) (run : Run) (w : World Bytes) : Prop where
  inv : ImmutabilityInv d w
  atRun : w.runs[r]? = some run
  owner : w.owner run.snapshotId = some r
  ready : w.rowReady run.snapshotId

theorem Settled.not_claimed {d : DataPlane Bytes} {r i : Nat} {run other : Run} {w : World Bytes}
    {rows : List SnapshotRow} (hw : Settled d r run w) (hi : w.runs[i]? = some other)
    (hphase : other.phase = .fenced)
    (hclaim : claimSnapshot w.now w.db.snapshots other.snapshotId other.problemId
      other.generation other.createdAt = (rows, some run.snapshotId)) : False := by
  obtain ⟨s, hs, hid, hstate⟩ := hw.ready
  rcases claimSnapshot_cases hclaim with ⟨heq, -, -⟩ | ⟨t, ht, -, hallowed, heq, -⟩
  · exact (hw.inv.consistent.unclaimed i other hi hphase).rows s hs (hid.trans heq)
  · obtain rfl := hw.inv.consistent.keys.row_eq hs ht (hid.trans heq)
    exact takeoverAllowed_ne_ready hallowed hstate

theorem settled_step {d : DataPlane Bytes} {r : Nat} {run : Run} {m : Manifest}
    {w w' : World Bytes} {a : Action Bytes} (hcommitted : run.phase = .committed m)
    (hw : Settled d r run w) (hscope : a.runsOnly = true) (hundisputed : Undisputed w a w')
    (hready : w'.rowReady run.snapshotId) (h : step d w a = some w') : Settled d r run w' := by
  refine ⟨immutabilityInv_step hw.inv hscope hundisputed h, ?_, ?_, hready⟩
  · cases a with
    | begin id problemId generation token version scan =>
        obtain ⟨-, -, rfl⟩ := step_begin h
        rw [List.getElem?_append_left (List.getElem?_eq_some_iff.mp hw.atRun).1]
        exact hw.atRun
    | run i op =>
        obtain ⟨other, e, hi, -, hstep, rfl⟩ := step_run h
        rw [getElem?_afterRun hi]
        split
        · rename_i heq
          subst heq
          obtain rfl := Option.some.inj (hw.atRun.symm.trans hi)
          have hlive := hstep.executing (by simp [hcommitted])
          rw [hcommitted] at hlive
          cases hlive
        · exact hw.atRun
    | retention | gcList | gc => cases hscope
    | failStalled | tick | external =>
        cases h
        exact hw.atRun
  · cases a with
    | begin id problemId generation token version scan =>
        obtain ⟨-, -, rfl⟩ := step_begin h
        exact hw.owner
    | run i op =>
        obtain ⟨other, e, hi, -, hstep, rfl⟩ := step_run h
        change ownerAfter w.owner i other e.run run.snapshotId = some r
        rw [ownerAfter]
        split
        · rename_i hclaim
          rcases hstep.of_fenced hclaim.1 with ⟨rows, id, claim, rfl⟩ | rfl | ⟨err, rfl⟩
          · by_cases hid : run.snapshotId = id
            · subst hid
              exact (hw.not_claimed hi hclaim.1 claim).elim
            · rw [Function.update_of_ne hid]
              exact hw.owner
          · cases hclaim.2
          · cases hclaim.2
        · exact hw.owner
    | retention | gcList | gc => cases hscope
    | failStalled | tick | external =>
        cases h
        exact hw.owner

theorem settled_commit {d : DataPlane Bytes} {r : Nat} {run : Run} {w w' : World Bytes}
    (hw : ImmutabilityInv d w) (hundisputed : Undisputed w (.run r .commit) w')
    (h : step d w (.run r .commit) = some w') (hrun : w'.runs[r]? = some run) {m : Manifest}
    (hcommitted : run.phase = .committed m) : Settled d r run w' := by
  have hinv := immutabilityInv_step hw rfl hundisputed h
  obtain ⟨before, e, hr, -, hstep, rfl⟩ := step_run h
  rw [getElem?_afterRun hr, if_pos rfl] at hrun
  obtain rfl := Option.some.inj hrun
  cases hstep with
  | @committed m' db' phase finalize =>
      obtain ⟨hadm, rfl⟩ := finalizeBody_eq_ok_iff.mp finalize
      have howner : w.owner before.snapshotId = some r := by
        obtain ⟨o, ho⟩ := hw.hasOwner r before hr (by rw [phase]; rfl)
        by_cases hne : o = r
        · rw [ho, hne]
        · have hkeeps := hundisputed before hr ⟨by rw [phase]; rfl, o, ho, hne⟩
          simp only [KeepsOff, phase] at hkeeps
          exact absurd hadm hkeeps
      refine ⟨hinv, by rw [getElem?_afterRun hr, if_pos rfl], ?_, ?_⟩
      · change ownerAfter w.owner r before _ before.snapshotId = some r
        rw [ownerAfter, if_neg (by simp [phase])]
        exact howner
      · obtain ⟨t, ht, hfinal⟩ := List.countP_pos_iff.mp (by rw [hadm.verifying]; decide)
        exact ⟨_, mem_updateWhere.mpr ⟨t, ht, (if_pos hfinal).symm⟩,
          (finalizable_iff.mp hfinal).1, rfl⟩
  | commitFailed => cases hcommitted
  | failed fallible => cases fallible
  | stopped stopping => cases stopping

/-- After a run's `finalize_snapshot_cas` has committed, the object at its manifest key
stays its manifest, and that manifest lists exactly the objects of the row, as long as
the row stays READY and the interleaving is undisputed. -/
theorem ready_snapshot_immutable {d : DataPlane Bytes} {w w₁ u : World Bytes}
    {as bs : List (Action Bytes)} {r : Nat} {run : Run} {m : Manifest} (hinit : Initial w)
    (hscope : ∀ a ∈ as ++ .run r .commit :: bs, a.runsOnly = true)
    (hundisputed : EveryStep (step d) Undisputed w (as ++ .run r .commit :: bs))
    (hcommit : exec (step d) w (as ++ [.run r .commit]) = some w₁)
    (hrun : w₁.runs[r]? = some run) (hcommitted : run.phase = .committed m)
    (hready : EveryStep (step d) (fun _ _ w' => w'.rowReady run.snapshotId) w₁ bs)
    (hafter : exec (step d) w₁ bs = some u) :
    u.store run.manifestKey = some (d.manifestToVec m) ∧
      Lists m run.snapshotId u.db.snapshotObjects := by
  obtain ⟨v, hv, hstep⟩ := exec_append_eq_some.mp hcommit
  obtain ⟨v', hv', hnil⟩ := exec_cons_eq_some.mp hstep
  obtain rfl : v' = w₁ := Option.some.inj hnil
  obtain ⟨hbefore, hlater⟩ := everyStep_append.mp hundisputed
  have hundisputed' := hlater v hv
  have hinv : ImmutabilityInv d v := by
    refine exec_invariant (C := fun w a w' => Undisputed w a w' ∧ a.runsOnly = true) ?_
      (immutabilityInv_initial hinit) (hbefore.and ?_) hv
    · exact fun _ _ _ hw hC h => immutabilityInv_step hw hC.2 hC.1 h
    · exact everyStep_of_forall_mem fun a ha => hscope a (List.mem_append_left _ ha)
  have hsettled : Settled d r run v' :=
    settled_commit hinv (hundisputed'.head hv') hv' hrun hcommitted
  have hlast : Settled d r run u := by
    refine exec_invariant (C := fun w a w' => (Undisputed w a w' ∧ w'.rowReady run.snapshotId) ∧
      a.runsOnly = true) ?_ hsettled (((hundisputed'.tail hv').and hready).and ?_) hafter
    · exact fun _ _ _ hw hC h => settled_step hcommitted hw hC.2 hC.1.1 hC.1.2 h
    · refine everyStep_of_forall_mem fun a ha => hscope a ?_
      exact List.mem_append_right _ (List.mem_cons_of_mem _ ha)
  exact (hlast.inv.owner r run hlast.atRun hlast.owner).committed m hcommitted hlast.ready

/-- A run stops after its claim and is replaced; the other run publishes. -/
def replacedRun : List (Action Content) :=
  claimingRun 0 1 1 ++ [.tick 7201000000] ++ claimingRun 1 2 2 ++ uploadingRun 1 ++
    [.run 1 .putManifest, .run 1 .verifyManifest, .run 1 .checkFencing]

def replacedRunFails : List (Action Content) :=
  [.run 0 (.fail (.fileChurn "init.yml")), .run 0 .markError]

theorem ready_snapshot_immutable_replaced :
    ∃ (u : World Content) (run : Run) (m : Manifest), exec (step samplePlane) sampleWorld
        (replacedRun ++ .run 1 .commit :: replacedRunFails) = some u ∧
      u.store run.manifestKey = some (samplePlane.manifestToVec m) ∧
      Lists m run.snapshotId u.db.snapshotObjects := by
  have hinit : Initial sampleWorld := ⟨⟨by decide, by decide⟩, rfl, rfl, fun _ => rfl⟩
  have hscope : ∀ a ∈ replacedRun ++ .run 1 .commit :: replacedRunFails,
      a.runsOnly = true := by
    decide
  -- both in one evaluation of the run
  have ⟨hundisputed, hcommit⟩ : EveryStep (step samplePlane) Undisputed sampleWorld
        (replacedRun ++ .run 1 .commit :: replacedRunFails) ∧
      (exec (step samplePlane) sampleWorld (replacedRun ++ [.run 1 .commit])).any
        (fun w₁ => w₁.runs[1]?.any fun run => run.phase.committedManifest.isSome ∧
          EveryStep (step samplePlane) (fun _ _ w' => w'.rowReady run.snapshotId) w₁
            replacedRunFails ∧
          (exec (step samplePlane) w₁ replacedRunFails).isSome) = true := by
    decide +kernel
  obtain ⟨w₁, hw₁, h⟩ := (Option.any_eq_true _ _).mp hcommit
  obtain ⟨run, hrun, h⟩ := (Option.any_eq_true _ _).mp h
  obtain ⟨hcommitted, hready, hafter⟩ := of_decide_eq_true h
  obtain ⟨m, hm⟩ := Option.isSome_iff_exists.mp hcommitted
  obtain ⟨u, hu⟩ := Option.isSome_iff_exists.mp hafter
  refine ⟨u, run, m, ?_, ready_snapshot_immutable hinit hscope hundisputed hw₁ hrun
    (RunPhase.committedManifest_eq_some.mp hm) hready hu⟩
  have happend : replacedRun ++ .run 1 .commit :: replacedRunFails =
      (replacedRun ++ [.run 1 .commit]) ++ replacedRunFails := by
    rw [List.append_assoc, List.singleton_append]
  rw [happend, exec_append, hw₁, Option.bind_some, hu]

/-- A run that stopped before its manifest is replaced; the other run publishes the
same generation from the objects that are there. -/
def lateManifestRun : List (Action Content) :=
  claimingRun 0 1 1 ++ uploadingRun 0 ++ [.tick 7201000000] ++ claimingRun 1 2 2 ++
    [.run 1 .setHashing, .run 1 (.prepare (some initYmlText))] ++ uploadExisting 1 dataZip ++
    uploadExisting 1 initYml ++ [.run 1 .setVerifying] ++ publishingRun 1

/-- The first run then overwrites the manifest of the READY row. -/
theorem ready_manifest_overwritten :
    ∃ (w₁ u : World Content) (run : Run) (m : Manifest),
      exec (step samplePlane) sampleWorld lateManifestRun = some w₁ ∧
      w₁.runs[1]? = some run ∧ run.phase = .committed m ∧ w₁.rowReady run.snapshotId ∧
      step samplePlane w₁ (.run 0 .putManifest) = some u ∧ u.rowReady run.snapshotId ∧
      u.store run.manifestKey ≠ some (samplePlane.manifestToVec m) := by
  have hrun : (exec (step samplePlane) sampleWorld lateManifestRun).any (fun w₁ =>
      w₁.runs[1]?.any fun run => run.phase.committedManifest.any fun m =>
        (step samplePlane w₁ (.run 0 .putManifest)).any fun u =>
          w₁.rowReady run.snapshotId ∧ u.rowReady run.snapshotId ∧
            u.store run.manifestKey ≠ some (samplePlane.manifestToVec m)) = true := by
    decide +kernel
  obtain ⟨w₁, hw₁, h⟩ := (Option.any_eq_true _ _).mp hrun
  obtain ⟨run, hrun, h⟩ := (Option.any_eq_true _ _).mp h
  obtain ⟨m, hm, h⟩ := (Option.any_eq_true _ _).mp h
  obtain ⟨u, hu, h⟩ := (Option.any_eq_true _ _).mp h
  obtain ⟨hready, hready', hne⟩ := of_decide_eq_true h
  exact ⟨w₁, u, run, m, hw₁, hrun, RunPhase.committedManifest_eq_some.mp hm, hready, hu, hready',
    hne⟩

end ExternalStorage.Snapshot
