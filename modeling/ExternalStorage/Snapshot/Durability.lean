import ExternalStorage.Snapshot.Collection

/-!
# Backups stay whole

`Collection` shows that the manifest and the objects of a READY snapshot are there.  Here they are
also what was backed up: the manifest that the run has built, and under each of its keys an object
with the hash that the manifest gives.  Two things spoil this: a run that goes on after a claim has
taken its generation, and a put that sends what the file has become since it was hashed.
-/

namespace ExternalStorage.Snapshot

open ExternalStorage.Model Library.Runs Library.Table

variable {Bytes : Type}

/-! ## Statements -/

def Run.rivals (run run' : Run) : Prop :=
  run.problemId = run'.problemId ∧ run.generation = run'.generation

instance (run run' : Run) : Decidable (run.rivals run') :=
  inferInstanceAs (Decidable (_ ∧ _))

/-- No claim takes a generation that another run is still at work on. -/
def NoRival (w : World Bytes) (a : Action Bytes) (w' : World Bytes) : Prop :=
  match a with
  | .run r .claim => ∀ run ∈ w'.runs[r]?, run.phase = .claimed →
      ∀ run' ∈ w.runs, run'.phase.executing = true → ¬ run'.rivals run
  | _ => True

def Run.inFlight (run : Run) : List Task :=
  match run.phase with
  | .uploading _ _ inFlight _ => inFlight
  | _ => []

def SendsHashed (d : DataPlane Bytes) (w : World Bytes) (a : Action Bytes) (_ : World Bytes) :
    Prop :=
  match a with
  | .run r (.task i (.write body)) => ∀ run ∈ w.runs[r]?, ∀ t ∈ run.inFlight[i]?,
      d.sha256Bytes (t.putBody d body) = t.file.sha256
  | _ => True

structure Whole (d : DataPlane Bytes) (store : Store Bytes) (run : Run) (m : Manifest) : Prop where
  manifest : store run.manifestKey = some (d.manifestToVec m)
  objects : ∀ f ∈ m.files,
    ∃ bytes, store f.objectKey = some bytes ∧ d.sha256Bytes bytes = f.sha256

/-! ## One run for a generation -/

structure SoleInv (w : World Bytes) : Prop where
  rivals : ∀ (i j : Nat) (run run' : Run), w.runs[i]? = some run → w.runs[j]? = some run' →
    run.phase.executing = true → run'.phase.executing = true → run.rivals run' → i = j
  rooted : ∀ (r : Nat) (run : Run), w.runs[r]? = some run → run.phase.executing = true →
    ∀ s ∈ w.db.snapshots, s.problemId = run.problemId → s.generation = run.generation →
      s.id = run.snapshotId
  owned : ∀ (r : Nat) (run : Run), w.runs[r]? = some run → run.phase.executing = true →
    w.owner run.snapshotId = some r

/-- The row that a claim takes is of the generation that its runs make. -/
theorem noReclaim_of_noRival {d : DataPlane Bytes} {w w' : World Bytes} {a : Action Bytes}
    (hw : Consistent w) (hrival : NoRival w a w') (h : step d w a = some w') :
    NoReclaim w a w' := by
  unfold NoReclaim
  split
  · rename_i r
    obtain ⟨before, e, hr, -, hstep, rfl⟩ := step_run h
    intro run hrun hclaimed run' hrun' hlive hid
    obtain ⟨i, hi⟩ := List.mem_iff_getElem?.mp hrun'
    have hafter := hrun
    rw [getElem?_afterRun hr, if_pos rfl] at hafter
    cases hafter
    cases hstep with
    | @claimed rows id phase claim =>
        have hne : i ≠ r := by
          rintro rfl
          obtain rfl := Option.some.inj (hr.symm.trans hi)
          rw [phase] at hlive
          cases hlive
        rcases claimSnapshot_cases claim with ⟨rfl, -, -⟩ | ⟨s, hs, hfor, -, rfl, -⟩
        · exact (hw.unclaimed r before hr phase).runs i run' hi hne hid
        · obtain ⟨hp, hg⟩ := hw.named i run' hi (RunPhase.named_of_executing hlive) s hs hid.symm
          obtain ⟨hp', hg'⟩ := SnapshotRow.isFor_iff.mp hfor
          exact hrival _ hrun rfl run' hrun' hlive ⟨hp.symm.trans hp', hg.symm.trans hg'⟩
    | failed | stopped | rejected => cases hclaimed
  · trivial

section Run

variable {d : DataPlane Bytes} {w : World Bytes} {r : Nat} {run : Run} {op : RunOp Bytes}
  {e : Effect Bytes}

theorem RunStep.live_cases (h : RunStep d w.now w.db w.store run op e)
    (hlive : e.run.phase.executing = true) :
    run.phase.executing = true ∧ e.run.snapshotId = run.snapshotId ∨
      op = .claim ∧ run.phase = .fenced ∧ e.run.phase = .claimed := by
  by_cases hphase : run.phase = .fenced
  · right
    cases h with
    | claimed phase claim => exact ⟨rfl, phase, rfl⟩
    | stopped | rejected => cases hlive
    | failed fallible live =>
        rw [hphase] at live
        cases live
    | _ => cases hphase.symm.trans ‹run.phase = _›
  · exact .inl ⟨h.executing hphase, (h.rowIds_eq hphase).2⟩

theorem soleInv_run (hw : SoleInv w)
    (hconsistent' : Consistent (w.afterRun r run e)) (hr : w.runs[r]? = some run)
    (h : RunStep d w.now w.db w.store run op e)
    (hrival : NoRival w (.run r op) (w.afterRun r run e))
    (hreclaim : NoReclaim w (.run r op) (w.afterRun r run e)) : SoleInv (w.afterRun r run e) := by
  obtain ⟨hp, hg, -, -⟩ := h.kept
  have hafter : (w.afterRun r run e).runs[r]? = some e.run := by
    rw [getElem?_afterRun hr, if_pos rfl]
  -- No run that was at work makes the generation that the step has claimed.
  have hclaimed : op = .claim ∧ run.phase = .fenced ∧ e.run.phase = .claimed →
      ∀ run' ∈ w.runs, run'.phase.executing = true → ¬ run'.rivals e.run := by
    rintro ⟨rfl, -, hphase⟩
    exact hrival e.run hafter hphase
  have hother : ∀ (i : Nat) (run' : Run), r ≠ i → w.runs[i]? = some run' →
      run'.phase.executing = true → e.run.phase.executing = true → ¬ run'.rivals e.run := by
    intro i run' hne hi hlive hlive' hsame
    rcases h.live_cases hlive' with ⟨hbefore, -⟩ | hclaim
    · rw [Run.rivals, hp, hg] at hsame
      exact hne (hw.rivals i r run' run hi hr hlive hbefore hsame).symm
    · exact hclaimed hclaim run' (List.mem_of_getElem? hi) hlive hsame
  refine ⟨?_, ?_, ?_⟩
  · intro i j run₁ run₂ hi hj hlive₁ hlive₂ hsame
    rw [getElem?_afterRun hr] at hi hj
    split at hi <;> split at hj
    · rename_i hri hrj
      exact hri.symm.trans hrj
    · rename_i hri hrj
      cases hi
      exact absurd ⟨hsame.1.symm, hsame.2.symm⟩ (hother j run₂ hrj hj hlive₂ hlive₁)
    · rename_i hri hrj
      cases hj
      exact absurd hsame (hother i run₁ hri hi hlive₁ hlive₂)
    · exact hw.rivals i j run₁ run₂ hi hj hlive₁ hlive₂ hsame
  · intro i run' hi hlive s hs hproblem hgeneration
    rw [getElem?_afterRun hr] at hi
    split at hi
    · rename_i hri
      subst hri
      cases hi
      rcases h.live_cases hlive with ⟨hbefore, hid⟩ | ⟨rfl, hphase, -⟩
      · have hfenced : run.phase ≠ .fenced := fun hphase => by
          rw [hphase] at hbefore
          cases hbefore
        have hmem := mem_rowIds hs
        change (s.id, s.problemId, s.generation) ∈ rowIds e.db.snapshots at hmem
        rw [(h.rowIds_eq hfenced).1] at hmem
        obtain ⟨t, ht, hid', hp', hg'⟩ := exists_of_mem_rowIds hmem
        rw [hid, ← hid']
        exact hw.rooted r run hr hbefore t ht (hp'.trans (hproblem.trans hp))
          (hg'.trans (hgeneration.trans hg))
      · rcases h.of_fenced hphase with ⟨rows, id, claim, rfl⟩ | rfl | ⟨err, rfl⟩
        · have hown := claimSnapshot_mem_rowIds claim
          refine hconsistent'.keys.generation _ (mem_rowIds hs) _ hown ?_
          rw [hproblem, hgeneration]
        · cases hlive
        · cases hlive
    · rename_i hri
      rcases h.rowIds_subset _ (mem_rowIds hs) with hold | ⟨hphase, hnew⟩
      · obtain ⟨t, ht, hid', hp', hg'⟩ := exists_of_mem_rowIds hold
        rw [← hid']
        exact hw.rooted i run' hi hlive t ht (hp'.trans hproblem) (hg'.trans hgeneration)
      · -- A row that a claim has inserted is of its own generation.
        obtain ⟨-, hp', hg'⟩ : _ ∧ s.problemId = run.problemId ∧ s.generation = run.generation := by
          simpa using hnew
        rcases h.of_fenced hphase with ⟨rows, id, claim, rfl⟩ | rfl | ⟨err, rfl⟩
        · exact absurd ⟨hproblem.symm.trans hp', hgeneration.symm.trans hg'⟩
            (hother i run' hri hi hlive rfl)
        · exact hw.rooted i run' hi hlive s hs hproblem hgeneration
        · exact hw.rooted i run' hi hlive s hs hproblem hgeneration
  · intro i run' hi hlive
    rw [getElem?_afterRun hr] at hi
    change ownerAfter w.owner r run e.run run'.snapshotId = some i
    unfold ownerAfter
    split at hi
    · rename_i hri
      subst hri
      cases hi
      rcases h.live_cases hlive with ⟨hbefore, hid⟩ | ⟨-, hphase, hclaim⟩
      · rw [if_neg, hid]
        · exact hw.owned r run hr hbefore
        · rintro ⟨hphase, -⟩
          rw [hphase] at hbefore
          cases hbefore
      · rw [if_pos ⟨hphase, hclaim⟩, Function.update_self]
    · rename_i hri
      split
      · rename_i hclaim
        have hne : run'.snapshotId ≠ e.run.snapshotId := by
          rcases h.live_cases (by rw [hclaim.2]; rfl) with ⟨hbefore, -⟩ | ⟨rfl, -, hphase⟩
          · rw [hclaim.1] at hbefore
            cases hbefore
          · exact hreclaim e.run hafter hphase run' (List.mem_of_getElem? hi) hlive
        rw [Function.update_of_ne hne]
        exact hw.owned i run' hi hlive
      · exact hw.owned i run' hi hlive

end Run

theorem soleInv_frame {w w' : World Bytes} (hw : SoleInv w) (hruns : w'.runs = w.runs)
    (howner : w'.owner = w.owner)
    (hrows : ∀ a ∈ rowIds w'.db.snapshots, a ∈ rowIds w.db.snapshots) : SoleInv w' := by
  refine ⟨by rw [hruns]; exact hw.rivals, ?_, by rw [hruns, howner]; exact hw.owned⟩
  rw [hruns]
  intro r run hr hlive s hs hproblem hgeneration
  obtain ⟨t, ht, hid, hp, hg⟩ := exists_of_mem_rowIds (hrows _ (mem_rowIds hs))
  rw [← hid]
  exact hw.rooted r run hr hlive t ht (hp.trans hproblem) (hg.trans hgeneration)

theorem soleInv_begin {w : World Bytes} {run : Run} (hw : SoleInv w)
    (hphase : run.phase = .fenced) : SoleInv { w with runs := w.runs ++ [run] } := by
  have hold : ∀ {i : Nat} {run' : Run}, (w.runs ++ [run])[i]? = some run' →
      run'.phase.executing = true → w.runs[i]? = some run' := by
    intro i run' hi hlive
    rcases getElem?_begin hi with hi | ⟨-, rfl⟩
    · exact hi
    · rw [hphase] at hlive
      cases hlive
  exact ⟨fun i j run₁ run₂ hi hj h₁ h₂ => hw.rivals i j run₁ run₂ (hold hi h₁) (hold hj h₂) h₁ h₂,
    fun i run' hi h => hw.rooted i run' (hold hi h) h,
    fun i run' hi h => hw.owned i run' (hold hi h) h⟩

theorem soleInv_step {d : DataPlane Bytes} {w w' : World Bytes} {a : Action Bytes} (hw : SoleInv w)
    (hconsistent : Consistent w) (hrival : NoRival w a w') (h : step d w a = some w') :
    SoleInv w' := by
  have hconsistent' := consistent_step hconsistent h
  have hreclaim := noReclaim_of_noRival hconsistent hrival h
  cases a with
  | begin id problemId generation token version scan =>
      obtain ⟨-, -, rfl⟩ := step_begin h
      exact soleInv_begin hw rfl
  | run r op =>
      obtain ⟨run, e, hr, -, hstep, rfl⟩ := step_run h
      exact soleInv_run hw hconsistent' hr hstep hrival hreclaim
  | gcList id token =>
      obtain ⟨m, -, rfl⟩ := step_gcList h
      exact soleInv_frame hw rfl rfl fun _ ha => ha
  | gc g op =>
      obtain ⟨worker, e, -, -, hgc, rfl⟩ := step_gc h
      refine soleInv_frame hw rfl rfl ?_
      rw [(gcStep_rows hgc).1]
      exact fun _ ha => ha
  | retention ids =>
      cases h
      exact soleInv_frame hw rfl rfl (List.filter_sublist.map rowId).subset
  | failStalled =>
      cases h
      refine soleInv_frame hw rfl rfl ?_
      rw [rowIds_failStalledSnapshots]
      exact fun _ ha => ha
  | tick elapsed | external tables =>
      cases h
      exact soleInv_frame hw rfl rfl fun _ ha => ha

/-! ## What has been verified -/

/-- The object of a hash, if there is one, has that hash. -/
def RightObject (d : DataPlane Bytes) (store : Store Bytes) (sha256 : String) : Prop :=
  ∀ bytes, store (objectKeyForSha256 sha256) = some bytes → d.sha256Bytes bytes = sha256

def Run.verified (run : Run) : List String :=
  match run.phase with
  | .uploading _ _ inFlight uploaded =>
      uploaded.map ManifestFile.sha256 ++
        (inFlight.filter fun t => t.phase = .stored).map fun t => t.file.sha256
  | .verifying m | .published m | .finalizing m | .checked m | .committed m =>
      m.files.map ManifestFile.sha256
  | _ => []

section Objects

variable {d : DataPlane Bytes} {store store' : Store Bytes} {t t' : Task}

theorem taskStep_write {op : TaskOp Bytes} (h : taskStep d store t op = some (.ok (t', store'))) :
    store' = store ∨ ∃ body, op = .write body ∧
      store' = Function.update store t.objectKey (some (t.putBody d body)) := by
  cases op with
  | write body =>
      cases hphase : t.phase with
      | putting =>
          simp only [taskStep, hphase] at h
          cases h
          exact .inr ⟨body, rfl, rfl⟩
      | _ =>
          simp only [taskStep, hphase] at h
          cases h
  | read | next =>
      cases taskStep_cases h with
      | put phase =>
          unfold taskStep at h
          rw [phase] at h
          cases h
      | _ => exact .inl rfl

theorem rightObject_update {key sha256 : String} {bytes : Bytes} (h : RightObject d store sha256)
    (hkey : key = objectKeyForSha256 sha256 → d.sha256Bytes bytes = sha256) :
    RightObject d (Function.update store key (some bytes)) sha256 := by
  intro found hfound
  by_cases heq : objectKeyForSha256 sha256 = key
  · rw [heq, Function.update_self] at hfound
    rw [← Option.some.inj hfound]
    exact hkey heq.symm
  · rw [Function.update_of_ne heq] at hfound
    exact h found hfound

theorem rightObject_of_taskStep (h : TaskStep d store t t' store') (hstored : t'.phase = .stored) :
    RightObject d store' t'.file.sha256 := by
  cases h with
  | hashed => cases hstored
  | headed phase seen unwritten => exact absurd hstored unwritten.2
  | put => cases hstored
  | verified phase verify =>
      intro bytes hbytes
      unfold verifyObject at verify
      have hfound : store t.objectKey = some bytes := hbytes
      rw [hfound] at verify
      exact of_decide_eq_true (Except.ok.inj verify)

end Objects

section Run

variable {d : DataPlane Bytes} {w w' : World Bytes} {r : Nat} {run : Run} {op : RunOp Bytes}
  {e : Effect Bytes}

theorem RunStep.rightObject (h : RunStep d w.now w.db w.store run op e) (hr : w.runs[r]? = some run)
    (hsends : SendsHashed d w (.run r op) w') {sha256 : String}
    (hright : RightObject d w.store sha256) : RightObject d e.store sha256 := by
  cases h with
  | @task canonical pending inFlight uploaded i op t t' store' phase inFlightAt taken =>
      rcases taskStep_write taken with rfl | ⟨body, rfl, rfl⟩
      · exact hright
      · apply rightObject_update hright
        intro hkey
        obtain rfl := objectKeyForSha256_injective hkey
        refine hsends run hr t ?_
        rw [Run.inFlight, phase]
        exact inFlightAt
  | published phase =>
      apply rightObject_update hright
      intro hkey
      exact absurd hkey (manifestKey_ne_objectKey _ _ _)
  | _ => exact hright

/-- What holds of the hashes that a run has verified. -/
theorem RunStep.verifiedKeeps {now : Timestamp} {db : Database} {store : Store Bytes}
    (h : RunStep d now db store run op e) {P Q : String → Prop}
    (hkeeps : ∀ sha256, P sha256 → Q sha256)
    (hstored : ∀ t t', TaskStep d store t t' e.store → t'.phase = .stored → Q t'.file.sha256)
    (hrun : ∀ sha256 ∈ run.verified, P sha256) : ∀ sha256 ∈ e.run.verified, Q sha256 := by
  have hsame : (∀ sha256 ∈ e.run.verified, sha256 ∈ run.verified) →
      ∀ sha256 ∈ e.run.verified, Q sha256 :=
    fun hsub sha256 hsha => hkeeps sha256 (hrun sha256 (hsub sha256 hsha))
  cases h with
  | prepared =>
      intro sha256 hsha
      simp [Run.verified, Run.at] at hsha
  | started phase =>
      apply hsame
      intro sha256 hsha
      simpa [Run.verified, Run.at, phase, List.filter_append] using hsha
  | @task canonical pending inFlight uploaded i op t t' store' phase inFlightAt taken =>
      intro sha256 hsha
      simp only [Run.verified, Run.at, phase, List.mem_append] at hsha hrun
      rcases hsha with hold | hflight
      · exact hkeeps sha256 (hrun sha256 (.inl hold))
      · obtain ⟨t'', ht'', rfl⟩ := List.mem_map.mp hflight
        obtain ⟨hmem, hphase⟩ := List.mem_filter.mp ht''
        rcases List.mem_or_eq_of_mem_set hmem with hmem | rfl
        · exact hkeeps _ (hrun _ (.inr (List.mem_map.mpr
            ⟨t'', List.mem_filter.mpr ⟨hmem, hphase⟩, rfl⟩)))
        · exact hstored t _ (taskStep_cases taken) (of_decide_eq_true hphase)
  | @recorded canonical pending inFlight uploaded i t objects phase inFlightAt stored record =>
      apply hsame
      intro sha256 hsha
      simp only [Run.verified, Run.at, phase, List.map_append, List.mem_append] at hsha ⊢
      rcases hsha with (hold | hnew) | hflight
      · exact .inl hold
      · right
        rw [List.mem_singleton.mp hnew]
        exact List.mem_map.mpr ⟨t, List.mem_filter.mpr
          ⟨List.mem_of_getElem? inFlightAt, decide_eq_true stored⟩, rfl⟩
      · obtain ⟨t', ht', rfl⟩ := List.mem_map.mp hflight
        obtain ⟨hmem, hphase⟩ := List.mem_filter.mp ht'
        exact .inr (List.mem_map.mpr
          ⟨t', List.mem_filter.mpr ⟨List.mem_of_mem_eraseIdx hmem, hphase⟩, rfl⟩)
  | verifying phase =>
      apply hsame
      intro sha256 hsha
      simp only [Run.verified, Run.at, phase, Run.manifest, buildManifest, sortManifestFiles,
        List.mem_map, List.mem_insertionSort] at hsha ⊢
      simpa using hsha
  | published phase | verified phase | checked phase | committed phase =>
      apply hsame
      intro sha256 hsha
      simpa only [Run.verified, Run.at, phase] using hsha
  | _ =>
      intro sha256 hsha
      cases hsha

end Run

/-! ## The invariant -/

/-- The object at the key of the run's manifest, if there is one, is `m`. -/
def RightManifest (d : DataPlane Bytes) (store : Store Bytes) (run : Run) (m : Manifest) : Prop :=
  ∀ bytes, store run.manifestKey = some bytes → bytes = d.manifestToVec m

/-- The row is that of a run which has committed `m`. -/
structure Backed (d : DataPlane Bytes) (w : World Bytes) (s : SnapshotRow) (run : Run)
    (m : Manifest) : Prop where
  problem : s.problemId = run.problemId
  generation : s.generation = run.generation
  manifest : RightManifest d w.store run m
  objects : ∀ f ∈ m.files,
    ∃ o ∈ w.db.snapshotObjects, o.snapshotId = s.id ∧ o.objectKey = f.objectKey

structure DurableInv (d : DataPlane Bytes) (w : World Bytes) : Prop where
  collection : CollectionInv w
  sole : SoleInv w
  verified : ∀ (r : Nat) (run : Run), w.runs[r]? = some run →
    ∀ sha256 ∈ run.verified, RightObject d w.store sha256
  published : ∀ (r : Nat) (run : Run) (m : Manifest), w.runs[r]? = some run →
    run.phase.manifestOut = some m → RightManifest d w.store run m
  ready : ∀ s ∈ w.db.snapshots, s.state = .ready → ∀ r, w.owner s.id = some r →
    ∃ run m, w.runs[r]? = some run ∧ run.phase = .committed m ∧ Backed d w s run m

theorem RunPhase.executing_of_manifestOut {phase : RunPhase} {m : Manifest}
    (h : phase.manifestOut = some m) : phase.executing = true := by
  cases phase <;> first | rfl | cases h

theorem RunInv.not_ready {w : World Bytes} {run : Run} (h : RunInv w run) {st : SnapshotState}
    (hstate : run.phase.rowState = some st) {s : SnapshotRow} (hs : s ∈ w.db.snapshots)
    (hid : s.id = run.snapshotId) : s.state ≠ .ready := by
  intro hready
  rcases h.state st hstate s hs hid with hst | herror
  · exact (RunPhase.rowState_ne_ready hstate).1 (hst.symm.trans hready)
  · rw [hready] at herror
    cases herror

section Run

variable {d : DataPlane Bytes} {w : World Bytes} {r : Nat} {run : Run} {op : RunOp Bytes}
  {e : Effect Bytes}

/-- A run overwrites the manifests of its own generation only, at its `put_object_overwrite`. -/
theorem RunStep.rightManifest (h : RunStep d w.now w.db w.store run op e) {run' : Run}
    {m : Manifest}
    (hapart : ∀ m', run.phase = .verifying m' → ¬ run.rivals run')
    (hright : RightManifest d w.store run' m) : RightManifest d e.store run' m := by
  rcases h.manifest run'.problemId run'.generation with hsame | ⟨rfl, hp, hg⟩
  · intro bytes hbytes
    exact hright bytes (hsame.symm.trans hbytes)
  · cases h with
    | published phase => exact absurd ⟨hp, hg⟩ (hapart _ phase)
    | failed fallible => cases fallible
    | stopped stopping => cases stopping

theorem published_run (hw : DurableInv d w) (hr : w.runs[r]? = some run)
    (h : RunStep d w.now w.db w.store run op e) {i : Nat} {run' : Run} {m : Manifest}
    (hi : (w.afterRun r run e).runs[i]? = some run') (hout : run'.phase.manifestOut = some m) :
    RightManifest d e.store run' m := by
  rw [getElem?_afterRun hr] at hi
  split at hi
  · cases hi
    cases h with
    | published phase =>
        cases hout
        intro bytes hbytes
        have hput : Function.update w.store run.manifestKey (some (d.manifestToVec m))
            run.manifestKey = some bytes := hbytes
        rw [Function.update_self] at hput
        exact (Option.some.inj hput).symm
    | verified phase verify => exact hw.published r run m hr (by rw [phase]; exact hout)
    | checked phase fencing => exact hw.published r run m hr (by rw [phase]; exact hout)
    | _ => cases hout
  · rename_i hne
    refine h.rightManifest (fun m' hphase hsame => ?_) (hw.published i run' m hi hout)
    exact hne (hw.sole.rivals r i run run' hr hi (by rw [hphase]; rfl)
      (RunPhase.executing_of_manifestOut hout) hsame)

theorem owner_of_ready (hw : Consistent w) (hr : w.runs[r]? = some run)
    (h : RunStep d w.now w.db w.store run op e) {s : SnapshotRow} (hs : s ∈ w.db.snapshots)
    (hready : s.state = .ready) : (w.afterRun r run e).owner s.id = w.owner s.id := by
  change ownerAfter w.owner r run e.run s.id = w.owner s.id
  unfold ownerAfter
  split
  · rename_i hclaim
    rcases h.of_fenced hclaim.1 with ⟨rows, id, claim, rfl⟩ | rfl | ⟨err, rfl⟩
    · refine Function.update_of_ne ?_ _ _
      rintro hid
      rcases claimSnapshot_cases claim with ⟨heq, -, -⟩ | ⟨t, ht, -, hallowed, heq, -⟩
      · exact (hw.unclaimed r run hr hclaim.1).rows s hs (hid.trans heq)
      · obtain rfl := hw.keys.row_eq hs ht (hid.trans heq)
        exact takeoverAllowed_ne_ready hallowed hready
    · cases hclaim.2
    · cases hclaim.2
  · rfl

theorem backed_of_ready (hw : DurableInv d w) (hr : w.runs[r]? = some run)
    (h : RunStep d w.now w.db w.store run op e) {s : SnapshotRow} (hs : s ∈ w.db.snapshots)
    (hready : s.state = .ready) {run' : Run} {m : Manifest} (hbacked : Backed d w s run' m) :
    Backed d (w.afterRun r run e) s run' m := by
  have hinv := hw.collection.runs r run hr
  refine ⟨hbacked.problem, hbacked.generation, ?_, ?_⟩
  · refine h.rightManifest (fun m' hphase hsame => ?_) hbacked.manifest
    have hid := hw.sole.rooted r run hr (by rw [hphase]; rfl) s hs
      (hbacked.problem.trans hsame.1.symm) (hbacked.generation.trans hsame.2.symm)
    have hstate : run.phase.rowState = some .verifying := by rw [hphase]; rfl
    exact hinv.not_ready hstate hs hid hready
  · intro f hf
    obtain ⟨o, ho, hoid, hkey⟩ := hbacked.objects f hf
    refine ⟨o, ?_, hoid, hkey⟩
    change o ∈ e.db.snapshotObjects
    by_cases hid : s.id = run.snapshotId
    · cases hstate : run.phase.rowState with
      | none => rwa [h.objects_of_idle hstate]
      | some st => exact absurd hready (hinv.not_ready hstate hs hid)
    · exact (h.objects_other (hoid ▸ hid)).mpr ho

theorem backed_of_commit (hw : DurableInv d w) (hr : w.runs[r]? = some run) {m : Manifest}
    {db' : Database} (hphase : run.phase = .checked m)
    (hfinalize : finalizeBody w.now (run.finalizeArgs m) w.db = .ok db')
    (hconsistent : Consistent (w.afterRun r run ⟨db', w.store, run.at (.committed m)⟩))
    {s : SnapshotRow} (hs : s ∈ db'.snapshots) (hid : s.id = run.snapshotId) :
    Backed d (w.afterRun r run ⟨db', w.store, run.at (.committed m)⟩) s
      (run.at (.committed m)) m := by
  have hinv := hw.collection.runs r run hr
  have hfiles := hw.collection.consistent.accounted r run hr
  rw [Run.accounted, hphase] at hfiles
  obtain ⟨hproblem, hgeneration⟩ := hconsistent.named r (run.at (.committed m))
    (by rw [getElem?_afterRun hr, if_pos rfl]) rfl s hs hid
  refine ⟨hproblem, hgeneration, hw.published r run m hr (by rw [hphase]; rfl), ?_⟩
  obtain ⟨-, rfl⟩ := finalizeBody_eq_ok_iff.mp hfinalize
  have hlists : Lists m run.snapshotId
      (upsertObjects (m.files.map (ManifestFile.verifiedRow run.snapshotId))
        w.db.snapshotObjects) := by
    refine lists_finalized (hw.collection.agree r run hr) hfiles fun o ho hoid => ?_
    obtain ⟨f, hf, hpath, -⟩ := hinv.covered (by rw [hphase]; rfl) o ho hoid
    exact ⟨f, hf, hpath⟩
  intro f hf
  obtain ⟨o, ho, hoid, htriple⟩ := (hlists (fileTriple f)).mp ⟨f, hf, rfl⟩
  exact ⟨o, ho, hoid.trans hid.symm, congrArg (fun t => t.2.2) htriple⟩

theorem ready_run (hw : DurableInv d w) (hr : w.runs[r]? = some run)
    (h : RunStep d w.now w.db w.store run op e) (hconsistent : Consistent (w.afterRun r run e))
    {s : SnapshotRow} (hs : s ∈ e.db.snapshots) (hready : s.state = .ready) {o : Nat}
    (howner : (w.afterRun r run e).owner s.id = some o) :
    ∃ run' m, (w.afterRun r run e).runs[o]? = some run' ∧ run'.phase = .committed m ∧
      Backed d (w.afterRun r run e) s run' m := by
  by_cases hold : s ∈ w.db.snapshots
  · rw [owner_of_ready hw.collection.consistent hr h hold hready] at howner
    obtain ⟨run', m, ho, hcommitted, hbacked⟩ := hw.ready s hold hready o howner
    refine ⟨run', m, ?_, hcommitted, backed_of_ready hw hr h hold hready hbacked⟩
    rw [getElem?_afterRun hr, if_neg]
    · exact ho
    · rintro rfl
      obtain rfl := Option.some.inj (hr.symm.trans ho)
      have hlive := h.executing (by rw [hcommitted]; simp)
      rw [hcommitted] at hlive
      cases hlive
  · rcases h.ready (mem_readyRows.mpr ⟨hs, hready⟩) with hmem | ⟨hid, m, rfl, hphase, -⟩
    · exact absurd (mem_readyRows.mp hmem).1 hold
    · have hlive : run.phase.executing = true := by rw [hphase]; rfl
      have hafter : (w.afterRun r run e).owner s.id = some r := by
        change ownerAfter w.owner r run e.run s.id = some r
        rw [ownerAfter, if_neg (by simp [hphase]), hid]
        exact hw.sole.owned r run hr hlive
      obtain rfl : r = o := Option.some.inj (hafter.symm.trans howner)
      cases h with
      | @committed m' db' phase finalize =>
          refine ⟨run.at (.committed m'), m', ?_, rfl,
            backed_of_commit hw hr phase finalize hconsistent hs hid⟩
          rw [getElem?_afterRun hr, if_pos rfl]
      | commitFailed => exact absurd hs hold
      | failed => exact absurd hs hold
      | stopped => exact absurd hs hold

theorem durableInv_run (hw : DurableInv d w) (hr : w.runs[r]? = some run)
    (h : RunStep d w.now w.db w.store run op e)
    (hcollection : CollectionInv (w.afterRun r run e)) (hsole : SoleInv (w.afterRun r run e))
    (hsends : SendsHashed d w (.run r op) (w.afterRun r run e)) :
    DurableInv d (w.afterRun r run e) := by
  have hkeeps : ∀ sha256, RightObject d w.store sha256 → RightObject d e.store sha256 :=
    fun _ hright => h.rightObject hr hsends hright
  refine ⟨hcollection, hsole, ?_, fun i run' m hi hout => published_run hw hr h hi hout,
    fun s hs hready o howner => ready_run hw hr h hcollection.consistent hs hready howner⟩
  intro i run' hi
  rw [getElem?_afterRun hr] at hi
  split at hi
  · cases hi
    exact h.verifiedKeeps hkeeps (fun _ _ htask hphase => rightObject_of_taskStep htask hphase)
      (hw.verified r run hr)
  · exact fun sha256 hsha => hkeeps sha256 (hw.verified i run' hi sha256 hsha)

end Run

/-! ## Steps of the others -/

/-- The collector and the maintenance leave runs, owners and the objects of READY rows as they are,
and write nothing to the store. -/
theorem durableInv_frame {d : DataPlane Bytes} {w w' : World Bytes} (hw : DurableInv d w)
    (hcollection : CollectionInv w') (hsole : SoleInv w') (hruns : w'.runs = w.runs)
    (howner : w'.owner = w.owner)
    (hstore : ∀ key bytes, w'.store key = some bytes → w.store key = some bytes)
    (hrows : ∀ s ∈ w'.db.snapshots, s.state = .ready → s ∈ w.db.snapshots)
    (hobjects : ∀ s ∈ w'.db.snapshots, s.state = .ready → ∀ o ∈ w.db.snapshotObjects,
      o.snapshotId = s.id → o ∈ w'.db.snapshotObjects) : DurableInv d w' := by
  refine ⟨hcollection, hsole, ?_, ?_, ?_⟩
  · rw [hruns]
    exact fun r run hr sha256 hsha bytes hbytes =>
      hw.verified r run hr sha256 hsha bytes (hstore _ _ hbytes)
  · rw [hruns]
    exact fun r run m hr hout bytes hbytes =>
      hw.published r run m hr hout bytes (hstore _ _ hbytes)
  · rw [hruns, howner]
    intro s hs hready r hr
    obtain ⟨run, m, hrun, hcommitted, hbacked⟩ := hw.ready s (hrows s hs hready) hready r hr
    refine ⟨run, m, hrun, hcommitted, hbacked.problem, hbacked.generation,
      fun bytes hbytes => hbacked.manifest bytes (hstore _ _ hbytes), fun f hf => ?_⟩
    obtain ⟨o, ho, hoid, hkey⟩ := hbacked.objects f hf
    exact ⟨o, hobjects s hs hready o ho hoid, hoid, hkey⟩

theorem retention_keeps_objects {db : Database} (hkeys : KeysUnique (rowIds db.snapshots))
    (now : Timestamp) (ids : String → Uuid) {s : SnapshotRow} (hs : s ∈ db.snapshots)
    (hready : s.state = .ready) {o : SnapshotObjectRow} (ho : o ∈ db.snapshotObjects)
    (hid : o.snapshotId = s.id) : o ∈ (applyRetention now ids db).snapshotObjects := by
  refine mem_deleteWhere.mpr ⟨ho, ?_⟩
  rw [List.any_eq_false]
  intro t ht hpruned
  simp only [Bool.and_eq_true, decide_eq_true_eq] at hpruned
  obtain rfl := hkeys.row_eq ht hs (hpruned.2.trans hid)
  have hpinned := not_pinned_of_prunable hpruned.1
  rw [pinned_of_ready hready] at hpinned
  cases hpinned

/-- What a step must meet. -/
structure Careful (d : DataPlane Bytes) (w : World Bytes) (a : Action Bytes) (w' : World Bytes) :
    Prop where
  rival : NoRival w a w'
  sends : SendsHashed d w a w'
  scan : a.scanAgrees

theorem durableInv_step {d : DataPlane Bytes} {w w' : World Bytes} {a : Action Bytes}
    (hw : DurableInv d w) (hcareful : Careful d w a w') (h : step d w a = some w') :
    DurableInv d w' := by
  have hreclaim := noReclaim_of_noRival hw.collection.consistent hcareful.rival h
  have hcollection := collectionInv_step hw.collection hcareful.scan hreclaim h
  have hsole := soleInv_step hw.sole hw.collection.consistent hcareful.rival h
  have hframe := @durableInv_frame _ d w w' hw hcollection hsole
  cases a with
  | begin id problemId generation token version scan =>
      obtain ⟨-, -, rfl⟩ := step_begin h
      refine ⟨hcollection, hsole, ?_, ?_, ?_⟩
      · intro r run hr
        rcases getElem?_begin hr with hr | ⟨-, rfl⟩
        · exact hw.verified r run hr
        · intro sha256 hsha
          cases hsha
      · intro r run m hr hout
        rcases getElem?_begin hr with hr | ⟨-, rfl⟩
        · exact hw.published r run m hr hout
        · cases hout
      · intro s hs hready r hr
        obtain ⟨run, m, hrun, hcommitted, hbacked⟩ := hw.ready s hs hready r hr
        refine ⟨run, m, ?_, hcommitted, hbacked.problem, hbacked.generation, hbacked.manifest,
          hbacked.objects⟩
        rw [List.getElem?_append_left (List.getElem?_eq_some_iff.mp hrun).1]
        exact hrun
  | run r op =>
      obtain ⟨run, e, hr, -, hstep, rfl⟩ := step_run h
      exact durableInv_run hw hr hstep hcollection hsole hcareful.sends
  | gcList id token =>
      obtain ⟨m, -, rfl⟩ := step_gcList h
      exact hframe rfl rfl (fun _ _ hkey => hkey) (fun _ hs _ => hs) fun _ _ _ _ ho _ => ho
  | gc g op =>
      obtain ⟨worker, e, -, -, hgc, rfl⟩ := step_gc h
      obtain ⟨hrows, hobjects, -⟩ := gcStep_rows hgc
      refine hframe rfl rfl ?_ ?_ ?_
      · intro key bytes hbytes
        change e.2.1 key = some bytes at hbytes
        rcases gcStep_store hgc with hstore | ⟨-, hstore⟩
        · rwa [hstore] at hbytes
        · rw [hstore, Function.update_apply] at hbytes
          split at hbytes
          · cases hbytes
          · exact hbytes
      · intro s hs _
        exact hrows ▸ hs
      · intro _ _ _ o ho _
        exact hobjects ▸ ho
  | retention ids =>
      cases h
      have hrows : ∀ s ∈ (applyRetention w.now ids w.db).snapshots, s ∈ w.db.snapshots :=
        fun s hs => (mem_deleteWhere.mp hs).1
      exact hframe rfl rfl (fun _ _ hkey => hkey) (fun s hs _ => hrows s hs)
        fun s hs hready o ho hid => retention_keeps_objects hw.collection.consistent.keys w.now ids
          (hrows s hs) hready ho hid
  | failStalled =>
      cases h
      have hrows : ∀ s ∈ failStalledSnapshots w.now w.db.snapshots, s.state = .ready →
          s ∈ w.db.snapshots := fun s hs hready =>
        (mem_readyRows.mp (mem_readyRows_of_update (by intro t; simp)
          (mem_readyRows.mpr ⟨hs, hready⟩))).1
      exact hframe rfl rfl (fun _ _ hkey => hkey) hrows fun _ _ _ _ ho _ => ho
  | tick elapsed | external tables =>
      cases h
      exact hframe rfl rfl (fun _ _ hkey => hkey) (fun _ hs _ => hs) fun _ _ _ _ ho _ => ho

theorem durableInv_initial {d : DataPlane Bytes} {w : World Bytes} (hw : Initial w)
    (hstored : ReadyStored w) : DurableInv d w := by
  refine ⟨collectionInv_initial hw hstored, ⟨?_, ?_, ?_⟩, ?_, ?_, ?_⟩
  · intro i j run run' hi
    simp [hw.runs] at hi
  · intro r run hr
    simp [hw.runs] at hr
  · intro r run hr
    simp [hw.runs] at hr
  · intro r run hr
    simp [hw.runs] at hr
  · intro r run m hr
    simp [hw.runs] at hr
  · intro s hs hready r hr
    simp [hw.owner] at hr

/-! ## Runs -/

theorem DurableInv.whole {d : DataPlane Bytes} {w : World Bytes} (hw : DurableInv d w)
    {s : SnapshotRow} (hs : s ∈ w.db.snapshots) (hready : s.state = .ready) {r : Nat}
    (howner : w.owner s.id = some r) :
    ∃ run m, w.runs[r]? = some run ∧ run.phase = .committed m ∧ s.problemId = run.problemId ∧
      s.generation = run.generation ∧ Whole d w.store run m := by
  obtain ⟨run, m, hr, hcommitted, hbacked⟩ := hw.ready s hs hready r howner
  have hstored := hw.collection.ready s hs hready
  have hfiles := hw.collection.consistent.accounted r run hr
  rw [Run.accounted, hcommitted] at hfiles
  refine ⟨run, m, hr, hcommitted, hbacked.problem, hbacked.generation, ?_, ?_⟩
  · have hmanifest := hstored.manifest
    rw [hbacked.problem, hbacked.generation] at hmanifest
    obtain ⟨bytes, hbytes⟩ := Option.isSome_iff_exists.mp hmanifest
    exact hbytes.trans (congrArg some (hbacked.manifest bytes hbytes))
  · intro f hf
    obtain ⟨o, ho, hoid, hkey⟩ := hbacked.objects f hf
    obtain ⟨bytes, hbytes⟩ := Option.isSome_iff_exists.mp (hstored.objects o ho hoid)
    rw [hkey] at hbytes
    have hright := hw.verified r run hr f.sha256
      (by rw [Run.verified, hcommitted]; exact List.mem_map_of_mem hf)
    obtain ⟨g, -, rfl⟩ := List.mem_map.mp (hfiles.mem_iff.mp hf)
    exact ⟨bytes, hbytes, hright bytes hbytes⟩

instance (w : World Bytes) (a : Action Bytes) (w' : World Bytes) : Decidable (NoRival w a w') := by
  unfold NoRival
  obtain _ | ⟨r, op⟩ | _ := a
  case run => obtain _ | _ := op <;> infer_instance
  all_goals infer_instance

instance (d : DataPlane Bytes) (w : World Bytes) (a : Action Bytes) (w' : World Bytes) :
    Decidable (SendsHashed d w a w') := by
  unfold SendsHashed
  obtain _ | ⟨r, op⟩ | _ := a
  case run =>
    obtain _ | _ | _ | _ | _ | ⟨i, op⟩ | _ := op
    case task => obtain _ | _ := op <;> infer_instance
    all_goals infer_instance
  all_goals infer_instance

instance (d : DataPlane Bytes) (w : World Bytes) (a : Action Bytes) (w' : World Bytes) :
    Decidable (Careful d w a w') :=
  decidable_of_iff (NoRival w a w' ∧ SendsHashed d w a w' ∧ a.scanAgrees)
    ⟨fun ⟨h₁, h₂, h₃⟩ => ⟨h₁, h₂, h₃⟩, fun ⟨h₁, h₂, h₃⟩ => ⟨h₁, h₂, h₃⟩⟩

def twinWorld : World Content :=
  { sampleWorld with
    db := { sampleWorld.db with
      problems := [sampleProblem, { sampleProblem with externalId := "102", code := "sums" }]
      problemUsage := [sampleUsage, { sampleUsage with problemId := "102" }]
      jobs := finishedJob 103 "snapshot-1" .snapshot (some "102") 1 sampleTime :: sampleJobs } }

/-- A run has seen that an object is absent; a run of the other problem puts it and publishes; the
file of the first has changed when it is read to be sent. -/
def changedFileRun : List (Action Content) :=
  claimingRun 0 1 1 ++ [.run 0 .setHashing, .run 0 (.prepare (some initYmlText)), .run 0 .start,
    .run 0 (.task 0 (.read dataZip.sha256)), .run 0 (.task 0 .next), .run 0 (.task 0 .next)] ++
    [.begin 2 "102" 1 1 none sampleScan, .run 1 .claim, .run 1 .cleanup] ++ uploadingRun 1 ++
    publishingRun 1 ++ [.run 0 (.task 0 (.write (.file editedZipText)))]

/-- The object of the READY snapshot has become the new file of the other problem. -/
theorem changed_file_spoils_backup :
    EveryStep (step samplePlane) NoRival twinWorld changedFileRun ∧
      (exec (step samplePlane) twinWorld changedFileRun).any (fun u =>
        ∃ s ∈ u.db.snapshots, s.state = .ready ∧ ∃ o ∈ u.db.snapshotObjects,
          o.snapshotId = s.id ∧ o.sha256 = dataZip.sha256 ∧
            u.store o.objectKey = some (.file editedZipText)) = true := by
  decide +kernel

end ExternalStorage.Snapshot
