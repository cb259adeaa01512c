import ExternalStorage.Snapshot.Collection

/-!
# Marks and metadata

`applyRetention` deletes the row of an expired snapshot on the word of `gc_marks`: each of its
objects is collected, or a protected snapshot lists it.  A collector sets the flag some time
after it has deleted the object, by the id of a mark that may be another snapshot's by then.
-/

namespace ExternalStorage.Snapshot

open ExternalStorage.Model Library.Runs Library.Table

variable {Bytes : Type}

/-! ## Statements -/

/-- `failStalledSnapshots` fails no row that a run is still working on. -/
def StalledHaveStopped (w : World Bytes) (a : Action Bytes) (_ : World Bytes) : Prop :=
  match a with
  | .failStalled => ∀ run ∈ w.runs, run.phase.executing = true →
      ∀ s ∈ w.db.snapshots, s.id = run.snapshotId →
        (s.state.active && s.createdAt < w.now - hours 6) = false
  | _ => True

/-- The marks that a pass of `applyRetention` may insert. -/
def World.candidates (w : World Bytes) : List GcCandidate :=
  gcCandidates (pruneExpired w.now w.db) w.now

/-- The ids of new marks are new: UUIDs are unique. -/
def FreshMarkIds (w : World Bytes) (a : Action Bytes) (_ : World Bytes) : Prop :=
  match a with
  | .retention ids =>
      (∀ c ∈ w.candidates, (∀ m ∈ w.db.gcMarks, m.id ≠ ids c.objectKey) ∧
        ∀ worker ∈ w.workers, worker.markId ≠ ids c.objectKey) ∧
      ∀ c ∈ w.candidates, ∀ c' ∈ w.candidates,
        ids c.objectKey = ids c'.objectKey → c.objectKey = c'.objectKey
  | _ => True

/-- The objects and the manifest of a row that goes are out of the store, or another protected
snapshot has them. -/
def PrunesAccounted (w : World Bytes) (a : Action Bytes) (w' : World Bytes) : Prop :=
  match a with
  | .retention _ => ∀ s ∈ w.db.snapshots, s ∉ w'.db.snapshots →
      (∀ o ∈ w.db.snapshotObjects, o.snapshotId = s.id →
        w.store o.objectKey = none ∨ contentRefElsewhere w.db w.now s.id o.objectKey = true) ∧
      ∀ key ∈ s.manifestKey,
        w.store key = none ∨ manifestRefElsewhere w.db w.now s.id key = true
  | _ => True

/-! ## What `applyRetention` does to the marks -/

section Retention

variable {now : Timestamp} {ids : String → Uuid} {db : Database}

theorem mem_distinctOnKey {candidates : List GcCandidate} {c : GcCandidate}
    (h : c ∈ distinctOnKey candidates) : c ∈ candidates := by
  have hfold : ∀ (rest kept : List GcCandidate), (∀ d ∈ kept, d ∈ candidates) →
      (∀ d ∈ rest, d ∈ candidates) →
      ∀ d ∈ rest.foldl (fun kept c =>
        if kept.any fun d => d.objectKey = c.objectKey then
          kept.map fun d => if d.objectKey = c.objectKey && c.before d then c else d
        else
          kept ++ [c]) kept, d ∈ candidates := by
    intro rest
    induction rest with
    | nil => exact fun kept hkept _ => hkept
    | cons e rest ih =>
        intro kept hkept hrest
        have he := hrest e List.mem_cons_self
        refine ih _ ?_ fun d hd => hrest d (List.mem_cons_of_mem _ hd)
        intro d hd
        dsimp only at hd
        split at hd
        · obtain ⟨d₀, hd₀, rfl⟩ := List.mem_map.mp hd
          split
          · exact he
          · exact hkept d₀ hd₀
        · rcases List.mem_append.mp hd with hold | hnew
          · exact hkept d hold
          · rw [List.mem_singleton.mp hnew]
            exact he
  exact hfold candidates [] (by simp) (fun d hd => hd) c h

theorem mem_markCandidate {retention : Option Int} {id : Uuid} {c : GcCandidate}
    {marks : List GcMarkRow} {m' : GcMarkRow} (h : m' ∈ markCandidate now retention id c marks) :
    (∃ m ∈ marks, m.id = m'.id ∧ m.objectKey = m'.objectKey ∧
      (m'.collected = true → m.collected = true)) ∨
      (m'.id = id ∧ m'.objectKey = c.objectKey ∧ m'.collected = false) := by
  unfold markCandidate at h
  split at h
  · exact .inl ⟨m', h, rfl, rfl, fun hcollected => hcollected⟩
  · rcases mem_upsertOn.mp h with ⟨hold, -⟩ | ⟨m, hm, hkey, rfl⟩ | ⟨rfl, -⟩
    · exact .inl ⟨m', hold, rfl, rfl, fun hcollected => hcollected⟩
    · refine .inl ⟨m, hm, ?_⟩
      split
      · exact ⟨rfl, congrArg Prod.snd hkey, fun hcollected => nomatch hcollected⟩
      · exact ⟨rfl, rfl, fun hcollected => hcollected⟩
    · exact .inr ⟨rfl, rfl, rfl⟩

theorem markCandidate_keeps {retention : Option Int} {id : Uuid} {c : GcCandidate}
    {marks : List GcMarkRow} {m : GcMarkRow} (hm : m ∈ marks) (hopen : m.collected = false) :
    ∃ m' ∈ markCandidate now retention id c marks,
      m'.objectKey = m.objectKey ∧ m'.collected = false := by
  unfold markCandidate
  split
  · exact ⟨m, hm, rfl, hopen⟩
  · rename_i n
    by_cases hkey : m.key = (c.sha256, c.objectKey)
    · refine ⟨_, mem_upsertOn.mpr (.inr (.inl ⟨m, hm, hkey, rfl⟩)), ?_⟩
      split
      · exact ⟨(congrArg Prod.snd hkey).symm, rfl⟩
      · exact ⟨rfl, hopen⟩
    · exact ⟨m, mem_upsertOn.mpr (.inl ⟨hm, hkey⟩), rfl, hopen⟩

/-- What the last statement of `applyRetention` makes of the marks. -/
theorem mem_markExpired {m' : GcMarkRow} (h : m' ∈ (markExpired now ids db).gcMarks) :
    (∃ m ∈ db.gcMarks, m.id = m'.id ∧ m.objectKey = m'.objectKey ∧
      (m'.collected = true → m.collected = true)) ∨
      ∃ c ∈ gcCandidates db now, m'.id = ids c.objectKey ∧ m'.objectKey = c.objectKey ∧
        m'.collected = false := by
  have hfold : ∀ (rest : List GcCandidate) (marks : List GcMarkRow),
      m' ∈ rest.foldl (fun marks c =>
        markCandidate now (db.retentionDays .contentObjects) (ids c.objectKey) c marks) marks →
      (∃ m ∈ marks, m.id = m'.id ∧ m.objectKey = m'.objectKey ∧
        (m'.collected = true → m.collected = true)) ∨
        ∃ c ∈ rest, m'.id = ids c.objectKey ∧ m'.objectKey = c.objectKey ∧
          m'.collected = false := by
    intro rest
    induction rest with
    | nil => exact fun marks hm => .inl ⟨m', hm, rfl, rfl, fun hcollected => hcollected⟩
    | cons c rest ih =>
        intro marks hm
        rcases ih _ hm with ⟨m₁, hm₁, hid, hkey, hcollected⟩ | ⟨d, hd, hnew⟩
        · rcases mem_markCandidate hm₁ with ⟨m, hm, hid₀, hkey₀, hcollected₀⟩ | ⟨hid₁, hkey₁, hfalse⟩
          · exact .inl ⟨m, hm, hid₀.trans hid, hkey₀.trans hkey, fun h => hcollected₀ (hcollected h)⟩
          · refine .inr ⟨c, List.mem_cons_self, hid.symm.trans hid₁, hkey.symm.trans hkey₁, ?_⟩
            refine Bool.eq_false_iff.mpr fun h => ?_
            rw [hcollected h] at hfalse
            cases hfalse
        · exact .inr ⟨d, List.mem_cons_of_mem _ hd, hnew⟩
  rcases hfold _ _ h with hold | ⟨c, hc, hnew⟩
  · exact .inl hold
  · exact .inr ⟨c, mem_distinctOnKey hc, hnew⟩

theorem markExpired_keeps {m : GcMarkRow} (hm : m ∈ db.gcMarks) (hopen : m.collected = false) :
    ∃ m' ∈ (markExpired now ids db).gcMarks,
      m'.objectKey = m.objectKey ∧ m'.collected = false := by
  have hfold : ∀ (rest : List GcCandidate) (marks : List GcMarkRow),
      (∃ m' ∈ marks, m'.objectKey = m.objectKey ∧ m'.collected = false) →
      ∃ m' ∈ rest.foldl (fun marks c =>
        markCandidate now (db.retentionDays .contentObjects) (ids c.objectKey) c marks) marks,
        m'.objectKey = m.objectKey ∧ m'.collected = false := by
    intro rest
    induction rest with
    | nil => exact fun marks h => h
    | cons c rest ih =>
        rintro marks ⟨m₁, hm₁, hkey, hopen₁⟩
        obtain ⟨m₂, hm₂, hkey₂, hopen₂⟩ := markCandidate_keeps hm₁ hopen₁
        exact ih _ ⟨m₂, hm₂, hkey₂.trans hkey, hopen₂⟩
  exact hfold _ _ ⟨m, hm, rfl, hopen⟩

theorem mem_pruneExpired_gcMarks {m' : GcMarkRow} :
    m' ∈ (pruneExpired now db).gcMarks → ∃ m ∈ db.gcMarks,
      m.id = m'.id ∧ m.objectKey = m'.objectKey ∧ m.collected = m'.collected := by
  intro h
  obtain ⟨m, hm, rfl⟩ := mem_updateWhere.mp h
  refine ⟨m, hm, ?_⟩
  split <;> exact ⟨rfl, rfl, rfl⟩

theorem pruneExpired_keeps {m : GcMarkRow} (hm : m ∈ db.gcMarks) :
    ∃ m' ∈ (pruneExpired now db).gcMarks,
      m'.objectKey = m.objectKey ∧ m'.collected = m.collected := by
  refine ⟨_, mem_updateWhere.mpr ⟨m, hm, rfl⟩, ?_⟩
  split <;> exact ⟨rfl, rfl⟩

theorem prunable_of_pruned {s : SnapshotRow} (hs : s ∈ db.snapshots)
    (hgone : s ∉ (applyRetention now ids db).snapshots) : prunable db now s = true := by
  by_contra hkept
  exact hgone (mem_deleteWhere.mpr ⟨hs, Bool.eq_false_iff.mpr hkept⟩)

theorem state_of_prunable {s : SnapshotRow} (h : prunable db now s = true) :
    s.state = .superseded ∨ s.state = .error := by
  simp only [prunable, Bool.and_eq_true] at h
  have hexpired := h.1.1
  unfold retentionExpired at hexpired
  split at hexpired
  · rename_i hstate
    exact .inl hstate
  · rename_i hstate
    exact .inr hstate
  · cases hexpired

end Retention

/-! ## What a run relies on -/

structure Live (rows : List SnapshotRow) (run : Run) : Prop where
  row : run.phase.rowState.isSome = true → ∃ s ∈ rows, s.id = run.snapshotId
  unfailed : run.phase.rowState.isSome = true → ∀ s ∈ rows, s.id = run.snapshotId →
    s.state ≠ .error

theorem live_idle {rows : List SnapshotRow} {run : Run} (h : run.phase.rowState = none) :
    Live rows run := by
  constructor
  all_goals
    rw [h]
    exact nofun

theorem RunPhase.rowState_of_prepared {phase : RunPhase} (h : phase.prepared = true) :
    phase.rowState = some .uploading ∨ phase.rowState = some .verifying := by
  cases phase <;> first | exact .inl rfl | exact .inr rfl | cases h

theorem RunPhase.executing_of_rowState {phase : RunPhase} (h : phase.rowState.isSome = true) :
    phase.executing = true := by
  cases phase <;> first | rfl | cases h

theorem pins_of_live {w : World Bytes} {run : Run} (hinv : RunInv w run)
    (hlive : Live w.db.snapshots run) (hprepared : run.phase.prepared = true) :
    w.pins run.snapshotId := by
  have hstate : ∃ st, run.phase.rowState = some st ∧ (st = .uploading ∨ st = .verifying) := by
    rcases RunPhase.rowState_of_prepared hprepared with h | h
    · exact ⟨_, h, .inl rfl⟩
    · exact ⟨_, h, .inr rfl⟩
  obtain ⟨st, hst, hactive⟩ := hstate
  have hsome : run.phase.rowState.isSome = true := by rw [hst]; rfl
  obtain ⟨s, hs, hid⟩ := hlive.row hsome
  refine ⟨s, hs, hid, ?_⟩
  rcases hinv.state st hst s hs hid with hs' | herror
  · rw [pinned, hs']
    rcases hactive with rfl | rfl <;> rfl
  · exact absurd herror (hlive.unfailed hsome s hs hid)

/-- A statement that fails no row leaves a failed one only where it was. -/
theorem unfailed_of_update {p : SnapshotRow → Bool} {f : SnapshotRow → SnapshotRow}
    {rows : List SnapshotRow} {id : Uuid}
    (hf : ∀ s, (f s).state ≠ .error) (h : ∀ s ∈ rows, s.id = id → s.state ≠ .error) :
    ∀ s ∈ updateWhere p f rows, s.id = id → s.state ≠ .error := by
  intro s hs hsid
  obtain ⟨t, ht, rfl⟩ := mem_updateWhere.mp hs
  split
  · exact hf t
  · rename_i hp
    rw [if_neg hp] at hsid
    exact h t ht hsid

theorem live_own {d : DataPlane Bytes} {w : World Bytes} {r : Nat} {run : Run}
    {op : RunOp Bytes} {e : Effect Bytes} (hconsistent : Consistent w)
    (hr : w.runs[r]? = some run) (hlive : Live w.db.snapshots run)
    (h : RunStep d w.now w.db w.store run op e) : Live e.db.snapshots e.run := by
  by_cases hidle : e.run.phase.rowState = none
  · exact live_idle hidle
  have hrow : run.phase.rowState.isSome = true → ∃ s ∈ e.db.snapshots, s.id = run.snapshotId := by
    intro hsome
    obtain ⟨s, hs, hid⟩ := hlive.row hsome
    obtain ⟨t, ht, htid, -⟩ := exists_of_mem_rowIds (h.subset_rowIds _ (mem_rowIds hs))
    exact ⟨t, ht, htid.trans hid⟩
  cases h with
  | claimed phase claim =>
      constructor
      · obtain ⟨s, hs, hid, -⟩ := exists_of_mem_rowIds (claimSnapshot_mem_rowIds claim)
        exact fun _ => ⟨s, hs, hid⟩
      · intro _ s hs hid
        rw [discovered_of_claim hconsistent.keys
          (hconsistent.unclaimed r run hr phase).rows claim s hs hid]
        exact SnapshotState.noConfusion
  | cleaned phase | started phase | task phase | recorded phase | published phase
  | verified phase | checked phase =>
      have hsome : run.phase.rowState.isSome = true := by rw [phase]; rfl
      exact ⟨fun _ => hrow hsome, fun _ => hlive.unfailed hsome⟩
  | hashing phase | verifying phase =>
      have hsome : run.phase.rowState.isSome = true := by rw [phase]; rfl
      refine ⟨fun _ => hrow hsome, fun _ => ?_⟩
      exact unfailed_of_update (by intro s; exact SnapshotState.noConfusion)
        (hlive.unfailed hsome)
  | prepared phase prepare =>
      have hsome : run.phase.rowState.isSome = true := by rw [phase]; rfl
      refine ⟨fun _ => hrow hsome, fun _ => ?_⟩
      unfold prepareSnapshotUpload at prepare
      split at prepare
      · cases prepare
        exact unfailed_of_update (by intro s; exact SnapshotState.noConfusion)
          (hlive.unfailed hsome)
      · cases prepare
  | _ => exact absurd rfl hidle

theorem Live.frame {rows rows' : List SnapshotRow} {run : Run} (h : Live rows run)
    (hrow : ∀ s ∈ rows, s.id = run.snapshotId → ∃ s' ∈ rows', s'.id = s.id)
    (hrows : ∀ s' ∈ rows', s'.id = run.snapshotId → s' ∈ rows ∨ s'.state ≠ .error) :
    Live rows' run := by
  constructor
  · intro hsome
    obtain ⟨s, hs, hid⟩ := h.row hsome
    obtain ⟨s', hs', hid'⟩ := hrow s hs hid
    exact ⟨s', hs', hid'.trans hid⟩
  · intro hsome s' hs' hid
    rcases hrows s' hs' hid with hold | hstate
    · exact h.unfailed hsome s' hold hid
    · exact hstate

theorem RunInv.pinned_claimedKeys {w : World Bytes} {run : Run} (hinv : RunInv w run)
    (hagree : PathsAgree run.scan.files) (hprepared : run.phase.prepared = true)
    (hpins : w.pins run.snapshotId) {key : String}
    (hkey : key ∈ claimedKeys run.scan.files run.manifestKey) :
    contentPinned w.db key ∨ manifestPinned w.db key := by
  obtain ⟨s, hs, hid, hpinned⟩ := id hpins
  rcases List.mem_append.mp hkey with hfile | hmanifest
  · obtain ⟨f, hf, rfl⟩ := List.mem_map.mp hfile
    obtain ⟨o, ho, hoid, hokey⟩ := hinv.exists_object hagree hprepared hpins hf
    exact .inl ⟨s, hs, hpinned, o, ho, hoid.trans hid.symm, hokey⟩
  · rw [List.mem_singleton.mp hmanifest]
    exact .inr ⟨s, hs, hpinned, (hinv.kept hprepared hpins).manifestKey s hs hid hpinned⟩

theorem RunStep.store_none {d : DataPlane Bytes} {now : Timestamp} {db : Database}
    {store : Store Bytes} {run : Run} {op : RunOp Bytes} {e : Effect Bytes}
    (h : RunStep d now db store run op e) (haccounted : run.accounted) {key : String}
    (hnone : store key = none)
    (hfree : run.phase.prepared = true → key ∉ claimedKeys run.scan.files run.manifestKey) :
    e.store key = none := by
  cases h with
  | @task canonical pending inFlight uploaded i op t t' store' phase inFlightAt taken =>
      cases taskStep_cases taken with
      | put put =>
          obtain ⟨f, hf, hfile⟩ := Run.mem_scan_of_inFlight haccounted phase inFlightAt
          have hclaimed : t.objectKey ∈ claimedKeys run.scan.files run.manifestKey := by
            refine List.mem_append_left _ (List.mem_map.mpr ⟨f, hf, ?_⟩)
            exact congrArg ManifestFile.objectKey hfile
          change Function.update store t.objectKey _ key = none
          rw [Function.update_of_ne]
          · exact hnone
          · rintro rfl
            exact hfree (by rw [phase]; rfl) hclaimed
      | _ => exact hnone
  | published phase =>
      change Function.update store run.manifestKey _ key = none
      rw [Function.update_of_ne]
      · exact hnone
      · rintro rfl
        exact hfree (by rw [phase]; rfl) (List.mem_append_right _ List.mem_cons_self)
  | _ => exact hnone

/-! ## What a collector relies on -/

structure Gone (w : World Bytes) (key : String) : Prop where
  absent : w.store key = none
  unclaimed : ∀ (r : Nat) (run : Run), w.runs[r]? = some run → run.phase.prepared = true →
    key ∉ claimedKeys run.scan.files run.manifestKey

/-- The collector has looked at the objects, and goes on to look for the object or to delete
it. -/
def GcPhase.contentSeen : GcPhase → Bool
  | .manifest .before | .manifest .confirm | .passed .before | .passed .confirm => true
  | _ => false

def GcPhase.manifestSeen : GcPhase → Bool
  | .passed .before | .passed .confirm => true
  | _ => false

def GcPhase.collecting : GcPhase → Bool
  | .fencing .after | .content .after | .manifest .after | .passed .after
  | .unlocking (.ok _) | .finished (.ok _) => true
  | _ => false

structure Watches (w : World Bytes) (worker : GcWorker) : Prop where
  content : worker.phase.contentSeen = true → ¬ contentPinned w.db worker.objectKey
  manifest : worker.phase.manifestSeen = true → ¬ manifestPinned w.db worker.objectKey
  mark : ∀ m ∈ w.db.gcMarks, m.id = worker.markId → m.objectKey = worker.objectKey
  gone : worker.phase.collecting = true → ∀ m ∈ w.db.gcMarks, m.id = worker.markId →
    Gone w worker.objectKey

structure MarksInv (w : World Bytes) : Prop where
  collection : CollectionInv w
  live : ∀ (r : Nat) (run : Run), w.runs[r]? = some run → Live w.db.snapshots run
  keyed : ∀ m ∈ w.db.gcMarks, ∀ m' ∈ w.db.gcMarks, m.id = m'.id → m.objectKey = m'.objectKey
  collected : ∀ m ∈ w.db.gcMarks, m.collected = true → Gone w m.objectKey
  workers : ∀ worker ∈ w.workers, Watches w worker

theorem GcPhase.contentSeen_of_manifestSeen {phase : GcPhase} (h : phase.manifestSeen = true) :
    phase.contentSeen = true := by
  unfold GcPhase.manifestSeen at h
  split at h
  · rfl
  · rfl
  · cases h

theorem GcPhase.locking_of_contentSeen {phase : GcPhase} (h : phase.contentSeen = true) :
    phase.locking = true := by
  unfold GcPhase.contentSeen at h
  split at h
  · rfl
  · rfl
  · rfl
  · rfl
  · cases h

theorem Watches.frame {w w' : World Bytes} {worker : GcWorker} (h : Watches w worker)
    (hcontent : worker.phase.contentSeen = true → contentPinned w'.db worker.objectKey →
      contentPinned w.db worker.objectKey)
    (hmanifest : worker.phase.manifestSeen = true → manifestPinned w'.db worker.objectKey →
      manifestPinned w.db worker.objectKey)
    (hmarks : ∀ m' ∈ w'.db.gcMarks, m'.id = worker.markId → ∃ m ∈ w.db.gcMarks, m.id = m'.id ∧
      m.objectKey = m'.objectKey ∧ (Gone w m.objectKey → Gone w' m.objectKey)) :
    Watches w' worker := by
  refine ⟨fun hphase hpinned => h.content hphase (hcontent hphase hpinned),
    fun hphase hpinned => h.manifest hphase (hmanifest hphase hpinned), ?_, ?_⟩
  · intro m' hm' hid
    obtain ⟨m, hm, hmid, hkey, -⟩ := hmarks m' hm' hid
    exact hkey.symm.trans (h.mark m hm (hmid.trans hid))
  · intro hphase m' hm' hid
    obtain ⟨m, hm, hmid, -, hgone⟩ := hmarks m' hm' hid
    rw [h.mark m hm (hmid.trans hid)] at hgone
    exact hgone (h.gone hphase m hm (hmid.trans hid))

theorem MarksInv.unclaimed {w : World Bytes} (hw : MarksInv w) {key : String}
    (hcontent : ¬ contentPinned w.db key) (hmanifest : ¬ manifestPinned w.db key) :
    ∀ (r : Nat) (run : Run), w.runs[r]? = some run → run.phase.prepared = true →
      key ∉ claimedKeys run.scan.files run.manifestKey := by
  intro r run hr hprepared hkey
  have hinv := hw.collection.runs r run hr
  rcases hinv.pinned_claimedKeys (hw.collection.agree r run hr) hprepared
      (pins_of_live hinv (hw.live r run hr) hprepared) hkey with hpinned | hpinned
  · exact hcontent hpinned
  · exact hmanifest hpinned

/-! ## Steps of a run -/

theorem marksInv_run {d : DataPlane Bytes} {w : World Bytes} {r : Nat} {run : Run}
    {op : RunOp Bytes} {e : Effect Bytes} (hw : MarksInv w) (hr : w.runs[r]? = some run)
    (hallowed : w.runAllowed run op = true) (h : RunStep d w.now w.db w.store run op e)
    (hclaim : NoReclaim w (.run r op) (w.afterRun r run e)) : MarksInv (w.afterRun r run e) := by
  have hinv := hw.collection.runs r run hr
  have hagree := hw.collection.agree r run hr
  have haccounted := hw.collection.consistent.accounted r run hr
  have hkeys := hw.collection.consistent.keys
  -- A claim deletes the marks of its keys, so the mark of none is left to a run that claims it.
  have hmarks : ∀ m ∈ e.db.gcMarks, m ∈ w.db.gcMarks ∧ (e.run.phase.prepared = true →
      run.phase.prepared = true ∨ m.objectKey ∉ claimedKeys run.scan.files run.manifestKey) := by
    intro m hm
    cases h with
    | prepared phase prepare =>
        unfold prepareSnapshotUpload at prepare
        split at prepare
        · cases prepare
          obtain ⟨hold, hkey⟩ := mem_deleteWhere.mp hm
          exact ⟨hold, fun _ => .inr (of_decide_eq_false hkey)⟩
        · cases prepare
    | committed phase finalize =>
        obtain ⟨-, rfl⟩ := finalizeBody_eq_ok_iff.mp finalize
        exact ⟨hm, nofun⟩
    | started phase | task phase | recorded phase | verifying phase | published phase
    | verified phase | checked phase => exact ⟨hm, fun _ => .inl (by rw [phase]; rfl)⟩
    | _ => exact ⟨hm, nofun⟩
  have hgone : ∀ m ∈ e.db.gcMarks, Gone w m.objectKey → Gone (w.afterRun r run e) m.objectKey := by
    intro m hm hgone
    have hfree := hgone.unclaimed r run hr
    refine ⟨h.store_none haccounted hgone.absent hfree, ?_⟩
    intro i run' hi hprepared
    rw [getElem?_afterRun hr] at hi
    split at hi
    · cases hi
      have hkept := h.kept
      rw [hkept.2.2.1, Run.manifestKey, hkept.1, hkept.2.1]
      rcases (hmarks m hm).2 hprepared with hbefore | hfree'
      · exact hfree hbefore
      · exact hfree'
    · exact hgone.unclaimed i run' hi hprepared
  refine ⟨collectionInv_run hw.collection hr hallowed h hclaim, ?_, ?_, ?_, ?_⟩
  · intro i run' hi
    rw [getElem?_afterRun hr] at hi
    split at hi
    · cases hi
      exact live_own hw.collection.consistent hr (hw.live r run hr) h
    · rename_i hne
      by_cases hidle : run'.phase.rowState = none
      · exact live_idle hidle
      have hlive := RunPhase.executing_of_rowState (Option.isSome_iff_ne_none.mpr hidle)
      obtain ⟨-, hafter⟩ := hw.collection.other_id hr hi hne hlive h hclaim
      refine (hw.live i run' hi).frame ?_ ?_
      · intro s hs _
        obtain ⟨t, ht, htid, -⟩ := exists_of_mem_rowIds (h.subset_rowIds _ (mem_rowIds hs))
        exact ⟨t, ht, htid⟩
      · intro s' hs' hid
        rcases h.rows_other hkeys hs' (hid ▸ hafter) with hold | ⟨hsuperseded, -⟩
        · exact .inl hold
        · exact .inr (by rw [hsuperseded]; exact SnapshotState.noConfusion)
  · intro m hm m' hm' hid
    exact hw.keyed m (hmarks m hm).1 m' (hmarks m' hm').1 hid
  · intro m hm hcollected
    exact hgone m hm (hw.collected m (hmarks m hm).1 hcollected)
  · intro worker hworker
    have hfree : worker.phase.contentSeen = true → ∀ canonical, op = .prepare canonical →
        worker.objectKey ∉ claimedKeys run.scan.files run.manifestKey := by
      rintro hphase canonical rfl hclaimed
      have hlocking := GcPhase.locking_of_contentSeen hphase
      simp only [World.runAllowed, Bool.and_eq_true, List.all_eq_true, Bool.not_eq_true',
        World.keyLocked, List.any_eq_false, decide_eq_true_eq] at hallowed
      exact hallowed.2 _ hclaimed worker hworker ⟨rfl, hlocking⟩
    refine (hw.workers worker hworker).frame ?_ ?_ ?_
    · exact fun hphase => (h.pinned_key hinv hagree haccounted (hfree hphase)).1
    · intro hphase
      exact (h.pinned_key hinv hagree haccounted
        (hfree (GcPhase.contentSeen_of_manifestSeen hphase))).2
    · exact fun m hm hid => ⟨m, (hmarks m hm).1, rfl, rfl, hgone m hm⟩

/-! ## Steps of a collector -/

/-- What the outcome does to a mark: a collected one is that of the collector, which has not
failed. -/
theorem gcStep_gcMarks {now : Timestamp} {db : Database} {store : Store Bytes}
    {worker : GcWorker} {op : GcOp} {e : Database × Store Bytes × GcWorker}
    (h : gcStep now db store worker op = some e) :
    ∀ m' ∈ e.1.gcMarks, ∃ m ∈ db.gcMarks, m.id = m'.id ∧ m.objectKey = m'.objectKey ∧
      (m'.collected = true → m.collected = true ∨
        m.id = worker.markId ∧ worker.phase.collecting = true) := by
  have hkeeps : ∀ m' ∈ db.gcMarks, ∃ m ∈ db.gcMarks, m.id = m'.id ∧ m.objectKey = m'.objectKey ∧
      (m'.collected = true → m.collected = true ∨
        m.id = worker.markId ∧ worker.phase.collecting = true) :=
    fun m' hm' => ⟨m', hm', rfl, rfl, .inl⟩
  unfold gcStep at h
  split at h
  case h_10 =>
    rename_i text result phase
    cases h
    intro m' hm'
    dsimp only [recordGcOutcome] at hm'
    split at hm'
    · obtain ⟨m, hm, rfl⟩ := mem_updateWhere.mp hm'
      refine ⟨m, hm, ?_⟩
      split
      · rename_i hmark
        simp only [List.mem_singleton, Bool.and_eq_true, decide_eq_true_eq] at hmark
        exact ⟨rfl, rfl, fun _ => .inr ⟨hmark.1, by rw [phase]; rfl⟩⟩
      · exact ⟨rfl, rfl, .inl⟩
    · dsimp only [deferGcMark] at hm'
      split at hm'
      · exact hkeeps m' hm'
      · obtain ⟨m, hm, rfl⟩ := mem_updateWhere.mp hm'
        refine ⟨m, hm, ?_⟩
        split <;> exact ⟨rfl, rfl, .inl⟩
    · obtain ⟨m, hm, rfl⟩ := mem_updateWhere.mp hm'
      refine ⟨m, hm, ?_⟩
      split <;> exact ⟨rfl, rfl, .inl⟩
  all_goals repeat' split at h
  all_goals cases h
  all_goals exact hkeeps

theorem gcStep_worker {now : Timestamp} {db : Database} {store : Store Bytes} {worker : GcWorker}
    {op : GcOp} {e : Database × Store Bytes × GcWorker}
    (h : gcStep now db store worker op = some e) :
    e.2.2.markId = worker.markId ∧ e.2.2.objectKey = worker.objectKey := by
  unfold gcStep GcWorker.onCheck at h
  split at h
  all_goals repeat' split at h
  all_goals cases h
  all_goals dsimp only
  all_goals exact ⟨rfl, rfl⟩

theorem gcStep_seen {now : Timestamp} {db : Database} {store : Store Bytes} {worker : GcWorker}
    {op : GcOp} {e : Database × Store Bytes × GcWorker}
    (hcontent : worker.phase.contentSeen = true → ¬ contentPinned db worker.objectKey)
    (h : gcStep now db store worker op = some e) :
    (e.2.2.phase.contentSeen = true → ¬ contentPinned db worker.objectKey) ∧
      (e.2.2.phase.manifestSeen = true → ¬ manifestPinned db worker.objectKey) := by
  have hblind : e.2.2.phase.contentSeen = false →
      (e.2.2.phase.contentSeen = true → ¬ contentPinned db worker.objectKey) ∧
        (e.2.2.phase.manifestSeen = true → ¬ manifestPinned db worker.objectKey) := by
    intro hphase
    refine ⟨?_, fun hmanifest => ?_⟩
    · rw [hphase]
      exact nofun
    · rw [GcPhase.contentSeen_of_manifestSeen hmanifest] at hphase
      cases hphase
  unfold gcStep at h
  split at h
  case h_3 =>
    rename_i round phase
    cases h
    dsimp only [GcWorker.onCheck] at hblind ⊢
    split at hblind
    · rename_i hcheck
      refine ⟨fun _ => not_contentPinned_of_check hcheck, ?_⟩
      exact nofun
    · exact hblind rfl
  case h_4 =>
    rename_i round phase
    cases h
    dsimp only [GcWorker.onCheck] at hblind ⊢
    split at hblind
    · rename_i hcheck
      refine ⟨?_, fun _ => not_manifestPinned_of_check hcheck⟩
      intro hseen
      apply hcontent
      rw [phase]
      cases round with
      | before | confirm => rfl
      | after => cases hseen
    · exact hblind rfl
  case h_2 =>
    cases h
    dsimp only [GcWorker.onCheck] at hblind ⊢
    split at hblind <;> exact hblind rfl
  case h_5 =>
    cases h
    apply hblind
    dsimp only [GcWorker.at]
    split <;> rfl
  all_goals repeat' split at h
  all_goals cases h
  all_goals exact hblind rfl

/-- A collector that is done with an object, or about to be, has not found it or has deleted
it. -/
theorem gcStep_collecting {now : Timestamp} {db : Database} {store : Store Bytes}
    {worker : GcWorker} {op : GcOp} {e : Database × Store Bytes × GcWorker}
    (h : gcStep now db store worker op = some e) (hphase : e.2.2.phase.collecting = true) :
    worker.phase.collecting = true ∨
      worker.phase.manifestSeen = true ∧ e.2.1 worker.objectKey = none := by
  unfold gcStep at h
  split at h
  case h_2 | h_3 | h_4 =>
    rename_i round phase
    cases h
    left
    rw [phase]
    dsimp only [GcWorker.onCheck] at hphase
    split at hphase
    · cases round <;> first | rfl | cases hphase
    · cases hphase
  case h_5 =>
    rename_i phase
    cases h
    refine .inr ⟨by rw [phase]; rfl, ?_⟩
    dsimp only [GcWorker.at] at hphase ⊢
    split at hphase
    · cases hphase
    · rename_i hnone
      simpa using hnone
  case h_6 =>
    rename_i phase
    cases h
    exact .inr ⟨by rw [phase]; rfl, Function.update_self ..⟩
  case h_7 =>
    rename_i phase
    exact .inl (by rw [phase]; rfl)
  case h_8 =>
    rename_i result phase
    cases h
    left
    rw [phase]
    cases result with
    | ok deleted => rfl
    | error err => cases hphase
  all_goals repeat' split at h
  all_goals cases h
  all_goals cases hphase

theorem marksInv_gc {w : World Bytes} {g : Nat} {worker : GcWorker} {op : GcOp}
    {e : Database × Store Bytes × GcWorker} (hw : MarksInv w) (hg : w.workers[g]? = some worker)
    (h : gcStep w.now w.db w.store worker op = some e)
    (hconsistent : Consistent { w with
      db := e.1, store := e.2.1, workers := w.workers.set g e.2.2 }) :
    MarksInv { w with db := e.1, store := e.2.1, workers := w.workers.set g e.2.2 } := by
  obtain ⟨hrows, hobjects, -⟩ := gcStep_rows h
  have hmarks := gcStep_gcMarks h
  have hwatch := hw.workers worker (List.mem_of_getElem? hg)
  have hgone : ∀ key, Gone w key →
      Gone { w with db := e.1, store := e.2.1, workers := w.workers.set g e.2.2 } key := by
    intro key hgone
    refine ⟨?_, hgone.unclaimed⟩
    rcases gcStep_store h with hstore | ⟨-, hstore⟩
    · exact (congrFun hstore key).trans hgone.absent
    · change e.2.1 key = none
      rw [hstore]
      by_cases hkey : key = worker.objectKey
      · rw [hkey, Function.update_self]
      · rw [Function.update_of_ne hkey, hgone.absent]
  have hcontent : ∀ {key}, contentPinned e.1 key → contentPinned w.db key := by
    rintro key ⟨s, hs, hpinned, o, ho, hid, hkey⟩
    exact ⟨s, hrows ▸ hs, hpinned, o, hobjects ▸ ho, hid, hkey⟩
  have hmanifest : ∀ {key}, manifestPinned e.1 key → manifestPinned w.db key := by
    rintro key ⟨s, hs, hpinned, hkey⟩
    exact ⟨s, hrows ▸ hs, hpinned, hkey⟩
  refine ⟨collectionInv_gc hw.collection hg h hconsistent, ?_, ?_, ?_, ?_⟩
  · intro r run hr
    change Live e.1.snapshots run
    rw [hrows]
    exact hw.live r run hr
  · intro m₁ hm₁ m₂ hm₂ hid
    obtain ⟨m₁', hm₁', hid₁, hkey₁, -⟩ := hmarks m₁ hm₁
    obtain ⟨m₂', hm₂', hid₂, hkey₂, -⟩ := hmarks m₂ hm₂
    rw [← hkey₁, ← hkey₂]
    exact hw.keyed m₁' hm₁' m₂' hm₂' (hid₁.trans (hid.trans hid₂.symm))
  · intro m' hm' hcollected
    obtain ⟨m, hm, hid, hkey, hbefore⟩ := hmarks m' hm'
    rw [← hkey]
    rcases hbefore hcollected with hold | ⟨hown, hphase⟩
    · exact hgone _ (hw.collected m hm hold)
    · rw [hwatch.mark m hm hown]
      exact hgone _ (hwatch.gone hphase m hm hown)
  · intro worker' hworker'
    rcases List.mem_or_eq_of_mem_set hworker' with hold | rfl
    · refine (hw.workers worker' hold).frame (fun _ => hcontent) (fun _ => hmanifest) ?_
      intro m' hm' hid
      obtain ⟨m, hm, hmid, hkey, -⟩ := hmarks m' hm'
      exact ⟨m, hm, hmid, hkey, hgone _⟩
    · obtain ⟨hsame, hsameKey⟩ := gcStep_worker h
      obtain ⟨hseen, hseenManifest⟩ := gcStep_seen hwatch.content h
      rw [← hsameKey] at hseen hseenManifest
      refine ⟨fun hphase hpinned => hseen hphase (hcontent hpinned),
        fun hphase hpinned => hseenManifest hphase (hmanifest hpinned), ?_, ?_⟩
      · intro m' hm' hid
        obtain ⟨m, hm, hmid, hkey, -⟩ := hmarks m' hm'
        rw [← hkey, hsameKey]
        exact hwatch.mark m hm (hmid.trans (hid.trans hsame))
      · intro hphase m' hm' hid
        obtain ⟨m, hm, hmid, hkey, -⟩ := hmarks m' hm'
        rw [hsameKey]
        rcases gcStep_collecting h hphase with hbefore | ⟨hlooked, hnone⟩
        · exact hgone _ (hwatch.gone hbefore m hm (hmid.trans (hid.trans hsame)))
        · exact ⟨hnone, hw.unclaimed
            (hwatch.content (GcPhase.contentSeen_of_manifestSeen hlooked))
            (hwatch.manifest hlooked)⟩

/-! ## Steps of the machine -/

theorem marksInv_maintenance {w w' : World Bytes} (hw : MarksInv w)
    (hcollection : CollectionInv w') (hruns : w'.runs = w.runs) (hstore : w'.store = w.store)
    (hworkers : w'.workers = w.workers)
    (hlive : ∀ (r : Nat) (run : Run), w.runs[r]? = some run → Live w'.db.snapshots run)
    (hcontent : ∀ key, contentPinned w'.db key → contentPinned w.db key)
    (hmanifest : ∀ key, manifestPinned w'.db key → manifestPinned w.db key)
    (hkeyed : ∀ m ∈ w'.db.gcMarks, ∀ m' ∈ w'.db.gcMarks, m.id = m'.id →
      m.objectKey = m'.objectKey)
    (hmarks : ∀ m' ∈ w'.db.gcMarks, (∃ m ∈ w.db.gcMarks, m.id = m'.id ∧
      m.objectKey = m'.objectKey ∧ (m'.collected = true → m.collected = true)) ∨
        m'.collected = false ∧ ∀ worker ∈ w.workers, worker.markId ≠ m'.id) : MarksInv w' := by
  have hgone : ∀ key, Gone w key → Gone w' key := by
    intro key hgone
    refine ⟨?_, ?_⟩
    · rw [hstore]
      exact hgone.absent
    · rw [hruns]
      exact hgone.unclaimed
  refine ⟨hcollection, ?_, hkeyed, ?_, ?_⟩
  · rw [hruns]
    exact hlive
  · intro m' hm' hcollected
    rcases hmarks m' hm' with ⟨m, hm, -, hkey, hbefore⟩ | ⟨hfalse, -⟩
    · rw [← hkey]
      exact hgone _ (hw.collected m hm (hbefore hcollected))
    · rw [hcollected] at hfalse
      cases hfalse
  · rw [hworkers]
    intro worker hworker
    refine (hw.workers worker hworker).frame (fun _ => hcontent _) (fun _ => hmanifest _) ?_
    intro m' hm' hid
    rcases hmarks m' hm' with ⟨m, hm, hmid, hkey, -⟩ | ⟨-, hfresh⟩
    · exact ⟨m, hm, hmid, hkey, hgone _⟩
    · exact absurd hid.symm (hfresh worker hworker)

/-- A pass of `applyRetention` keeps the rows of the runs that are executing. -/
theorem marksInv_retention {w : World Bytes} {ids : String → Uuid} {w' : World Bytes}
    (hw : MarksInv w) (hfresh : FreshMarkIds w (.retention ids) w')
    (hcollection : CollectionInv { w with db := applyRetention w.now ids w.db }) :
    MarksInv { w with db := applyRetention w.now ids w.db } := by
  obtain ⟨hnew, hapart⟩ := hfresh
  have hrows : ∀ s ∈ (applyRetention w.now ids w.db).snapshots, s ∈ w.db.snapshots :=
    fun s hs => (mem_deleteWhere.mp hs).1
  have hobjects : ∀ o ∈ (applyRetention w.now ids w.db).snapshotObjects,
      o ∈ w.db.snapshotObjects := fun o ho => (mem_deleteWhere.mp ho).1
  have hmarks : ∀ m' ∈ (applyRetention w.now ids w.db).gcMarks,
      (∃ m ∈ w.db.gcMarks, m.id = m'.id ∧ m.objectKey = m'.objectKey ∧
        (m'.collected = true → m.collected = true)) ∨
      ∃ c ∈ w.candidates, m'.id = ids c.objectKey ∧ m'.objectKey = c.objectKey ∧
        m'.collected = false := by
    intro m' hm'
    rcases mem_markExpired hm' with ⟨m₁, hm₁, hid, hkey, hcollected⟩ | hcandidate
    · obtain ⟨m, hm, hid₀, hkey₀, hcollected₀⟩ := mem_pruneExpired_gcMarks hm₁
      exact .inl ⟨m, hm, hid₀.trans hid, hkey₀.trans hkey,
        fun h => hcollected₀.trans (hcollected h)⟩
    · exact .inr hcandidate
  refine marksInv_maintenance hw hcollection rfl rfl rfl ?_ ?_ ?_ ?_ ?_
  · intro r run hr
    by_cases hidle : run.phase.rowState = none
    · exact live_idle hidle
    have hlive := hw.live r run hr
    have hsome := Option.isSome_iff_ne_none.mpr hidle
    obtain ⟨st, hst⟩ := Option.ne_none_iff_exists'.mp hidle
    refine hlive.frame ?_ fun s' hs' _ => .inl (hrows s' hs')
    intro s hs hid
    refine ⟨s, ?_, rfl⟩
    by_contra hpruned
    -- The row of the run is neither superseded nor failed.
    rcases state_of_prunable (prunable_of_pruned hs hpruned) with hstate | hstate
    · rcases (hw.collection.runs r run hr).state st hst s hs hid with hactive | herror
      · rw [hstate] at hactive
        subst hactive
        revert hst
        cases run.phase <;> simp [RunPhase.rowState]
      · rw [hstate] at herror
        cases herror
    · exact hlive.unfailed hsome s hs hid hstate
  · rintro key ⟨s, hs, hpinned, o, ho, hid, hkey⟩
    exact ⟨s, hrows s hs, hpinned, o, hobjects o ho, hid, hkey⟩
  · rintro key ⟨s, hs, hpinned, hkey⟩
    exact ⟨s, hrows s hs, hpinned, hkey⟩
  · intro m₁ hm₁ m₂ hm₂ hid
    rcases hmarks m₁ hm₁ with ⟨m, hm, hmid, hkey, -⟩ | ⟨c, hc, hcid, hckey, -⟩
    · rcases hmarks m₂ hm₂ with ⟨m', hm', hmid', hkey', -⟩ | ⟨c', hc', hcid', -, -⟩
      · rw [← hkey, ← hkey']
        exact hw.keyed m hm m' hm' (hmid.trans (hid.trans hmid'.symm))
      · exact absurd (hmid.trans (hid.trans hcid')) ((hnew c' hc').1 m hm)
    · rcases hmarks m₂ hm₂ with ⟨m', hm', hmid', -, -⟩ | ⟨c', hc', hcid', hckey', -⟩
      · exact absurd (hmid'.trans (hid.symm.trans hcid)) ((hnew c hc).1 m' hm')
      · rw [hckey, hckey']
        exact hapart c hc c' hc' (hcid.symm.trans (hid.trans hcid'))
  · intro m' hm'
    rcases hmarks m' hm' with hold | ⟨c, hc, hcid, -, hfalse⟩
    · exact .inl hold
    · refine .inr ⟨hfalse, ?_⟩
      intro worker hworker
      rw [hcid]
      exact (hnew c hc).2 worker hworker

theorem marksInv_step {d : DataPlane Bytes} {w w' : World Bytes} {a : Action Bytes}
    (hw : MarksInv w) (hagree : a.scanAgrees) (hclaim : NoReclaim w a w')
    (hstopped : StalledHaveStopped w a w') (hfresh : FreshMarkIds w a w')
    (h : step d w a = some w') : MarksInv w' := by
  have hcollection := collectionInv_step hw.collection hagree hclaim h
  cases a with
  | begin id problemId generation token version scan =>
      obtain ⟨-, -, rfl⟩ := step_begin h
      have hgone : ∀ key, Gone w key → Gone { w with runs := w.runs ++
          [⟨problemId, generation, token, version, scan, id, w.now, .fenced⟩] } key := by
        intro key hgone
        refine ⟨hgone.absent, ?_⟩
        intro r run hr hprepared
        rcases getElem?_begin hr with hr | ⟨-, rfl⟩
        · exact hgone.unclaimed r run hr hprepared
        · cases hprepared
      refine ⟨hcollection, ?_, hw.keyed, ?_, ?_⟩
      · intro r run hr
        rcases getElem?_begin hr with hr | ⟨-, rfl⟩
        · exact hw.live r run hr
        · exact live_idle rfl
      · exact fun m hm hcollected => hgone _ (hw.collected m hm hcollected)
      · intro worker hworker
        exact (hw.workers worker hworker).frame (fun _ h => h) (fun _ h => h)
          fun m hm hid => ⟨m, hm, rfl, rfl, hgone _⟩
  | run r op =>
      obtain ⟨run, e, hr, hallowed, hstep, rfl⟩ := step_run h
      exact marksInv_run hw hr hallowed hstep hclaim
  | gcList id token =>
      obtain ⟨m, hm, rfl⟩ := step_gcList h
      have hgone : ∀ key, Gone w key → Gone { w with
          workers := w.workers ++ [⟨m.id, m.objectKey, token, .listed⟩] } key :=
        fun key hgone => ⟨hgone.absent, hgone.unclaimed⟩
      refine ⟨hcollection, hw.live, hw.keyed,
        fun m hm hcollected => hgone _ (hw.collected m hm hcollected), ?_⟩
      intro worker hworker
      rcases List.mem_append.mp hworker with hold | hnew
      · exact (hw.workers worker hold).frame (fun _ h => h) (fun _ h => h)
          fun m hm hid => ⟨m, hm, rfl, rfl, hgone _⟩
      · obtain rfl := List.mem_singleton.mp hnew
        exact ⟨nofun, nofun, fun m' hm' hid => hw.keyed m' hm' m hm hid, nofun⟩
  | gc g op =>
      obtain ⟨worker, e, hg, -, hgc, rfl⟩ := step_gc h
      exact marksInv_gc hw hg hgc hcollection.consistent
  | retention ids =>
      cases h
      exact marksInv_retention hw hfresh hcollection
  | failStalled =>
      cases h
      have hstep : ∀ s' ∈ failStalledSnapshots w.now w.db.snapshots,
          s' ∈ w.db.snapshots ∨ s'.state = .error ∧ ∃ s ∈ w.db.snapshots, s.id = s'.id ∧
            (s.state.active && s.createdAt < w.now - hours 6) = true := by
        intro s' hs'
        obtain ⟨s, hs, rfl⟩ := mem_updateWhere.mp hs'
        split
        · rename_i hstalled
          exact .inr ⟨rfl, s, hs, rfl, hstalled⟩
        · exact .inl hs
      have hpinned : ∀ s' ∈ failStalledSnapshots w.now w.db.snapshots, pinned s' = true →
          s' ∈ w.db.snapshots := by
        intro s' hs' hpinned
        rcases hstep s' hs' with hold | ⟨herror, -⟩
        · exact hold
        · simp [pinned, herror] at hpinned
      refine marksInv_maintenance hw hcollection rfl rfl rfl ?_ ?_ ?_ hw.keyed
        fun m hm => .inl ⟨m, hm, rfl, rfl, fun h => h⟩
      · intro r run hr
        by_cases hidle : run.phase.rowState = none
        · exact live_idle hidle
        have hexecuting := RunPhase.executing_of_rowState (Option.isSome_iff_ne_none.mpr hidle)
        refine (hw.live r run hr).frame ?_ ?_
        · intro s hs _
          refine ⟨_, mem_updateWhere.mpr ⟨s, hs, rfl⟩, ?_⟩
          split <;> rfl
        · intro s' hs' hid
          rcases hstep s' hs' with hold | ⟨-, s, hs, hsid, hstalled⟩
          · exact .inl hold
          · have hspared := hstopped run (List.mem_of_getElem? hr) hexecuting s hs
              (hsid.trans hid)
            rw [hspared] at hstalled
            cases hstalled
      · rintro key ⟨s, hs, hp, o, ho, hid, hkey⟩
        exact ⟨s, hpinned s hs hp, hp, o, ho, hid, hkey⟩
      · rintro key ⟨s, hs, hp, hkey⟩
        exact ⟨s, hpinned s hs hp, hp, hkey⟩
  | tick elapsed | external tables =>
      cases h
      exact marksInv_maintenance hw hcollection rfl rfl rfl hw.live (fun _ h => h) (fun _ h => h)
        hw.keyed fun m hm => .inl ⟨m, hm, rfl, rfl, fun h => h⟩

theorem prunesAccounted_of_inv {w w' : World Bytes} {d : DataPlane Bytes} {a : Action Bytes}
    (hw : MarksInv w) (h : step d w a = some w') : PrunesAccounted w a w' := by
  cases a with
  | retention ids =>
      cases h
      have hgone : ∀ key, collectedMark w.db key = true → w.store key = none := by
        intro key hmark
        simp only [collectedMark, List.any_eq_true, Bool.and_eq_true, decide_eq_true_eq] at hmark
        obtain ⟨m, hm, rfl, hcollected⟩ := hmark
        exact (hw.collected m hm hcollected).absent
      intro s hs hpruned
      have hprunable := prunable_of_pruned hs hpruned
      simp only [prunable, Bool.and_eq_true, List.all_eq_true, Bool.or_eq_true, decide_not,
        Bool.not_eq_true', decide_eq_false_iff_not] at hprunable
      obtain ⟨⟨-, hmanifest⟩, hobjects⟩ := hprunable
      constructor
      · intro o ho hid
        rcases hobjects o ho with (hother | hcollected) | helsewhere
        · exact absurd hid hother
        · exact .inl (hgone _ hcollected)
        · exact .inr helsewhere
      · intro key hkey
        rw [Option.mem_def] at hkey
        rw [hkey] at hmanifest
        simp only [Bool.or_eq_true] at hmanifest
        exact hmanifest.imp_left (hgone key)
  | _ => trivial

/-! ## Metadata goes last -/

/-- A world in which nothing has begun, and whose collected marks speak for absent objects. -/
structure InitialMarks (w : World Bytes) : Prop where
  initial : Initial w
  stored : ReadyStored w
  keyed : ∀ m ∈ w.db.gcMarks, ∀ m' ∈ w.db.gcMarks, m.id = m'.id → m.objectKey = m'.objectKey
  collected : ∀ m ∈ w.db.gcMarks, m.collected = true → w.store m.objectKey = none

theorem marksInv_initial {w : World Bytes} (hw : InitialMarks w) : MarksInv w := by
  refine ⟨collectionInv_initial hw.initial hw.stored, ?_, hw.keyed, ?_, ?_⟩
  · intro r run hr
    simp [hw.initial.runs] at hr
  · intro m hm hcollected
    refine ⟨hw.collected m hm hcollected, ?_⟩
    intro r run hr
    simp [hw.initial.runs] at hr
  · intro worker hworker
    simp [hw.initial.workers] at hworker

/-- Metadata is pruned only after its objects are accounted for, when each scan names a path
once and no run outlives the failing of its row. -/
theorem pruned_metadata_accounted {d : DataPlane Bytes} {w : World Bytes}
    {as : List (Action Bytes)} (hinit : InitialMarks w) (hagree : ∀ a ∈ as, a.scanAgrees)
    (hclaim : EveryStep (step d) NoReclaim w as)
    (hstopped : EveryStep (step d) StalledHaveStopped w as)
    (hfresh : EveryStep (step d) FreshMarkIds w as) :
    EveryStep (step d) PrunesAccounted w as := by
  have hadmitted := (hclaim.and hstopped).and (hfresh.and (everyStep_of_forall_mem hagree))
  refine everyStep_of_invariant ?_ ?_ (marksInv_initial hinit) hadmitted
  · rintro s a t hs ⟨⟨hclaim, hstopped⟩, hfresh, hagree⟩ hstep
    exact marksInv_step hs hagree hclaim hstopped hfresh hstep
  · intro s a t hs _ hstep
    exact prunesAccounted_of_inv hs hstep

instance (w : World Bytes) (a : Action Bytes) (w' : World Bytes) :
    Decidable (StalledHaveStopped w a w') := by
  unfold StalledHaveStopped
  obtain _ | _ := a <;> infer_instance

instance (w : World Bytes) (a : Action Bytes) (w' : World Bytes) :
    Decidable (FreshMarkIds w a w') := by
  unfold FreshMarkIds
  obtain _ | _ := a <;> infer_instance

instance (w : World Bytes) (a : Action Bytes) (w' : World Bytes) :
    Decidable (PrunesAccounted w a w') := by
  unfold PrunesAccounted
  obtain _ | _ := a <;> infer_instance

/-- A snapshot of generation 1 with one file, superseded longer ago than it is protected. -/
def expiredRow : SnapshotRow :=
  { freshSnapshot 3 "101" 1 (sampleTime - days 200) with
    state := .superseded, manifestKey := some (manifestKey "101" 1)
    completedAt := some (sampleTime - days 200), supersededAt := some (sampleTime - days 100) }

def expiredWorld (f : FileEntry) (text : String) : World Content :=
  { sampleWorld with
    store := Function.update sampleWorld.store (objectKeyForSha256 f.sha256) (some (.file text))
    db := { sampleWorld.db with
      snapshots := [expiredRow]
      snapshotObjects := [{ f.claimRow 3 with uploaded := true, verified := true }] } }

def markIds (key : String) : Uuid := if key = manifestKey "101" 1 then 8 else 9

theorem initialMarks_expiredWorld (f : FileEntry) (text : String) :
    InitialMarks (expiredWorld f text) := by
  refine ⟨⟨⟨by simp [expiredWorld, rowIds], ?_⟩, rfl, rfl, fun _ => rfl⟩, ?_, ?_, ?_⟩
  · simp [expiredWorld, rowIds]
  · intro s hs hready
    obtain rfl := List.mem_singleton.mp hs
    cases hready
  · intro m hm
    cases hm
  · intro m hm
    cases hm

/-- A collector on an object that is there, and on one that is not. -/
def collecting (g : Nat) : List (Action Content) :=
  .gc g .lock :: List.replicate 13 (.gc g .next) ++ [.gc g (.record "")]

def collectingNone (g : Nat) : List (Action Content) :=
  .gc g .lock :: List.replicate 5 (.gc g .next) ++ [.gc g (.record "")]

/-- The next generation claims the file of the expired one, whose row goes when its manifest
is collected. -/
def prunedRun : List (Action Content) :=
  [.begin 1 "101" 2 1 (some 1) sampleScan, .run 0 .claim, .run 0 .cleanup, .run 0 .setHashing,
    .run 0 (.prepare (some initYmlText)), .retention markIds, .tick (days 7).toNat, .gcList 8 1] ++
    collectingNone 0 ++ [.retention markIds]

theorem pruned_metadata_accounted_shared :
    (exec (step samplePlane) (expiredWorld dataZip dataZipText) prunedRun).any
        (fun u => ∀ s ∈ u.db.snapshots, s.id ≠ 3) = true ∧
      EveryStep (step samplePlane) PrunesAccounted (expiredWorld dataZip dataZipText)
        prunedRun := by
  have hagree : ∀ a ∈ prunedRun, a.scanAgrees := by decide
  -- all in one evaluation of the run
  have ⟨hpruned, hclaim, hstopped, hfresh⟩ :
      (exec (step samplePlane) (expiredWorld dataZip dataZipText) prunedRun).any
          (fun u => ∀ s ∈ u.db.snapshots, s.id ≠ 3) = true ∧
        EveryStep (step samplePlane) NoReclaim (expiredWorld dataZip dataZipText) prunedRun ∧
        EveryStep (step samplePlane) StalledHaveStopped (expiredWorld dataZip dataZipText)
          prunedRun ∧
        EveryStep (step samplePlane) FreshMarkIds (expiredWorld dataZip dataZipText)
          prunedRun := by
    decide +kernel
  exact ⟨hpruned, pruned_metadata_accounted (initialMarks_expiredWorld _ _) hagree hclaim hstopped
    hfresh⟩

/-- The row of a run lists the link when the object of the expired file is collected, and the
file has been put again when the expired row goes. -/
def clashingPrune : List (Action Content) :=
  [.begin 1 "101" 2 1 (some 1) clashingScan, .run 0 .claim, .run 0 .cleanup, .run 0 .setHashing,
    .run 0 (.prepare (some initYmlText))] ++ uploadAbsent 0 testLink "data.zip" ++
    [.retention markIds, .tick (days 7).toNat, .gcList 8 1, .gcList 9 1] ++ collectingNone 0 ++
    collecting 1 ++
    [.run 0 .start, .run 0 (.task 0 (.read testIn.sha256)), .run 0 (.task 0 .next),
      .run 0 (.task 0 .next), .run 0 (.task 0 (.write (.file "1 2\n"))), .retention markIds]

theorem pruned_object_still_stored :
    InitialMarks (expiredWorld testIn "1 2\n") ∧
      EveryStep (step clashingPlane) NoReclaim (expiredWorld testIn "1 2\n") clashingPrune ∧
      EveryStep (step clashingPlane) FreshMarkIds (expiredWorld testIn "1 2\n") clashingPrune ∧
      (exec (step clashingPlane) (expiredWorld testIn "1 2\n") clashingPrune).isSome ∧
      ¬ EveryStep (step clashingPlane) PrunesAccounted (expiredWorld testIn "1 2\n")
        clashingPrune :=
  ⟨initialMarks_expiredWorld _ _, by decide +kernel⟩

end ExternalStorage.Snapshot
