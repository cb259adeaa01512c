import Mathlib
import ExternalStorage.Snapshot.Marks

/-!
# Objects that nothing refers to

Retention and the collector reach an object by its row in `snapshot_objects`, and then by its
mark.  A claim that takes over a row deletes the object rows of the attempt before it, and only
`prepare_snapshot_upload` inserts rows again: those of the folder as it is then.
-/

namespace ExternalStorage.Snapshot

open ExternalStorage.Model Library.Runs Library.Table

variable {Bytes : Type}

/-! ## Statements -/

structure Uploading (Bytes : Type) where
  world : World Bytes
  /-- The keys that runs have put content at: history the program does not keep. -/
  uploaded : List String := []

def World.putKey (w : World Bytes) : Action Bytes → Option String
  | .run r (.task i (.write _)) =>
      (w.runs[r]?).bind fun run =>
        match run.phase with
        | .uploading _ _ inFlight _ => (inFlight[i]?).map Task.objectKey
        | _ => none
  | _ => none

def uploadStep (d : DataPlane Bytes) (s : Uploading Bytes) (a : Action Bytes) :
    Option (Uploading Bytes) :=
  (step d s.world a).map fun w => ⟨w, (s.world.putKey a).toList ++ s.uploaded⟩

def Referenced (db : Database) (key : String) : Prop :=
  (∃ o ∈ db.snapshotObjects, o.objectKey = key) ∨
    ∃ m ∈ db.gcMarks, m.objectKey = key ∧ m.collected = false

instance (db : Database) (key : String) : Decidable (Referenced db key) :=
  inferInstanceAs (Decidable ((∃ o ∈ db.snapshotObjects, o.objectKey = key) ∨
    ∃ m ∈ db.gcMarks, m.objectKey = key ∧ m.collected = false))

/-- With no run executing, what runs have uploaded is gone or referenced. -/
def NoLeak (s : Uploading Bytes) : Prop :=
  (∀ run ∈ s.world.runs, run.phase.executing = false) →
    ∀ key ∈ s.uploaded, (s.world.store key).isSome = true → Referenced s.world.db key

instance (s : Uploading Bytes) : Decidable (NoLeak s) :=
  inferInstanceAs (Decidable ((∀ run ∈ s.world.runs, run.phase.executing = false) →
    ∀ key ∈ s.uploaded, (s.world.store key).isSome = true → Referenced s.world.db key))

/-- The run has deleted the objects of its row and not yet claimed those of its scan. -/
def RunPhase.cleanedUp : RunPhase → Bool
  | .cleaned | .hashing => true
  | _ => false

def Run.contentKeys (run : Run) : List String :=
  run.scan.files.map fun f => objectKeyForSha256 f.sha256

/-- A retry finds the content of each object row that it deletes in the folder again, or another
row or an open mark has the object; and a run that stops before it has claimed the objects of its
scan leaves none of them behind unreferenced. -/
def KeepsReferences (s : Uploading Bytes) (a : Action Bytes) (t : Uploading Bytes) : Prop :=
  match a with
  | .run r .cleanup => ∀ run ∈ s.world.runs[r]?, ∀ key ∈ s.uploaded,
      (s.world.store key).isSome = true → key ∉ run.contentKeys →
        (∃ o ∈ s.world.db.snapshotObjects, o.snapshotId = run.snapshotId ∧ o.objectKey = key) →
          (∃ o ∈ s.world.db.snapshotObjects, o.snapshotId ≠ run.snapshotId ∧ o.objectKey = key) ∨
            ∃ m ∈ s.world.db.gcMarks, m.objectKey = key ∧ m.collected = false
  | .run r _ => ∀ run ∈ s.world.runs[r]?, run.phase.cleanedUp = true →
      ∀ run' ∈ t.world.runs[r]?, run'.phase.cleanedUp = false → run'.phase.prepared = false →
        ∀ key ∈ s.uploaded, key ∈ run.contentKeys → (s.world.store key).isSome = true →
          Referenced s.world.db key
  | _ => True

/-! ## What keeps a reference -/

theorem Referenced.frame {db db' : Database} {key : String} (h : Referenced db key)
    (hobjects : ∀ o ∈ db.snapshotObjects, o.objectKey = key →
      ∃ o' ∈ db'.snapshotObjects, o'.objectKey = key)
    (hmarks : ∀ m ∈ db.gcMarks, m.objectKey = key → m.collected = false →
      ∃ m' ∈ db'.gcMarks, m'.objectKey = key ∧ m'.collected = false) : Referenced db' key := by
  rcases h with ⟨o, ho, hkey⟩ | ⟨m, hm, hkey, hopen⟩
  · exact .inl (hobjects o ho hkey)
  · exact .inr (hmarks m hm hkey hopen)

theorem MarksInv.referenced {w : World Bytes} (hw : MarksInv w) {r : Nat} {run : Run}
    (hr : w.runs[r]? = some run) (hprepared : run.phase.prepared = true) {key : String}
    (hkey : key ∈ run.contentKeys) : Referenced w.db key := by
  obtain ⟨f, hf, rfl⟩ := List.mem_map.mp hkey
  have hinv := hw.collection.runs r run hr
  obtain ⟨o, ho, -, hokey⟩ := hinv.exists_object (hw.collection.agree r run hr) hprepared
    (pins_of_live hinv (hw.live r run hr) hprepared) hf
  exact .inl ⟨o, ho, hokey⟩

theorem RunStep.keeps_objectKey {d : DataPlane Bytes} {w : World Bytes} {run : Run}
    {op : RunOp Bytes} {e : Effect Bytes} (h : RunStep d w.now w.db w.store run op e)
    (hinv : RunInv w run) (hagree : PathsAgree run.scan.files) (haccounted : run.accounted)
    {o : SnapshotObjectRow} (ho : o ∈ w.db.snapshotObjects)
    (hspared : run.phase = .claimed → op = .cleanup → o.snapshotId ≠ run.snapshotId) :
    ∃ o' ∈ e.db.snapshotObjects, o'.objectKey = o.objectKey := by
  by_cases hid : o.snapshotId = run.snapshotId
  · cases h with
    | cleaned phase => exact absurd hid (hspared phase rfl)
    | prepared phase prepare => exact absurd hid (hinv.bare (.inr phase) o ho)
    | @recorded canonical pending inFlight uploaded i t objects phase inFlightAt stored record =>
        obtain ⟨g, rfl, hg⟩ := recordUploaded_eq_ok record
        refine ⟨g o, List.mem_map_of_mem ho, ?_⟩
        rcases (hg o).2.2 with hsame | ⟨hat, hstoredRow⟩
        · rw [hsame]
        · rw [hstoredRow, hinv.recorded_key hagree haccounted phase inFlightAt ho hat]
    | @committed m db' phase finalize =>
        obtain ⟨-, rfl⟩ := finalizeBody_eq_ok_iff.mp finalize
        obtain ⟨f, hf, hpath, hkey⟩ := hinv.covered (by rw [phase]; rfl) o ho hid
        rw [Run.accounted, phase] at haccounted
        have hmem : f.toManifestFile ∈ m.files := haccounted.mem_iff.mpr (List.mem_map_of_mem hf)
        have hnew := List.mem_map_of_mem (f := ManifestFile.verifiedRow run.snapshotId) hmem
        obtain ⟨o', ho', hrow⟩ := exists_mem_upsertObjects w.db.snapshotObjects hnew
        refine ⟨o', ho', ?_⟩
        rcases mem_upsertObjects ho' with ⟨-, huntouched⟩ | hrecorded
        · exact absurd hrow (huntouched _ hnew)
        · -- The manifest has one content for the path too.
          obtain ⟨g, hg, rfl⟩ := List.mem_map.mp hrecorded
          obtain ⟨f', hf', rfl⟩ := List.mem_map.mp (haccounted.mem_iff.mp hg)
          have hsame : f'.path = f.path := congrArg Prod.snd hrow
          rw [← hkey, ← hagree f' hf' f hf hsame]
          rfl
    | _ => exact ⟨o, ho, rfl⟩
  · exact ⟨o, (h.objects_other hid).mpr ho, rfl⟩

theorem RunStep.keeps_gcMarks {d : DataPlane Bytes} {now : Timestamp} {db : Database}
    {store : Store Bytes} {run : Run} {op : RunOp Bytes} {e : Effect Bytes}
    (h : RunStep d now db store run op e) {m : GcMarkRow} (hm : m ∈ db.gcMarks) :
    m ∈ e.db.gcMarks ∨ e.run.phase.prepared = true ∧
      m.objectKey ∈ claimedKeys run.scan.files run.manifestKey := by
  cases h with
  | prepared phase prepare =>
      unfold prepareSnapshotUpload at prepare
      split at prepare
      · cases prepare
        by_cases hclaimed : m.objectKey ∈ claimedKeys run.scan.files run.manifestKey
        · exact .inr ⟨rfl, hclaimed⟩
        · exact .inl (mem_deleteWhere.mpr ⟨hm, decide_eq_false hclaimed⟩)
      · cases prepare
  | committed phase finalize =>
      obtain ⟨-, rfl⟩ := finalizeBody_eq_ok_iff.mp finalize
      exact .inl hm
  | _ => exact .inl hm

theorem not_prunable_of_protected {db : Database} {now : Timestamp} {s : SnapshotRow}
    (h : snapshotIsGcProtected db now s = true) : prunable db now s = false := by
  refine Bool.eq_false_iff.mpr fun hprunable => ?_
  simp only [prunable, Bool.and_eq_true] at hprunable
  have hexpired := hprunable.1.1
  have hboth : ∀ (retention : Option Int) (t : Option Timestamp),
      withinDays now retention t = true → beforeDays now retention t = true → False := by
    intro retention t hwithin hbefore
    unfold withinDays at hwithin
    unfold beforeDays at hbefore
    cases retention with
    | none => cases hwithin
    | some n =>
        cases t with
        | none => cases hwithin
        | some t =>
            dsimp only at hwithin hbefore
            exact not_lt_of_ge (of_decide_eq_true hwithin) (of_decide_eq_true hbefore)
  unfold snapshotIsGcProtected at h
  unfold retentionExpired at hexpired
  cases hstate : s.state with
  | superseded | error =>
      rw [hstate] at h hexpired
      exact hboth _ _ h hexpired
  | _ =>
      rw [hstate] at hexpired
      cases hexpired

theorem retention_keeps {w w' : World Bytes} {d : DataPlane Bytes} {ids : String → Uuid}
    (hw : MarksInv w) (h : step d w (.retention ids) = some w') {o : SnapshotObjectRow}
    (ho : o ∈ w.db.snapshotObjects) (hstored : (w.store o.objectKey).isSome = true) :
    ∃ o' ∈ w'.db.snapshotObjects, o'.objectKey = o.objectKey := by
  have haccounted := prunesAccounted_of_inv hw h
  cases h
  have hkeys := hw.collection.consistent.keys
  by_cases hgone : (w.db.snapshots.any fun s => prunable w.db w.now s && s.id = o.snapshotId) = true
  · obtain ⟨s, hs, hpruned⟩ := List.any_eq_true.mp hgone
    simp only [Bool.and_eq_true, decide_eq_true_eq] at hpruned
    have hdeleted : s ∉ (applyRetention w.now ids w.db).snapshots := by
      intro hmem
      have hkept : prunable w.db w.now s = false := (mem_deleteWhere.mp hmem).2
      rw [hpruned.1] at hkept
      cases hkept
    rcases (haccounted s hs hdeleted).1 o ho hpruned.2.symm with hnone | helsewhere
    · rw [hnone] at hstored
      cases hstored
    · simp only [contentRefElsewhere, List.any_eq_true, Bool.and_eq_true,
        decide_eq_true_eq] at helsewhere
      obtain ⟨o', ho', hkey, s', hs', ⟨hid', -⟩, hprotected⟩ := helsewhere
      refine ⟨o', mem_deleteWhere.mpr ⟨ho', ?_⟩, hkey⟩
      rw [List.any_eq_false]
      intro t ht hprune
      simp only [Bool.and_eq_true, decide_eq_true_eq] at hprune
      obtain rfl := hkeys.row_eq ht hs' (hprune.2.trans hid'.symm)
      have hpruned' : prunable w.db w.now t = true := hprune.1
      rw [not_prunable_of_protected hprotected] at hpruned'
      cases hpruned'
  · exact ⟨o, mem_deleteWhere.mpr ⟨ho, Bool.eq_false_iff.mpr hgone⟩, rfl⟩

/-! ## The invariant -/

def Run.pendingKeys (run : Run) : List String :=
  if run.phase.cleanedUp then run.contentKeys else []

def Expected (w : World Bytes) (key : String) : Prop :=
  Referenced w.db key ∨ ∃ (r : Nat) (run : Run), w.runs[r]? = some run ∧ key ∈ run.pendingKeys

structure LeakInv (s : Uploading Bytes) : Prop where
  marks : MarksInv s.world
  content : ∀ key ∈ s.uploaded, ∃ sha, key = objectKeyForSha256 sha
  kept : ∀ key ∈ s.uploaded, (s.world.store key).isSome = true → Expected s.world key

theorem Run.mem_pendingKeys {run : Run} {key : String} :
    key ∈ run.pendingKeys ↔ run.phase.cleanedUp = true ∧ key ∈ run.contentKeys := by
  rw [Run.pendingKeys]
  split
  · rename_i hphase
    exact ⟨fun h => ⟨hphase, h⟩, fun h => h.2⟩
  · rename_i hphase
    exact ⟨nofun, fun h => absurd h.1 hphase⟩

theorem taskStep_store {d : DataPlane Bytes} {store store' : Store Bytes} {t t' : Task}
    {op : TaskOp Bytes} (h : taskStep d store t op = some (.ok (t', store'))) :
    store' = store ∨ ∃ body, op = .write body ∧
      store' = Function.update store t.objectKey (some (t.putBody d body)) := by
  unfold taskStep at h
  split at h
  case h_6 =>
    cases h
    exact .inr ⟨_, rfl, rfl⟩
  case h_3 | h_5 | h_7 =>
    obtain ⟨-, -, rfl⟩ := Task.verified_eq_ok (Option.some.inj h)
    exact .inl rfl
  all_goals try split at h
  all_goals cases h
  all_goals exact .inl rfl

theorem putKey_claimed {w : World Bytes} {r : Nat} {run : Run} {op : RunOp Bytes} {key : String}
    (hr : w.runs[r]? = some run) (haccounted : run.accounted)
    (h : w.putKey (.run r op) = some key) :
    run.phase.prepared = true ∧ key ∈ run.contentKeys := by
  unfold World.putKey at h
  split at h
  · rename_i r' i body hop
    cases hop
    rw [hr, Option.bind_some] at h
    split at h
    · rename_i canonical pending inFlight uploaded hphase
      obtain ⟨t, ht, rfl⟩ := Option.map_eq_some_iff.mp h
      obtain ⟨f, hf, hfile⟩ := Run.mem_scan_of_inFlight haccounted hphase ht
      refine ⟨by rw [hphase]; rfl, List.mem_map.mpr ⟨f, hf, ?_⟩⟩
      exact congrArg ManifestFile.objectKey hfile
    · cases h
  · cases h

theorem RunStep.put {d : DataPlane Bytes} {w : World Bytes} {r : Nat} {run : Run}
    {op : RunOp Bytes} {e : Effect Bytes} (h : RunStep d w.now w.db w.store run op e)
    (hr : w.runs[r]? = some run) {key : String} (hstored : (e.store key).isSome = true) :
    (w.store key).isSome = true ∨ w.putKey (.run r op) = some key ∨ key = run.manifestKey := by
  cases h with
  | @task canonical pending inFlight uploaded i op t t' store' phase inFlightAt taken =>
      rcases taskStep_store taken with hstore | ⟨body, rfl, hstore⟩
      · exact .inl (hstore ▸ hstored)
      · by_cases hkey : key = t.objectKey
        · refine .inr (.inl ?_)
          simp only [World.putKey, hr, Option.bind_some, phase, inFlightAt, Option.map_some, hkey]
        · change (store' key).isSome = true at hstored
          rw [hstore, Function.update_of_ne hkey] at hstored
          exact .inl hstored
  | published phase =>
      by_cases hkey : key = run.manifestKey
      · exact .inr (.inr hkey)
      · change (Function.update w.store run.manifestKey _ key).isSome = true at hstored
        rw [Function.update_of_ne hkey] at hstored
        exact .inl hstored
  | _ => exact .inl hstored

/-- Between its cleanup and its claims a run keeps to its scan, or goes on to its claims, or
stops. -/
theorem leakInv_run {d : DataPlane Bytes} {s : Uploading Bytes} {r : Nat} {run : Run}
    {op : RunOp Bytes} {e : Effect Bytes} (hs : LeakInv s) (hr : s.world.runs[r]? = some run)
    (h : RunStep d s.world.now s.world.db s.world.store run op e)
    (hmarks : MarksInv (s.world.afterRun r run e))
    (hkeeps : KeepsReferences s (.run r op)
      ⟨s.world.afterRun r run e, (s.world.putKey (.run r op)).toList ++ s.uploaded⟩) :
    LeakInv ⟨s.world.afterRun r run e, (s.world.putKey (.run r op)).toList ++ s.uploaded⟩ := by
  have hinv := hs.marks.collection.runs r run hr
  have hagree := hs.marks.collection.agree r run hr
  have haccounted := hs.marks.collection.consistent.accounted r run hr
  have hr' : (s.world.afterRun r run e).runs[r]? = some e.run := by
    rw [getElem?_afterRun hr, if_pos rfl]
  have hcontent : ∀ key ∈ (s.world.putKey (.run r op)).toList ++ s.uploaded,
      ∃ sha, key = objectKeyForSha256 sha := by
    intro key hkey
    rcases List.mem_append.mp hkey with hput | hold
    · obtain ⟨-, hclaimed⟩ := putKey_claimed hr haccounted (Option.mem_toList.mp hput)
      obtain ⟨f, -, rfl⟩ := List.mem_map.mp hclaimed
      exact ⟨f.sha256, rfl⟩
    · exact hs.content key hold
  refine ⟨hmarks, hcontent, ?_⟩
  intro key hkey hstored
  obtain ⟨hproblem, hgeneration, hscan, -⟩ := h.kept
  have hsameKeys : e.run.contentKeys = run.contentKeys := by rw [Run.contentKeys, hscan]; rfl
  -- The claims of the run, and those it is about to make.
  by_cases hclaimed : key ∈ run.contentKeys ∧
      (e.run.phase.prepared = true ∨ e.run.phase.cleanedUp = true)
  · obtain ⟨hown, hphase | hphase⟩ := hclaimed
    · exact .inl (hmarks.referenced hr' hphase (hsameKeys ▸ hown))
    · exact .inr ⟨r, e.run, hr', Run.mem_pendingKeys.mpr ⟨hphase, hsameKeys ▸ hown⟩⟩
  have hmanifest : key ≠ run.manifestKey := by
    obtain ⟨sha, rfl⟩ := hcontent key hkey
    exact (manifestKey_ne_objectKey _ _ _).symm
  have hmarksKept : ∀ m ∈ s.world.db.gcMarks, m.objectKey = key → m.collected = false →
      ∃ m' ∈ e.db.gcMarks, m'.objectKey = key ∧ m'.collected = false := by
    intro m hm hmkey hopen
    rcases h.keeps_gcMarks hm with hkept | ⟨hphase, hdropped⟩
    · exact ⟨m, hkept, hmkey, hopen⟩
    · rw [hmkey] at hdropped
      rcases List.mem_append.mp hdropped with hown | hown
      · exact absurd ⟨hown, .inl hphase⟩ hclaimed
      · exact absurd (List.mem_singleton.mp hown) hmanifest
  have hrows : ¬ (run.phase = .claimed ∧ op = .cleanup) → Referenced s.world.db key →
      Expected (s.world.afterRun r run e) key := by
    intro hkept hreferenced
    refine .inl (hreferenced.frame ?_ hmarksKept)
    rintro o ho rfl
    exact h.keeps_objectKey hinv hagree haccounted ho fun hphase hop => absurd ⟨hphase, hop⟩ hkept
  by_cases hput : s.world.putKey (.run r op) = some key
  · obtain ⟨hprepared, hown⟩ := putKey_claimed hr haccounted hput
    refine hrows ?_ (hs.marks.referenced hr hprepared hown)
    rintro ⟨hphase, -⟩
    rw [hphase] at hprepared
    cases hprepared
  have hold : key ∈ s.uploaded := by
    rcases List.mem_append.mp hkey with hnew | hold
    · exact absurd (Option.mem_toList.mp hnew) hput
    · exact hold
  have hbefore : (s.world.store key).isSome = true :=
    ((h.put hr hstored).resolve_right fun h => h.elim hput hmanifest)
  rcases hs.kept key hold hbefore with hreferenced | ⟨i, run', hi, hpending⟩
  · by_cases hcleanup : run.phase = .claimed ∧ op = .cleanup
    · obtain ⟨hphase, rfl⟩ := hcleanup
      have hout : key ∉ run.contentKeys := by
        intro hown
        refine hclaimed ⟨hown, .inr ?_⟩
        cases h with
        | cleaned => rfl
        | stopped stopping => cases stopping
        | failed fallible => cases fallible
      -- The rows that go were not the last to list the object.
      have hother : (∃ o ∈ s.world.db.snapshotObjects, o.snapshotId ≠ run.snapshotId ∧
          o.objectKey = key) ∨ ∃ m ∈ s.world.db.gcMarks, m.objectKey = key ∧ m.collected = false := by
        rcases hreferenced with ⟨o, ho, hokey⟩ | hmark
        · by_cases hid : o.snapshotId = run.snapshotId
          · exact hkeeps run hr key hold hbefore hout ⟨o, ho, hid, hokey⟩
          · exact .inl ⟨o, ho, hid, hokey⟩
        · exact .inr hmark
      rcases hother with ⟨o, ho, hid, hokey⟩ | ⟨m, hm, hmkey, hopen⟩
      · exact .inl (.inl ⟨o, (h.objects_other hid).mpr ho, hokey⟩)
      · exact .inl (.inr (hmarksKept m hm hmkey hopen))
    · exact hrows hcleanup hreferenced
  · by_cases hri : r = i
    · subst hri
      obtain rfl : run = run' := Option.some.inj (hr.symm.trans hi)
      obtain ⟨hphase, hown⟩ := Run.mem_pendingKeys.mp hpending
      have hnot : ¬ (run.phase = .claimed ∧ op = .cleanup) := by
        rintro ⟨hclaim, -⟩
        rw [hclaim] at hphase
        cases hphase
      refine hrows hnot ?_
      have hstopped : e.run.phase.cleanedUp = false ∧ e.run.phase.prepared = false := by
        constructor
        · exact Bool.eq_false_iff.mpr fun h => hclaimed ⟨hown, .inr h⟩
        · exact Bool.eq_false_iff.mpr fun h => hclaimed ⟨hown, .inl h⟩
      have hop : op ≠ .cleanup := by
        rintro rfl
        cases h with
        | cleaned hclaim =>
            rw [hclaim] at hphase
            cases hphase
        | stopped stopping => cases stopping
        | failed fallible => cases fallible
      cases op with
      | cleanup => exact absurd rfl hop
      | _ => exact hkeeps run hr hphase e.run hr' hstopped.1 hstopped.2 key hold hown hbefore
    · refine .inr ⟨i, run', ?_, hpending⟩
      rw [getElem?_afterRun hr, if_neg hri]
      exact hi

/-- An open mark stays open, or is that of the collector, which has not failed. -/
theorem gcStep_keeps {now : Timestamp} {db : Database} {store : Store Bytes} {worker : GcWorker}
    {op : GcOp} {e : Database × Store Bytes × GcWorker} (h : gcStep now db store worker op = some e)
    {m : GcMarkRow} (hm : m ∈ db.gcMarks) (hopen : m.collected = false) :
    (∃ m' ∈ e.1.gcMarks, m'.objectKey = m.objectKey ∧ m'.collected = false) ∨
      m.id = worker.markId ∧ worker.phase.collecting = true := by
  unfold gcStep at h
  split at h
  case h_10 =>
    rename_i text result phase
    cases h
    dsimp only [recordGcOutcome]
    split
    · by_cases hid : m.id = worker.markId
      · exact .inr ⟨hid, by rw [phase]; rfl⟩
      · refine .inl ⟨m, mem_updateWhere.mpr ⟨m, hm, ?_⟩, rfl, hopen⟩
        rw [if_neg]
        simp [hid]
    · left
      dsimp only [deferGcMark]
      split
      · exact ⟨m, hm, rfl, hopen⟩
      · refine ⟨_, mem_updateWhere.mpr ⟨m, hm, rfl⟩, ?_⟩
        split <;> exact ⟨rfl, hopen⟩
    · left
      refine ⟨_, mem_updateWhere.mpr ⟨m, hm, rfl⟩, ?_⟩
      split <;> exact ⟨rfl, hopen⟩
  all_goals repeat' split at h
  all_goals cases h
  all_goals exact .inl ⟨m, hm, rfl, hopen⟩

theorem leakInv_gc {s : Uploading Bytes} {g : Nat} {worker : GcWorker} {op : GcOp}
    {e : Database × Store Bytes × GcWorker} (hs : LeakInv s)
    (hg : s.world.workers[g]? = some worker)
    (h : gcStep s.world.now s.world.db s.world.store worker op = some e)
    (hmarks : MarksInv { s.world with
      db := e.1, store := e.2.1, workers := s.world.workers.set g e.2.2 }) :
    LeakInv { s with world := { s.world with
      db := e.1, store := e.2.1, workers := s.world.workers.set g e.2.2 } } := by
  obtain ⟨-, hobjects, -⟩ := gcStep_rows h
  refine ⟨hmarks, hs.content, ?_⟩
  intro key hkey hstored
  have hbefore : (s.world.store key).isSome = true := by
    change (e.2.1 key).isSome = true at hstored
    rcases gcStep_store h with hstore | ⟨-, hstore⟩
    · rwa [hstore] at hstored
    · rw [hstore] at hstored
      by_cases hown : key = worker.objectKey
      · rw [hown, Function.update_self] at hstored
        cases hstored
      · rwa [Function.update_of_ne hown] at hstored
  refine (hs.kept key hkey hbefore).imp_left fun hreferenced => hreferenced.frame ?_ ?_
  · intro o ho hokey
    exact ⟨o, hobjects ▸ ho, hokey⟩
  · intro m hm hmkey hopen
    rcases gcStep_keeps h hm hopen with ⟨m', hm', hkey', hopen'⟩ | ⟨hid, hphase⟩
    · exact ⟨m', hm', hkey'.trans hmkey, hopen'⟩
    · -- A collector that has not failed has made sure that the object is gone.
      have hwatch := hs.marks.workers worker (List.mem_of_getElem? hg)
      have hgone := (hwatch.gone hphase m hm hid).absent
      rw [← hwatch.mark m hm hid, hmkey] at hgone
      rw [hgone] at hbefore
      cases hbefore

theorem leakInv_step {d : DataPlane Bytes} {s t : Uploading Bytes} {a : Action Bytes}
    (hs : LeakInv s) (hagree : a.scanAgrees) (hclaim : NoReclaim s.world a t.world)
    (hstopped : StalledHaveStopped s.world a t.world) (hfresh : FreshMarkIds s.world a t.world)
    (hkeeps : KeepsReferences s a t) (h : uploadStep d s a = some t) : LeakInv t := by
  obtain ⟨w', hstep, rfl⟩ := Option.map_eq_some_iff.mp h
  have hmarks := marksInv_step hs.marks hagree hclaim hstopped hfresh hstep
  -- What leaves the runs and the store alone, and keeps the rows and the open marks.
  have hframe : w'.runs = s.world.runs → w'.store = s.world.store →
      (∀ o ∈ s.world.db.snapshotObjects, (s.world.store o.objectKey).isSome = true →
        ∃ o' ∈ w'.db.snapshotObjects, o'.objectKey = o.objectKey) →
      (∀ m ∈ s.world.db.gcMarks, m.collected = false →
        ∃ m' ∈ w'.db.gcMarks, m'.objectKey = m.objectKey ∧ m'.collected = false) →
      LeakInv ⟨w', s.uploaded⟩ := by
    intro hruns hstore hobjects hopenMarks
    refine ⟨hmarks, hs.content, ?_⟩
    intro key hkey hstored
    rw [hstore] at hstored
    rcases hs.kept key hkey hstored with hreferenced | hpending
    · refine .inl (hreferenced.frame ?_ ?_)
      · rintro o ho rfl
        exact hobjects o ho hstored
      · rintro m hm rfl hopen
        exact hopenMarks m hm hopen
    · refine .inr ?_
      rw [hruns]
      exact hpending
  cases a with
  | begin id problemId generation token version scan =>
      obtain ⟨-, -, rfl⟩ := step_begin hstep
      refine ⟨hmarks, hs.content, ?_⟩
      intro key hkey hstored
      refine (hs.kept key hkey hstored).imp_right ?_
      rintro ⟨i, run, hi, hpending⟩
      refine ⟨i, run, ?_, hpending⟩
      rw [List.getElem?_append_left (List.getElem?_eq_some_iff.mp hi).1]
      exact hi
  | run r op =>
      obtain ⟨run, e, hr, -, hrun, rfl⟩ := step_run hstep
      exact leakInv_run hs hr hrun hmarks hkeeps
  | gcList id token =>
      obtain ⟨m, -, rfl⟩ := step_gcList hstep
      exact hframe rfl rfl (fun o ho _ => ⟨o, ho, rfl⟩) fun m hm hopen => ⟨m, hm, rfl, hopen⟩
  | gc g op =>
      obtain ⟨worker, e, hg, -, hgc, rfl⟩ := step_gc hstep
      exact leakInv_gc hs hg hgc hmarks
  | retention ids =>
      have hrows : ∀ o ∈ s.world.db.snapshotObjects,
          (s.world.store o.objectKey).isSome = true →
            ∃ o' ∈ w'.db.snapshotObjects, o'.objectKey = o.objectKey :=
        fun o ho hstored => retention_keeps hs.marks hstep ho hstored
      cases hstep
      refine hframe rfl rfl hrows ?_
      intro m hm hopen
      have hpruned : ∃ m₁ ∈ (pruneExpired s.world.now s.world.db).gcMarks,
          m₁.objectKey = m.objectKey ∧ m₁.collected = m.collected := pruneExpired_keeps hm
      obtain ⟨m₁, hm₁, hkey₁, hopen₁⟩ := hpruned
      have hmarked : ∃ m₂ ∈ (applyRetention s.world.now ids s.world.db).gcMarks,
          m₂.objectKey = m₁.objectKey ∧ m₂.collected = false :=
        markExpired_keeps hm₁ (hopen₁.trans hopen)
      obtain ⟨m₂, hm₂, hkey₂, hopen₂⟩ := hmarked
      exact ⟨m₂, hm₂, hkey₂.trans hkey₁, hopen₂⟩
  | failStalled | tick elapsed | external tables =>
      cases hstep
      exact hframe rfl rfl (fun o ho _ => ⟨o, ho, rfl⟩) fun m hm hopen => ⟨m, hm, rfl, hopen⟩

theorem noLeak_of_inv {s : Uploading Bytes} (hs : LeakInv s) : NoLeak s := by
  intro hidle key hkey hstored
  rcases hs.kept key hkey hstored with hreferenced | ⟨r, run, hr, hpending⟩
  · exact hreferenced
  · have hphase := (Run.mem_pendingKeys.mp hpending).1
    have hended := hidle run (List.mem_of_getElem? hr)
    revert hphase hended
    cases run.phase <;> simp [RunPhase.cleanedUp, RunPhase.executing]

/-- What runs upload stays referenced while it is in the store, when no retry drops the last
reference to an object. -/
theorem uploaded_objects_referenced {d : DataPlane Bytes} {w : World Bytes}
    {u : Uploading Bytes} {as : List (Action Bytes)} (hinit : InitialMarks w)
    (hagree : ∀ a ∈ as, a.scanAgrees)
    (hclaim : EveryStep (uploadStep d) (fun s a t => NoReclaim s.world a t.world) ⟨w, []⟩ as)
    (hstopped : EveryStep (uploadStep d) (fun s a t => StalledHaveStopped s.world a t.world)
      ⟨w, []⟩ as)
    (hfresh : EveryStep (uploadStep d) (fun s a t => FreshMarkIds s.world a t.world) ⟨w, []⟩ as)
    (hkeeps : EveryStep (uploadStep d) KeepsReferences ⟨w, []⟩ as)
    (hrun : exec (uploadStep d) ⟨w, []⟩ as = some u) : NoLeak u := by
  have hstart : LeakInv (⟨w, []⟩ : Uploading Bytes) :=
    ⟨marksInv_initial hinit, nofun, nofun⟩
  have hadmitted := ((hclaim.and hstopped).and (hfresh.and hkeeps)).and
    (everyStep_of_forall_mem hagree)
  refine noLeak_of_inv (exec_invariant ?_ hstart hadmitted hrun)
  rintro s a t hs ⟨⟨⟨hclaim, hstopped⟩, hfresh, hkeeps⟩, hagree⟩ hstep
  exact leakInv_step hs hagree hclaim hstopped hfresh hkeeps hstep

instance (s : Uploading Bytes) (a : Action Bytes) (t : Uploading Bytes) :
    Decidable (KeepsReferences s a t) := by
  unfold KeepsReferences
  obtain _ | ⟨r, op⟩ | _ := a
  case run => obtain _ | _ := op <;> infer_instance
  all_goals infer_instance

def failedAttempt : List (Action Content) :=
  claimingRun 0 1 1 ++ [.run 0 .setHashing, .run 0 (.prepare (some initYmlText))] ++
    uploadAbsent 0 dataZip dataZipText ++ [.run 0 (.fail (.r2 "timeout")), .run 0 .markError]

def retrying (scan : ScanResult) : List (Action Content) :=
  [.begin 2 "101" 1 1 (some 1) scan, .run 1 .claim, .run 1 .cleanup, .run 1 .setHashing,
    .run 1 (.prepare (some initYmlText))]

def retriedRun : List (Action Content) :=
  failedAttempt ++ retrying sampleScan ++ uploadExisting 1 dataZip ++
    uploadAbsent 1 initYml initYmlText ++ [.run 1 .setVerifying] ++ publishingRun 1

def changedScan : ScanResult :=
  { sampleScan with
    logicalBytes := 20, archiveBytes := 2, files := [editedZip, initYml] }

def changedRun : List (Action Content) :=
  failedAttempt ++ retrying changedScan ++ uploadAbsent 1 editedZip editedZipText ++
    uploadAbsent 1 initYml initYmlText ++ [.run 1 .setVerifying] ++ publishingRun 1

theorem initialMarks_sampleWorld : InitialMarks sampleWorld := by
  refine ⟨⟨⟨List.nodup_nil, ?_⟩, rfl, rfl, fun _ => rfl⟩, ?_, ?_, ?_⟩
  · intro a ha
    cases ha
  · intro s hs
    cases hs
  · intro m hm
    cases hm
  · intro m hm
    cases hm

theorem uploaded_objects_referenced_retried :
    ∃ u : Uploading Content, exec (uploadStep samplePlane) ⟨sampleWorld, []⟩ retriedRun = some u ∧
      NoLeak u ∧ u.uploaded.length = 2 := by
  have hagree : ∀ a ∈ retriedRun, a.scanAgrees := by decide
  -- all in one evaluation of the run
  have ⟨hrun, hclaim, hstopped, hfresh, hkeeps⟩ :
      (exec (uploadStep samplePlane) ⟨sampleWorld, []⟩ retriedRun).any
          (fun u => u.uploaded.length = 2) = true ∧
        EveryStep (uploadStep samplePlane) (fun s a t => NoReclaim s.world a t.world)
          ⟨sampleWorld, []⟩ retriedRun ∧
        EveryStep (uploadStep samplePlane) (fun s a t => StalledHaveStopped s.world a t.world)
          ⟨sampleWorld, []⟩ retriedRun ∧
        EveryStep (uploadStep samplePlane) (fun s a t => FreshMarkIds s.world a t.world)
          ⟨sampleWorld, []⟩ retriedRun ∧
        EveryStep (uploadStep samplePlane) KeepsReferences ⟨sampleWorld, []⟩ retriedRun := by
    decide +kernel
  obtain ⟨u, hu, htwo⟩ := (Option.any_eq_true _ _).mp hrun
  exact ⟨u, hu, uploaded_objects_referenced initialMarks_sampleWorld hagree hclaim hstopped hfresh
    hkeeps hu, of_decide_eq_true htwo⟩

/-- The retry deletes the row of the first archive, which has nothing else to speak for it. -/
theorem retried_object_leaks :
    ∃ u : Uploading Content, exec (uploadStep samplePlane) ⟨sampleWorld, []⟩ changedRun = some u ∧
      (∀ a ∈ changedRun, a.scanAgrees) ∧
      EveryStep (uploadStep samplePlane) (fun s a t => NoReclaim s.world a t.world)
        ⟨sampleWorld, []⟩ changedRun ∧ ¬ NoLeak u := by
  have ⟨hrun, hclaim⟩ : (exec (uploadStep samplePlane) ⟨sampleWorld, []⟩ changedRun).any
        (fun u => ¬ NoLeak u) = true ∧
      EveryStep (uploadStep samplePlane) (fun s a t => NoReclaim s.world a t.world)
        ⟨sampleWorld, []⟩ changedRun := by
    decide +kernel
  obtain ⟨u, hu, hleak⟩ := (Option.any_eq_true _ _).mp hrun
  exact ⟨u, hu, by decide, hclaim, of_decide_eq_true hleak⟩

end ExternalStorage.Snapshot
