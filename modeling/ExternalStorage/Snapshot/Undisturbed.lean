import ExternalStorage.Snapshot.Durability

/-!
# A run that nobody disturbs

A run is a fixed number of statements and store calls, and nothing of its own fails: whatever order
its uploads are interleaved in, it can go on until it has published its row.
-/

namespace ExternalStorage.Snapshot

open ExternalStorage.Model Library.Runs Library.Table

variable {Bytes : Type}

/-! ## Statements -/

section Statement

variable (d : DataPlane Bytes) (body : String → Bytes) (initYml : Option String)

/-- What the scan hashed of a file: the target of a link, or the content of the path. -/
def contentOf (f : FileEntry) : Bytes :=
  match f.symlinkTarget with
  | some target => d.textBytes target
  | none => body f.path

def TaskOp.reads (f : FileEntry) : TaskOp Bytes → Prop
  | .read sha => sha = d.sha256Bytes (body f.path)
  | .write bytes => bytes = body f.path
  | .next => True

/-- No call of the run returns an error of its own, and the process goes on. -/
def RunOp.undisturbed (run : Run) : RunOp Bytes → Prop
  | .task i op => ∀ t ∈ run.inFlight[i]?, op.reads d body t.file
  | .prepare read => read = initYml
  | .fail _ | .markError | .crash => False
  | _ => True

def OnlyRun (r : Nat) (w : World Bytes) (a : Action Bytes) (_ : World Bytes) : Prop :=
  match a with
  | .run r' op => r' = r ∧ ∀ run ∈ w.runs[r]?, op.undisturbed d body initYml run
  | .tick _ => True
  | _ => False

def Action.isRun : Action Bytes → Bool
  | .run _ _ => true
  | _ => false

/-- The claim inserts the row, or takes over the one there. -/
structure Claimable (now : Timestamp) (rows : List SnapshotRow) (run : Run) : Prop where
  keys : KeysUnique (rowIds rows)
  fresh : ∀ s ∈ rows, s.id ≠ run.snapshotId
  free : ∀ s ∈ rows, s.isFor run.problemId run.generation = true → takeoverAllowed now s = true

/-- The guards of the run's transactions hold. -/
structure Admits (db : Database) (run : Run) : Prop where
  objects : (db.snapshotObjects.map SnapshotObjectRow.key).Nodup
  newest : ∀ s ∈ db.snapshots, s.problemId = run.problemId → s.state = .ready →
    s.generation < run.generation
  newer : ∀ current ∈ usageGeneration db.problemUsage run.problemId, current < run.generation
  usage : db.problemUsage.countP (usageBehind run.problemId run.generation) = 1
  token : ensureLatestFencing db.jobs run.problemId run.fencingToken = .ok ()

structure RightContent (store : Store Bytes) (files : List FileEntry) : Prop where
  digests : ∀ f ∈ files, d.sha256Bytes (contentOf d body f) = f.sha256
  stored : ∀ f ∈ files, ∀ bytes ∈ store (objectKeyForSha256 f.sha256),
    d.sha256Bytes bytes = f.sha256

def Run.subject (run : Run) : String × Int × ScanResult := (run.problemId, run.generation, run.scan)

/-- What a run leaves that has committed: its row is READY, and the store holds its manifest and,
under the keys of its files, their content. -/
structure Published (w : World Bytes) (id : Uuid) (subject : String × Int × ScanResult)
    (m : Manifest) : Prop where
  row : ∃ s ∈ w.db.snapshots, s.id = id ∧ s.problemId = subject.1 ∧ s.generation = subject.2.1 ∧
    s.state = .ready
  files : m.files.Perm (subject.2.2.files.map FileEntry.toManifestFile)
  objects : ∀ f ∈ m.files, ∃ bytes ∈ w.store f.objectKey, d.sha256Bytes bytes = f.sha256
  manifest : w.store (manifestKey subject.1 subject.2.1) = some (d.manifestToVec m)

/-- No other run is inside its final transaction, and no collector holds a lock. -/
structure Unlocked (w : World Bytes) (r : Nat) : Prop where
  runs : ∀ i run, i ≠ r → w.runs[i]? = some run → ∀ m, run.phase ≠ .checked m
  workers : ∀ worker ∈ w.workers, worker.phase.locking = false

end Statement

/-! ## How much is left -/

def TaskPhase.left : TaskPhase → Nat
  | .hashing => 6
  | .heading => 5
  | .absent => 4
  | .putting | .existingAtPut => 3
  | .existing | .written => 2
  | .stored => 1

def Run.left (run : Run) : Nat :=
  match run.phase with
  | .fenced => 7 * run.scan.files.length + 9
  | .claimed => 7 * run.scan.files.length + 8
  | .cleaned => 7 * run.scan.files.length + 7
  | .hashing => 7 * run.scan.files.length + 6
  | .uploading _ pending inFlight _ =>
      7 * pending.length + (inFlight.map fun t => t.phase.left).sum + 5
  | .verifying _ => 4
  | .published _ => 3
  | .finalizing _ => 2
  | .checked _ => 1
  | .unowned _ | .rejected _ | .committed _ | .failing _ | .ended => 0

/-! ## The row of the run -/

structure HasRow (rows : List SnapshotRow) (run : Run) (st : SnapshotState) : Prop where
  one : rows.countP (fun s => s.id = run.snapshotId) = 1
  row : ∀ s ∈ rows, s.id = run.snapshotId →
    s.problemId = run.problemId ∧ s.generation = run.generation ∧ s.state = st

section Row

variable {rows : List SnapshotRow} {run : Run} {st : SnapshotState}

theorem HasRow.countP (h : HasRow rows run st) {q : SnapshotRow → Bool}
    (hq : ∀ s ∈ rows, q s = true ↔ s.id = run.snapshotId) : rows.countP q = 1 := by
  rw [← h.one]
  refine List.countP_congr fun s hs => ?_
  rw [hq s hs, decide_eq_true_eq]

theorem HasRow.update (h : HasRow rows run st) {st' : SnapshotState} {p : SnapshotRow → Bool}
    {f : SnapshotRow → SnapshotRow} (hid : ∀ s, rowId (f s) = rowId s)
    (hrow : ∀ s ∈ rows, s.id = run.snapshotId → (if p s then f s else s).state = st') :
    HasRow (updateWhere p f rows) run st' := by
  have hkeep : ∀ s, rowId (if p s then f s else s) = rowId s := by
    intro s
    split
    · exact hid s
    · rfl
  refine ⟨?_, ?_⟩
  · rw [countP_updateWhere, h.one]
    intro s _ _
    have hfst : (f s).id = s.id := congrArg Prod.fst (hid s)
    rw [hfst]
  · intro s' hs' hsid
    obtain ⟨s, hs, rfl⟩ := mem_updateWhere.mp hs'
    have hids := Prod.mk.inj (hkeep s)
    have hrest := Prod.mk.inj hids.2
    rw [hids.1] at hsid
    obtain ⟨hproblem, hgeneration, -⟩ := h.row s hs hsid
    exact ⟨hrest.1.trans hproblem, hrest.2.trans hgeneration, hrow s hs hsid⟩

theorem HasRow.setHashing (h : HasRow rows run st) :
    HasRow (setHashing run.snapshotId rows) run .hashing := by
  refine h.update (fun _ => rfl) fun s _ hid => ?_
  rw [if_pos (decide_eq_true hid)]

theorem HasRow.setUploading (h : HasRow rows run .hashing) (mkey : String) :
    HasRow (setUploading run.snapshotId mkey rows) run .uploading := by
  refine h.update (fun _ => rfl) fun s hs hid => ?_
  rw [if_pos (by simp [hid, (h.row s hs hid).2.2])]

theorem HasRow.setVerifying (h : HasRow rows run .uploading) :
    HasRow (setVerifying run.snapshotId rows) run .verifying := by
  refine h.update (fun _ => rfl) fun s hs hid => ?_
  rw [if_pos (by simp [hid, (h.row s hs hid).2.2])]

theorem hasRow_of_claim {now : Timestamp} (h : Claimable now rows run) :
    ∃ rows' id, claimSnapshot now rows run.snapshotId run.problemId run.generation run.createdAt =
        (rows', some id) ∧
      HasRow rows' { run with snapshotId := id, phase := .claimed } .discovered ∧
      (∀ s ∈ rows', s.state = .ready → s ∈ rows) := by
  unfold claimSnapshot
  cases hfind : rows.find? (SnapshotRow.isFor run.problemId run.generation) with
  | none =>
      refine ⟨_, _, rfl, ⟨?_, ?_⟩, ?_⟩
      · have hzero : rows.countP (fun s => decide (s.id = run.snapshotId)) = 0 :=
          List.countP_eq_zero.mpr fun s hs => by simpa using h.fresh s hs
        rw [List.countP_append, hzero]
        simp [freshSnapshot]
      · intro s hs hid
        rcases List.mem_append.mp hs with hold | hnew
        · exact absurd hid (h.fresh s hold)
        · rw [List.mem_singleton.mp hnew]
          exact ⟨rfl, rfl, rfl⟩
      · intro s hs hready
        rcases List.mem_append.mp hs with hold | hnew
        · exact hold
        · rw [List.mem_singleton.mp hnew] at hready
          cases hready
  | some s =>
      have hs := List.mem_of_find?_eq_some hfind
      have hfor : s.isFor run.problemId run.generation = true := List.find?_some hfind
      dsimp only
      rw [if_pos (h.free s hs hfor)]
      obtain ⟨hproblem, hgeneration⟩ := SnapshotRow.isFor_iff.mp hfor
      have hsame : ∀ t ∈ rows, t.id = s.id → t = s := fun t ht hid => h.keys.row_eq ht hs hid
      have hbefore : HasRow rows { run with snapshotId := s.id, phase := .claimed } s.state := by
        refine ⟨?_, fun t ht hid => ?_⟩
        · have hnodup := h.keys.nodup
          rw [rowIds, List.map_map] at hnodup
          refine Nat.le_antisymm ?_ (List.countP_pos_iff.mpr ⟨s, hs, decide_eq_true rfl⟩)
          have hone := countP_key_le_one hnodup s.id fun _ => true
          refine le_trans (List.countP_mono_left fun t _ ht => ?_) hone
          rw [Bool.and_true]
          exact decide_eq_true (of_decide_eq_true ht)
        · rw [hsame t ht hid]
          exact ⟨hproblem, hgeneration, rfl⟩
      refine ⟨_, _, rfl, hbefore.update (fun _ => rfl) ?_, ?_⟩
      · intro t ht hid
        rw [hsame t ht hid, hfor, h.free s hs hfor]
        rfl
      · intro t ht hready
        obtain ⟨t₀, ht₀, rfl⟩ := mem_updateWhere.mp ht
        split at hready
        · cases hready
        · rw [if_neg ‹_›]
          exact ht₀

end Row

/-! ## The claims of the run -/

def HasClaims (objects : List SnapshotObjectRow) (run : Run) : Prop :=
  ∀ f ∈ run.scan.files, objects.countP (SnapshotObjectRow.isAt run.snapshotId f.path) = 1

theorem nodup_key_upsertObjects {objects : List SnapshotObjectRow}
    (h : (objects.map SnapshotObjectRow.key).Nodup) (news : List SnapshotObjectRow) :
    ((upsertObjects news objects).map SnapshotObjectRow.key).Nodup := by
  unfold upsertObjects upsertAll
  induction news generalizing objects with
  | nil => exact h
  | cons new news ih =>
      refine ih (nodup_map_upsertOn h h ?_ ?_)
      · exact fun o hkey => hkey
      · exact fun o _ hkey => hkey

theorem hasClaims_prepared {objects : List SnapshotObjectRow} {run : Run}
    (h : (objects.map SnapshotObjectRow.key).Nodup) :
    HasClaims (upsertObjects (run.scan.files.map (FileEntry.claimRow run.snapshotId)) objects)
      run := by
  intro f hf
  obtain ⟨o, ho, hkey⟩ := exists_mem_upsertObjects objects
    (List.mem_map_of_mem hf (f := FileEntry.claimRow run.snapshotId))
  have hat : ∀ o : SnapshotObjectRow, o.isAt run.snapshotId f.path = true ↔
      o.key = (run.snapshotId, f.path) := by
    intro o
    simp [SnapshotObjectRow.isAt, SnapshotObjectRow.key]
  refine Nat.le_antisymm ?_ (List.countP_pos_iff.mpr ⟨o, ho, (hat o).mpr hkey⟩)
  have hone := countP_key_le_one (nodup_key_upsertObjects h
    (run.scan.files.map (FileEntry.claimRow run.snapshotId))) (run.snapshotId, f.path)
    fun _ => true
  refine le_trans (List.countP_mono_left fun o _ ho => ?_) hone
  rw [(hat o).mp ho]
  simp

theorem HasClaims.recorded {objects objects' : List SnapshotObjectRow} {run : Run} {f : FileEntry}
    (h : HasClaims objects run) (hrecord : recordUploaded run.snapshotId f objects = .ok objects') :
    HasClaims objects' run := by
  obtain ⟨g, rfl, hg⟩ := recordUploaded_eq_ok hrecord
  intro f' hf'
  rw [List.countP_map, ← h f' hf']
  refine List.countP_congr fun o _ => ?_
  simp only [Function.comp_apply, SnapshotObjectRow.isAt, (hg o).1, (hg o).2.1]

/-! ## One task -/

def TaskPhase.found : TaskPhase → Bool
  | .existing | .existingAtPut | .written | .stored => true
  | .hashing | .heading | .absent | .putting => false

section Task

variable {d : DataPlane Bytes} {body : String → Bytes} {store : Store Bytes} {t : Task}
  {op : TaskOp Bytes}

structure TaskGoesOn (d : DataPlane Bytes) (body : String → Bytes) (store : Store Bytes) (t : Task)
    (t' : Task) (store' : Store Bytes) : Prop where
  file : t'.file = t.file
  left : t'.phase.left < t.phase.left
  found : t'.phase.found = true → (store' t.objectKey).isSome = true
  store : store' = store ∨
    store' = Function.update store t.objectKey (some (contentOf d body t.file))

theorem verified_ok (hstored : ∀ bytes ∈ store t.objectKey, d.sha256Bytes bytes = t.file.sha256)
    (hfound : (store t.objectKey).isSome = true) (phase : TaskPhase) (got : String) :
    t.verified d store phase got = .ok (t.at phase, store) := by
  obtain ⟨bytes, hbytes⟩ := Option.isSome_iff_exists.mp hfound
  unfold Task.verified verifyObject
  rw [hbytes]
  change (if decide (d.sha256Bytes bytes = t.file.sha256) = true then
    Except.ok (t.at phase, store) else Except.error _) = _
  rw [if_pos (decide_eq_true (hstored bytes hbytes))]

theorem taskGoesOn_at {phase : TaskPhase} {store' : Store Bytes}
    (hleft : phase.left < t.phase.left)
    (hfound : phase.found = true → (store' t.objectKey).isSome = true)
    (hstore : store' = store ∨
      store' = Function.update store t.objectKey (some (contentOf d body t.file))) :
    ∃ t' s', (Except.ok (t.at phase, store') : Except AppError _) = .ok (t', s') ∧
      TaskGoesOn d body store t t' s' :=
  ⟨_, _, rfl, rfl, hleft, hfound, hstore⟩

theorem taskGoesOn_head {there gone : TaskPhase}
    (hthere : there.left < t.phase.left) (hgone : gone.left < t.phase.left)
    (hlost : gone.found = false) :
    ∃ t' s', (Except.ok (t.at (if (store t.objectKey).isSome then there else gone), store) :
        Except AppError _) = .ok (t', s') ∧ TaskGoesOn d body store t t' s' := by
  by_cases hkey : (store t.objectKey).isSome = true
  · rw [if_pos hkey]
    exact taskGoesOn_at hthere (fun _ => hkey) (.inl rfl)
  · rw [if_neg hkey]
    refine taskGoesOn_at hgone (fun h => ?_) (.inl rfl)
    rw [hlost] at h
    cases h

theorem taskStep_goesOn (hdigest : d.sha256Bytes (contentOf d body t.file) = t.file.sha256)
    (hstored : ∀ bytes ∈ store t.objectKey, d.sha256Bytes bytes = t.file.sha256)
    (hfound : t.phase.found = true → (store t.objectKey).isSome = true)
    (hreads : op.reads d body t.file) {result : Except AppError (Task × Store Bytes)}
    (h : taskStep d store t op = some result) :
    ∃ t' store', result = .ok (t', store') ∧ TaskGoesOn d body store t t' store' := by
  unfold taskStep at h
  split at h
  · rename_i sha hphase
    have hsha : t.stableSha d sha = t.file.sha256 := by
      rw [← hdigest, Task.stableSha, contentOf]
      cases t.file.symlinkTarget with
      | none => exact hreads
      | some target => rfl
    rw [if_pos hsha] at h
    cases h
    exact taskGoesOn_at (by rw [hphase]; decide) (fun h => by cases h) (.inl rfl)
  · rename_i hphase
    cases h
    exact taskGoesOn_head (by rw [hphase]; decide) (by rw [hphase]; decide) rfl
  · rename_i hphase
    have hkey := hfound (by rw [hphase]; rfl)
    rw [verified_ok hstored hkey] at h
    cases h
    exact taskGoesOn_at (by rw [hphase]; decide) (fun _ => hkey) (.inl rfl)
  · rename_i hphase
    cases h
    exact taskGoesOn_head (by rw [hphase]; decide) (by rw [hphase]; decide) rfl
  · rename_i hphase
    have hkey := hfound (by rw [hphase]; rfl)
    rw [verified_ok hstored hkey] at h
    cases h
    exact taskGoesOn_at (by rw [hphase]; decide) (fun _ => hkey) (.inl rfl)
  · rename_i bytes hphase
    cases h
    have hput : t.putBody d bytes = contentOf d body t.file := by
      rw [Task.putBody, contentOf]
      cases t.file.symlinkTarget with
      | none => exact hreads
      | some target => rfl
    refine taskGoesOn_at (by rw [hphase]; decide) (fun _ => ?_) (.inr (by rw [hput]))
    rw [Function.update_self]
    rfl
  · rename_i hphase
    have hkey := hfound (by rw [hphase]; rfl)
    rw [verified_ok hstored hkey] at h
    cases h
    exact taskGoesOn_at (by rw [hphase]; decide) (fun _ => hkey) (.inl rfl)
  · cases h

theorem exists_taskStep (d : DataPlane Bytes) (body : String → Bytes) (store : Store Bytes)
    (hopen : t.phase ≠ .stored) :
    ∃ op : TaskOp Bytes, op.reads d body t.file ∧ (taskStep d store t op).isSome = true := by
  unfold taskStep
  cases hphase : t.phase with
  | hashing =>
      refine ⟨.read (d.sha256Bytes (body t.file.path)), rfl, ?_⟩
      dsimp only
      split <;> rfl
  | putting => exact ⟨.write (body t.file.path), rfl, rfl⟩
  | stored => exact absurd hphase hopen
  | _ => exact ⟨.next, trivial, rfl⟩

end Task

/-! ## The run -/

def RunPhase.working : RunPhase → Bool
  | .unowned _ | .rejected _ | .committed _ | .failing _ | .ended => false
  | _ => true

structure UploadInv (db : Database) (store : Store Bytes) (run : Run) (pending : List FileEntry)
    (inFlight : List Task) (uploaded : List ManifestFile) : Prop where
  row : HasRow db.snapshots run .uploading
  claims : HasClaims db.snapshotObjects run
  pending : ∀ f ∈ pending, f ∈ run.scan.files
  tasks : ∀ t ∈ inFlight, t.file ∈ run.scan.files ∧
    (t.phase.found = true → (store t.objectKey).isSome = true)
  uploaded : ∀ f ∈ uploaded, (store f.objectKey).isSome = true

def HasObjects (store : Store Bytes) (m : Manifest) : Prop :=
  ∀ f ∈ m.files, (store f.objectKey).isSome = true

/-- What a run relies on, by the point it has reached; it does not fail. -/
def Stage (d : DataPlane Bytes) (now : Timestamp) (db : Database) (store : Store Bytes)
    (run : Run) : Prop :=
  match run.phase with
  | .fenced => Claimable now db.snapshots run
  | .claimed | .cleaned => HasRow db.snapshots run .discovered
  | .hashing => HasRow db.snapshots run .hashing
  | .uploading _ pending inFlight uploaded => UploadInv db store run pending inFlight uploaded
  | .verifying m => HasRow db.snapshots run .verifying ∧ HasObjects store m
  | .published m | .finalizing m | .checked m =>
      HasRow db.snapshots run .verifying ∧ HasObjects store m ∧
        store run.manifestKey = some (d.manifestToVec m)
  | .committed m =>
      HasRow db.snapshots run .ready ∧ HasObjects store m ∧
        store run.manifestKey = some (d.manifestToVec m)
  | .unowned _ | .rejected _ | .failing _ | .ended => False

structure OnTrack (d : DataPlane Bytes) (body : String → Bytes) (initYml : Option String)
    (now : Timestamp) (db : Database) (store : Store Bytes) (run : Run) : Prop where
  stage : Stage d now db store run
  admits : run.phase.working = true → Admits db run
  content : RightContent d body store run.scan.files
  archive : (canonicalDownloadPath initYml run.scan.files).isSome = true
  accounted : run.accounted

section Run

variable {d : DataPlane Bytes} {body : String → Bytes} {initYml : Option String}
  {now : Timestamp} {db : Database} {store : Store Bytes} {run : Run} {op : RunOp Bytes}
  {e : Effect Bytes}

theorem HasRow.at {rows : List SnapshotRow} {st : SnapshotState} (h : HasRow rows run st)
    (phase : RunPhase) : HasRow rows (run.at phase) st := ⟨h.one, h.row⟩

theorem Admits.kept {db' : Database} {run' : Run} (h : Admits db run)
    (hrun : run'.problemId = run.problemId ∧ run'.generation = run.generation ∧
      run'.fencingToken = run.fencingToken)
    (hobjects : (db'.snapshotObjects.map SnapshotObjectRow.key).Nodup)
    (hready : ∀ s ∈ db'.snapshots, s.state = .ready → s ∈ db.snapshots)
    (husage : db'.problemUsage = db.problemUsage) (hjobs : db'.jobs = db.jobs) :
    Admits db' run' := by
  obtain ⟨hproblem, hgeneration, htoken⟩ := hrun
  refine ⟨hobjects, ?_, ?_, ?_, ?_⟩
  · intro s hs hp hst
    rw [hgeneration]
    exact h.newest s (hready s hs hst) (hp.trans hproblem) hst
  · rw [husage, hproblem, hgeneration]
    exact h.newer
  · rw [husage, hproblem, hgeneration]
    exact h.usage
  · rw [hjobs, hproblem, htoken]
    exact h.token

theorem Admits.at (h : Admits db run) (phase : RunPhase) : Admits db (run.at phase) :=
  h.kept ⟨rfl, rfl, rfl⟩ h.objects (fun _ hs _ => hs) rfl rfl

theorem ready_of_updateWhere {p : SnapshotRow → Bool} {f : SnapshotRow → SnapshotRow}
    {rows : List SnapshotRow} (hf : ∀ s, (f s).state ≠ .ready) :
    ∀ s ∈ updateWhere p f rows, s.state = .ready → s ∈ rows := by
  intro s hs hready
  obtain ⟨s₀, hs₀, rfl⟩ := mem_updateWhere.mp hs
  split at hready
  · exact absurd hready (hf s₀)
  · rw [if_neg ‹_›]
    exact hs₀

theorem RightContent.update {files : List FileEntry} {f : FileEntry}
    (h : RightContent d body store files) (hf : f ∈ files) :
    RightContent d body (Function.update store (objectKeyForSha256 f.sha256)
      (some (contentOf d body f))) files := by
  refine ⟨h.digests, fun g hg bytes hbytes => ?_⟩
  by_cases hkey : objectKeyForSha256 g.sha256 = objectKeyForSha256 f.sha256
  · rw [hkey, Function.update_self] at hbytes
    cases hbytes
    rw [h.digests f hf, objectKeyForSha256_injective hkey]
  · rw [Function.update_of_ne hkey] at hbytes
    exact h.stored g hg bytes hbytes

theorem Admits.finalizes (h : Admits db run) (hrow : HasRow db.snapshots run .verifying)
    (m : Manifest) (now : Timestamp) :
    finalizeBody now (run.finalizeArgs m) db = .ok (finalized now (run.finalizeArgs m) db) ∧
      HasRow (finalized now (run.finalizeArgs m) db).snapshots run .ready := by
  have hsuperseded : HasRow (supersedeReady now run.problemId run.generation db.snapshots) run
      .verifying := by
    refine hrow.update (fun _ => rfl) fun s hs hid => ?_
    have hstate := (hrow.row s hs hid).2.2
    rw [if_neg (by simp [hstate])]
    exact hstate
  have hone : ∀ s ∈ supersedeReady now run.problemId run.generation db.snapshots,
      finalizable run.snapshotId run.problemId run.generation s = true ↔
        s.id = run.snapshotId := by
    intro s hs
    rw [finalizable_iff]
    exact ⟨And.left, fun hid => ⟨hid, hsuperseded.row s hs hid⟩⟩
  refine ⟨finalizeBody_eq_ok_iff.mpr ⟨⟨h.newer, ?_, hsuperseded.countP hone, h.usage⟩, rfl⟩, ?_⟩
  · intro s hs hproblem hready
    obtain ⟨s₀, hs₀, rfl⟩ := mem_updateWhere.mp hs
    split at hready
    · cases hready
    · rename_i hkept
      rw [if_neg hkept] at hproblem
      have hnewest := h.newest s₀ hs₀ hproblem hready
      exact hkept (by simpa [hready] using ⟨hproblem, hnewest⟩)
  · rw [finalized_snapshots]
    refine hsuperseded.update (fun _ => rfl) fun s hs hid => ?_
    have hpublished : finalizable (run.finalizeArgs m).snapshotId (run.finalizeArgs m).problemId
        (run.finalizeArgs m).generation s = true := (hone s hs).mpr hid
    rw [if_pos hpublished]
    rfl

theorem OnTrack.not_failing (h : OnTrack d body initYml now db store run)
    (hop : op.undisturbed d body initYml run) (hstep : runStep d now db store run op = some e) :
    e.run.phase.working = true ∨ ∃ m, e.run.phase = .committed m := by
  have hstage := h.stage
  unfold runStep at hstep
  unfold Stage at hstage
  split at hstep
  · rename_i hphase
    rw [hphase] at hstage
    obtain ⟨rows, id, hclaim, -⟩ := hasRow_of_claim hstage
    rw [hclaim] at hstep
    cases hstep
    exact .inl rfl
  · cases hstep
    exact .inl rfl
  · cases hstep
    exact .inl rfl
  · rename_i hphase
    rw [hphase] at hstage
    have hone : db.snapshots.countP (fun s => s.id = run.snapshotId && s.state = .hashing) = 1 := by
      refine hstage.countP fun s hs => ?_
      simp only [Bool.and_eq_true, decide_eq_true_eq]
      exact ⟨And.left, fun hid => ⟨hid, (hstage.row s hs hid).2.2⟩⟩
    obtain rfl : _ = initYml := hop
    split at hstep
    · rename_i hnone
      have harchive := h.archive
      rw [hnone] at harchive
      cases harchive
    · rw [prepareSnapshotUpload, if_pos hone] at hstep
      cases hstep
      exact .inl rfl
  · split at hstep
    · cases hstep
      exact .inl rfl
    · cases hstep
  · rename_i i top canonical pending inFlight uploaded hphase
    rw [hphase] at hstage
    obtain ⟨t, ht, hstep⟩ := Option.bind_eq_some_iff.mp hstep
    obtain ⟨result, htask, hresult⟩ := Option.map_eq_some_iff.mp hstep
    obtain ⟨hfile, hfound⟩ := hstage.tasks t (List.mem_of_getElem? ht)
    have hreads : top.reads d body t.file := by
      refine hop t ?_
      rw [Run.inFlight, hphase]
      exact ht
    obtain ⟨t', store', rfl, -⟩ := taskStep_goesOn (h.content.digests _ hfile)
      (h.content.stored _ hfile) hfound hreads htask
    cases hresult
    exact .inl rfl
  · rename_i i canonical pending inFlight uploaded hphase
    rw [hphase] at hstage
    obtain ⟨t, ht, hstep⟩ := Option.bind_eq_some_iff.mp hstep
    have hclaim := hstage.claims _ (hstage.tasks t (List.mem_of_getElem? ht)).1
    rw [recordUploaded, if_pos hclaim] at hstep
    split at hstep
    · cases hstep
      exact .inl rfl
    · cases hstep
  · cases hstep
    exact .inl rfl
  · cases hstep
    exact .inl rfl
  · rename_i m hphase
    rw [hphase] at hstage
    rw [verifyObject, hstage.2.2] at hstep
    simp only [decide_true] at hstep
    cases hstep
    exact .inl rfl
  · rename_i m hphase
    rw [(h.admits (by rw [hphase]; rfl)).token] at hstep
    cases hstep
    exact .inl rfl
  · rename_i m hphase
    rw [hphase] at hstage
    rw [((h.admits (by rw [hphase]; rfl)).finalizes hstage.1 m now).1] at hstep
    cases hstep
    exact .inr ⟨m, rfl⟩
  · exact hop.elim
  · exact hop.elim
  · exact hop.elim
  · cases hstep

theorem isSome_update {key key' : String} {bytes : Bytes} (h : (store key').isSome = true) :
    (Function.update store key (some bytes) key').isSome = true := by
  rw [Function.update_apply]
  split
  · rfl
  · exact h

theorem left_set {inFlight : List Task} {i : Nat} {t t' : Task} (ht : inFlight[i]? = some t)
    (hleft : t'.phase.left < t.phase.left) :
    ((inFlight.set i t').map fun t => t.phase.left).sum <
      (inFlight.map fun t => t.phase.left).sum := by
  induction inFlight generalizing i with
  | nil => cases ht
  | cons u inFlight ih =>
      cases i with
      | zero =>
          cases ht
          simpa using hleft
      | succ i =>
          have hrest := ih ht
          simpa using hrest

theorem left_eraseIdx {inFlight : List Task} {i : Nat} {t : Task} (ht : inFlight[i]? = some t)
    (hstored : t.phase = .stored) :
    ((inFlight.eraseIdx i).map fun t => t.phase.left).sum + 1 =
      (inFlight.map fun t => t.phase.left).sum := by
  obtain ⟨hi, rfl⟩ := List.getElem?_eq_some_iff.mp ht
  have hperm := (List.getElem_cons_eraseIdx_perm hi).map fun t => t.phase.left
  rw [← hperm.sum_nat, List.map_cons, List.sum_cons, hstored]
  exact Nat.add_comm _ _

theorem UploadInv.task {canonical : String} {pending : List FileEntry} {inFlight : List Task}
    {uploaded : List ManifestFile} {i : Nat} {t t' : Task} {store' : Store Bytes}
    (h : UploadInv db store run pending inFlight uploaded)
    (ht : inFlight[i]? = some t) (hgo : TaskGoesOn d body store t t' store') :
    UploadInv db store' (run.at (.uploading canonical pending (inFlight.set i t') uploaded)) pending
      (inFlight.set i t') uploaded := by
  have hmono : ∀ key, (store key).isSome = true → (store' key).isSome = true := by
    intro key hkey
    rcases hgo.store with rfl | rfl
    · exact hkey
    · exact isSome_update hkey
  refine ⟨h.row.at _, h.claims, h.pending, fun u hu => ?_, fun f hf => hmono _ (h.uploaded f hf)⟩
  rcases List.mem_or_eq_of_mem_set hu with hold | rfl
  · obtain ⟨hfile, hfound⟩ := h.tasks u hold
    exact ⟨hfile, fun hu => hmono _ (hfound hu)⟩
  · have hsame : u.objectKey = t.objectKey := by
      rw [Task.objectKey, Task.objectKey, hgo.file]
    refine ⟨?_, fun hu => ?_⟩
    · rw [hgo.file]
      exact (h.tasks t (List.mem_of_getElem? ht)).1
    · rw [hsame]
      exact hgo.found hu

theorem UploadInv.record {canonical : String} {pending : List FileEntry} {inFlight : List Task}
    {uploaded : List ManifestFile} {i : Nat} {t : Task} {objects : List SnapshotObjectRow}
    (h : UploadInv db store run pending inFlight uploaded)
    (ht : inFlight[i]? = some t) (hstored : t.phase = .stored)
    (hrecord : recordUploaded run.snapshotId t.file db.snapshotObjects = .ok objects) :
    UploadInv { db with snapshotObjects := objects } store
      (run.at (.uploading canonical pending (inFlight.eraseIdx i)
        (uploaded ++ [t.file.toManifestFile]))) pending (inFlight.eraseIdx i)
      (uploaded ++ [t.file.toManifestFile]) := by
  refine ⟨h.row.at _, h.claims.recorded hrecord, h.pending, fun u hu => ?_, fun f hf => ?_⟩
  · exact h.tasks u (List.mem_of_mem_eraseIdx hu)
  · rcases List.mem_append.mp hf with hold | hnew
    · exact h.uploaded f hold
    · rw [List.mem_singleton.mp hnew]
      exact (h.tasks t (List.mem_of_getElem? ht)).2 (by rw [hstored]; rfl)

theorem OnTrack.goesOn (h : OnTrack d body initYml now db store run)
    (hop : op.undisturbed d body initYml run) (hstep : runStep d now db store run op = some e) :
    OnTrack d body initYml now e.db e.store e.run ∧ e.run.left < run.left := by
  have hrun := runStep_cases hstep
  have hgoes := h.not_failing hop hstep
  have hstage := h.stage
  have haccounted := hrun.accounted h.accounted
  unfold Stage at hstage
  cases hrun with
  | claimed phase claim =>
      rw [phase] at hstage
      obtain ⟨rows, id, hclaim, hrow, hready⟩ := hasRow_of_claim hstage
      rw [claim] at hclaim
      cases hclaim
      have hadmits := h.admits (by rw [phase]; rfl)
      refine ⟨⟨hrow, fun _ => hadmits.kept ⟨rfl, rfl, rfl⟩ hadmits.objects hready rfl rfl,
        h.content, h.archive, haccounted⟩, ?_⟩
      simp [Run.left, phase]
  | cleaned phase =>
      rw [phase] at hstage
      have hadmits := h.admits (by rw [phase]; rfl)
      refine ⟨⟨hstage.at _, fun _ => hadmits.kept ⟨rfl, rfl, rfl⟩ ?_ (fun s hs _ => hs) rfl rfl,
        h.content, h.archive, haccounted⟩, ?_⟩
      · exact hadmits.objects.sublist (List.filter_sublist.map _)
      · simp [Run.left, Run.at, phase]
  | hashing phase =>
      rw [phase] at hstage
      have hadmits := h.admits (by rw [phase]; rfl)
      refine ⟨⟨hstage.setHashing.at _, fun _ => hadmits.kept ⟨rfl, rfl, rfl⟩ hadmits.objects
        (ready_of_updateWhere fun _ hst => by cases hst) rfl rfl, h.content, h.archive,
        haccounted⟩, ?_⟩
      simp [Run.left, Run.at, phase]
  | prepared phase prepare archive =>
      rw [phase] at hstage
      have hadmits := h.admits (by rw [phase]; rfl)
      unfold prepareSnapshotUpload at prepare
      split at prepare
      · cases prepare
        refine ⟨⟨⟨(hstage.setUploading _).at _, hasClaims_prepared hadmits.objects,
          fun f hf => hf, List.forall_mem_nil _, List.forall_mem_nil _⟩,
          fun _ => hadmits.kept ⟨rfl, rfl, rfl⟩ (nodup_key_upsertObjects hadmits.objects _)
            (ready_of_updateWhere fun _ hst => by cases hst) rfl rfl, h.content, h.archive,
          haccounted⟩, ?_⟩
        simp [Run.left, Run.at, phase]
      · cases prepare
  | @started canonical f pending inFlight uploaded phase =>
      rw [phase] at hstage
      refine ⟨⟨⟨hstage.row.at _, hstage.claims, fun g hg => ?_, fun t ht => ?_,
        hstage.uploaded⟩, fun _ => (h.admits (by rw [phase]; rfl)).at _, h.content, h.archive,
        haccounted⟩, ?_⟩
      · exact hstage.pending g (List.mem_cons_of_mem _ hg)
      · rcases List.mem_append.mp ht with hold | hnew
        · exact hstage.tasks t hold
        · rw [List.mem_singleton.mp hnew]
          exact ⟨hstage.pending f List.mem_cons_self, fun h => by cases h⟩
      · simp [Run.left, Run.at, phase, TaskPhase.left]
        omega
  | @task canonical pending inFlight uploaded i top t t' store' phase inFlightAt taken =>
      rw [phase] at hstage
      obtain ⟨hfile, hfound⟩ := hstage.tasks t (List.mem_of_getElem? inFlightAt)
      have hreads : top.reads d body t.file := by
        refine hop t ?_
        rw [Run.inFlight, phase]
        exact inFlightAt
      obtain ⟨u, s, heq, hgo⟩ := taskStep_goesOn (h.content.digests _ hfile)
        (h.content.stored _ hfile) hfound hreads taken
      cases heq
      refine ⟨⟨hstage.task inFlightAt hgo, fun _ => (h.admits (by rw [phase]; rfl)).at _, ?_,
        h.archive, haccounted⟩, ?_⟩
      · rcases hgo.store with rfl | rfl
        · exact h.content
        · exact h.content.update hfile
      · have hless := left_set inFlightAt hgo.left
        simp only [Run.left, Run.at, phase]
        omega
  | @recorded canonical pending inFlight uploaded i t objects phase inFlightAt stored record =>
      rw [phase] at hstage
      have hadmits := h.admits (by rw [phase]; rfl)
      refine ⟨⟨hstage.record inFlightAt stored record, fun _ => hadmits.kept ⟨rfl, rfl, rfl⟩ ?_
        (fun s hs _ => hs) rfl rfl, h.content, h.archive, haccounted⟩, ?_⟩
      · obtain ⟨g, rfl, hg⟩ := recordUploaded_eq_ok record
        have hkeys : (db.snapshotObjects.map g).map SnapshotObjectRow.key =
            db.snapshotObjects.map SnapshotObjectRow.key := by
          rw [List.map_map]
          exact List.map_congr_left fun o _ => Prod.ext (hg o).1 (hg o).2.1
        rw [hkeys]
        exact hadmits.objects
      · have hless := left_eraseIdx inFlightAt stored
        simp only [Run.left, Run.at, phase]
        omega
  | @verifying canonical uploaded phase =>
      rw [phase] at hstage
      have hadmits := h.admits (by rw [phase]; rfl)
      refine ⟨⟨⟨hstage.row.setVerifying.at _, fun f hf => ?_⟩,
        fun _ => hadmits.kept ⟨rfl, rfl, rfl⟩ hadmits.objects
          (ready_of_updateWhere fun _ hst => by cases hst) rfl rfl, h.content, h.archive,
        haccounted⟩, ?_⟩
      · exact hstage.uploaded f ((List.perm_insertionSort _ _).mem_iff.mp hf)
      · simp [Run.left, Run.at, phase]
  | @published m phase =>
      rw [phase] at hstage
      have hadmits := h.admits (by rw [phase]; rfl)
      refine ⟨⟨⟨hstage.1.at _, fun f hf => isSome_update (hstage.2 f hf), ?_⟩,
        fun _ => hadmits.at _,
        ⟨h.content.digests, fun f hf bytes hbytes => ?_⟩, h.archive, haccounted⟩, ?_⟩
      · exact Function.update_self _ _ _
      · have hne : objectKeyForSha256 f.sha256 ≠ run.manifestKey :=
          (manifestKey_ne_objectKey _ _ _).symm
        change bytes ∈ Function.update store run.manifestKey (some (d.manifestToVec m))
          (objectKeyForSha256 f.sha256) at hbytes
        rw [Function.update_of_ne hne] at hbytes
        exact h.content.stored f hf bytes hbytes
      · simp [Run.left, Run.at, phase]
  | verified phase _ | checked phase _ =>
      rw [phase] at hstage
      have hadmits := h.admits (by rw [phase]; rfl)
      refine ⟨⟨⟨hstage.1.at _, hstage.2⟩, fun _ => hadmits.at _, h.content, h.archive, haccounted⟩,
        ?_⟩
      simp [Run.left, Run.at, phase]
  | @committed m db' phase finalize =>
      rw [phase] at hstage
      obtain ⟨hcommit, hrow⟩ := (h.admits (by rw [phase]; rfl)).finalizes hstage.1 m now
      rw [hcommit] at finalize
      cases finalize
      refine ⟨⟨⟨hrow.at _, hstage.2⟩, (fun hw => by cases hw), h.content, h.archive, haccounted⟩,
        ?_⟩
      simp [Run.left, Run.at, phase]
  | rejected | prepareFailed | archiveless | recordFailed | commitFailed | marked | failed
  | stopped =>
      rcases hgoes with hw | ⟨m, hm⟩
      · cases hw
      · cases hm

def RunOp.locks : RunOp Bytes → Bool
  | .prepare _ | .checkFencing => true
  | _ => false

theorem OnTrack.exists_next (h : OnTrack d body initYml now db store run)
    (hworking : run.phase.working = true) :
    ∃ op, op.undisturbed d body initYml run ∧ (runStep d now db store run op).isSome = true ∧
      (op.locks = true → ∀ m, run.phase ≠ .checked m) := by
  have hstage := h.stage
  unfold Stage at hstage
  unfold runStep
  cases hphase : run.phase with
  | fenced =>
      rw [hphase] at hstage
      obtain ⟨rows, id, hclaim, -⟩ := hasRow_of_claim hstage
      refine ⟨.claim, trivial, ?_, fun h => by cases h⟩
      simp only [hclaim]
      rfl
  | claimed => exact ⟨.cleanup, trivial, rfl, fun h => by cases h⟩
  | cleaned => exact ⟨.setHashing, trivial, rfl, fun h => by cases h⟩
  | hashing =>
      refine ⟨.prepare initYml, rfl, ?_, fun _ m => by simp⟩
      dsimp only
      split
      · rfl
      · split <;> rfl
  | uploading canonical pending inFlight uploaded =>
      cases inFlight with
      | cons t inFlight =>
          by_cases hstored : t.phase = .stored
          · refine ⟨.record 0, trivial, ?_, fun h => by cases h⟩
            simp only [List.getElem?_cons_zero, Option.bind_some, hstored, if_true]
            split <;> rfl
          · obtain ⟨top, hreads, htask⟩ := exists_taskStep d body store hstored
            refine ⟨.task 0 top, fun u hu => ?_, ?_, fun h => by cases h⟩
            · rw [Run.inFlight, hphase] at hu
              cases hu
              exact hreads
            · simp only [List.getElem?_cons_zero, Option.bind_some, Option.isSome_map]
              exact htask
      | nil =>
          cases pending with
          | nil => exact ⟨.setVerifying, trivial, rfl, fun h => by cases h⟩
          | cons f pending =>
              have hroom : (0 : Nat) < max 1 d.maxConcurrentUploads := by omega
              refine ⟨.start, trivial, ?_, fun h => by cases h⟩
              simp only [List.length_nil, if_pos hroom]
              rfl
  | verifying m => exact ⟨.putManifest, trivial, rfl, fun h => by cases h⟩
  | published m =>
      refine ⟨.verifyManifest, trivial, ?_, fun h => by cases h⟩
      dsimp only
      split <;> rfl
  | finalizing m =>
      refine ⟨.checkFencing, trivial, ?_, fun _ m => by simp⟩
      dsimp only
      split <;> rfl
  | checked m =>
      refine ⟨.commit, trivial, ?_, fun h => by cases h⟩
      dsimp only
      split <;> rfl
  | committed _ | unowned _ | rejected _ | failing _ | ended =>
      rw [hphase] at hworking
      cases hworking

end Run

/-! ## The world -/

section World

variable {d : DataPlane Bytes} {body : String → Bytes} {initYml : Option String}
  {w w' u : World Bytes} {r : Nat} {run : Run}
  {a : Action Bytes} {as : List (Action Bytes)}

theorem takeoverAllowed_later {now : Timestamp} {s : SnapshotRow} (elapsed : Nat)
    (h : takeoverAllowed now s = true) : takeoverAllowed (now + elapsed) s = true := by
  unfold takeoverAllowed at h ⊢
  simp only [Bool.or_eq_true, Bool.and_eq_true, decide_eq_true_eq] at h ⊢
  rcases h with herror | ⟨hactive, hold⟩
  · exact .inl herror
  · refine .inr ⟨hactive, Int.lt_of_lt_of_le hold (Int.sub_le_sub_right ?_ _)⟩
    exact Int.le_add_of_nonneg_right (Int.natCast_nonneg _)

theorem OnTrack.later {now : Timestamp} {db : Database} {store : Store Bytes} (elapsed : Nat)
    (h : OnTrack d body initYml now db store run) :
    OnTrack d body initYml (now + elapsed) db store run := by
  refine ⟨?_, h.admits, h.content, h.archive, h.accounted⟩
  have hstage := h.stage
  unfold Stage at hstage ⊢
  cases hphase : run.phase with
  | fenced =>
      rw [hphase] at hstage
      exact ⟨hstage.keys, hstage.fresh, fun s hs hfor =>
        takeoverAllowed_later elapsed (hstage.free s hs hfor)⟩
  | _ => rwa [hphase] at hstage

structure Alone (d : DataPlane Bytes) (body : String → Bytes) (initYml : Option String) (r : Nat)
    (w : World Bytes) (run : Run) : Prop where
  found : w.runs[r]? = some run
  track : OnTrack d body initYml w.now w.db w.store run
  quiet : Unlocked w r

theorem Unlocked.keyLocked (h : Unlocked w r) (key : String) : w.keyLocked key = false := by
  rw [World.keyLocked, List.any_eq_false]
  intro worker hworker
  simp [h.workers worker hworker]

theorem Unlocked.problemLocked (h : Unlocked w r) (hrun : w.runs[r]? = some run)
    (hphase : ∀ m, run.phase ≠ .checked m) (problemId : String) :
    w.problemLocked problemId = false := by
  rw [World.problemLocked, List.any_eq_false]
  intro run' hrun'
  obtain ⟨i, hi, rfl⟩ := List.getElem_of_mem hrun'
  have hchecked : ∀ m, w.runs[i].phase ≠ .checked m := by
    by_cases hir : i = r
    · subst hir
      rw [List.getElem?_eq_getElem hi] at hrun
      cases hrun
      exact hphase
    · exact h.runs i _ hir (List.getElem?_eq_getElem hi)
  cases hcase : w.runs[i].phase with
  | checked m => exact absurd hcase (hchecked m)
  | _ => simp

theorem Alone.exists_next (h : Alone d body initYml r w run) (hworking : run.phase.working = true) :
    ∃ op w', step d w (.run r op) = some w' ∧ OnlyRun d body initYml r w (.run r op) w' := by
  obtain ⟨op, hop, hsome, hlocks⟩ := h.track.exists_next hworking
  obtain ⟨e, he⟩ := Option.isSome_iff_exists.mp hsome
  have hallowed : w.runAllowed run op = true := by
    unfold World.runAllowed
    cases op with
    | prepare canonical =>
        simp [h.quiet.problemLocked h.found (hlocks rfl), h.quiet.keyLocked]
    | checkFencing => simp [h.quiet.problemLocked h.found (hlocks rfl)]
    | _ => rfl
  refine ⟨op, w.afterRun r run e, ?_, rfl, fun run' hrun' => ?_⟩
  · simp only [step, h.found, Option.bind_some, hallowed, if_true, he, Option.map_some]
  · rw [h.found] at hrun'
    cases hrun'
    exact hop

theorem Unlocked.afterRun (h : Unlocked w r) (hrun : w.runs[r]? = some run) (e : Effect Bytes) :
    Unlocked (w.afterRun r run e) r := by
  refine ⟨fun i run' hir hrun' => ?_, h.workers⟩
  rw [getElem?_afterRun hrun, if_neg (Ne.symm hir)] at hrun'
  exact h.runs i run' hir hrun'

theorem Alone.step (h : Alone d body initYml r w run) (ha : OnlyRun d body initYml r w a w')
    (hstep : Snapshot.step d w a = some w') :
    ∃ run', Alone d body initYml r w' run' ∧ run'.subject = run.subject ∧
      (if a.isRun then run'.left < run.left else run'.left = run.left) := by
  cases a with
  | run r' op =>
      obtain ⟨rfl, hop⟩ := ha
      simp only [Snapshot.step, h.found, Option.bind_some] at hstep
      split at hstep
      · obtain ⟨e, he, rfl⟩ := Option.map_eq_some_iff.mp hstep
        obtain ⟨htrack, hleft⟩ := h.track.goesOn (hop run h.found) he
        obtain ⟨hproblem, hgeneration, hscan, -⟩ := (runStep_cases he).kept
        refine ⟨e.run, ⟨?_, htrack, h.quiet.afterRun h.found e⟩, ?_, hleft⟩
        · rw [getElem?_afterRun h.found, if_pos rfl]
        · rw [Run.subject, hproblem, hgeneration, hscan]
          rfl
      · cases hstep
  | tick elapsed =>
      cases hstep
      exact ⟨run, ⟨h.found, h.track.later elapsed, ⟨h.quiet.runs, h.quiet.workers⟩⟩, rfl, rfl⟩
  | begin | gcList | gc | retention | failStalled | external => exact ha.elim

theorem Alone.exec (h : Alone d body initYml r w run)
    (hexec : Library.Runs.exec (Snapshot.step d) w as = some u)
    (hown : EveryStep (Snapshot.step d) (OnlyRun d body initYml r) w as) :
    ∃ run', Alone d body initYml r u run' ∧ run'.subject = run.subject ∧
      as.countP Action.isRun + run'.left ≤ run.left := by
  induction as generalizing w run with
  | nil =>
      cases hexec
      exact ⟨run, h, rfl, by simp⟩
  | cons a as ih =>
      obtain ⟨v, hv, hrest⟩ := exec_cons_eq_some.mp hexec
      obtain ⟨ha, htail⟩ := hown v hv
      obtain ⟨run₁, h₁, hsame, hfirst⟩ := h.step ha hv
      obtain ⟨run', h', hsame', hcount⟩ := ih h₁ hrest htail
      refine ⟨run', h', hsame'.trans hsame, ?_⟩
      rw [List.countP_cons]
      split at hfirst
      · rename_i hisRun
        rw [if_pos hisRun]
        omega
      · rename_i hother
        rw [if_neg hother]
        omega

theorem exec_onlyRun {P : Store Bytes → Run → Prop}
    (hP : ∀ {now db store run op e}, P store run → RunOp.undisturbed d body initYml run op →
      RunStep d now db store run op e → P e.store e.run)
    (h : P w.store run) (hrun : w.runs[r]? = some run)
    (hexec : Library.Runs.exec (Snapshot.step d) w as = some u)
    (hown : EveryStep (Snapshot.step d) (OnlyRun d body initYml r) w as) :
    ∃ run', u.runs[r]? = some run' ∧ P u.store run' := by
  induction as generalizing w run with
  | nil =>
      cases hexec
      exact ⟨run, hrun, h⟩
  | cons a as ih =>
      obtain ⟨v, hv, hrest⟩ := exec_cons_eq_some.mp hexec
      obtain ⟨ha, htail⟩ := hown v hv
      cases a with
      | run r' op =>
          obtain ⟨rfl, hop⟩ := ha
          obtain ⟨run₀, e, hfound, -, hstep, rfl⟩ := step_run hv
          rw [hrun] at hfound
          cases hfound
          refine ih (hP h (hop run hrun) hstep) ?_ hrest htail
          rw [getElem?_afterRun hrun, if_pos rfl]
      | tick elapsed =>
          cases hv
          exact ih (w := { w with now := w.now + elapsed }) h hrun hrest htail
      | begin | gcList | gc | retention | failStalled | external => exact ha.elim

end World

/-! ## A folder without a canonical archive -/

/-- The run does not get past the check of its folder's archive. -/
structure Archiveless (initYml : Option String) (run : Run) : Prop where
  archive : canonicalDownloadPath initYml run.scan.files = none
  unprepared : run.phase.prepared = false
  uncommitted : run.phase.committedManifest = none

theorem Archiveless.goesOn {d : DataPlane Bytes} {body : String → Bytes}
    {initYml : Option String} {now : Timestamp} {db : Database} {store : Store Bytes} {run : Run}
    {op : RunOp Bytes} {e : Effect Bytes} (h : Archiveless initYml run)
    (hop : op.undisturbed d body initYml run) (hrun : RunStep d now db store run op e) :
    Archiveless initYml e.run := by
  have hunprepared := h.unprepared
  obtain ⟨-, -, hscan, -⟩ := hrun.kept
  refine ⟨by rw [hscan]; exact h.archive, ?_, ?_⟩
  all_goals
    cases hrun with
    | prepared phase prepare archive =>
        obtain rfl : _ = initYml := hop
        cases archive.symm.trans h.archive
    | started phase | task phase _ _ | recorded phase _ _ _ | verifying phase | published phase
    | verified phase _ | checked phase _ | committed phase _ =>
        rw [phase] at hunprepared
        cases hunprepared
    | _ => rfl

/-! ## An object with other content -/

section Blocked

variable {d : DataPlane Bytes} {body : String → Bytes} {store : Store Bytes} {run : Run}
  {w w' u : World Bytes} {r : Nat} {f : FileEntry} {bytes : Bytes}

/-- The phases of a task that has not seen the content of its object. -/
def TaskPhase.unseen : TaskPhase → Bool
  | .hashing | .heading | .existing => true
  | _ => false

def RunPhase.unfinished : RunPhase → Bool
  | .verifying _ | .published _ | .finalizing _ | .checked _ | .committed _ => false
  | _ => true

/-- The object under the key of a file has other content, and no task of the key gets past it. -/
structure Blocked (d : DataPlane Bytes) (store : Store Bytes) (run : Run) (f : FileEntry)
    (bytes : Bytes) : Prop where
  file : f ∈ run.scan.files
  object : store (objectKeyForSha256 f.sha256) = some bytes
  other : d.sha256Bytes bytes ≠ f.sha256
  unfinished : run.phase.unfinished = true
  tasks : ∀ t ∈ run.inFlight, t.file.sha256 = f.sha256 → t.phase.unseen = true
  uploaded : ∀ canonical pending inFlight uploaded,
    run.phase = .uploading canonical pending inFlight uploaded →
      ∀ g ∈ uploaded, g.sha256 ≠ f.sha256
  accounted : run.accounted

theorem taskStep_unseen {t t' : Task} {store' : Store Bytes} {op : TaskOp Bytes}
    (hobject : store t.objectKey = some bytes) (hother : d.sha256Bytes bytes ≠ t.file.sha256)
    (hunseen : t.phase.unseen = true) (h : taskStep d store t op = some (.ok (t', store'))) :
    t'.phase.unseen = true ∧ store' = store := by
  unfold taskStep at h
  split at h
  · split at h
    · cases h
      exact ⟨rfl, rfl⟩
    · cases h
  · rw [hobject] at h
    cases h
    exact ⟨rfl, rfl⟩
  · have hverified := (Task.verified_eq_ok (Option.some.inj h)).1
    rw [verifyObject, hobject] at hverified
    simp [hother] at hverified
  · rename_i hphase
    rw [hphase] at hunseen
    cases hunseen
  · rename_i hphase
    rw [hphase] at hunseen
    cases hunseen
  · rename_i hphase
    rw [hphase] at hunseen
    cases hunseen
  · rename_i hphase
    rw [hphase] at hunseen
    cases hunseen
  · cases h

theorem taskStep_object {t t' : Task} {store' : Store Bytes} {op : TaskOp Bytes} {key : String}
    (hkey : key ≠ t.objectKey) (h : taskStep d store t op = some (.ok (t', store'))) :
    store' key = store key := by
  cases taskStep_cases h with
  | put _ => exact Function.update_of_ne hkey _ _
  | _ => rfl

theorem Blocked.goesOn {now : Timestamp} {db : Database} {op : RunOp Bytes} {e : Effect Bytes}
    (h : Blocked d store run f bytes) (hrun : RunStep d now db store run op e) :
    Blocked d e.store e.run f bytes := by
  have haccounted := hrun.accounted h.accounted
  have hstill : ∀ {run' : Run}, run'.scan = run.scan → run'.phase.unfinished = true →
      run'.inFlight = [] → (∀ c p i up, run'.phase ≠ .uploading c p i up) → run'.accounted →
      Blocked d store run' f bytes := by
    intro run' hscan hunfinished hnone hphase hacc
    refine ⟨by rw [hscan]; exact h.file, h.object, h.other, hunfinished, ?_, ?_, hacc⟩
    · intro t ht
      rw [hnone] at ht
      cases ht
    · intro c p i up hup
      exact absurd hup (hphase c p i up)
  have hunfinished := h.unfinished
  cases hrun with
  | claimed | rejected | cleaned | hashing | prepareFailed | archiveless | recordFailed
  | commitFailed | marked | failed | stopped =>
      exact hstill rfl rfl rfl (fun _ _ _ _ => by simp [Run.at]) haccounted
  | prepared phase prepare =>
      refine ⟨h.file, h.object, h.other, rfl, List.forall_mem_nil _, ?_, haccounted⟩
      rintro _ _ _ _ ⟨⟩
      exact List.forall_mem_nil _
  | @started canonical g pending inFlight uploaded phase =>
      refine ⟨h.file, h.object, h.other, rfl, fun t ht hsame => ?_, ?_, haccounted⟩
      · rcases List.mem_append.mp ht with hold | hnew
        · exact h.tasks t (by rw [Run.inFlight, phase]; exact hold) hsame
        · rw [List.mem_singleton.mp hnew]
          rfl
      · rintro _ _ _ _ ⟨⟩
        exact h.uploaded _ _ _ _ phase
  | @task canonical pending inFlight uploaded i top t t' store' phase inFlightAt taken =>
      have hmem : t ∈ run.inFlight := by
        rw [Run.inFlight, phase]
        exact List.mem_of_getElem? inFlightAt
      have hfile := (taskStep_cases taken).file_eq
      have hstep : store' (objectKeyForSha256 f.sha256) = some bytes ∧
          (t.file.sha256 = f.sha256 → t'.phase.unseen = true) := by
        by_cases hsame : t.file.sha256 = f.sha256
        · have hkey : t.objectKey = objectKeyForSha256 f.sha256 := by rw [Task.objectKey, hsame]
          obtain ⟨hunseen, rfl⟩ := taskStep_unseen (by rw [hkey]; exact h.object)
            (by rw [hsame]; exact h.other) (h.tasks t hmem hsame) taken
          exact ⟨h.object, fun _ => hunseen⟩
        · refine ⟨?_, fun hf => absurd hf hsame⟩
          rw [taskStep_object (fun hkey => hsame (objectKeyForSha256_injective hkey).symm) taken]
          exact h.object
      refine ⟨h.file, hstep.1, h.other, rfl, fun v hv hsame => ?_, ?_, haccounted⟩
      · rcases List.mem_or_eq_of_mem_set hv with hold | rfl
        · exact h.tasks v (by rw [Run.inFlight, phase]; exact hold) hsame
        · exact hstep.2 (by rw [← hfile]; exact hsame)
      · rintro _ _ _ _ ⟨⟩
        exact h.uploaded _ _ _ _ phase
  | @recorded canonical pending inFlight uploaded i t objects phase inFlightAt stored record =>
      refine ⟨h.file, h.object, h.other, rfl, fun v hv hsame => ?_, ?_, haccounted⟩
      · refine h.tasks v ?_ hsame
        rw [Run.inFlight, phase]
        exact List.mem_of_mem_eraseIdx hv
      · rintro _ _ _ _ ⟨⟩ g hg
        rcases List.mem_append.mp hg with hold | hnew
        · exact h.uploaded _ _ _ _ phase g hold
        · rw [List.mem_singleton.mp hnew]
          intro hsame
          have hmem : t ∈ run.inFlight := by
            rw [Run.inFlight, phase]
            exact List.mem_of_getElem? inFlightAt
          have hunseen := h.tasks t hmem hsame
          rw [stored] at hunseen
          cases hunseen
  | @verifying canonical uploaded phase =>
      have hall := h.accounted
      rw [Run.accounted, phase] at hall
      simp only [List.map_nil, List.append_nil] at hall
      exact absurd rfl (h.uploaded _ _ _ _ phase _
        (hall.mem_iff.mpr (List.mem_map_of_mem h.file)))
  | published phase | verified phase | checked phase | committed phase =>
      rw [phase] at hunfinished
      cases hunfinished

end Blocked

/-! ## Publication -/

section Publication

variable {d : DataPlane Bytes} {body : String → Bytes} {initYml : Option String} {w : World Bytes}
  {r : Nat} {run : Run}

def GoesThrough (d : DataPlane Bytes) (body : String → Bytes) (initYml : Option String) (r : Nat)
    (subject : String × Int × ScanResult) (u : World Bytes) : Prop :=
  ∃ run, u.runs[r]? = some run ∧
    ((∃ m, run.phase = .committed m ∧ Published d u run.snapshotId subject m) ∨
      ∃ op u', step d u (.run r op) = some u' ∧ OnlyRun d body initYml r u (.run r op) u')

/-- Every schedule of the run alone goes through, and is bounded. -/
def PublishesWithin (d : DataPlane Bytes) (body : String → Bytes) (initYml : Option String)
    (r : Nat) (run : Run) (bound : Nat) (w : World Bytes) : Prop :=
  ∀ as u, exec (step d) w as = some u → EveryStep (step d) (OnlyRun d body initYml r) w as →
    as.countP Action.isRun ≤ bound ∧ GoesThrough d body initYml r run.subject u

theorem Alone.goesThrough (h : Alone d body initYml r w run) :
    GoesThrough d body initYml r run.subject w := by
  refine ⟨run, h.found, ?_⟩
  have hstage := h.track.stage
  have haccounted := h.track.accounted
  unfold Stage at hstage
  by_cases hworking : run.phase.working = true
  · obtain ⟨op, w', hstep, hown⟩ := h.exists_next hworking
    exact .inr ⟨op, w', hstep, hown⟩
  · cases hphase : run.phase with
    | committed m =>
        rw [hphase] at hstage
        rw [Run.accounted, hphase] at haccounted
        obtain ⟨hrow, hobjects, hmanifest⟩ := hstage
        refine .inl ⟨m, rfl, ?_, haccounted, fun f hf => ?_, hmanifest⟩
        · have hsome : 0 < w.db.snapshots.countP (fun s => s.id = run.snapshotId) := by
            rw [hrow.one]
            exact Nat.one_pos
          obtain ⟨s, hs, hid⟩ := List.countP_pos_iff.mp hsome
          exact ⟨s, hs, of_decide_eq_true hid, hrow.row s hs (of_decide_eq_true hid)⟩
        · obtain ⟨g, hg, rfl⟩ := List.mem_map.mp (haccounted.mem_iff.mp hf)
          obtain ⟨bytes, hbytes⟩ := Option.isSome_iff_exists.mp (hobjects _ hf)
          exact ⟨bytes, hbytes, h.track.content.stored g hg bytes hbytes⟩
    | unowned _ | rejected _ | failing _ | ended =>
        rw [hphase] at hstage
        exact hstage.elim
    | _ => rw [hphase] at hworking; exact absurd rfl hworking

/-- A schedule that cannot go on for ever ends with a run that has committed. -/
theorem PublishesWithin.commits {bound : Nat}
    (hall : PublishesWithin d body initYml r run bound w) :
    ∃ as u run' m, exec (step d) w as = some u ∧
      EveryStep (step d) (OnlyRun d body initYml r) w as ∧ u.runs[r]? = some run' ∧
        run'.phase = .committed m := by
  by_contra hnever
  -- Each schedule can be made longer.
  have hlonger : ∀ n, ∃ as u, exec (step d) w as = some u ∧
      EveryStep (step d) (OnlyRun d body initYml r) w as ∧ n ≤ as.countP Action.isRun := by
    intro n
    induction n with
    | zero => exact ⟨[], w, rfl, trivial, Nat.zero_le _⟩
    | succ n ih =>
        obtain ⟨as, u, hexec, hown, hn⟩ := ih
        obtain ⟨run', hrun', ⟨m, hphase, -⟩ | ⟨op, u', hstep, hop⟩⟩ := (hall as u hexec hown).2
        · exact absurd ⟨as, u, run', m, hexec, hown, hrun', hphase⟩ hnever
        · refine ⟨as ++ [.run r op], u', ?_, ?_, ?_⟩
          · exact exec_append_eq_some.mpr ⟨u, hexec, exec_cons_eq_some.mpr ⟨u', hstep, rfl⟩⟩
          · refine everyStep_append.mpr ⟨hown, fun t ht => ?_⟩
            rw [hexec] at ht
            cases ht
            intro v hv
            rw [hstep] at hv
            cases hv
            exact ⟨hop, trivial⟩
          · rw [List.countP_append]
            exact Nat.add_le_add hn (Nat.le_refl 1)
  obtain ⟨as, u, hexec, hown, hn⟩ := hlonger (bound + 1)
  have hbound := (hall as u hexec hown).1
  omega

/-- A run that nobody disturbs publishes its row after at most seven steps for each file and nine
more, in whatever order its uploads go, exactly when `init.yml` names an archive of the folder and
no object under the keys of its files has other content. -/
theorem undisturbed_run_publishes_iff (hrun : w.runs[r]? = some run)
    (hfenced : run.phase = .fenced) (hclaim : Claimable w.now w.db.snapshots run)
    (hadmits : Admits w.db run) (hquiet : Unlocked w r)
    (hdigests : ∀ f ∈ run.scan.files, d.sha256Bytes (contentOf d body f) = f.sha256) :
    (canonicalDownloadPath initYml run.scan.files).isSome = true ∧
        (∀ f ∈ run.scan.files, ∀ bytes ∈ w.store (objectKeyForSha256 f.sha256),
          d.sha256Bytes bytes = f.sha256) ↔
      PublishesWithin d body initYml r run (7 * run.scan.files.length + 9) w := by
  have haccounted : run.accounted := by
    rw [Run.accounted, hfenced]
    trivial
  constructor
  · rintro ⟨harchive, hstored⟩ as u hexec hown
    have htrack : OnTrack d body initYml w.now w.db w.store run := by
      refine ⟨?_, fun _ => hadmits, ⟨hdigests, hstored⟩, harchive, haccounted⟩
      unfold Stage
      rw [hfenced]
      exact hclaim
    obtain ⟨run', halone, hsame, hcount⟩ := (Alone.mk hrun htrack hquiet).exec hexec hown
    refine ⟨?_, hsame ▸ halone.goesThrough⟩
    have hleft : run.left = 7 * run.scan.files.length + 9 := by rw [Run.left, hfenced]
    omega
  · intro hall
    obtain ⟨as, u, run', m, hexec, hown, hrun', hcommitted⟩ := hall.commits
    constructor
    · by_contra hnone
      have hless : Archiveless initYml run := by
        refine ⟨Option.not_isSome_iff_eq_none.mp hnone, ?_, ?_⟩ <;> rw [hfenced] <;> rfl
      obtain ⟨run₂, hrun₂, hstill⟩ := exec_onlyRun (P := fun _ => Archiveless initYml)
        (fun h hop hstep => h.goesOn hop hstep) hless hrun hexec hown
      obtain rfl := Option.some.inj (hrun'.symm.trans hrun₂)
      have hnever := hstill.uncommitted
      rw [hcommitted] at hnever
      cases hnever
    · intro f hf bytes hbytes
      by_contra hother
      have hblocked : Blocked d w.store run f bytes := by
        refine ⟨hf, hbytes, hother, by rw [hfenced]; rfl, ?_, ?_, haccounted⟩
        · intro t ht
          rw [Run.inFlight, hfenced] at ht
          cases ht
        · intro _ _ _ _ hphase
          rw [hfenced] at hphase
          cases hphase
      obtain ⟨run₂, hrun₂, hstill⟩ := exec_onlyRun
        (P := fun store run => Blocked d store run f bytes) (fun h _ hstep => h.goesOn hstep)
        hblocked hrun hexec hown
      obtain rfl := Option.some.inj (hrun'.symm.trans hrun₂)
      have hunfinished := hstill.unfinished
      rw [hcommitted] at hunfinished
      cases hunfinished

end Publication

/-! ### The small problem -/

/-- The folder of `sampleScan`. -/
def sampleBody (path : String) : Content :=
  .file (if path = "data.zip" then dataZipText else initYmlText)

def enteredRun : Run := ⟨"101", 1, 1, some 1, sampleScan, 7, sampleTime, .fenced⟩

def enteredWorld : World Content := { sampleWorld with runs := [enteredRun] }

theorem undisturbed_run_publishes_sample :
    PublishesWithin samplePlane sampleBody (some initYmlText) 0 enteredRun 23 enteredWorld := by
  have hpublishes := @undisturbed_run_publishes_iff Content samplePlane sampleBody
    (some initYmlText) enteredWorld 0 enteredRun rfl rfl
    ⟨⟨List.nodup_nil, List.forall_mem_nil _⟩, List.forall_mem_nil _, List.forall_mem_nil _⟩
    ⟨List.nodup_nil, List.forall_mem_nil _, by decide, by decide, by decide⟩
    ⟨fun i run hi hrun => ?_, List.forall_mem_nil _⟩ (by decide)
  · exact hpublishes.mp ⟨by decide, fun f _ bytes hbytes => by cases hbytes⟩
  · cases i with
    | zero => exact absurd rfl hi
    | succ i => cases hrun

end ExternalStorage.Snapshot
