import ExternalStorage.Publication.Listings
import ExternalStorage.Publication.Recorded
import ExternalStorage.Snapshot.Matching

/-!
# What evictions and restores remove

An eviction and a restore rename a folder away after they have scanned it under the flock and
compared the scan with the READY snapshot.  The flock keeps the folder as it was scanned, and
the rows they have selected and the advisory lock keep the comparison.  A restore of a code with
a `/` takes the flock in another directory than uploads and evictions do.
-/

namespace ExternalStorage.Publication

open ExternalStorage.Model Library.Runs Library.Table Library.Exclusion Restore

variable {Bytes : Type} {site : Site Bytes}

/-! ## Statements -/

/-- The path, the SHA-256 and the size of a file or link, as `snapshot_objects` has them. -/
def entryIdentity (c : Contents Bytes) (e : WalkEntry Bytes) : Option (String × String × Int) := do
  let path ← (normalizedRelativePath e.names).toOption
  match e.node with
  | .file _ content => some (path, c.sha256Bytes content, asI64 (c.len content))
  | .symlink target => target.toStr?.map fun text =>
      (path, c.sha256Bytes (c.textBytes text), asI64 (c.len (c.textBytes text)))
  | .dir | .special => none

def Folder.identities (c : Contents Bytes) (f : Folder Bytes) :
    Option (List (String × String × Int)) :=
  (f.walk.filter fun e => leafNode e.node).mapM (entryIdentity c)

/-- The folder holds what the current READY snapshot of the problem records, and the problem is
not dirty. -/
structure BackedUp (site : Site Bytes) (db : Database) (folder : Folder Bytes) : Prop where
  clean : Clean site.problemId db
  contents : ∃ s ∈ latestReady site.problemId db.snapshots,
    ∃ held ∈ folder.identities site.contents, held.Perm (recordedContents db s.id)

def IdleSince (problemId : String) (cutoff : Option Timestamp) (db : Database) : Prop :=
  ∀ c ∈ cutoff, ∀ u ∈ usageRows db problemId, ∀ lastAccess ∈ u.lastAccessedAt, lastAccess ≤ c

/-- The next step of the operation renames the folder that is there. -/
def Operation.removes : Operation Bytes → Bool
  | .evict ⟨_, _, .checked _⟩ | .restore ⟨_, _, _, .vacant⟩ | .restore ⟨_, _, _, .matched⟩ => true
  | _ => false

def Operation.idleBefore : Operation Bytes → Option Timestamp
  | .evict e => e.request.idleBefore
  | _ => none

/-- A folder that the step renames away is backed up. -/
def RemovesBackedUp (site : Site Bytes) (w : World Bytes) (a : Action Bytes) (_ : World Bytes) :
    Prop :=
  match a with
  | .advance i => ∀ o ∈ w.operations[i]?, o.removes = true → ∀ folder ∈ w.folder,
      BackedUp site w.db folder ∧ IdleSince site.problemId o.idleBefore w.db
  | _ => True

/-! ### The condition -/

/-- The operation has looked at the folder, and is to rename it or has found none. -/
def Operation.looked : Operation Bytes → Bool
  | .evict ⟨_, _, .scanned _⟩ | .evict ⟨_, _, .matched _⟩ | .evict ⟨_, _, .fenced _⟩
  | .evict ⟨_, _, .checked _⟩ | .restore ⟨_, _, _, .vacant⟩ | .restore ⟨_, _, _, .scanned _⟩
  | .restore ⟨_, _, _, .matched⟩ => true
  | _ => false

def Operation.hidesFolder : Operation Bytes → Bool
  | .evict ⟨_, _, .renamed _⟩ | .restore ⟨_, _, _, .cleared (some _)⟩ => true
  | _ => false

def Action.changesFolder (w : World Bytes) : Action Bytes → Bool
  | .upload _ | .publish .. => true
  | .advance i => w.folder.isSome && w.operations[i]?.any Operation.removes
  | .giveUp i => w.operations[i]?.any Operation.hidesFolder
  | .startEvict _ | .startRestore .. | .startFinalize _ | .statement _ | .touch _ => false

def Action.actor : Action Bytes → Option Nat
  | .advance i | .publish i _ | .giveUp i => some i
  | _ => none

/-- The code is the name of a folder in the problem root, or the folder stays as it is while
another operation has looked at it. -/
def Undisturbed (site : Site Bytes) (w : World Bytes) (a : Action Bytes) (_ : World Bytes) : Prop :=
  (pathNames site.code).dropLast = [] ∨ (a.changesFolder w = true →
    ∀ j < w.operations.length, a.actor = some j ∨ ∀ o ∈ w.operations[j]?, o.looked = false)

/-- The eviction has compared the scan, and is to check the rows. -/
def Operation.deciding : Operation Bytes → Bool
  | .evict ⟨_, _, .matched _⟩ | .evict ⟨_, _, .fenced _⟩ => true
  | _ => false

/-- No catalog write gives the backup of an orphan to the problem while an eviction decides. -/
def SparesDecisions (site : Site Bytes) (w : World Bytes) (a : Action Bytes) (_ : World Bytes) :
    Prop :=
  match a with
  | .statement b => takesOver site.problemId w.db b = true →
      ∀ o ∈ w.operations, o.deciding = false
  | _ => True

section Instances

instance (problemId : String) (db : Database) : Decidable (Clean problemId db) :=
  inferInstanceAs (Decidable (∃ p ∈ problemRows db problemId, p.dirty = false))

instance (site : Site Bytes) (db : Database) (folder : Folder Bytes) :
    Decidable (BackedUp site db folder) :=
  decidable_of_iff (Clean site.problemId db ∧ ∃ s ∈ latestReady site.problemId db.snapshots,
    ∃ held ∈ folder.identities site.contents, held.Perm (recordedContents db s.id))
    ⟨fun h => ⟨h.1, h.2⟩, fun h => ⟨h.clean, h.contents⟩⟩

instance (problemId : String) (cutoff : Option Timestamp) (db : Database) :
    Decidable (IdleSince problemId cutoff db) :=
  inferInstanceAs (Decidable (∀ c ∈ cutoff, ∀ u ∈ usageRows db problemId,
    ∀ lastAccess ∈ u.lastAccessedAt, lastAccess ≤ c))

instance (site : Site Bytes) (w w' : World Bytes) :
    (a : Action Bytes) → Decidable (RemovesBackedUp site w a w')
  | .advance i => inferInstanceAs (Decidable (∀ o ∈ w.operations[i]?, o.removes = true →
      ∀ folder ∈ w.folder, BackedUp site w.db folder ∧
        IdleSince site.problemId o.idleBefore w.db))
  | .startEvict _ | .startRestore .. | .startFinalize _ | .publish .. | .giveUp _ | .upload _
  | .statement _ | .touch _ => isTrue trivial

instance (site : Site Bytes) (w w' : World Bytes) (a : Action Bytes) :
    Decidable (Undisturbed site w a w') :=
  inferInstanceAs (Decidable ((pathNames site.code).dropLast = [] ∨ (a.changesFolder w = true →
    ∀ j < w.operations.length, a.actor = some j ∨ ∀ o ∈ w.operations[j]?, o.looked = false)))

instance (site : Site Bytes) (w w' : World Bytes) :
    (a : Action Bytes) → Decidable (SparesDecisions site w a w')
  | .statement b => inferInstanceAs (Decidable (takesOver site.problemId w.db b = true →
      ∀ o ∈ w.operations, o.deciding = false))
  | .startEvict _ | .startRestore .. | .startFinalize _ | .advance _ | .publish .. | .giveUp _
  | .upload _ | .touch _ => isTrue trivial

end Instances

/-! ## Scans -/

section Scans

variable {c : Contents Bytes} {folder : Folder Bytes} {files : List FileEntry}

theorem entryIdentity_scanned {e : WalkEntry Bytes} {f : FileEntry} (h : Scanned c e f) :
    entryIdentity c e = some f.identity := by
  have hnode := h.node
  unfold entryIdentity
  rw [h.path]
  cases he : e.node with
  | dir | special =>
      rw [he] at hnode
      exact hnode.elim
  | file inode content =>
      rw [he] at hnode
      obtain ⟨-, hsha, hsize⟩ := hnode
      simp [Except.toOption, FileEntry.identity, hsha, hsize]
  | symlink target =>
      rw [he] at hnode
      obtain ⟨-, text, htext, -, -, hsha, hsize⟩ := hnode
      simp [Except.toOption, FileEntry.identity, htext, hsha, hsize]

theorem mapM_entryIdentity {walk : List (WalkEntry Bytes)}
    (h : List.Forall₂ (Scanned c) walk files) :
    walk.mapM (entryIdentity c) = some (files.map FileEntry.identity) := by
  induction h with
  | nil => rfl
  | cons hscanned _ ih =>
      rw [List.mapM_cons, entryIdentity_scanned hscanned, ih]
      rfl

def Holds (site : Site Bytes) (folder : Option (Folder Bytes)) (files : List FileEntry) : Prop :=
  ∃ f ∈ folder, f.identities site.contents = some (files.map FileEntry.identity)

theorem holds_of_scan {rootPath code : String} {scan : ScanResult} {current : Option (Folder Bytes)}
    (hfolder : current = some folder)
    (hscan : scanProblemFolder site.contents rootPath code (some folder.walk) = .ok scan) :
    Holds site current scan.files :=
  ⟨folder, hfolder, mapM_entryIdentity (scan_reports folder.same hscan).scanned⟩

theorem backedUp_of_matches {folder : Folder Bytes} {current : Option (Folder Bytes)}
    {db : Database} {generation : Int} {files : List FileEntry} (hfolder : folder ∈ current)
    (hholds : Holds site current files) (hclean : Clean site.problemId db)
    (hmatches : Matches site.problemId generation files db) : BackedUp site db folder := by
  obtain ⟨f, hf, hidentities⟩ := hholds
  obtain rfl : f = folder := Option.some.inj (hf.symm.trans hfolder)
  obtain ⟨s, hs, -, hmatch⟩ := hmatches
  rw [← Snapshot.scanMatchesUnder_insertion] at hmatch
  exact ⟨hclean, s, hs, _, hidentities, (Snapshot.perm_of_scanMatchesUnder hmatch).symm⟩

end Scans

/-! ## What an operation knows -/

def Operation.Sound (site : Site Bytes) (folder : Option (Folder Bytes)) (db : Database) :
    Operation Bytes → Prop
  | .evict ⟨q, generation, phase⟩ => q.problemId = site.problemId ∧
      match phase with
      | .scanned scan => Holds site folder scan.files
      | .matched scan | .fenced scan =>
          Holds site folder scan.files ∧ Guarded site.problemId generation scan.files db
      | .checked scan =>
          Holds site folder scan.files ∧ Clean site.problemId db ∧
            Matches site.problemId generation scan.files db ∧
            IdleSince site.problemId q.idleBefore db
      | .admitted | .locked | .renamed _ => True
  | .restore ⟨q, generation, _, phase⟩ => q.problemId = site.problemId ∧ q.dest = site.code ∧
      match phase with
      | .vacant => folder = none
      | .scanned scan => Holds site folder scan.files
      | .matched => ∃ files, Holds site folder files ∧ Clean site.problemId db ∧
          Matches site.problemId generation files db
      | .prepared | .locked | .fenced | .found | .clean | .cleared _ | .published => True
  | .finalize _ | .done => True

def Operation.decided : Operation Bytes → Bool
  | .evict ⟨_, _, .checked _⟩ | .restore ⟨_, _, _, .matched⟩ => true
  | _ => false

structure Keeps (site : Site Bytes) (o : Operation Bytes) (db db' : Database) : Prop where
  guarded : o.deciding = true → ∀ generation files,
    Guarded site.problemId generation files db → Guarded site.problemId generation files db'
  decided : o.decided = true → Clean site.problemId db → Clean site.problemId db' ∧
    ∀ generation files, Matches site.problemId generation files db →
      Matches site.problemId generation files db'
  idle : o.locksUsage = true → usageRows db' site.problemId = usageRows db site.problemId

theorem keeps_refl (o : Operation Bytes) (db : Database) : Keeps site o db db :=
  ⟨fun _ _ _ h => h, fun _ h => ⟨h, fun _ _ h => h⟩, fun _ => rfl⟩

theorem IdleSince.keep {problemId : String} {cutoff : Option Timestamp} {db db' : Database}
    (h : IdleSince problemId cutoff db)
    (husage : usageRows db' problemId = usageRows db problemId) : IdleSince problemId cutoff db' := by
  unfold IdleSince
  rw [husage]
  exact h

theorem Operation.Sound.keep {o : Operation Bytes} {folder folder' : Option (Folder Bytes)}
    {db db' : Database} (h : o.Sound site folder db) (hfolder : o.looked = true → folder' = folder)
    (hkeeps : Keeps site o db db') : o.Sound site folder' db' := by
  cases o with
  | evict e =>
      obtain ⟨q, generation, phase⟩ := e
      obtain ⟨hid, h⟩ := h
      refine ⟨hid, ?_⟩
      cases phase with
      | admitted | locked | renamed => trivial
      | scanned scan =>
          rw [hfolder rfl]
          exact h
      | matched scan | fenced scan =>
          rw [hfolder rfl]
          exact ⟨h.1, hkeeps.guarded rfl _ _ h.2⟩
      | checked scan =>
          obtain ⟨hholds, hclean, hmatches, hidle⟩ := h
          obtain ⟨hclean', hmatches'⟩ := hkeeps.decided rfl hclean
          rw [hfolder rfl]
          exact ⟨hholds, hclean', hmatches' _ _ hmatches, hidle.keep (hkeeps.idle rfl)⟩
  | restore r =>
      obtain ⟨q, generation, staging, phase⟩ := r
      obtain ⟨hid, hdest, h⟩ := h
      refine ⟨hid, hdest, ?_⟩
      cases phase with
      | prepared | locked | fenced | found | clean | cleared | published => trivial
      | vacant | scanned scan =>
          rw [hfolder rfl]
          exact h
      | matched =>
          obtain ⟨files, hholds, hclean, hmatches⟩ := h
          obtain ⟨hclean', hmatches'⟩ := hkeeps.decided rfl hclean
          rw [hfolder rfl]
          exact ⟨files, hholds, hclean', hmatches' _ _ hmatches⟩
  | finalize | done => trivial

/-! ## Commits beside an operation -/

section Commits

variable {o : Operation Bytes} {db db' : Database} {problemId : String}

theorem Clean.keep (h : Clean problemId db)
    (hrows : problemRows db' problemId = problemRows db problemId) : Clean problemId db' := by
  unfold Clean
  rw [hrows]
  exact h

theorem Clean.rows (h : Clean problemId db) : problemRows db problemId ≠ [] := by
  obtain ⟨p, hp, -⟩ := h
  exact List.ne_nil_of_mem hp

theorem locksProblem_of_decided (h : o.decided = true) : o.locksProblem = true := by
  unfold Operation.decided at h
  split at h
  · rfl
  · rfl
  · cases h

theorem advisoryLock_of_locksProblem {folder : Option (Folder Bytes)}
    (hsound : o.Sound site folder db) (h : o.locksProblem = true) :
    o.advisoryLock = some site.problemId := by
  unfold Operation.locksProblem at h
  split at h
  · exact congrArg some hsound.1
  · exact congrArg some hsound.1
  · exact congrArg some hsound.1
  · exact congrArg some hsound.1
  · exact congrArg some hsound.1
  · cases h

theorem locksProblem_of_locksUsage (h : o.locksUsage = true) : o.locksProblem = true := by
  unfold Operation.locksUsage at h
  split at h
  · rfl
  · rfl
  · cases h

theorem keeps_of_rows (hmove : o.deciding = true ∨ o.decided = true ∧ Clean site.problemId db →
      BackupMove site.problemId db db')
    (hproblem : o.locksProblem = true →
      problemRows db' site.problemId = problemRows db site.problemId)
    (husage : o.locksUsage = true → usageRows db' site.problemId = usageRows db site.problemId) :
    Keeps site o db db' := by
  refine ⟨fun hdeciding _ _ h => h.move (hmove (.inl hdeciding)), ?_, husage⟩
  intro hdecided hclean
  have hclean' := hclean.keep (hproblem (locksProblem_of_decided hdecided))
  exact ⟨hclean', fun _ _ h => h.move (hmove (.inr ⟨hdecided, hclean⟩)) hclean'.rows⟩

theorem rows_of_rowsFree {operations : List (Operation Bytes)}
    (h : rowsFree operations site.problemId db db' = true) (ho : o ∈ operations) :
    (o.locksProblem = true → problemRows db' site.problemId = problemRows db site.problemId) ∧
      (o.locksUsage = true → usageRows db' site.problemId = usageRows db site.problemId) := by
  have hall := List.all_eq_true.mp h o ho
  simp only [Bool.and_eq_true, Bool.or_eq_true, Bool.not_eq_true', decide_eq_true_eq] at hall
  exact ⟨fun hlocks => hall.1.resolve_left (by simp [hlocks]),
    fun hlocks => hall.2.resolve_left (by simp [hlocks])⟩

end Commits

/-! ## The invariant -/

structure RemovalInv (site : Site Bytes) (w : World Bytes) : Prop where
  constraints : Constraints w.db
  locks : LocksHeld w.operations
  sound : ∀ o ∈ w.operations, o.Sound site w.folder w.db

/-! ### The flock -/

section Flock

variable {w w' : World Bytes} {o o' : Operation Bytes} {folder : Option (Folder Bytes)}
  {db : Database}

/-- Where the code is one name, every operation takes the flock in the problem root. -/
theorem dataLock_root (hroot : (pathNames site.code).dropLast = []) (hsound : o.Sound site folder db)
    (h : o.dataLock.isSome = true) : o.dataLock = some [] := by
  unfold Operation.dataLock at h ⊢
  split at h
  · cases h
  · rfl
  · cases h
  · rename_i r _
    rw [lockDirectory, hsound.2.1, hroot]
  · cases h
  · cases h

theorem dataLock_of_looked (h : o.looked = true) : o.dataLock.isSome = true := by
  unfold Operation.looked at h
  split at h
  all_goals first | rfl | cases h

theorem looked_of_removes (h : o.removes = true) : o.looked = true := by
  unfold Operation.removes at h
  split at h
  all_goals first | rfl | cases h

theorem dataLock_of_hidesFolder (h : o.hidesFolder = true) : o.dataLock.isSome = true := by
  unfold Operation.hidesFolder at h
  split at h
  all_goals first | rfl | cases h

theorem folder_of_moves (h : Moves site w o w' o')
    (hkept : (w.folder.isSome && o.removes) = false) : w'.folder = w.folder := by
  cases h with
  | quit => rfl
  | evicted hwrite => exact (write_eq_some hwrite).2.2
  | restored hwrite => exact (write_eq_some hwrite).2.2
  | finalized _ hwrite => exact (write_eq_some hwrite).2.2
  | evict h =>
      cases h with
      | lock | scan | matching | fence | check => rfl
      | rename hfolder =>
          rw [hfolder] at hkept
          cases hkept
  | restore h =>
      cases h with
      | lock | fence | ready | vacant | clean | scan | matching => rfl
      | clear hphase =>
          cases hfolder : w.folder with
          | none => rfl
          | some f =>
              rw [hfolder] at hkept
              rcases hphase with rfl | rfl
              · cases hkept
              · cases hkept

variable [DecidableEq Bytes] {a : Action Bytes}

theorem folder_of_steps (h : Steps site w a w') (hkept : a.changesFolder w = false) :
    w'.folder = w.folder := by
  cases h with
  | startEvict | startRestore | startFinalize | statement | touch => rfl
  | upload => cases hkept
  | publish => cases hkept
  | advance ho hmove =>
      apply folder_of_moves hmove
      simpa [Action.changesFolder, ho] using hkept
  | @giveUp i o ho =>
      simp only [Action.changesFolder, ho, Option.any_some] at hkept
      show (w.putBack o).folder = w.folder
      unfold World.putBack
      split
      · cases hkept
      · cases hkept
      · rfl

theorem not_looked_of_change (hinv : RemovalInv site w) (hundisturbed : Undisturbed site w a w')
    (hstep : Steps site w a w') (hchanges : a.changesFolder w = true) {j : Nat}
    (ho : w.operations[j]? = some o) (hactor : a.actor ≠ some j) : o.looked = false := by
  rcases hundisturbed with hroot | hfree
  · have hmem := List.mem_of_getElem? ho
    by_contra hlooked
    have hlock := dataLock_root hroot (hinv.sound o hmem)
      (dataLock_of_looked (Bool.not_eq_false _ ▸ hlooked))
    -- The operation that changes the folder holds the same flock.
    have hother : ∀ {i : Nat} {o₁ : Operation Bytes}, w.operations[i]? = some o₁ →
        o₁.dataLock.isSome = true → i = j := by
      intro i o₁ ho₁ hsome
      have hlock₁ := dataLock_root hroot (hinv.sound o₁ (List.mem_of_getElem? ho₁)) hsome
      exact hinv.locks.data i j o₁ o [] ho₁ ho hlock₁ hlock
    cases hstep with
    | startEvict | startRestore | startFinalize | statement | touch => cases hchanges
    | upload hfree => exact free_of_dataLockFree hfree o hmem hlock
    | advance ho₁ _ =>
        simp only [Action.changesFolder, ho₁, Option.any_some, Bool.and_eq_true] at hchanges
        exact hactor (congrArg some (hother ho₁ (dataLock_of_looked (looked_of_removes hchanges.2))))
    | publish ho₁ _ => exact hactor (congrArg some (hother ho₁ rfl))
    | giveUp ho₁ =>
        simp only [Action.changesFolder, ho₁, Option.any_some] at hchanges
        exact hactor (congrArg some (hother ho₁ (dataLock_of_hidesFolder hchanges)))
  · obtain ⟨hj, -⟩ := List.getElem?_eq_some_iff.mp ho
    rcases hfree hchanges j hj with hself | hlooked
    · exact absurd hself hactor
    · exact hlooked o ho

theorem folder_of_looked (hinv : RemovalInv site w) (hundisturbed : Undisturbed site w a w')
    (hstep : Steps site w a w') {j : Nat} (ho : w.operations[j]? = some o)
    (hactor : a.actor ≠ some j) (hlooked : o.looked = true) : w'.folder = w.folder := by
  cases hchanges : a.changesFolder w with
  | false => exact folder_of_steps hstep hchanges
  | true =>
      rw [not_looked_of_change hinv hundisturbed hstep hchanges ho hactor] at hlooked
      cases hlooked

end Flock

/-! ### Moves -/

section Moves

variable {w w' : World Bytes} {o o' : Operation Bytes}

theorem evictChecks_eq_ok {db : Database} {q : EvictRequest} {generation : Int}
    (hconstraints : Constraints db) (h : evictChecks db q generation = .ok ()) :
    usageGeneration db.problemUsage q.problemId = some generation ∧ Clean q.problemId db ∧
      IdleSince q.problemId q.idleBefore db := by
  unfold evictChecks at h
  split at h
  · rename_i u p hu hp
    obtain ⟨hgeneration, h⟩ := check_eq_ok.mp h
    obtain ⟨hdirty, hidle⟩ := check_eq_ok.mp h
    rw [refuseIf_eq_ok] at hgeneration hdirty hidle
    have hready := List.find?_some hu
    simp only [Bool.and_eq_true, decide_eq_true_eq] at hready
    have hmem := List.mem_of_find?_eq_some hu
    -- The key makes the row that is READY the row of the problem.
    have hrow : ∀ v ∈ db.problemUsage, v.problemId = q.problemId → v = u := fun v hv hid =>
      List.inj_on_of_nodup_map hconstraints.usageIds hv hmem (hid.trans hready.1.symm)
    refine ⟨?_, ⟨p, ?_, Bool.eq_false_iff.mpr hdirty⟩, ?_⟩
    · cases hfound : db.problemUsage.find? fun v => v.problemId = q.problemId with
      | none => exact absurd (decide_eq_true hready.1) (List.find?_eq_none.mp hfound u hmem)
      | some v =>
          have hid : v.problemId = q.problemId := by simpa using List.find?_some hfound
          rw [usageGeneration, hfound, Option.bind_some,
            hrow v (List.mem_of_find?_eq_some hfound) hid]
          exact not_not.mp hgeneration
    · have hid : p.externalId = q.problemId := by simpa using List.find?_some hp
      exact List.mem_filter.mpr ⟨List.mem_of_find?_eq_some hp, decide_eq_true hid⟩
    · intro cutoff hcutoff v hv lastAccess hlast
      obtain ⟨hv, hid⟩ := List.mem_filter.mp hv
      rw [hrow v hv (of_decide_eq_true hid)] at hlast
      exact Int.not_lt.mp fun hlt => hidle ⟨cutoff, hcutoff, lastAccess, hlast, hlt⟩
  · cases h

/-- An operation keeps what it knows, and adds what its step has checked. -/
theorem Moves.sound (hconstraints : Constraints w.db) (h : Moves site w o w' o')
    (hsound : o.Sound site w.folder w.db) : o'.Sound site w'.folder w'.db := by
  cases h with
  | quit | evicted | restored | finalized => trivial
  | evict h =>
      obtain ⟨hid, hsound⟩ := hsound
      refine ⟨hid, ?_⟩
      cases h with
      | lock | rename => trivial
      | scan hfolder hscan => exact holds_of_scan hfolder hscan
      | matching hmatches _ =>
          rw [evictMatches, refuseIf_eq_ok, not_not, hid] at hmatches
          exact ⟨hsound, .matching (readySnapshotMatchesScan_eq hmatches).2⟩
      | fence => exact hsound
      | check hchecks =>
          obtain ⟨hshown, hclean, hidle⟩ := evictChecks_eq_ok hconstraints hchecks
          rw [hid] at hshown hclean hidle
          exact ⟨hsound.1, hclean, hsound.2.matches hshown, hidle⟩
  | restore h =>
      obtain ⟨hid, hdest, hsound⟩ := hsound
      refine ⟨hid, hdest, ?_⟩
      cases h with
      | lock | fence | ready | clean | clear => trivial
      | vacant hfolder => exact hfolder
      | scan hfolder hscan => exact holds_of_scan hfolder hscan
      | @matching scan hmatches =>
          rw [restoreMatches, refuseIf_eq_ok, not_not, hid] at hmatches
          obtain ⟨hclean, hmatches⟩ := readySnapshotMatchesScan_eq hmatches
          exact ⟨scan.files, hsound, hclean, hmatches⟩

theorem problemRows_finalized {now : Timestamp} {a : FinalizeArgs} {db : Database}
    {problemId : String} (hother : a.problemId ≠ problemId) :
    problemRows (finalized now a db) problemId = problemRows db problemId := by
  cases hversion : a.expectedDirtyVersion with
  | none => simp only [problemRows, finalized, hversion]
  | some version =>
      simp only [problemRows, finalized, hversion, clearDirtyAfterSnapshot]
      apply filter_updateWhere_of_apart
      intro p _ hp
      rw [Bool.and_eq_true, decide_eq_true_eq] at hp
      simp [hp.1, hother]

theorem usageRows_finalized {now : Timestamp} {a : FinalizeArgs} {db : Database}
    {problemId : String} (hother : a.problemId ≠ problemId) :
    usageRows (finalized now a db) problemId = usageRows db problemId := by
  apply filter_updateWhere_of_apart
  intro u _ hu
  simp only [usageBehind, Bool.and_eq_true, decide_eq_true_eq] at hu
  simp [hu.1, hother]

theorem Moves.keeps (hinv : RemovalInv site w) {i j : Nat} (ho : w.operations[i]? = some o)
    (h : Moves site w o w' o') {o₁ : Operation Bytes} (ho₁ : w.operations[j]? = some o₁)
    (hne : i ≠ j) : Keeps site o₁ w.db w'.db := by
  have hsound := hinv.sound o (List.mem_of_getElem? ho)
  -- Both in a transaction of the problem would be one operation.
  have halone : o.advisoryLock = some site.problemId → ¬ o₁.locksProblem = true := by
    intro hlock hlocks
    have hlock₁ := advisoryLock_of_locksProblem (hinv.sound o₁ (List.mem_of_getElem? ho₁)) hlocks
    exact hne (hinv.locks.advisory i j o o₁ site.problemId ho ho₁ hlock hlock₁)
  cases h with
  | quit => exact keeps_refl o₁ w.db
  | evict h => cases h <;> exact keeps_refl o₁ w.db
  | restore h => cases h <;> exact keeps_refl o₁ w.db
  | @evicted q generation folder _ hwrite =>
      rw [(write_eq_some hwrite).1]
      apply keeps_of_rows
      · exact fun _ => .kept (backupKept_evicted q generation)
      · exact fun _ => rfl
      · intro hlocks
        exact absurd (locksProblem_of_locksUsage hlocks) (halone (congrArg some hsound.1))
  | @restored q generation staging _ hwrite =>
      rw [(write_eq_some hwrite).1]
      apply keeps_of_rows
      · exact fun _ => .kept (backupKept_restored q)
      · exact fun _ => rfl
      · intro hlocks
        exact absurd (locksProblem_of_locksUsage hlocks) (halone (congrArg some hsound.1))
  | @finalized a _ hadmitted hwrite =>
      rw [(write_eq_some hwrite).1]
      by_cases hid : a.problemId = site.problemId
      · have hfree : ¬ o₁.locksProblem = true := halone (congrArg some hid)
        refine ⟨?_, fun hdecided => absurd (locksProblem_of_decided hdecided) hfree,
          fun hlocks => absurd (locksProblem_of_locksUsage hlocks) hfree⟩
        intro _ generation files hguarded
        rw [← hid] at hguarded ⊢
        exact guarded_finalized hguarded hadmitted
      · apply keeps_of_rows
        · exact fun _ => .kept (backupKept_finalized hinv.constraints.snapshotIds hadmitted hid)
        · exact fun _ => problemRows_finalized hid
        · exact fun _ => usageRows_finalized hid

theorem constraints_of_moves (hconstraints : Constraints w.db) (h : Moves site w o w' o') :
    Constraints w'.db := by
  have hcommit : ∀ {db : Database}, w.write db = some w' → Constraints w'.db := by
    intro db hwrite
    obtain ⟨hdb, rfl⟩ := commit_eq_some hwrite
    exact hdb
  cases h with
  | quit => exact hconstraints
  | evict h => cases h <;> exact hconstraints
  | restore h => cases h <;> exact hconstraints
  | evicted hwrite => exact hcommit hwrite
  | restored hwrite => exact hcommit hwrite
  | finalized _ hwrite => exact hcommit hwrite

end Moves

/-! ### Steps -/

section Steps

variable {w w' : World Bytes} {a : Action Bytes}

theorem takesOver_of_clean {problemId : String} {db : Database} (h : Clean problemId db)
    (b : Jobs.Action) : takesOver problemId db b = false := by
  obtain ⟨p, hrow, -⟩ := h
  obtain ⟨hp, hid⟩ := List.mem_filter.mp hrow
  have hclaims : ∀ e : CatalogEntry,
      (Jobs.claimsOrphan e db && decide (e.externalId = problemId)) = false := by
    intro e
    rw [Bool.eq_false_iff, Ne, Bool.and_eq_true, decide_eq_true_eq]
    rintro ⟨hclaims, rfl⟩
    unfold Jobs.claimsOrphan at hclaims
    split at hclaims
    · cases hclaims
    · have hfree := (Bool.and_eq_true_iff.mp hclaims).2
      exact absurd (of_decide_eq_true hid) (of_decide_eq_true (List.all_eq_true.mp hfree p hp))
  cases b with
  | upsert e => exact hclaims e
  | notify key actor fingerprint e deleted => exact hclaims e
  | acquire | cancel | failExpired | retry | watch | rest | tick => rfl

theorem keeps_statement {b : Jobs.Action} {ledger : Jobs.Ledger} {o : Operation Bytes}
    (hinv : RemovalInv site w) (hspares : SparesDecisions site w (.statement b) w')
    (hledger : Jobs.step w.ledger b = some ledger)
    (hrows : rowsFree w.operations site.problemId w.db ledger.db = true) (ho : o ∈ w.operations) :
    Keeps site o w.db ledger.db := by
  obtain ⟨hproblem, husage⟩ := rows_of_rowsFree hrows ho
  refine keeps_of_rows ?_ hproblem husage
  intro hknows
  have hother : takesOver site.problemId w.db b = false := by
    rcases hknows with hdeciding | ⟨-, hclean⟩
    · by_contra htakes
      rw [hspares (Bool.not_eq_false _ ▸ htakes) o ho] at hdeciding
      cases hdeciding
    · exact takesOver_of_clean hclean b
  exact backupMove_statement ⟨hinv.constraints.problemIds, hinv.constraints.problemCodes⟩ hother
    hledger

theorem sound_set {i : Nat} {o' : Operation Bytes} {w₁ : World Bytes}
    (hoperations : w₁.operations = w.operations) (hnew : o'.Sound site w₁.folder w₁.db)
    (hothers : ∀ j o, w.operations[j]? = some o → i ≠ j → o.Sound site w₁.folder w₁.db) :
    ∀ o ∈ (w₁.setOperation i o').operations, o.Sound site w₁.folder w₁.db := by
  intro o ho
  obtain ⟨j, hj⟩ := List.mem_iff_getElem?.mp ho
  simp only [World.setOperation, hoperations] at hj
  by_cases hij : i = j
  · subst hij
    rw [List.getElem?_set_self'] at hj
    obtain ⟨-, -, rfl⟩ := Option.map_eq_some_iff.mp hj
    exact hnew
  · rw [List.getElem?_set_ne hij] at hj
    exact hothers j o hj hij

theorem removalInv_start {o : Operation Bytes} (hinv : RemovalInv site w)
    (hlocks : LocksHeld (w.start o).operations) (hsound : o.Sound site w.folder w.db) :
    RemovalInv site (w.start o) := by
  refine ⟨hinv.constraints, hlocks, ?_⟩
  intro o' ho'
  rcases List.mem_append.mp ho' with hold | hnew
  · exact hinv.sound o' hold
  · rw [List.mem_singleton.mp hnew]
    exact hsound

theorem removesBackedUp_of_inv (hinv : RemovalInv site w) : RemovesBackedUp site w a w' := by
  cases a with
  | advance i =>
      intro o ho hremoves folder hfolder
      have hsound := hinv.sound o (List.mem_of_getElem? ho)
      unfold Operation.removes at hremoves
      split at hremoves
      · obtain ⟨-, hholds, hclean, hmatches, hidle⟩ := hsound
        exact ⟨backedUp_of_matches hfolder hholds hclean hmatches, hidle⟩
      · obtain ⟨-, -, hvacant⟩ := hsound
        rw [hvacant] at hfolder
        cases hfolder
      · obtain ⟨-, -, files, hholds, hclean, hmatches⟩ := hsound
        exact ⟨backedUp_of_matches hfolder hholds hclean hmatches, fun _ h => by cases h⟩
      · cases hremoves
  | startEvict | startRestore | startFinalize | publish | giveUp | upload | statement | touch =>
      trivial

variable [DecidableEq Bytes]

theorem removalInv_step (hinv : RemovalInv site w) (hundisturbed : Undisturbed site w a w')
    (hspares : SparesDecisions site w a w') (h : step site w a = some w') : RemovalInv site w' := by
  have hstep := steps_of_step h
  have hfolder := fun {j : Nat} {o : Operation Bytes} (ho : w.operations[j]? = some o)
    (hactor : a.actor ≠ some j) => folder_of_looked hinv hundisturbed hstep ho hactor
  have hlocks := locksHeld_step hinv.locks hstep
  cases hstep with
  | startEvict hid => exact removalInv_start hinv hlocks ⟨hid, trivial⟩
  | startRestore hid hdest => exact removalInv_start hinv hlocks ⟨hid, hdest, trivial⟩
  | startFinalize => exact removalInv_start hinv hlocks trivial
  | @advance i o w₁ o₁ ho hmove =>
      have hconstraints : Constraints w₁.db := constraints_of_moves hinv.constraints hmove
      refine ⟨hconstraints, hlocks, ?_⟩
      apply sound_set hmove.keepsLocks.operations
      · exact hmove.sound hinv.constraints (hinv.sound o (List.mem_of_getElem? ho))
      · intro j o₂ ho₂ hij
        exact (hinv.sound o₂ (List.mem_of_getElem? ho₂)).keep
          (hfolder ho₂ fun hactor => hij (Option.some.inj hactor)) (hmove.keeps hinv ho ho₂ hij)
  | @publish i q generation staging old folder ho =>
      refine ⟨hinv.constraints, hlocks, ?_⟩
      have hoperations : ({ w with folder := some folder } : World Bytes).operations =
          w.operations := rfl
      apply sound_set hoperations
      · obtain ⟨hid, hdest, -⟩ := hinv.sound _ (List.mem_of_getElem? ho)
        exact ⟨hid, hdest, trivial⟩
      · intro j o₂ ho₂ hij
        exact (hinv.sound o₂ (List.mem_of_getElem? ho₂)).keep
          (hfolder ho₂ fun hactor => hij (Option.some.inj hactor)) (keeps_refl o₂ w.db)
  | @giveUp i o ho =>
      have hdb : (w.putBack o).db = w.db := congrArg Jobs.Ledger.db (w.putBack_ledger o)
      refine ⟨?_, hlocks, ?_⟩
      · show Constraints (w.putBack o).db
        rw [hdb]
        exact hinv.constraints
      · apply sound_set (w.putBack_operations o)
        · trivial
        · intro j o₂ ho₂ hij
          rw [hdb]
          exact (hinv.sound o₂ (List.mem_of_getElem? ho₂)).keep
            (hfolder ho₂ fun hactor => hij (Option.some.inj hactor)) (keeps_refl o₂ w.db)
  | upload =>
      refine ⟨hinv.constraints, hlocks, ?_⟩
      intro o ho
      obtain ⟨j, hj⟩ := List.mem_iff_getElem?.mp ho
      exact (hinv.sound o ho).keep (hfolder hj fun h => by cases h) (keeps_refl o w.db)
  | statement hledger hrows hconstraints =>
      refine ⟨hconstraints, hlocks, ?_⟩
      intro o ho
      exact (hinv.sound o ho).keep (fun _ => rfl) (keeps_statement hinv hspares hledger hrows ho)
  | @touch problemId _ hrows hconstraints =>
      refine ⟨hconstraints, hlocks, ?_⟩
      intro o ho
      obtain ⟨hproblem, husage⟩ := rows_of_rowsFree hrows ho
      exact (hinv.sound o ho).keep (fun _ => rfl)
        (keeps_of_rows (fun _ => .kept (backupKept_touch problemId)) hproblem husage)

/-! ## The run -/

/-- Evictions and restores rename away only what is backed up, where the code is one name or the
folder stays as it is while another operation has looked at it, and where no catalog write
gives the problem the backup of an orphan while an eviction decides. -/
theorem removals_backed_up {as : List (Action Bytes)} (hconstraints : Constraints w.db)
    (hidle : w.operations = [])
    (hadmitted : EveryStep (step site)
      (fun w a w' => Undisturbed site w a w' ∧ SparesDecisions site w a w') w as) :
    EveryStep (step site) (RemovesBackedUp site) w as := by
  have hinit : RemovalInv site w := by
    refine ⟨hconstraints, ?_, ?_⟩
    · rw [hidle]
      exact locksHeld_nil
    · rw [hidle]
      intro o ho
      cases ho
  exact everyStep_of_invariant (I := RemovalInv site)
    (C := fun w a w' => Undisturbed site w a w' ∧ SparesDecisions site w a w')
    (P := RemovesBackedUp site)
    (fun _ _ _ hinv hC h => removalInv_step hinv hC.1 hC.2 h)
    (fun _ _ _ hinv _ _ => removesBackedUp_of_inv hinv) hinit hadmitted

end Steps

def evictSwept : List (Action String) :=
  .startEvict evictIdle :: List.replicate 3 (.advance 0) ++
    .statement .failExpired :: List.replicate 4 (.advance 0)

theorem removals_backed_up_swept :
    (exec (step sampleSite) backedUpWorld evictSwept).any (fun w => w.folder.isNone) = true ∧
      EveryStep (step sampleSite) (RemovesBackedUp sampleSite) backedUpWorld evictSwept :=
  ⟨by decide +kernel, removals_backed_up (by decide) rfl (by decide +kernel)⟩

/-! The code of problem 7 has a directory in it. -/

def nestedSite : Site Catalog.SampleBytes := { archiveSite with code := "contest/sums" }

def nestedWorld : World Catalog.SampleBytes where
  ledger := {
    now := 20
    db := {
      problems := [Jobs.sampleProblem "7" "contest/sums" .present]
      problemUsage := [{ unbackedUsage with
        localStatus := .missing, r2Status := .ready, snapshotGeneration := some 1 }]
      snapshots := [{ verifyingRow with state := .ready }]
      snapshotObjects := [⟨1, "abtests", "sums.zip", 5, objectKeyForSha256 "abtests", true, true⟩]
      jobs := [heldJob 1 "restore" .restore (some "7") 1] } }
  folder := none

def uploadedFolder : Folder Catalog.SampleBytes where
  walk := [⟨[.ofText "sums.zip"], .file 0 (.text "new tests"), ⟨1, 3, 1, 1, 33188⟩⟩]
  same := by
    intro e he e' he' i x i' x' hx hx' _
    rw [List.mem_singleton.mp he] at hx
    rw [List.mem_singleton.mp he'] at hx'
    cases hx
    cases hx'
    rfl

/-- A restore has found no folder; an upload publishes one, and the restore takes it away. -/
def uploadDuringRestore : List (Action Catalog.SampleBytes) :=
  .startRestore ⟨"7", 1, 1, "contest/sums"⟩ (Catalog.archiveStore ["7"]) ::
    List.replicate 4 (.advance 0) ++ [.upload (some uploadedFolder), .advance 0]

theorem uploaded_folder_removed :
    Constraints nestedWorld.db ∧ nestedWorld.operations = [] ∧
      (exec (step nestedSite) nestedWorld uploadDuringRestore).isSome = true ∧
      ¬ EveryStep (step nestedSite) (RemovesBackedUp nestedSite) nestedWorld uploadDuringRestore :=
  ⟨by decide, rfl, by decide +kernel, by decide +kernel⟩

end ExternalStorage.Publication
