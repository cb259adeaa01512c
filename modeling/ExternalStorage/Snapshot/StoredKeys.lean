import ExternalStorage.Model.Catalog
import ExternalStorage.Model.Collector
import ExternalStorage.Snapshot.ObjectKeys

/-!
# Collecting what was stored

The keys of a snapshot are made of its problem's external id, which the catalog takes as it
comes.  Where the validator does not know a character of the id the manifest can not be
deleted, and its mark stays.
-/

namespace ExternalStorage.Snapshot

open ExternalStorage.Model
open Library Library.Table

/-! ## What the API can create -/

/-- The id that `catalogProblemFrom` takes from a body and a path; a field is its
`String(…)`, `none` where it is missing or null. -/
def catalogExternalId (externalId problemPk pathExternalId code : Option String) : Option String :=
  let id := (externalId <|> problemPk <|> pathExternalId).getD ""
  if id = "" ∨ code.getD "" = "" then none else some id

/-- The catalog takes the id, or the watcher makes it of a folder. -/
inductive CreatableId : String → Prop where
  | catalog (externalId problemPk pathExternalId code : Option String) (id : String)
      (taken : catalogExternalId externalId problemPk pathExternalId code = some id) :
      CreatableId id
  | discovered (folder : String) : CreatableId (orphanId folder)

def storedKeys (problemId : String) (generation : Int) (hashes : List String) : List String :=
  manifestKey problemId generation :: hashes.map objectKeyForSha256

structure KeysDue (keys : List String) (now : Timestamp) (db : Database) : Prop where
  ids : (db.gcMarks.map GcMarkRow.id).Nodup
  unreferenced : ∀ key ∈ keys, hasContentRef db now key = false ∧ hasManifestRef db now key = false
  due : ∀ m ∈ db.gcMarks, m.objectKey ∈ keys → m.eligibleAt ≤ now ∨ m.collected = true

/-- The validator accepts the keys, no deletion of them is refused, and some jobs of the
collector collect their marks. -/
structure SnapshotCollectable (problemId : String) (generation : Int) (hashes : List String) :
    Prop where
  accepted : ∀ key ∈ storedKeys problemId generation hashes,
    validateManagedObjectKey? key = some (.ok ())
  deleted : ∀ key ∈ storedKeys problemId generation hashes, ∀ whileLocked,
    deleteObject? whileLocked key = some (whileLocked key)
  finishes : ∀ now db, KeysDue (storedKeys problemId generation hashes) now db → ∃ jobs,
    ∀ m ∈ (gcCollectAll jobs db).gcMarks,
      m.objectKey ∈ storedKeys problemId generation hashes → m.collected = true

/-- The id is no dot name and is written in the validator's alphabet. -/
structure InAlphabet (problemId : String) : Prop where
  notCur : problemId ≠ "."
  notParent : problemId ≠ ".."
  alphabet : ∀ c ∈ problemId.toList, managedIdChar c = true

theorem CreatableId.nonempty {p : String} (h : CreatableId p) : p ≠ "" := by
  cases h with
  | catalog _ _ _ _ _ taken =>
      rintro rfl
      unfold catalogExternalId at taken
      obtain ⟨hfields, hid⟩ := Option.ite_none_left_eq_some.mp taken
      exact hfields (.inl (Option.some.inj hid))
  | discovered folder =>
      intro h
      have hlist := congrArg String.toList h
      simp [orphanId] at hlist

/-! ## The validator on stored keys -/

theorem validateManagedObjectKey?_content {hash : String} (h : Sha256Text hash) :
    validateManagedObjectKey? (objectKeyForSha256 hash) = some (.ok ()) := by
  have hcontent : IsContentKey (objectKeyForSha256 hash) := ⟨hash, h, rfl⟩
  obtain ⟨rest, hrest⟩ := content_starts (.inl hcontent)
  rw [validateManagedObjectKey?, hrest, Option.isSome_some, if_pos rfl]
  exact validateContentObjectKey?_eq_ok.mpr hcontent

theorem stripPrefix_manifestKey (p : String) (g : Int) :
    stripPrefix "objects/sha256/" (manifestKey p g) = none := by
  rw [Option.eq_none_iff_forall_ne_some]
  intro rest hrest
  have hlist := congrArg String.toList (stripPrefix_eq_some.mp hrest)
  simp [manifestKey] at hlist

theorem validManifest_manifestKey {p : String} {g : Int} (hg : PositiveGeneration g) :
    validManifest (pathParts (manifestKey p g)) = true ↔ ManagedId p := by
  rw [isManifestKey_or_loose]
  constructor
  · rintro (⟨q, h, hq, -, hkey⟩ | ⟨q, plus, zeros, h, hq, hh, hpad, hkey⟩)
    · obtain ⟨rfl, -⟩ := manifestKey_injective hkey
      exact hq
    · obtain ⟨-, htext⟩ := manifest_text_inj (notMem_toString rfl (by decide) g)
        slash_notMem_paddedGeneration hkey
      exact absurd htext.symm (paddedGeneration_ne_toString hh hg hpad)
  · exact fun hp => .inl ⟨p, g, hp, hg, rfl⟩

theorem validateManagedObjectKey?_manifest {p : String} {g : Int} (hg : PositiveGeneration g) :
    validateManagedObjectKey? (manifestKey p g) = some (.ok ()) ↔ ManagedId p := by
  rw [validateManagedObjectKey?, stripPrefix_manifestKey, Option.isSome_none,
    if_neg Bool.false_ne_true, Option.some.injEq, refuseIf_eq_ok, not_not]
  exact validManifest_manifestKey hg

theorem managedId_iff {p : String} (hp : CreatableId p) : ManagedId p ↔ InAlphabet p :=
  ⟨fun h => ⟨h.notCur, h.notParent, h.alphabet⟩,
    fun h => ⟨hp.nonempty, h.notCur, h.notParent, h.alphabet⟩⟩

theorem deleteObject?_of_accepted {key : String} (h : validateManagedObjectKey? key = some (.ok ()))
    (whileLocked : String → Except AppError Bool) :
    deleteObject? whileLocked key = some (whileLocked key) := by
  rw [deleteObject?, h]
  rfl

theorem validateManagedObjectKey?_error {key : String} {e : AppError}
    (h : validateManagedObjectKey? key = some (.error e)) : e = .pathEscape key := by
  unfold validateManagedObjectKey? at h
  split at h
  · by_contra hne
    obtain ⟨first, hash, rfl, hfirst, hhash, htwo, hlong⟩ :=
      validateContentObjectKey?_shape key (by
        rw [h]
        exact fun heq => hne (Except.error.inj (Option.some.inj heq)))
    rw [validateContentObjectKey?_of_shape hfirst hhash htwo hlong, Option.map_eq_some_iff] at h
    obtain ⟨_, -, hrefused⟩ := h
    exact hne (refuseIf_eq_error.mp hrefused).2
  · exact (refuseIf_eq_error.mp (Option.some.inj h)).2

/-! ## One mark -/

structure TurnWrites (job : GcJob) (m : GcMarkRow) (f : GcMarkRow → GcMarkRow) : Prop where
  id : ∀ n, (f n).id = n.id
  objectKey : ∀ n, (f n).objectKey = n.objectKey
  refused : validateManagedObjectKey? m.objectKey ≠ some (.ok ()) →
    ∀ n, (f n).collected = n.collected
  served : job.whileLocked m.objectKey = .ok true →
    ∀ n, (f n).collected = true ∨ job.now < (f n).eligibleAt
  accepted : job.whileLocked m.objectKey = .ok true →
    validateManagedObjectKey? m.objectKey = some (.ok ()) → ∀ n, (f n).collected = true

theorem gcBackoff_pos (attempts : Int) : 0 < gcBackoff attempts := by
  have hpow : (0 : Int) < 2 ^ (min attempts 10).toNat := Int.pow_pos (by decide)
  have hmin : 0 < min 86400 (60 * (2 : Int) ^ (min attempts 10).toNat) := by omega
  exact Int.mul_pos hmin (by decide)

theorem turnWrites_failure {job : GcJob} {m : GcMarkRow} (error : String)
    (hcause : validateManagedObjectKey? m.objectKey ≠ some (.ok ()) ∨
      job.whileLocked m.objectKey ≠ .ok true) :
    TurnWrites job m fun n =>
      { n with
        eligibleAt := job.now + gcBackoff n.attempts, attempts := n.attempts + 1
        lastError := some (errorSlice error) } where
  id _ := rfl
  objectKey _ := rfl
  refused _ _ := rfl
  served _ n := .inr (Int.lt_add_of_pos_right _ (gcBackoff_pos n.attempts))
  accepted hok haccepted := hcause.elim (fun h => absurd haccepted h) (fun h => absurd hok h)

theorem turnWrites_defer {job : GcJob} {m : GcMarkRow} {f : GcMarkRow → GcMarkRow}
    (hf : ∀ n, (f n).id = n.id ∧ (f n).objectKey = n.objectKey ∧ (f n).collected = n.collected)
    (hfailed : job.whileLocked m.objectKey ≠ .ok true) : TurnWrites job m f where
  id n := (hf n).1
  objectKey n := (hf n).2.1
  refused _ n := (hf n).2.2
  served hok := absurd hok hfailed
  accepted hok := absurd hok hfailed

theorem gcCollectMark_fst (job : GcJob) (db : Database) (m : GcMarkRow) :
    ∃ f, TurnWrites job m f ∧ (gcCollectMark job db m).1 =
      { db with gcMarks := updateWhere (fun n => n.id = m.id && !n.collected) f db.gcMarks } := by
  cases hvalid : validateManagedObjectKey? m.objectKey with
  | none =>
      refine ⟨_, turnWrites_failure (job.errorMessage none) (.inl (by rw [hvalid]; nofun)), ?_⟩
      simp only [gcCollectMark, deleteObject?, hvalid, Option.map_none]
      rfl
  | some check =>
      cases check with
      | error e =>
          obtain rfl := validateManagedObjectKey?_error hvalid
          refine ⟨_, turnWrites_failure (job.errorMessage (some (.pathEscape m.objectKey)))
            (.inl (by rw [hvalid]; nofun)), ?_⟩
          simp only [gcCollectMark, deleteObject?, hvalid, Option.map_some]
          rfl
      | ok u =>
          have hdelete := deleteObject?_of_accepted hvalid job.whileLocked
          cases hlocked : job.whileLocked m.objectKey with
          | ok deleted =>
              refine ⟨fun n => { n with collected := true, collectedAt := some job.now },
                ⟨fun _ => rfl, fun _ => rfl, fun h => absurd hvalid h, fun _ _ => .inl rfl,
                  fun _ _ _ => rfl⟩, ?_⟩
              simp only [gcCollectMark, hdelete, hlocked, markGcCollected, List.mem_singleton]
          | error e =>
              have hfailed : job.whileLocked m.objectKey ≠ .ok true := by
                rw [hlocked]
                nofun
              by_cases hlive : ∃ key, e = .objectLiveReference key
              · obtain ⟨key, rfl⟩ := hlive
                simp only [gcCollectMark, hdelete, hlocked, deferGcMark]
                cases db.retentionDays .contentObjects with
                | none =>
                    refine ⟨fun n => n, turnWrites_defer (fun _ => ⟨rfl, rfl, rfl⟩) hfailed, ?_⟩
                    rw [updateWhere_eq_self fun _ _ _ => rfl]
                | some retention =>
                    let defer (n : GcMarkRow) : GcMarkRow :=
                      { n with
                        eligibleAt := job.now + days retention, attempts := n.attempts + 1
                        lastError := some (errorSlice
                          (job.errorMessage (some (.objectLiveReference key)))) }
                    exact ⟨defer, turnWrites_defer (fun _ => ⟨rfl, rfl, rfl⟩) hfailed, rfl⟩
              · refine ⟨_, turnWrites_failure (job.errorMessage (some e)) (.inr hfailed), ?_⟩
                simp only [gcCollectMark, hdelete, hlocked]
                cases e
                case objectLiveReference key => exact absurd ⟨key, rfl⟩ hlive
                all_goals rfl

theorem mem_gcCollectMark {job : GcJob} {db : Database} {m n : GcMarkRow}
    (h : n ∈ (gcCollectMark job db m).1.gcMarks) :
    ∃ n₀ ∈ db.gcMarks, n.id = n₀.id ∧ n.objectKey = n₀.objectKey ∧ (n = n₀ ∨ n₀.id = m.id ∧
      (job.whileLocked m.objectKey = .ok true →
        validateManagedObjectKey? m.objectKey = some (.ok ()) → n.collected = true)) := by
  obtain ⟨f, hf, hfst⟩ := gcCollectMark_fst job db m
  rw [hfst] at h
  obtain ⟨n₀, hn₀, rfl⟩ := mem_updateWhere.mp h
  refine ⟨n₀, hn₀, ?_⟩
  split
  · rename_i hp
    simp only [Bool.and_eq_true, decide_eq_true_eq] at hp
    exact ⟨hf.id n₀, hf.objectKey n₀, .inr ⟨hp.1, fun hok hvalid => hf.accepted hok hvalid n₀⟩⟩
  · exact ⟨rfl, rfl, .inl rfl⟩

/-! ## A mark that stays -/

structure Uncollected (id : Uuid) (key : String) (db : Database) : Prop where
  keys : ∀ n ∈ db.gcMarks, n.id = id → n.objectKey = key
  left : ∃ n ∈ db.gcMarks, n.id = id ∧ n.collected = false

variable {id : Uuid} {key : String} {job : GcJob} {db : Database} {m : GcMarkRow}

theorem Uncollected.gcCollectMark (hkey : validateManagedObjectKey? key ≠ some (.ok ()))
    (hm : m.id = id → m.objectKey = key) (h : Uncollected id key db) :
    Uncollected id key (gcCollectMark job db m).1 := by
  constructor
  · intro n hn hid
    obtain ⟨n₀, hn₀, hids, hkeys, -⟩ := mem_gcCollectMark hn
    exact hkeys.trans (h.keys n₀ hn₀ (hids.symm.trans hid))
  · obtain ⟨f, hf, hfst⟩ := gcCollectMark_fst job db m
    rw [hfst]
    obtain ⟨n, hn, hid, hleft⟩ := h.left
    refine ⟨_, mem_updateWhere.mpr ⟨n, hn, rfl⟩, ?_⟩
    split
    · rename_i hp
      simp only [Bool.and_eq_true, decide_eq_true_eq] at hp
      refine ⟨(hf.id n).trans hid, ?_⟩
      rw [hf.refused (by rwa [hm (hp.1.symm.trans hid)])]
      exact hleft
    · exact ⟨hid, hleft⟩

theorem mem_listGcEligible {now : Timestamp} {limit : Nat} (h : m ∈ listGcEligible now limit db) :
    m ∈ db.gcMarks ∧ gcEligible db now m = true :=
  List.mem_filter.mp (List.mem_mergeSort.mp (List.mem_of_mem_take h))

theorem Uncollected.gcCollectAll (hkey : validateManagedObjectKey? key ≠ some (.ok ()))
    (jobs : List GcJob) (h : Uncollected id key db) : Uncollected id key (gcCollectAll jobs db) := by
  induction jobs generalizing db with
  | nil => exact h
  | cons job jobs ih =>
      refine ih (Loops.tryEach_keeps (I := Uncollected id key) ?_ h)
      intro m hm db' h'
      exact h'.gcCollectMark hkey fun hid => h.keys m (mem_listGcEligible hm).1 hid

/-- With an id outside the alphabet the mark of the manifest stays. -/
theorem manifest_mark_stays {p : String} {g : Int} (hp : ¬ InAlphabet p)
    (hg : PositiveGeneration g) (hids : (db.gcMarks.map GcMarkRow.id).Nodup) (hm : m ∈ db.gcMarks)
    (hkey : m.objectKey = manifestKey p g) (hleft : m.collected = false) (jobs : List GcJob) :
    ∃ n ∈ (gcCollectAll jobs db).gcMarks, n.objectKey = manifestKey p g ∧ n.collected = false := by
  have hrefused : validateManagedObjectKey? (manifestKey p g) ≠ some (.ok ()) := by
    rw [ne_eq, validateManagedObjectKey?_manifest hg]
    exact fun h => hp ⟨h.notCur, h.notParent, h.alphabet⟩
  have hstart : Uncollected m.id (manifestKey p g) db := by
    refine ⟨fun n hn hid => ?_, m, hm, rfl, hleft⟩
    rw [List.inj_on_of_nodup_map hids hn hm hid, hkey]
  have hend := hstart.gcCollectAll hrefused jobs
  obtain ⟨n, hn, hid, hcollected⟩ := hend.left
  exact ⟨n, hn, hend.keys n hn hid, hcollected⟩

/-! ## Marks that go -/

/-- The marks of the keys are due, the marks of a job that is under way still have its keys,
and at most `k` marks are left to look at. -/
structure Draining (keys : List String) (now : Timestamp) (listed : List GcMarkRow) (k : Nat)
    (db : Database) : Prop where
  due : KeysDue keys now db
  listed : ∀ m ∈ listed, ∀ n ∈ db.gcMarks, n.id = m.id → n.objectKey = m.objectKey
  left : db.gcMarks.countP (gcEligible db now) ≤ k

variable {keys : List String} {now : Timestamp} {listed : List GcMarkRow} {k : Nat}

def servedJob (now : Timestamp) : GcJob := ⟨now, 500, fun _ => .ok true, fun _ => ""⟩

theorem gcCollectMark_count (now : Timestamp) (db : Database) (m : GcMarkRow) :
    (gcCollectMark (servedJob now) db m).1.gcMarks.countP
        (gcEligible (gcCollectMark (servedJob now) db m).1 now) +
      db.gcMarks.countP (fun n => (n.id = m.id && !n.collected) && gcEligible db now n) =
      db.gcMarks.countP (gcEligible db now) := by
  obtain ⟨f, hf, hfst⟩ := gcCollectMark_fst (servedJob now) db m
  rw [hfst]
  refine countP_updateWhere_of_false fun n _ _ => ?_
  rcases hf.served rfl n with hcollected | hlater
  · simp [gcEligible, hcollected]
  · have hnot : ¬ (f n).eligibleAt ≤ now := Int.not_le.mpr hlater
    simp [gcEligible, hnot]

theorem Draining.gcCollectMark (hkeys : ∀ key ∈ keys, validateManagedObjectKey? key = some (.ok ()))
    (hm : m ∈ listed) (h : Draining keys now listed k db) :
    Draining keys now listed k (gcCollectMark (servedJob now) db m).1 := by
  have hcount := gcCollectMark_count now db m
  have hleft := h.left
  refine ⟨⟨?_, ?_, ?_⟩, ?_, by omega⟩
  · obtain ⟨f, hf, hfst⟩ := gcCollectMark_fst (servedJob now) db m
    rw [hfst, map_updateWhere hf.id]
    exact h.due.ids
  · obtain ⟨f, -, hfst⟩ := gcCollectMark_fst (servedJob now) db m
    rw [hfst]
    exact h.due.unreferenced
  · intro n hn hkey
    obtain ⟨n₀, hn₀, -, hkeys', hcase⟩ := mem_gcCollectMark hn
    rw [hkeys'] at hkey
    rcases hcase with rfl | ⟨hid, hcollected⟩
    · exact h.due.due n hn₀ hkey
    · rw [h.listed m hm n₀ hn₀ hid] at hkey
      exact .inr (hcollected rfl (hkeys _ hkey))
  · intro a ha n hn hid
    obtain ⟨n₀, hn₀, hids, hkeys', -⟩ := mem_gcCollectMark hn
    exact hkeys'.trans (h.listed a ha n₀ hn₀ (hids.symm.trans hid))

theorem gcCollect_drains (hkeys : ∀ key ∈ keys, validateManagedObjectKey? key = some (.ok ()))
    (hdue : KeysDue keys now db) (hleft : db.gcMarks.countP (gcEligible db now) ≤ k + 1)
    (hsome : ∃ n ∈ db.gcMarks, gcEligible db now n = true) :
    KeysDue keys now (gcCollect (servedJob now) db).1 ∧
      (gcCollect (servedJob now) db).1.gcMarks.countP
        (gcEligible (gcCollect (servedJob now) db).1 now) ≤ k := by
  have hlisted : ∀ m ∈ listGcEligible now 500 db, ∀ n ∈ db.gcMarks, n.id = m.id →
      n.objectKey = m.objectKey := by
    intro m hm n hn hid
    rw [List.inj_on_of_nodup_map hdue.ids hn (mem_listGcEligible hm).1 hid]
  suffices hend : Draining keys now (listGcEligible now 500 db) k
      (gcCollect (servedJob now) db).1 from ⟨hend.due, hend.left⟩
  show Draining keys now _ k (Loops.tryEach (gcCollectMark (servedJob now)) db
    (listGcEligible now 500 db)).1
  have hstep : ∀ m ∈ listGcEligible now 500 db, ∀ j db',
      Draining keys now (listGcEligible now 500 db) j db' →
      Draining keys now (listGcEligible now 500 db) j (gcCollectMark (servedJob now) db' m).1 :=
    fun m hm j db' h => h.gcCollectMark hkeys hm
  cases hlist : listGcEligible now 500 db with
  | nil =>
      obtain ⟨n, hn, hgc⟩ := hsome
      have hfilter : n ∈ db.gcMarks.filter (gcEligible db now) := List.mem_filter.mpr ⟨hn, hgc⟩
      have hlength := congrArg List.length hlist
      rw [listGcEligible, List.length_take, List.length_mergeSort] at hlength
      have hpos := List.length_pos_of_mem hfilter
      simp only [List.length_nil] at hlength
      omega
  | cons m ms =>
      rw [hlist] at hstep hlisted
      refine Loops.tryEach_cons_keeps (fun b hb db' h => hstep b (List.mem_cons_of_mem _ hb) k db' h) ?_
      have hfirst := hstep m List.mem_cons_self (k + 1) db ⟨hdue, hlisted, hleft⟩
      obtain ⟨hm, hgc⟩ := mem_listGcEligible (hlist ▸ List.mem_cons_self (l := ms))
      have hcount := gcCollectMark_count now db m
      have hcounted : 0 < db.gcMarks.countP
          (fun n => (n.id = m.id && !n.collected) && gcEligible db now n) := by
        refine List.countP_pos_iff.mpr ⟨m, hm, ?_⟩
        have hleft : (!m.collected) = true := by
          simp only [gcEligible, Bool.and_eq_true] at hgc
          exact hgc.1.1.2
        simp [hleft, hgc]
      exact ⟨hfirst.due, hfirst.listed, by omega⟩

theorem exists_jobs_collect (hkeys : ∀ key ∈ keys, validateManagedObjectKey? key = some (.ok ()))
    (hdue : KeysDue keys now db) (hleft : db.gcMarks.countP (gcEligible db now) ≤ k) :
    ∃ jobs, ∀ m ∈ (gcCollectAll jobs db).gcMarks, m.objectKey ∈ keys → m.collected = true := by
  induction k generalizing db with
  | zero =>
      refine ⟨[], fun m hm hkey => ?_⟩
      by_contra hcollected
      obtain ⟨hcontent, hmanifest⟩ := hdue.unreferenced _ hkey
      have hgc : gcEligible db now m = true := by
        have heligible := (hdue.due m hm hkey).resolve_right hcollected
        rw [Bool.not_eq_true] at hcollected
        simp [gcEligible, heligible, hcollected, hcontent, hmanifest]
      have hpos : 0 < db.gcMarks.countP (gcEligible db now) :=
        List.countP_pos_iff.mpr ⟨m, hm, hgc⟩
      omega
  | succ k ih =>
      by_cases hsome : ∃ n ∈ db.gcMarks, gcEligible db now n = true
      · obtain ⟨hdue', hleft'⟩ := gcCollect_drains hkeys hdue hleft hsome
        obtain ⟨jobs, hjobs⟩ := ih hdue' hleft'
        exact ⟨servedJob now :: jobs, hjobs⟩
      · have hnone : db.gcMarks.countP (gcEligible db now) = 0 := by
          rw [List.countP_eq_zero]
          exact fun n hn hgc => hsome ⟨n, hn, hgc⟩
        exact ih hdue (by omega)

/-! ## The result -/

/-- What the program stores of a snapshot can be collected exactly when the problem's id is
written in the validator's alphabet and is no dot name. -/
theorem stored_keys_collectable_iff {p : String} {g : Int} {hashes : List String}
    (hp : CreatableId p) (hg : PositiveGeneration g) (hhashes : ∀ hash ∈ hashes, Sha256Text hash) :
    SnapshotCollectable p g hashes ↔ InAlphabet p := by
  rw [← managedId_iff hp]
  constructor
  · intro h
    exact (validateManagedObjectKey?_manifest hg).mp (h.accepted _ List.mem_cons_self)
  · intro hmanaged
    have hkeys : ∀ key ∈ storedKeys p g hashes, validateManagedObjectKey? key = some (.ok ()) := by
      refine List.forall_mem_cons.mpr ⟨(validateManagedObjectKey?_manifest hg).mpr hmanaged, ?_⟩
      intro key hkey
      obtain ⟨hash, hhash, rfl⟩ := List.mem_map.mp hkey
      exact validateManagedObjectKey?_content (hhashes hash hhash)
    exact ⟨hkeys, fun key hkey whileLocked => deleteObject?_of_accepted (hkeys key hkey) whileLocked,
      fun now db hdue => exists_jobs_collect hkeys hdue (Nat.le_refl _)⟩

theorem stored_keys_collectable_problem :
    CreatableId "42" ∧ SnapshotCollectable "42" 1 [String.ofList (List.replicate 64 'a')] := by
  have hid : CreatableId "42" := .catalog (some "42") none none (some "sums") "42"
    (by decide +kernel)
  have hhash : Sha256Text (String.ofList (List.replicate 64 'a')) :=
    ⟨by decide +kernel, List.all_eq_true.mp (by decide +kernel)⟩
  refine ⟨hid, (stored_keys_collectable_iff hid ⟨by decide, by decide⟩ ?_).mpr ?_⟩
  · exact List.forall_mem_singleton.mpr hhash
  · exact ⟨by decide, by decide, List.all_eq_true.mp (by decide +kernel)⟩

/-- A folder with a blank in its name. -/
theorem blank_in_folder_is_refused :
    CreatableId "orphan:my problem" ∧
      ¬ SnapshotCollectable "orphan:my problem" 1 [String.ofList (List.replicate 64 'a')] := by
  refine ⟨.discovered "my problem", fun h => ?_⟩
  have haccepted := h.accepted _ List.mem_cons_self
  have hrefused : validateManagedObjectKey? (manifestKey "orphan:my problem" 1) =
      some (.error (.pathEscape "snapshots/orphan:my problem/1/manifest.json")) := by
    decide +kernel
  rw [hrefused] at haccepted
  cases haccepted

end ExternalStorage.Snapshot
